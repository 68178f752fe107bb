import Telemetry.Json.Value
import Telemetry.Proofs.Numerals
import Telemetry.Proofs.Quoting

/-!
# Frames as objects

A frame is a list of fields between braces, and a field is a name between quotes
and a value. This file says what a reader makes of such a text: an object with
one member for each field, in order, as long as the names are made of plain
characters and every value has a form in JSON. Only floats that are no numbers
have none, and one of them spoils the whole frame. Anything that follows the
closing brace spoils it too.
-/

namespace Telemetry.Frame

open Json

/-- A value as a frame holds it. -/
inductive Written where
  | whole (n : Int64)
  | decimal (x : Float32)
  | text (s : String)

namespace Written

/-- The text of a value. -/
def chars : Written → List Char
  | .whole n => (toString n.toInt).toList
  | .decimal x => (Decimal.ofFloat x).toList
  | .text s => '"' :: (escapes s.toList ++ ['"'])

/-- What a reader makes of a value, if it is one. -/
def tree? : Written → Option Tree
  | .whole n => some (.number (.ofInt n.toInt))
  | .decimal x => (Numeral.ofFloat? x).map .number
  | .text s => some (.text (some s))

end Written

/-- A value under a name. -/
structure Field where
  name : String
  value : Written

namespace Field

def chars (x : Field) : List Char := '"' :: (x.name.toList ++ '"' :: ' ' :: ':' :: ' ' :: x.value.chars)

/-- Whether every character of the name may stand between quotes as it is. -/
def Plain (x : Field) : Prop := ∀ c ∈ x.name.toList, Json.Plain c

end Field

/-- Fields with a comma between any two. -/
def listed : List Field → List Char
  | [] => []
  | [x] => x.chars
  | x :: y :: rest => x.chars ++ ',' :: listed (y :: rest)

/-- What a reader makes of the fields, if all of them have values. -/
def members? : List Field → Option (List (Option String × Tree))
  | [] => some []
  | x :: rest => x.value.tree?.bind fun t => (members? rest).map fun ms => (some x.name, t) :: ms

/-! ## Values -/

/-- A character with which no string, no list and no word of JSON begins. -/
def Opens (c : Char) : Prop :=
  isBlank c = false ∧ c ≠ 'n' ∧ c ≠ 't' ∧ c ≠ 'f' ∧ c ≠ '"' ∧ c ≠ '[' ∧ c ≠ '{'

instance (c : Char) : Decidable (Opens c) := inferInstanceAs (Decidable (_ ∧ _))

theorem opens_of_isDigit {c : Char} (h : isDigit c) : Opens c := by
  have hne : ∀ e, isDigit e = false → c ≠ e := by
    intro e he heq
    rw [heq, he] at h
    cases h
  refine ⟨?_, hne _ rfl, hne _ rfl, hne _ rfl, hne _ rfl, hne _ rfl, hne _ rfl⟩
  simp [isBlank, hne ' ' rfl, hne '\n' rfl, hne '\t' rfl, hne '\r' rfl]

theorem value_number {c : Char} (h : Opens c) (fuel : Nat) (s : List Char) :
    Json.value (fuel + 1) (' ' :: c :: s) =
      (numeral (c :: s)).map fun r => (.number r.1, r.2) := by
  obtain ⟨hblank, hn, ht, hf, hquote, hlist, hbrace⟩ := h
  have hskip : skip (' ' :: c :: s) = c :: s := by
    rw [skip, List.dropWhile_cons_of_pos rfl, List.dropWhile_cons_of_neg (by simp [hblank])]
  rw [Json.value.eq_def]
  simp only [hskip]
  split
  · next heq => exact absurd (List.cons.inj heq).1 hn
  · next heq => exact absurd (List.cons.inj heq).1 ht
  · next heq => exact absurd (List.cons.inj heq).1 hf
  · next heq => exact absurd (List.cons.inj heq).1 hquote
  · next heq => exact absurd (List.cons.inj heq).1 hlist
  · next heq => exact absurd (List.cons.inj heq).1 hbrace
  · rfl

theorem toString_opens (n : Int) : ∃ c s, (toString n).toList = c :: s ∧ Opens c := by
  rw [Int.toString_eq_repr, Int.repr_eq_if]
  split
  · obtain ⟨c, s, hs, hc⟩ := toString_head n.toNat
    exact ⟨c, s, hs, opens_of_isDigit hc⟩
  · exact ⟨'-', _, by simp; rfl, by decide⟩

theorem decimal_opens (x : Float32) : ∃ c s, (Decimal.ofFloat x).toList = c :: s ∧ Opens c := by
  unfold Decimal.ofFloat
  generalize Decimal.Parts.ofBits x.toBits = parts
  cases parts with
  | notANumber => exact ⟨'N', _, rfl, by decide⟩
  | infinite negative =>
      cases negative with
      | true => exact ⟨'-', _, rfl, by decide⟩
      | false => exact ⟨'i', _, rfl, by decide⟩
  | finite negative mantissa exponent =>
      cases negative with
      | true => exact ⟨'-', _, by simp; rfl, by decide⟩
      | false =>
          obtain ⟨c, s, hs, hc⟩ := ofThousandths_head (Decimal.thousandths mantissa exponent)
          exact ⟨c, s, by simpa using hs, opens_of_isDigit hc⟩

/-- A value is read as what it stands for, and not at all if it stands for nothing. -/
theorem value_written (x : Written) (fuel : Nat) {rest : List Char} (h : Ends rest) :
    Json.value (fuel + 1) (' ' :: (x.chars ++ rest)) = x.tree?.map (·, rest) := by
  cases x with
  | whole n =>
      obtain ⟨c, s, hs, hc⟩ := toString_opens n.toInt
      have hread := numeral_whole n.toInt h
      rw [hs] at hread
      rw [Written.chars, hs, List.cons_append, value_number hc, ← List.cons_append, hread]
      rfl
  | decimal x =>
      obtain ⟨c, s, hs, hc⟩ := decimal_opens x
      have hread := numeral_decimal x h
      rw [hs] at hread
      rw [Written.chars, hs, List.cons_append, value_number hc, ← List.cons_append, hread,
        Written.tree?]
      cases Numeral.ofFloat? x <;> rfl
  | text s =>
      have hread := quoted_escapes s rest
      have hskip : skip (' ' :: ((Written.text s).chars ++ rest)) =
          '"' :: (escapes s.toList ++ '"' :: rest) := by
        simp [skip, Written.chars, isBlank]
      rw [Json.value.eq_def]
      simp only [hskip, hread]
      rfl

/-! ## Objects -/

theorem skip_of_head {c : Char} (h : isBlank c = false) (s : List Char) : skip (c :: s) = c :: s :=
  List.dropWhile_cons_of_neg (by simp [h])

/-- One field is read as one member, and what follows decides how to go on. -/
theorem members_field {x : Field} (hx : x.Plain) (fuel : Nat) {rest : List Char} (h : Ends rest) :
    Json.members (fuel + 2) (x.chars ++ rest) =
      x.value.tree?.bind fun t =>
        match skip rest with
        | ',' :: rest => (Json.members (fuel + 1) rest).map fun r => ((some x.name, t) :: r.1, r.2)
        | '}' :: rest => some ([(some x.name, t)], rest)
        | _ => none := by
  have htext : x.chars ++ rest =
      '"' :: (x.name.toList ++ '"' :: ' ' :: ':' :: ' ' :: (x.value.chars ++ rest)) := by
    simp [Field.chars]
  have hcolon (s : List Char) : skip (' ' :: ':' :: s) = ':' :: s := by
    rw [skip, List.dropWhile_cons_of_pos rfl, List.dropWhile_cons_of_neg (by simp [isBlank])]
  rw [htext, Json.members.eq_def]
  simp only [skip_of_head (show isBlank '"' = false by decide), quoted_plain hx, hcolon,
    value_written x.value fuel h]
  cases x.value.tree? <;> rfl

theorem listed_cons (x : Field) (fields : List Field) : ∃ s, listed (x :: fields) = '"' :: s := by
  cases fields with
  | nil => exact ⟨_, rfl⟩
  | cons y rest => exact ⟨_, rfl⟩

theorem length_le_listed (fields : List Field) : fields.length ≤ (listed fields).length := by
  induction fields with
  | nil => simp
  | cons x rest ih =>
      cases rest with
      | nil => simp [listed, Field.chars]
      | cons y rest =>
          simp only [listed, List.length_append, List.length_cons] at ih ⊢
          omega

/-- The fields of a frame are its members, in order. -/
theorem members_listed {x : Field} {fields : List Field} (hplain : ∀ y ∈ x :: fields, y.Plain)
    (fuel : Nat) (rest : List Char) :
    Json.members (fields.length + fuel + 2) (listed (x :: fields) ++ '}' :: rest) =
      (members? (x :: fields)).map (·, rest) := by
  induction fields generalizing x with
  | nil =>
      rw [listed, members_field (hplain x (by simp)) _ (ends_brace rest),
        skip_of_head (by decide), members?, members?]
      cases x.value.tree? <;> rfl
  | cons y fields ih =>
      have hplain' : ∀ z ∈ y :: fields, z.Plain := fun z hz => hplain z (List.mem_cons_of_mem x hz)
      have hfuel : (y :: fields).length + fuel + 1 = fields.length + fuel + 2 := by
        simp only [List.length_cons]
        omega
      rw [listed, List.append_assoc, List.cons_append, members_field (hplain x (by simp)) _
        (ends_comma _), skip_of_head (by decide)]
      have hmembers : members? (x :: y :: fields) = x.value.tree?.bind fun t =>
          (members? (y :: fields)).map fun ms => (some x.name, t) :: ms := rfl
      simp only [hfuel, ih hplain', hmembers]
      cases x.value.tree? with
      | none => rfl
      | some t => cases members? (y :: fields) <;> rfl

/-- The text of a closed frame. -/
def frameChars (fields : List Field) : List Char := '{' :: (listed fields ++ ['}'])

/-- A frame is read as the object of its fields, whatever follows it. -/
theorem value_frame {fields : List Field} (hplain : ∀ x ∈ fields, x.Plain) (fuel : Nat)
    (rest : List Char) :
    Json.value (fields.length + fuel + 2) (frameChars fields ++ rest) =
      (members? fields).map fun ms => (.object ms, rest) := by
  have htext : frameChars fields ++ rest = '{' :: (listed fields ++ '}' :: rest) := by
    simp [frameChars]
  rw [htext, Json.value.eq_def]
  simp only [skip_of_head (show isBlank '{' = false by decide)]
  cases fields with
  | nil =>
      simp only [listed, List.nil_append, skip_of_head (show isBlank '}' = false by decide)]
      rfl
  | cons x fields =>
      obtain ⟨s, hs⟩ := listed_cons x fields
      have hread := members_listed hplain fuel rest
      simp only [hs, List.cons_append, skip_of_head (show isBlank '"' = false by decide)] at hread ⊢
      have hfuel : (x :: fields).length + fuel + 1 = fields.length + fuel + 2 := by
        simp only [List.length_cons]
        omega
      rw [hfuel]
      change (Json.members _ ('"' :: (s ++ '}' :: rest))).map _ = _
      rw [hread]
      cases members? (x :: fields) <;> rfl

theorem read_frame {fields : List Field} (hplain : ∀ x ∈ fields, x.Plain) :
    Tree.read (frameChars fields) = (members? fields).map .object := by
  have hlength := length_le_listed fields
  have hfuel : 2 * (frameChars fields).length + 2 =
      fields.length + (2 * (frameChars fields).length - fields.length) + 2 := by
    simp only [frameChars, List.length_cons, List.length_append]
    omega
  have hread := value_frame hplain (2 * (frameChars fields).length - fields.length) []
  rw [← hfuel, List.append_nil] at hread
  rw [Tree.read, hread]
  cases members? fields <;> rfl

/-- Nothing may follow a frame. -/
theorem read_frame_append {fields : List Field} (hplain : ∀ x ∈ fields, x.Plain) {c : Char}
    (hc : isBlank c = false) (rest : List Char) :
    Tree.read (frameChars fields ++ c :: rest) = none := by
  have hlength := length_le_listed fields
  have hfuel : 2 * (frameChars fields ++ c :: rest).length + 2 = fields.length +
      (2 * (frameChars fields ++ c :: rest).length - fields.length) + 2 := by
    simp only [frameChars, List.length_cons, List.length_append]
    omega
  have hread := value_frame hplain (2 * (frameChars fields ++ c :: rest).length - fields.length)
    (c :: rest)
  rw [← hfuel] at hread
  rw [Tree.read, hread]
  cases members? fields with
  | none => rfl
  | some ms => simp [skip_of_head hc]

theorem members?_isSome {fields : List Field} :
    (members? fields).isSome ↔ ∀ x ∈ fields, x.value.tree?.isSome := by
  induction fields with
  | nil => simp [members?]
  | cons x rest ih =>
      rw [members?]
      cases hx : x.value.tree? with
      | none => simp [hx]
      | some t => simpa [hx] using ih

/-! ## The meaning of a frame -/

/-- The meaning of a value, if it has one. -/
def Written.value? : Written → Option Json.Value
  | .whole n => some (.number (.ofInt n.toInt))
  | .decimal x => (Numeral.ofFloat? x).bind fun m => m.value.map .number
  | .text s => some (.text s)

/-- The members that fields under different names stand for, if all have a meaning. -/
def values? : List Field → Option (List (String × Json.Value))
  | [] => some []
  | x :: rest => x.value.value?.bind fun v => (values? rest).map fun vs => (x.name, v) :: vs

theorem value?_eq (x : Written) (depth : Nat) : x.value? = x.tree?.bind (Value.ofTree depth) := by
  cases x with
  | whole n =>
      have hvalue := value_ofInt (Int64.minValue_le_toInt n) (Int64.toInt_le n)
      simp [Written.value?, Written.tree?, Value.ofTree, hvalue]
  | decimal x =>
      rw [Written.value?, Written.tree?]
      cases Numeral.ofFloat? x <;> rfl
  | text s => rfl

theorem names_of_values? {fields : List Field} {vs : List (String × Json.Value)}
    (h : values? fields = some vs) : vs.map Prod.fst = fields.map Field.name := by
  induction fields generalizing vs with
  | nil =>
      cases h
      rfl
  | cons x rest ih =>
      obtain ⟨v, -, hrest⟩ := Option.bind_eq_some_iff.mp h
      obtain ⟨more, hmore, rfl⟩ := Option.map_eq_some_iff.mp hrest
      simp [ih hmore]

theorem ofMembers_eq {fields : List Field} (hnodup : (fields.map Field.name).Nodup) (depth : Nat) :
    (members? fields).bind (Value.ofMembers depth) = values? fields := by
  induction fields with
  | nil => rfl
  | cons x rest ih =>
      simp only [List.map_cons, List.nodup_cons] at hnodup
      rw [members?, values?, value?_eq x.value depth, ← ih hnodup.2]
      cases x.value.tree? with
      | none => rfl
      | some t =>
          cases hms : members? rest with
          | none => simp
          | some ms =>
              have hvalues := ih hnodup.2
              rw [hms, Option.bind_some] at hvalues
              simp only [Option.bind_some, Option.map_some, Value.ofMembers]
              cases Value.ofTree depth t with
              | none => rfl
              | some v =>
                  cases hvs : Value.ofMembers depth ms with
                  | none => rfl
                  | some vs =>
                      have hfresh : vs.any (·.1 == x.name) = false := by
                        have hnames := names_of_values? (hvalues.symm.trans hvs)
                        simp only [List.any_eq_false, beq_iff_eq]
                        intro m hm heq
                        refine hnodup.1 (hnames ▸ ?_)
                        exact heq ▸ List.mem_map_of_mem hm
                      simp [Value.join, hfresh]

theorem fromUTF8?_toUTF8 (s : String) : String.fromUTF8? s.toUTF8 = some s := by
  have hvalid : s.toUTF8.IsValidUTF8 := s.isValidUTF8
  rw [String.fromUTF8?, dif_pos hvalid]
  rfl

/-- The bytes of a frame under different names mean the object of its fields. -/
theorem ofBytes_frame {fields : List Field} (hplain : ∀ x ∈ fields, x.Plain)
    (hnodup : (fields.map Field.name).Nodup) :
    Value.ofBytes (String.ofList (frameChars fields)).toUTF8 = (values? fields).map .object := by
  rw [Value.ofBytes, fromUTF8?_toUTF8, Option.bind_some, Value.read, String.toList_ofList,
    read_frame hplain, ← ofMembers_eq hnodup (Value.nesting - 1)]
  cases members? fields <;> rfl

/-! ## Names that need an escape -/

theorem mem_toString {n : Int} {c : Char} (h : c ∈ (toString n).toList) : isDigit c ∨ c = '-' := by
  rw [Int.toString_eq_repr, Int.repr_eq_if] at h
  split at h
  · rw [Nat.toList_repr] at h
    exact .inl (isDigit_of_mem_toDigits h)
  · simp only [String.toList_append, List.mem_append, Nat.toList_repr] at h
    rcases h with hsign | hdigit
    · exact .inr (by simpa using hsign)
    · exact .inl (isDigit_of_mem_toDigits hdigit)

theorem not_mem_toString {c : Char} (hdigit : isDigit c = false) (hsign : c ≠ '-') (n : Int) :
    c ∉ (toString n).toList := by
  intro h
  rcases mem_toString h with hc | hc
  · simp [hdigit] at hc
  · exact hsign hc

theorem value_brace (fuel : Nat) (s : List Char) :
    Json.value (fuel + 1) ('{' :: '"' :: s) =
      (Json.members fuel ('"' :: s)).map fun r => (.object r.1, r.2) := by
  rw [Json.value.eq_def]
  simp only [skip_of_head (show isBlank '{' = false by decide),
    skip_of_head (show isBlank '"' = false by decide)]
  rfl

/-- A frame of one whole number under a single character that would need an
escape is no JSON. -/
theorem read_unescaped {c : Char} (hc : ¬ Plain c) (n : Int64) :
    Tree.read (frameChars [⟨String.singleton c, .whole n⟩]) = none := by
  have htext : frameChars [⟨String.singleton c, .whole n⟩] =
      '{' :: '"' :: c :: '"' :: ' ' :: ':' :: ' ' :: ((toString n.toInt).toList ++ ['}']) := by
    simp [frameChars, listed, Field.chars, Written.chars]
  have hquote := not_mem_toString (show isDigit '"' = false by decide) (by decide) n.toInt
  have hslash := not_mem_toString (show isDigit '\\' = false by decide) (by decide) n.toInt
  rw [htext]
  generalize htail : ' ' :: ':' :: ' ' :: ((toString n.toInt).toList ++ ['}']) = tail
  have hnone : pieces tail = none := by
    rw [← htail]
    exact pieces_eq_none (by simpa using hquote) (by simpa using hslash)
  rw [Tree.read, value_brace, Json.members.eq_def]
  simp only [List.length_cons, skip_of_head (show isBlank '"' = false by decide)]
  by_cases hq : c = '"'
  · subst hq
    simp [quoted, pieces_quote, skip_of_head (show isBlank '"' = false by decide)]
  · have hread : pieces (c :: '"' :: tail) = none := by
      by_cases hs : c = '\\'
      · subst hs
        rw [pieces_short rfl (by decide), hnone]
        rfl
      · refine pieces_control ?_ _
        have hcontrol : ¬ 0x20 ≤ c.toNat := fun h => hc ⟨hq, hs, h⟩
        omega
    simp [quoted, hread]

end Telemetry.Frame
