import Telemetry.Frame.Transport
import Telemetry.Proofs.Fields

/-!
# What is written into a draft

A measurement is written piece by piece, and every piece has to leave the
reserve free. The last piece leaves the least, so the pieces in a row are
written exactly when their text as a whole would be: `push_push` is all there is
to rolling back. What a measurement adds is then one text, its fields with a
comma in front unless they are the first (`append_eq`), and a frame that was
opened and written to is the list of its fields behind an opening brace.
-/

namespace Telemetry.Frame

open Json

/-! ## The fields of a measurement -/

/-- What a measurement's readings amount to, as fields of a frame. -/
def fieldsOf (name : String) (t : Tally) : List Field :=
  match t.summary with
  | .empty => []
  | .text last => [⟨name, .text last⟩]
  | .integer sum least greatest =>
      if t.samples ≤ 1 then [⟨name, .whole sum⟩]
      else
        [⟨name, .whole (sum / t.samples.toUInt64.toInt64)⟩,
          ⟨name ++ "_min", .whole least⟩, ⟨name ++ "_max", .whole greatest⟩]
  | .float sum least greatest =>
      if t.samples ≤ 1 then [⟨name, .decimal sum⟩]
      else
        [⟨name, .decimal (sum / t.samples.toFloat32)⟩,
          ⟨name ++ "_min", .decimal least⟩, ⟨name ++ "_max", .decimal greatest⟩]

/-- What may stand behind the name of a measurement in the name of a field. -/
def suffixes : List String := ["", "_min", "_max"]

theorem names_fieldsOf (name : String) (t : Tally) :
    ((fieldsOf name t).map Field.name).Sublist (suffixes.map (name ++ ·)) := by
  have hall : suffixes.map (name ++ ·) = [name, name ++ "_min", name ++ "_max"] := by
    simp [suffixes]
  rw [hall]
  unfold fieldsOf
  cases t.summary with
  | empty => exact List.nil_sublist _
  | text last => exact (List.nil_sublist _).cons_cons name
  | integer sum least greatest =>
      simp only []
      split
      · exact (List.nil_sublist _).cons_cons name
      · exact List.Sublist.refl _
  | float sum least greatest =>
      simp only []
      split
      · exact (List.nil_sublist _).cons_cons name
      · exact List.Sublist.refl _

theorem name_of_mem_fieldsOf {name : String} {t : Tally} {x : Field} (h : x ∈ fieldsOf name t) :
    ∃ suffix ∈ suffixes, x.name = name ++ suffix := by
  have hmem := (names_fieldsOf name t).subset (List.mem_map_of_mem h)
  obtain ⟨suffix, hsuffix, heq⟩ := List.mem_map.mp hmem
  exact ⟨suffix, hsuffix, heq.symm⟩

theorem fieldsOf_plain {name : String} (h : ∀ c ∈ name.toList, Plain c) (t : Tally) :
    ∀ x ∈ fieldsOf name t, x.Plain := by
  have hsuffixes : suffixes.all fun s => s.toList.all fun c => decide (Plain c) := by decide
  intro x hx c hc
  obtain ⟨suffix, hmem, hname⟩ := name_of_mem_fieldsOf hx
  rw [hname, String.toList_append, List.mem_append] at hc
  exact hc.elim (h c) (plain_of_all (List.all_eq_true.mp hsuffixes suffix hmem) c)

/-- The text of some fields, without a comma in front. -/
def listedText (fields : List Field) : String := String.ofList (listed fields)

namespace Draft

/-! ## Pieces in a row -/

theorem push_eq_some {f g : Draft} {piece : String} :
    f.push piece = some g ↔ f.text.utf8ByteSize + piece.utf8ByteSize + reserve < f.capacity ∧
      { f with text := f.text ++ piece } = g := by
  simp [push]

/-- Two pieces in a row are one piece. -/
theorem push_push (f : Draft) (first second : String) :
    ((f.push first).bind fun g => g.push second) = f.push (first ++ second) := by
  unfold push
  by_cases h : f.text.utf8ByteSize + first.utf8ByteSize + reserve < f.capacity
  · rw [if_pos h, Option.bind_some]
    simp only [String.utf8ByteSize_append, String.append_assoc, Nat.add_assoc]
  · rw [if_neg h, if_neg (by simp; omega)]
    rfl

theorem pushEscaped_push (f : Draft) (chars : List Char) (last : String) :
    ((f.pushEscaped chars).bind fun g => g.push last) =
      f.push (String.ofList (escapes chars) ++ last) := by
  induction chars generalizing f with
  | nil => simp [pushEscaped, escapes]
  | cons c rest ih =>
      rw [pushEscaped, Option.bind_assoc]
      simp only [ih, push_push]
      simp [escapes, String.append_assoc]

/-! ## Fields in a row -/

/-- What separates the next field from what stands there. -/
def comma (f : Draft) : String := if f.atStart then "" else ","

theorem field_eq {f : Draft} (h : f.text.isEmpty = false) (name value : String) :
    f.field name value = f.push (f.comma ++ ("\"" ++ name ++ "\" : " ++ value)) := by
  simp only [field, h, Bool.false_eq_true, if_false, separate, comma]
  split
  · rw [Option.bind_some, String.empty_append]
  · rw [push_push]

/-- Writes fields one after the other. -/
def pushFields (f : Draft) : List Field → Option Draft
  | [] => some f
  | x :: rest => (f.field x.name (String.ofList x.value.chars)).bind fun g => g.pushFields rest

theorem field_text (x : Field) :
    "\"" ++ x.name ++ "\" : " ++ String.ofList x.value.chars = String.ofList x.chars := by
  rw [← String.toList_inj]
  simp [Field.chars]

end Draft

/-- The text ends with something else than an opening brace. -/
def Closes (s : List Char) : Prop := ∃ front c, s = front ++ [c] ∧ c ≠ '{'

theorem Closes.append {s : List Char} (h : Closes s) (front : List Char) : Closes (front ++ s) := by
  obtain ⟨mid, c, rfl, hc⟩ := h
  exact ⟨front ++ mid, c, by simp, hc⟩

theorem closes_of_not_mem {s : List Char} (hne : s ≠ []) (h : '{' ∉ s) : Closes s := by
  refine ⟨s.dropLast, s.getLast hne, (List.dropLast_concat_getLast hne).symm, ?_⟩
  intro heq
  exact h (heq ▸ List.getLast_mem hne)

theorem closes_written (x : Written) : Closes x.chars := by
  cases x with
  | whole n =>
      obtain ⟨c, s, hs, -⟩ := toString_opens n.toInt
      refine closes_of_not_mem ?_ (not_mem_toString rfl (by decide) n.toInt)
      rw [Written.chars, hs]
      exact List.cons_ne_nil c s
  | decimal x =>
      rw [Written.chars, Decimal.ofFloat]
      generalize Decimal.Parts.ofBits x.toBits = parts
      cases parts with
      | notANumber => exact closes_of_not_mem (by decide) (by decide)
      | infinite negative => cases negative <;> exact closes_of_not_mem (by decide) (by decide)
      | finite negative mantissa exponent =>
          have hlast (n : Nat) : Closes (toString (n % 10)).toList := by
            rw [toList_toString_of_lt (Nat.mod_lt _ (by omega))]
            exact ⟨[], _, rfl, Nat.digitChar_ne '{' rfl⟩
          simp only [Decimal.ofThousandths, Decimal.threeDigits, String.toList_append]
          exact (((hlast _).append _).append _).append _
  | text s => exact ⟨'"' :: escapes s.toList, '"', rfl, by decide⟩

theorem closes_field (x : Field) : Closes x.chars := by
  have hvalue := (closes_written x.value).append ('"' :: (x.name.toList ++ ['"', ' ', ':', ' ']))
  simpa [Field.chars] using hvalue

theorem closes_listed (x : Field) (fields : List Field) : Closes (listed (x :: fields)) := by
  induction fields generalizing x with
  | nil => exact closes_field x
  | cons y rest ih => simpa [listed] using (ih y).append (x.chars ++ [','])

namespace Draft

theorem comma_of_closes {f : Draft} (h : Closes f.text.toList) :
    f.text.isEmpty = false ∧ f.comma = "," := by
  obtain ⟨front, c, htext, hc⟩ := h
  have hne : f.text ≠ "" := by
    intro hempty
    simp [hempty] at htext
  have hstart : f.atStart = false := by simp [atStart, htext, hc]
  exact ⟨by simpa using hne, by simp [comma, hstart]⟩

theorem comma_of_push {f g : Draft} {piece : String} (h : f.push piece = some g)
    (hpiece : Closes piece.toList) : g.text.isEmpty = false ∧ g.comma = "," := by
  refine comma_of_closes ?_
  rw [text_of_push h, String.toList_append]
  exact hpiece.append _

/-- Fields in a row are one text. -/
theorem pushFields_eq {f : Draft} (h : f.text.isEmpty = false) (x : Field) (fields : List Field) :
    f.pushFields (x :: fields) = f.push (f.comma ++ listedText (x :: fields)) := by
  induction fields generalizing f x with
  | nil => simp [pushFields, field_eq h, listedText, listed, field_text]
  | cons y rest ih =>
      have hmore : ∀ g, f.push (f.comma ++ String.ofList x.chars) = some g →
          g.pushFields (y :: rest) = g.push ("," ++ listedText (y :: rest)) := by
        intro g hg
        have hpiece : Closes (f.comma ++ String.ofList x.chars).toList := by
          simpa using (closes_field x).append f.comma.toList
        obtain ⟨hne, hcomma⟩ := comma_of_push hg hpiece
        rw [ih hne, hcomma]
      rw [pushFields, field_eq h, field_text, Option.bind_congr hmore, push_push]
      congr 1
      rw [← String.toList_inj]
      simp [listedText, listed]

theorem textField_eq (f : Draft) (name text : String) :
    f.textField name text = f.pushFields [⟨name, .text text⟩] := by
  have hvalue : String.ofList (Written.text text).chars =
      "\"" ++ (String.ofList (escapes text.toList) ++ "\"") := by
    rw [← String.toList_inj]
    simp [Written.chars]
  simp only [textField, pushFields, hvalue, Option.bind_fun_some]
  cases h : f.text.isEmpty with
  | true => simp [field, h]
  | false =>
      rw [field_eq h, field_eq h]
      simp only [pushEscaped_push, push_push, String.append_assoc]

theorem append_eq_pushFields (f : Draft) (name : String) (t : Tally) :
    f.append name t = f.pushFields (fieldsOf name t) := by
  unfold append fieldsOf
  cases t.summary with
  | empty => rfl
  | text last => exact textField_eq f name last
  | integer sum least greatest =>
      simp only []
      split
      · simp [pushFields, Written.chars]
      · simp [meanFields, pushFields, Written.chars]
  | float sum least greatest =>
      simp only []
      split
      · simp [pushFields, Written.chars]
      · simp [meanFields, pushFields, Written.chars]

/-- A measurement adds its fields as one text, if there is room for all of it, and a measurement
without readings adds nothing. -/
theorem append_eq {f : Draft} (h : f.text.isEmpty = false) (name : String) (t : Tally) :
    f.append name t =
      if (fieldsOf name t).isEmpty then some f else f.push (f.comma ++ listedText (fieldsOf name t)) := by
  rw [append_eq_pushFields]
  cases fieldsOf name t with
  | nil => rfl
  | cons x fields => exact pushFields_eq h x fields

/-- Without a frame nothing is added. -/
theorem append_blank {f g : Draft} (h : f.text.isEmpty = true) {name : String} {t : Tally}
    (hg : f.append name t = some g) : g = f := by
  rw [append_eq_pushFields] at hg
  cases hfields : fieldsOf name t with
  | nil =>
      rw [hfields] at hg
      exact (Option.some.inj hg).symm
  | cons x fields => simp [hfields, pushFields, field, h] at hg

end Draft

/-! ## Frames and what stands in them -/

theorem listed_append (x : Field) (fields : List Field) (y : Field) (more : List Field) :
    listed (x :: (fields ++ y :: more)) = listed (x :: fields) ++ ',' :: listed (y :: more) := by
  induction fields generalizing x with
  | nil => rfl
  | cons z fields ih => simp [listed, ← ih z]

/-- What has been written since the last frame was opened. -/
inductive Sheet where
  | blank
  | writing (fields : List Field)
  /-- The frame has been closed, and more may stand behind it. -/
  | closed (fields : List Field)

/-- The text of a draft is what the sheet says. -/
def Sheet.Shows (f : Draft) : Sheet → Prop
  | .blank => f.text = ""
  | .writing fields =>
      f.text.toList = '{' :: listed fields ∧
        f.text.utf8ByteSize + Draft.reserve < f.capacity
  | .closed fields =>
      ∃ more, f.text.toList = frameChars fields ++ more ∧
        ∀ c, more.head? = some c → c = ',' ∨ c = '}'

namespace Draft

variable {f : Draft} {fields : List Field}

theorem openStep_shows (f : Draft) :
    Sheet.Shows f.openStep.2 (match f.openStep.1 with | .ok _ => .writing [] | .error _ => .blank) := by
  unfold openStep
  cases h : f.start with
  | none => rfl
  | some g =>
      obtain ⟨hfits, rfl⟩ := push_eq_some.mp h
      refine ⟨by simp [clear, listed], ?_⟩
      simpa [clear] using hfits

theorem isEmpty_of_toList {s : List Char} {c : Char} (h : f.text.toList = c :: s) :
    f.text.isEmpty = false := by
  have hne : f.text ≠ "" := by
    intro hempty
    simp [hempty] at h
  simpa using hne

theorem comma_writing (h : f.text.toList = '{' :: listed fields) :
    f.comma.toList = if fields.isEmpty then [] else [','] := by
  cases fields with
  | nil => simp [comma, atStart, h, listed]
  | cons x fields =>
      have hcloses : Closes f.text.toList := h ▸ (closes_listed x fields).append ['{']
      simp [(comma_of_closes hcloses).2]

/-- Adding a measurement to a frame adds its fields to the sheet. -/
theorem append_writing (h : Sheet.Shows f (.writing fields)) {name : String} {t : Tally} {g : Draft}
    (hg : f.append name t = some g) : Sheet.Shows g (.writing (fields ++ fieldsOf name t)) := by
  obtain ⟨htext, hfits⟩ := h
  rw [append_eq (isEmpty_of_toList htext)] at hg
  cases hnew : fieldsOf name t with
  | nil =>
      simp only [hnew, List.isEmpty_nil, if_true, Option.some.injEq] at hg
      subst hg
      simpa [Sheet.Shows] using ⟨htext, hfits⟩
  | cons y more =>
      simp only [hnew, List.isEmpty_cons, Bool.false_eq_true, if_false] at hg
      obtain ⟨hroom, rfl⟩ := push_eq_some.mp hg
      refine ⟨?_, ?_⟩
      · cases fields with
        | nil => simp [htext, comma_writing htext, listedText, listed]
        | cons x fields =>
            simp [htext, comma_writing htext, listedText, listed_append x fields y more]
      · simpa [Nat.add_assoc] using hroom

/-- What is added to a frame that is closed stands behind it. -/
theorem append_closed (h : Sheet.Shows f (.closed fields)) {name : String} {t : Tally} {g : Draft}
    (hg : f.append name t = some g) : Sheet.Shows g (.closed fields) := by
  obtain ⟨more, htext, hmore⟩ := h
  rw [append_eq (isEmpty_of_toList (htext.trans rfl))] at hg
  cases hnew : fieldsOf name t with
  | nil =>
      simp only [hnew, List.isEmpty_nil, if_true, Option.some.injEq] at hg
      exact hg ▸ ⟨more, htext, hmore⟩
  | cons y rest =>
      simp only [hnew, List.isEmpty_cons, Bool.false_eq_true, if_false] at hg
      obtain ⟨-, rfl⟩ := push_eq_some.mp hg
      refine ⟨more ++ (f.comma ++ listedText (y :: rest)).toList, by simp [htext], ?_⟩
      intro c hc
      cases more with
      | nil =>
          have hcloses : Closes f.text.toList :=
            ⟨'{' :: listed fields, '}', by simpa [frameChars] using htext, by decide⟩
          rw [(comma_of_closes hcloses).2] at hc
          exact .inl (by simpa using hc.symm)
      | cons e more => exact hmore c hc

theorem clear_shows (f : Draft) : Sheet.Shows f.clear .blank := rfl

theorem close_blank (h : Sheet.Shows f .blank) : f.close = none := by
  have hempty : f.text = "" := h
  simp [close, hempty]

/-- A frame that was opened can be closed. -/
theorem close_eq (h : Sheet.Shows f (.writing fields)) :
    f.close = some { f with text := f.text ++ "\x7d" } := by
  obtain ⟨htext, hfits⟩ := h
  have hroom : ¬ f.capacity ≤ f.text.utf8ByteSize := by omega
  simp [close, isEmpty_of_toList htext, hroom]

theorem close_writing (h : Sheet.Shows f (.writing fields)) :
    ∃ g, f.close = some g ∧ g.text.toList = frameChars fields := by
  refine ⟨_, close_eq h, ?_⟩
  simp [h.1, frameChars]

/-- A frame that is closed again is followed by something. -/
theorem close_closed (h : Sheet.Shows f (.closed fields)) {g : Draft} (hg : f.close = some g) :
    ∃ c more, (c = ',' ∨ c = '}') ∧ g.text.toList = frameChars fields ++ c :: more := by
  obtain ⟨more, htext, hmore⟩ := h
  have hclosed : g.text = f.text ++ "\x7d" := by
    unfold close at hg
    split at hg
    · cases hg
    · exact (Option.some.inj hg) ▸ rfl
  cases more with
  | nil => exact ⟨'}', [], .inr rfl, by simp [hclosed, htext]⟩
  | cons c more => exact ⟨c, more ++ ['}'], hmore c rfl, by simp [hclosed, htext]⟩

end Draft

end Telemetry.Frame
