import Telemetry.Proofs.Handing
import Telemetry.Proofs.Magnitudes

/-!
# When a frame can be read

A name stands between quotes as it is, while a text is escaped. So a frame can
be read if its names are made of characters that need no escape and its floats
are finite, and if it was closed for the first time; a frame that is closed
again, or whose sum of floats has gone out of range, cannot. Of the characters
a name may have, the plain ones are exactly those that break no frame: every
other one makes a name of its own that does.
-/

namespace Telemetry.Frame

open Json

/-! ## Values that can be read -/

/-- Whether a value is a number or a text. A float is no number if all bits of its exponent are
set. -/
def Written.finite : Written → Bool
  | .decimal x => (x.toBits.toNat >>> 23) % 256 != 255
  | _ => true

theorem ofFloat?_isSome (x : Float32) :
    (Numeral.ofFloat? x).isSome = ((x.toBits.toNat >>> 23) % 256 != 255) := by
  unfold Numeral.ofFloat? Decimal.Parts.ofBits
  dsimp only
  by_cases h : (x.toBits.toNat >>> 23) % 256 = 255
  · rw [if_pos h]
    by_cases hzero : x.toBits.toNat % 0x800000 = 0
    · simp [hzero, h]
    · simp [hzero, h]
  · rw [if_neg h]
    split
    · next hparts => split at hparts <;> cases hparts
    · next hparts => split at hparts <;> cases hparts
    · simp [h]

theorem tree?_isSome (x : Written) : x.tree?.isSome = x.finite := by
  cases x with
  | whole n => rfl
  | decimal x => simp [Written.tree?, Written.finite, ofFloat?_isSome]
  | text s => rfl

theorem value?_isSome (x : Written) : x.value?.isSome = x.finite := by
  cases x with
  | whole n => rfl
  | decimal x =>
      rw [Written.finite, ← ofFloat?_isSome, Written.value?]
      cases h : Numeral.ofFloat? x with
      | none => rfl
      | some n => simp [value_ofFloat h]
  | text s => rfl

/-! ## Objects that can be read -/

/-- Whether bytes are a JSON object. -/
def Readable (frame : ByteArray) : Prop := ∃ members, Value.ofBytes frame = some (.object members)

theorem ofMembers_isSome {fields : List Field} (h : ∀ x ∈ fields, x.value.finite) (depth : Nat) :
    ((members? fields).bind (Value.ofMembers depth)).isSome := by
  induction fields with
  | nil => rfl
  | cons x rest ih =>
      obtain ⟨hx, hrest⟩ := List.forall_mem_cons.mp h
      obtain ⟨v, hv⟩ := Option.isSome_iff_exists.mp (Bool.eq_iff_iff.mp (value?_isSome x.value) |>.mpr hx)
      rw [value?_eq x.value depth] at hv
      obtain ⟨t, ht, hvalue⟩ := Option.bind_eq_some_iff.mp hv
      obtain ⟨vs, hvs⟩ := Option.isSome_iff_exists.mp (ih hrest)
      obtain ⟨ms, hms, hvalues⟩ := Option.bind_eq_some_iff.mp hvs
      simp [members?, ht, hms, Value.ofMembers, hvalue, hvalues]

/-- A frame under plain names can be read exactly if its floats are finite. -/
theorem readable_frame {fields : List Field} (hplain : ∀ x ∈ fields, x.Plain) :
    Readable (String.ofList (frameChars fields)).toUTF8 ↔ ∀ x ∈ fields, x.value.finite := by
  have hread : Value.ofBytes (String.ofList (frameChars fields)).toUTF8 =
      ((members? fields).bind (Value.ofMembers (Value.nesting - 1))).map .object := by
    rw [Value.ofBytes, fromUTF8?_toUTF8, Option.bind_some, Value.read, String.toList_ofList,
      read_frame hplain]
    cases members? fields <;> rfl
  rw [Readable, hread]
  constructor
  · rintro ⟨members, hmembers⟩ x hx
    obtain ⟨vs, hvs, -⟩ := Option.map_eq_some_iff.mp hmembers
    obtain ⟨ms, hms, -⟩ := Option.bind_eq_some_iff.mp hvs
    rw [← tree?_isSome]
    exact members?_isSome.mp (by rw [hms]; rfl) x hx
  · intro hfinite
    obtain ⟨vs, hvs⟩ := Option.isSome_iff_exists.mp (ofMembers_isSome hfinite (Value.nesting - 1))
    exact ⟨vs, by rw [hvs]; rfl⟩

theorem not_readable {s : String} (h : Tree.read s.toList = none) : ¬ Readable s.toUTF8 := by
  rintro ⟨members, hmembers⟩
  rw [Value.ofBytes, fromUTF8?_toUTF8, Option.bind_some, Value.read, h] at hmembers
  cases hmembers

/-! ## Frames of a run -/

/-- The fields since the last frame was opened. -/
def Sheet.fields : Sheet → List Field
  | .blank => []
  | .writing fields => fields
  | .closed fields => fields

/-- Whether a frame is open, and every float in it is finite. -/
def Sheet.Sound : Sheet → Prop
  | .writing fields => ∀ x ∈ fields, x.value.finite
  | _ => False

/-- The definition a call is about. -/
def Ask.definition? : Ask → Option Definition
  | .append m _ => some m
  | .appendReading m _ => some m
  | _ => none

/-- The name is one that a definition may have, and its characters are of some kind. -/
def Ask.Over (P : Char → Prop) (a : Ask) : Prop :=
  ∀ m, a.definition? = some m → (∃ raw, Name.normalise raw = .ok m.name) ∧ ∀ c ∈ m.name.toList, P c

theorem after_plain {s : Sheet} (hs : ∀ x ∈ s.fields, x.Plain) {a : Ask} (ha : a.Over Plain)
    (answer : Except FrameError Unit) : ∀ x ∈ (s.after a answer).fields, x.Plain := by
  have hnew (fields more : List Field) (hfields : ∀ x ∈ fields, x.Plain)
      (hmore : ∀ x ∈ more, x.Plain) : ∀ x ∈ fields ++ more, x.Plain := by
    intro x hx
    exact (List.mem_append.mp hx).elim (hfields x) (hmore x)
  cases a with
  | openFrame => cases answer <;> exact fun x hx => by cases hx
  | append m t =>
      cases answer with
      | error cause => exact hs
      | ok _ =>
          cases s with
          | writing fields => exact hnew _ _ hs (fieldsOf_plain (ha m rfl).2 t)
          | blank => exact hs
          | closed fields => exact hs
  | appendReading m r =>
      cases answer with
      | error cause => exact hs
      | ok _ =>
          cases s with
          | writing fields =>
              refine hnew _ _ hs fun x hx => ?_
              obtain rfl := List.mem_singleton.mp hx
              exact (ha m rfl).2
          | blank => exact hs
          | closed fields => exact hs
  | send => cases answer <;> cases s <;> exact hs
  | reset => cases answer <;> exact fun x hx => by cases hx

theorem afterAll_plain {asks : List Ask} (hasks : ∀ a ∈ asks, a.Over Plain) {s : Sheet}
    (hs : ∀ x ∈ s.fields, x.Plain) (answers : List (Except FrameError Unit)) :
    ∀ x ∈ (s.afterAll asks answers).fields, x.Plain := by
  induction asks generalizing s answers with
  | nil => exact hs
  | cons a rest ih =>
      obtain ⟨ha, hrest⟩ := List.forall_mem_cons.mp hasks
      cases answers with
      | nil => exact hs
      | cons answer answers => exact ih hrest (after_plain hs ha answer) answers

namespace Station

variable {V : Type}

/-- A frame under plain names that is handed over can be read exactly if it was open and its
floats are finite. -/
theorem handed_readable {log : Logger V} {link : Transport V} {st : Station V} {s : Sheet}
    (hshows : s.Shows st.draft) (hplain : ∀ x ∈ s.fields, x.Plain) {frame : ByteArray}
    (h : ((radio log link).send.run st).2.handed = st.handed ++ [frame]) :
    Readable frame ↔ s.Sound := by
  obtain ⟨g, hclose, rfl⟩ := handed_eq h
  cases s with
  | blank =>
      rw [Draft.close_blank hshows] at hclose
      cases hclose
  | writing fields =>
      obtain ⟨g', hclose', htext⟩ := Draft.close_writing hshows
      cases hclose.symm.trans hclose'
      have hframe : g.text = String.ofList (frameChars fields) := by
        rw [← String.toList_inj, htext, String.toList_ofList]
      rw [hframe]
      exact readable_frame hplain
  | closed fields =>
      obtain ⟨c, more, hc, htext⟩ := Draft.close_closed hshows hclose
      have hblank : isBlank c = false := by
        rcases hc with rfl | rfl <;> decide
      have hread : Tree.read g.text.toList = none := by
        rw [htext]
        exact read_frame_append hplain hblank more
      exact iff_of_false (not_readable hread) id

/-! ## Characters that break a frame -/

/-- A name may be a single character that needs an escape. -/
theorem normalise_singleton {c : Char} (hc : ¬ Plain c) :
    Name.normalise (String.singleton c) = .ok (String.singleton c) := by
  have hspace : c ≠ ' ' := by
    rintro rfl
    exact hc (by decide)
  have hsize := c.utf8Size_le_four
  have htrim : Name.trim [c] = [c] := by simp [Name.trim, hspace]
  have hkept : String.ofList [c] = String.singleton c := by simp
  simpa [Name.normalise, htrim, hkept, Name.bridge, hspace, Limits.nameBytes] using hsize

/-- One reading under a name. -/
def note (name : String) (r : Reading) : List Ask :=
  [.openFrame, .append (called name) (single r)]

theorem note_run {c : Char} :
    ((Ask.performAll (radio silent sink) (note (String.singleton c) (.integer 1))).run
      ⟨⟨32, ""⟩, (), []⟩).1 = [.ok (), .ok ()] := by
  have hsize := c.utf8Size_le_four
  have happend : ((⟨32, "\x7b"⟩ : Draft).append (String.singleton c) (single (.integer 1))).isSome := by
    have hbrace : ("\x7b" : String).utf8ByteSize = 1 := rfl
    have hcomma : (⟨32, "\x7b"⟩ : Draft).comma = "" := rfl
    have htext : (listedText [⟨String.singleton c, .whole 1⟩]).utf8ByteSize = c.utf8Size + 6 := by
      have hlast : listedText [⟨String.singleton c, .whole 1⟩] =
          "\"" ++ String.singleton c ++ "\" : 1" := by
        rw [← String.toList_inj]
        simp [listedText, listed, Field.chars, Written.chars]
        rfl
      have hends : ("\"" : String).utf8ByteSize + ("\" : 1" : String).utf8ByteSize = 6 := rfl
      rw [hlast]
      simp only [String.utf8ByteSize_append, String.utf8ByteSize_singleton]
      omega
    rw [Draft.append_eq (by decide), fieldsOf_single, Written.ofReading]
    simp [Draft.push, Draft.reserve, hbrace, hcomma, htext]
    omega
  obtain ⟨g, hg⟩ := Option.isSome_iff_exists.mp happend
  simp only [note, Ask.performAll, Ask.perform, Action.run_bind, open_run, append_run,
    Action.run_pure]
  have hopen : (⟨32, ""⟩ : Draft).openStep = (.ok (), ⟨32, "\x7b"⟩) := rfl
  simp [hopen, Draft.appendStep, called, hg]

/-- With names of such characters, a frame that is handed over can be read exactly if it was open
and its floats are finite. -/
def Legible (P : Char → Prop) : Prop :=
  ∀ (V : Type) (log : Logger V) (link : Transport V) (capacity : Nat) (v : V) (past : List Ask)
    (frame : ByteArray), (∀ a ∈ past, a.Over P) →
    let run := (Ask.performAll (radio log link) past).run ⟨⟨capacity, ""⟩, v, []⟩
    ((radio log link).send.run run.2).2.handed = run.2.handed ++ [frame] →
      (Readable frame ↔ (Sheet.blank.afterAll past run.1).Sound)

theorem legible_iff_plain (P : Char → Prop) : Legible P ↔ ∀ c, P c → Plain c := by
  constructor
  · intro h c hP
    refine Decidable.byContradiction fun hc => ?_
    have hover : ∀ a ∈ note (String.singleton c) (.integer 1), a.Over P := by
      intro a ha m hm
      simp only [note, List.mem_cons, List.not_mem_nil, or_false] at ha
      rcases ha with rfl | rfl
      · cases hm
      · obtain rfl := Option.some.inj hm
        exact ⟨⟨String.singleton c, normalise_singleton hc⟩, by simpa [called] using hP⟩
    generalize hstart : (⟨⟨32, ""⟩, (), []⟩ : Station Unit) = st
    have hshows := performAll_shows silent sink st
      (note (String.singleton c) (.integer 1)) (s := .blank) (hstart ▸ rfl)
    have hread := h Unit silent sink 32 () (note (String.singleton c) (.integer 1))
    dsimp only at hread
    rw [hstart] at hread
    have hanswers := note_run (c := c)
    rw [hstart] at hanswers
    generalize (Ask.performAll _ _).run st = run at hshows hread hanswers
    rw [hanswers] at hshows hread
    obtain ⟨g, hclose, htext⟩ := Draft.close_writing hshows
    have hsound : Sheet.Sound (.writing ([] ++ fieldsOf (String.singleton c) (single (.integer 1)))) := by
      intro x hx
      rw [fieldsOf_single] at hx
      obtain rfl := List.mem_singleton.mp hx
      rfl
    refine not_readable ?_ ((hread _ hover (handed_close hclose)).mpr hsound)
    rw [htext, fieldsOf_single]
    exact read_unescaped hc 1
  · intro h V log link capacity v past frame hover run hsent
    have hshows : (Sheet.blank.afterAll past run.1).Shows run.2.draft :=
      performAll_shows log link _ past rfl
    have hplain := afterAll_plain (s := .blank)
      (fun a ha m hm => ⟨(hover a ha m hm).1, fun c hc => h c ((hover a ha m hm).2 c hc)⟩)
      (fun x hx => by cases hx) run.1
    exact handed_readable hshows hplain hsent

end Station

end Telemetry.Frame
