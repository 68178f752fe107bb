import Mathlib.Data.String.Basic
import Telemetry.Proofs.Handing

/-!
# Entries that are written whole or not at all

A draft takes an entry or refuses it, and nobody sees how. The buffer behind it
is not so clean: it takes fragments of text, each of them whole or not at all,
and what it took before it refused one stays where it is. So an entry is written
piece by piece with a look at the reserve after every piece, and if a piece does
not go in, the buffer is cut back to where the entry began.

A `Writer` is that way of writing. `Writer.Meets` says of a writer and of a
function on drafts that the writer succeeds where the function does, and that it
leaves what was there before at the front where the function refuses; it goes
through pieces, fields and entries, and at the end of it the cut makes the
difference disappear (`back_eq`). Whatever the buffer holds, then, an entry goes
in if its text as a whole leaves the reserve free, and leaves no trace if not
(`append_whole`).
-/

namespace Telemetry.Frame

/-! ## A buffer of fixed size -/

namespace Draft

/-- Takes a fragment whole, or refuses it for want of room. -/
def take (f : Draft) (fragment : String) : Bool × Draft :=
  if f.text.utf8ByteSize + fragment.utf8ByteSize ≤ f.capacity then
    (true, { f with text := f.text ++ fragment })
  else (false, f)

/-- Takes fragments in order, up to the first that is refused. -/
def takeAll (f : Draft) : List String → Bool × Draft
  | [] => (true, f)
  | fragment :: rest =>
      match f.take fragment with
      | (true, g) => g.takeAll rest
      | (false, g) => (false, g)

/-- Whether the reserve is free. -/
def spare (f : Draft) : Bool := f.text.utf8ByteSize + reserve < f.capacity

/-- Cuts the text back to its first bytes. -/
def truncate (f : Draft) (bytes : Nat) : Draft :=
  { f with text := String.ofList (Reading.fitting bytes f.text.toList) }

end Draft

/-- A way of writing that may fail; what it has written by then stays. -/
def Writer := Draft → Bool × Draft

namespace Writer

def done : Writer := fun f => (true, f)

/-- One after the other, up to the first that fails. -/
def followed (a b : Writer) : Writer := fun f =>
  match a f with
  | (true, g) => b g
  | (false, g) => (false, g)

/-- Cuts the buffer back if the writing fails. -/
def back (a : Writer) (f : Draft) : Except FrameError Unit × Draft :=
  match a f with
  | (true, g) => (.ok (), g)
  | (false, g) => (.error .bufferFull, g.truncate f.text.utf8ByteSize)

section

variable (cut : String → List String)

/-- Writes a piece, cut into fragments, and looks at the reserve. -/
def piece (s : String) : Writer := fun f =>
  let r := f.takeAll (cut s)
  (r.1 && r.2.spare, r.2)

def comma : Writer := fun f => if f.atStart then done f else piece cut "," f

def field (name value : String) : Writer := fun f =>
  if f.text.isEmpty then (false, f)
  else (comma cut).followed (piece cut ("\"" ++ name ++ "\" : " ++ value)) f

def escaped : List Char → Writer
  | [] => done
  | c :: rest => (piece cut (escape c)).followed (escaped rest)

def textField (name text : String) : Writer :=
  (field cut name "\"").followed ((escaped cut text.toList).followed (piece cut "\""))

def meanFields (name mean least greatest : String) : Writer :=
  (field cut name mean).followed
    ((field cut (name ++ "_min") least).followed (field cut (name ++ "_max") greatest))

/-- Writes what a measurement's readings amount to. -/
def entry (name : String) (t : Tally) : Writer :=
  match t.summary with
  | .empty => done
  | .text last => textField cut name last
  | .integer sum least greatest =>
      if t.samples ≤ 1 then field cut name (toString sum.toInt)
      else
        let mean := sum / t.samples.toUInt64.toInt64
        meanFields cut name (toString mean.toInt) (toString least.toInt) (toString greatest.toInt)
  | .float sum least greatest =>
      if t.samples ≤ 1 then field cut name (Decimal.ofFloat sum)
      else
        let mean := sum / t.samples.toFloat32
        meanFields cut name (Decimal.ofFloat mean) (Decimal.ofFloat least) (Decimal.ofFloat greatest)

end

/-! ## Writers and drafts -/

/-- The writer does what the function does; where the function refuses, the writer fails behind
what was there before. -/
structure Meets (a : Writer) (p : Draft → Option Draft) : Prop where
  taken : ∀ {f g}, p f = some g → a f = (true, g) ∧ ∃ more, g = { f with text := f.text ++ more }
  refused : ∀ {f}, p f = none → ∃ more, a f = (false, { f with text := f.text ++ more })

variable {a b : Writer} {p q : Draft → Option Draft}

theorem done_meets : done.Meets some where
  taken h := by
    cases h
    exact ⟨rfl, "", by rw [String.append_empty]⟩
  refused h := by cases h

theorem Meets.followed (ha : a.Meets p) (hb : b.Meets q) :
    (a.followed b).Meets fun f => (p f).bind q where
  taken {f g} h := by
    obtain ⟨mid, hp, hq⟩ := Option.bind_eq_some_iff.mp h
    obtain ⟨hfirst, more, rfl⟩ := ha.taken hp
    obtain ⟨hsecond, rest, rfl⟩ := hb.taken hq
    refine ⟨?_, more ++ rest, by rw [String.append_assoc]⟩
    rw [Writer.followed, hfirst]
    exact hsecond
  refused {f} h := by
    cases hp : p f with
    | none =>
        obtain ⟨more, hfirst⟩ := ha.refused hp
        exact ⟨more, by rw [Writer.followed, hfirst]⟩
    | some mid =>
        rw [hp, Option.bind_some] at h
        obtain ⟨hfirst, more, rfl⟩ := ha.taken hp
        obtain ⟨rest, hsecond⟩ := hb.refused h
        refine ⟨more ++ rest, ?_⟩
        rw [Writer.followed, hfirst, ← String.append_assoc]
        exact hsecond

/-- Writers that depend on the draft may be compared draft by draft. -/
theorem Meets.ite {c : Draft → Prop} [DecidablePred c] (ha : a.Meets p) (hb : b.Meets q) :
    Writer.Meets (fun f => if c f then a f else b f) fun f => if c f then p f else q f where
  taken {f g} h := by
    split at h
    · next hc => simpa only [if_pos hc] using ha.taken h
    · next hc => simpa only [if_neg hc] using hb.taken h
  refused {f} h := by
    split at h
    · next hc => simpa only [if_pos hc] using ha.refused h
    · next hc => simpa only [if_neg hc] using hb.refused h

theorem failed_meets : Writer.Meets (fun f => (false, f)) fun _ => none where
  taken h := by cases h
  refused _ := ⟨"", by rw [String.append_empty]⟩

end Writer

namespace Draft

/-- Some fragments are taken, and if none is refused, all of them. -/
theorem takeAll_grows (f : Draft) (fragments : List String) :
    ∃ taken more, f.takeAll fragments = (taken, { f with text := f.text ++ more }) ∧
      (taken = true → more = String.join fragments) := by
  induction fragments generalizing f with
  | nil => exact ⟨true, "", by rw [String.append_empty]; rfl, fun _ => rfl⟩
  | cons fragment rest ih =>
      unfold takeAll take
      split
      · next g htake =>
          split at htake
          · cases htake
            obtain ⟨taken, more, htaken, hall⟩ := ih { f with text := f.text ++ fragment }
            refine ⟨taken, fragment ++ more, ?_, fun h => ?_⟩
            · rw [htaken, ← String.append_assoc]
            · rw [hall h, String.join_cons]
          · cases htake
      · next g htake =>
          split at htake
          · cases htake
          · cases htake
            exact ⟨false, "", by rw [String.append_empty], fun h => by cases h⟩

/-- Fragments are taken if there is room for all of them. -/
theorem takeAll_of_le {f : Draft} {fragments : List String}
    (h : f.text.utf8ByteSize + (String.join fragments).utf8ByteSize ≤ f.capacity) :
    f.takeAll fragments = (true, { f with text := f.text ++ String.join fragments }) := by
  induction fragments generalizing f with
  | nil => rw [takeAll, String.join_nil, String.append_empty]
  | cons fragment rest ih =>
      rw [String.join_cons, String.utf8ByteSize_append, ← Nat.add_assoc] at h
      have hrest := ih (f := { f with text := f.text ++ fragment })
        (by rw [String.utf8ByteSize_append]; exact h)
      rw [takeAll, take, if_pos (Nat.le_trans (Nat.le_add_right _ _) h)]
      simp only []
      rw [hrest, String.join_cons, String.append_assoc]

theorem fitting_append (front rest : List Char) :
    Reading.fitting (String.utf8Len front) (front ++ rest) = front := by
  induction front with
  | nil =>
      cases rest with
      | nil => rfl
      | cons c rest => exact if_neg (Nat.not_le.mpr c.utf8Size_pos)
  | cons c front ih =>
      rw [String.utf8Len_cons, List.cons_append, Reading.fitting, if_pos (Nat.le_add_left _ _),
        Nat.add_sub_cancel, ih]

/-- What was written behind a mark is gone when the text is cut back to the mark. -/
theorem truncate_append (f : Draft) (more : String) :
    ({ f with text := f.text ++ more } : Draft).truncate f.text.utf8ByteSize = f := by
  have htext : String.ofList (Reading.fitting f.text.utf8ByteSize (f.text ++ more).toList) =
      f.text := by
    rw [String.toList_append, ← String.utf8Len_toList, fitting_append, String.ofList_toList]
  rw [truncate, htext]

end Draft

namespace Writer

section

variable {cut : String → List String} (hcut : ∀ s, String.join (cut s) = s)
include hcut

theorem piece_meets (s : String) : (piece cut s).Meets (·.push s) where
  taken {f g} h := by
    obtain ⟨hroom, rfl⟩ := Draft.push_eq_some.mp h
    have hall : f.takeAll (cut s) = (true, { f with text := f.text ++ s }) := by
      have htaken : f.takeAll (cut s) = (true, { f with text := f.text ++ String.join (cut s) }) :=
        Draft.takeAll_of_le (by rw [hcut]; omega)
      rwa [hcut] at htaken
    have hspare : ({ f with text := f.text ++ s } : Draft).spare = true := by
      rw [Draft.spare, String.utf8ByteSize_append]
      exact decide_eq_true hroom
    refine ⟨?_, s, rfl⟩
    rw [piece, hall, hspare]
    rfl
  refused {f} h := by
    obtain ⟨taken, more, htaken, hall⟩ := f.takeAll_grows (cut s)
    refine ⟨more, ?_⟩
    rw [piece, htaken]
    refine congrArg (·, _) ?_
    cases taken with
    | false => rfl
    | true =>
        have hfull : ¬ f.text.utf8ByteSize + s.utf8ByteSize + Draft.reserve < f.capacity := by
          intro hroom
          rw [Draft.push, if_pos hroom] at h
          cases h
        rw [Bool.true_and, Draft.spare, hall rfl, hcut, String.utf8ByteSize_append]
        exact decide_eq_false hfull

theorem comma_meets : (comma cut).Meets Draft.separate :=
  .ite done_meets (piece_meets hcut ",")

theorem field_meets (name value : String) : (field cut name value).Meets (·.field name value) :=
  .ite failed_meets ((comma_meets hcut).followed (piece_meets hcut _))

theorem escaped_meets (chars : List Char) : (escaped cut chars).Meets (·.pushEscaped chars) := by
  induction chars with
  | nil => exact done_meets
  | cons c rest ih => exact (piece_meets hcut (escape c)).followed ih

theorem textField_meets (name text : String) :
    (textField cut name text).Meets (·.textField name text) :=
  (field_meets hcut name "\"").followed
    ((escaped_meets hcut text.toList).followed (piece_meets hcut "\""))

theorem meanFields_meets (name mean least greatest : String) :
    (meanFields cut name mean least greatest).Meets (·.meanFields name mean least greatest) :=
  (field_meets hcut name mean).followed
    ((field_meets hcut (name ++ "_min") least).followed (field_meets hcut (name ++ "_max") greatest))

theorem entry_meets (name : String) (t : Tally) : (entry cut name t).Meets (·.append name t) := by
  unfold entry Draft.append
  cases t.summary with
  | empty => exact done_meets
  | text last => exact textField_meets hcut name last
  | integer sum least greatest =>
      simp only []
      split
      · exact field_meets hcut name _
      · exact meanFields_meets hcut name _ _ _
  | float sum least greatest =>
      simp only []
      split
      · exact field_meets hcut name _
      · exact meanFields_meets hcut name _ _ _

/-- Whatever fragments a text is cut into, an entry written piece by piece, with the cut at the end,
is the entry that the draft takes or refuses. -/
theorem back_eq (m : Definition) (t : Tally) (f : Draft) :
    (entry cut m.name t).back f = f.appendStep m t := by
  have hentry := entry_meets hcut m.name t
  unfold back Draft.appendStep
  cases happend : f.append m.name t with
  | some g => rw [(hentry.taken happend).1]
  | none =>
      obtain ⟨more, hfails⟩ := hentry.refused happend
      rw [hfails]
      simp only [Draft.truncate_append]

end

end Writer

/-! ## The text of an entry -/

/-- What an entry adds to a frame: its fields, behind a comma unless they are the first. -/
def entryText (old name : String) (t : Tally) : String :=
  match fieldsOf name t with
  | [] => ""
  | fields => (if old = "\x7b" then "" else ",") ++ listedText fields

namespace Draft

variable {f : Draft} {fields : List Field}

theorem comma_eq_of_writing (h : f.text.toList = '{' :: listed fields) :
    f.comma = if f.text = "\x7b" then "" else "," := by
  have hbrace : f.text = "\x7b" ↔ fields = [] := by
    rw [← String.toList_inj, h]
    cases fields with
    | nil => simp [listed]
    | cons x fields =>
        obtain ⟨front, c, hlast, -⟩ := closes_listed x fields
        simp [hlast]
  rw [← String.toList_inj, comma_writing h]
  cases fields with
  | nil => rw [if_pos (hbrace.mpr rfl)]; rfl
  | cons x fields => rw [if_neg fun heq => List.cons_ne_nil x fields (hbrace.mp heq)]; rfl

/-- In a frame that was opened an entry is one piece, an empty one included. -/
theorem append_eq_push (h : Sheet.Shows f (.writing fields)) (name : String) (t : Tally) :
    f.append name t = f.push (entryText f.text name t) := by
  obtain ⟨htext, hspare⟩ := h
  rw [append_eq (isEmpty_of_toList htext), comma_eq_of_writing htext, entryText]
  cases fieldsOf name t with
  | nil => simp [push, hspare]
  | cons x more => rfl

theorem appendStep_eq (h : Sheet.Shows f (.writing fields)) (m : Definition) (t : Tally) :
    f.appendStep m t =
      if f.text.utf8ByteSize + (entryText f.text m.name t).utf8ByteSize + reserve < f.capacity then
        (.ok (), { f with text := f.text ++ entryText f.text m.name t })
      else (.error .bufferFull, f) := by
  rw [appendStep, append_eq_push h, push]
  by_cases hroom : f.text.utf8ByteSize + (entryText f.text m.name t).utf8ByteSize + reserve < f.capacity
  · rw [if_pos hroom, if_pos hroom]
  · rw [if_neg hroom, if_neg hroom]

theorem openStep_capacity (f : Draft) : f.openStep.2.capacity = f.capacity := by
  unfold openStep
  cases hstart : f.start with
  | none => rfl
  | some g => exact (capacity_of_push hstart :)

theorem appendStep_capacity (m : Definition) (t : Tally) (f : Draft) :
    (f.appendStep m t).2.capacity = f.capacity := by
  unfold appendStep
  cases happend : f.append m.name t with
  | none => rfl
  | some g =>
      have hwhole : ∀ s : String, String.join [s] = s := fun s => by simp
      obtain ⟨-, more, rfl⟩ := (Writer.entry_meets hwhole m.name t).taken happend
      rfl

end Draft

/-! ## Entries in an open frame -/

/-- Whether a call adds to the frame. -/
def Ask.appends : Ask → Bool
  | .append _ _ | .appendReading _ _ => true
  | _ => false

theorem Sheet.afterAll_writing {asks : List Ask} (hasks : ∀ a ∈ asks, a.appends = true)
    (answers : List (Except FrameError Unit)) (fields : List Field) :
    ∃ more, (Sheet.writing fields).afterAll asks answers = .writing more := by
  induction asks generalizing fields answers with
  | nil => exact ⟨fields, rfl⟩
  | cons a rest ih =>
      have hrest : ∀ a ∈ rest, a.appends = true := fun a ha => hasks a (List.mem_cons_of_mem _ ha)
      have ha := hasks a List.mem_cons_self
      cases answers with
      | nil => exact ⟨fields, rfl⟩
      | cons answer answers =>
          cases a with
          | append m t => cases answer <;> exact ih hrest answers _
          | appendReading m r => cases answer <;> exact ih hrest answers _
          | openFrame => cases ha
          | send => cases ha
          | reset => cases ha

namespace Station

variable {V : Type} (log : Logger V) (link : Transport V)

theorem appends_capacity {asks : List Ask} (hasks : ∀ a ∈ asks, a.appends = true)
    (st : Station V) :
    ((Ask.performAll (radio log link) asks).run st).2.draft.capacity = st.draft.capacity := by
  induction asks generalizing st with
  | nil => rfl
  | cons a rest ih =>
      refine (ih (fun a ha => hasks a (List.mem_cons_of_mem _ ha)) _).trans ?_
      have ha := hasks a List.mem_cons_self
      cases a with
      | append m t => exact Draft.appendStep_capacity m t st.draft
      | appendReading m r =>
          obtain ⟨v, hrun⟩ := appendReading_run log link st m r
          exact (congrArg (·.2.draft.capacity) hrun).trans
            (Draft.appendStep_capacity m (single r) st.draft)
      | openFrame => cases ha
      | send => cases ha
      | reset => cases ha

/-- In a frame that was opened, after any calls that add to it, an entry is taken as a whole if its
text leaves the reserve free, and otherwise the frame stays as it is; it makes no difference that a
buffer of that size takes the entry in fragments and has to be cut back. So the frame can be closed
and handed over at any time. -/
theorem append_whole (st : Station V) (hopen : ((radio log link).openFrame.run st).1 = .ok ())
    (asks : List Ask) (hasks : ∀ a ∈ asks, a.appends = true) (m : Definition) (t : Tally) :
    let opened := ((radio log link).openFrame.run st).2
    let filled := ((Ask.performAll (radio log link) asks).run opened).2
    let old := filled.draft.text
    let entry := entryText old m.name t
    let added := ((radio log link).append m t).run filled
    (if old.utf8ByteSize + entry.utf8ByteSize + 2 < st.draft.capacity then
        added.1 = .ok () ∧ added.2.draft.text = old ++ entry
      else added.1 = .error .bufferFull ∧ added.2.draft.text = old) ∧
    (∀ cut : String → List String, (∀ s, String.join (cut s) = s) →
      (Writer.entry cut m.name t).back filled.draft = (added.1, added.2.draft)) ∧
    added.2.draft.text.utf8ByteSize + 1 ≤ st.draft.capacity ∧
    ((radio log link).send.run added.2).2.handed =
      added.2.handed ++ [(added.2.draft.text ++ "\x7d").toUTF8] := by
  intro opened filled old entry added
  obtain ⟨fields, hafter⟩ := Sheet.afterAll_writing hasks
    ((Ask.performAll (radio log link) asks).run opened).1 []
  have hshows : Sheet.Shows filled.draft (.writing fields) :=
    hafter ▸ performAll_shows log link opened asks (open_shows hopen)
  have hcapacity : filled.draft.capacity = st.draft.capacity :=
    (appends_capacity log link hasks opened).trans st.draft.openStep_capacity
  have hadded : (added.1, added.2.draft) = filled.draft.appendStep m t := rfl
  have hstep := Draft.appendStep_eq hshows m t
  obtain ⟨more, hopened⟩ : ∃ more, Sheet.Shows added.2.draft (.writing more) := by
    have hafter := appendStep_shows hshows m t
    revert hafter
    cases (filled.draft.appendStep m t).1 <;> exact fun hafter => ⟨_, hafter⟩
  refine ⟨?_, ?_, ?_, handed_close (Draft.close_eq hopened)⟩
  · rw [← hadded, hcapacity] at hstep
    have hadds : (added.1, added.2.draft) =
        if old.utf8ByteSize + entry.utf8ByteSize + 2 < st.draft.capacity then
          (.ok (), ⟨st.draft.capacity, old ++ entry⟩)
        else (.error .bufferFull, filled.draft) := hstep
    split at hadds
    · next hroom =>
        rw [if_pos hroom]
        exact ⟨congrArg Prod.fst hadds, congrArg (·.2.text) hadds⟩
    · next hfull =>
        rw [if_neg hfull]
        exact ⟨congrArg Prod.fst hadds, congrArg (·.2.text) hadds⟩
  · exact fun cut hcut => Writer.back_eq hcut m t filled.draft
  · have hspare := hopened.2
    rw [show added.2.draft.capacity = st.draft.capacity from
      (Draft.appendStep_capacity m t filled.draft).trans hcapacity, Draft.reserve] at hspare
    omega

/-- The third field of an entry finds no room: the two before it and the comma have gone in and are
cut off again, and the frame that is sent has the first entry only. -/
theorem append_whole_refused :
    let st : Station Unit := ⟨⟨40, ""⟩, (), []⟩
    let opened := ((radio silent sink).openFrame.run st).2
    let asks : List Ask := [.append (called "A") { summary := .integer 1 1 1, samples := 1 }]
    let filled := ((Ask.performAll (radio silent sink) asks).run opened).2
    let t : Tally := { summary := .integer 0 (-1000000) 1000000, samples := 2 }
    let added := ((radio silent sink).append (called "B") t).run filled
    (Writer.entry (fun s => [s]) "B" t filled.draft).2.text =
        "\x7b\"A\" : 1,\"B\" : 0,\"B_min\" : -1000000," ∧
      (Writer.entry (fun s => [s]) "B" t).back filled.draft = (added.1, added.2.draft) ∧
      added.1 = .error .bufferFull ∧ added.2.draft.text = "\x7b\"A\" : 1" ∧
      ((radio silent sink).send.run added.2).2.handed = [("\x7b\"A\" : 1\x7d" : String).toUTF8] := by
  intro st opened asks filled t added
  have hold : filled.draft.text = "\x7b\"A\" : 1" := by decide +kernel
  have hhanded : added.2.handed = [] := rfl
  obtain ⟨hresult, hback, -, hsent⟩ := append_whole silent sink st rfl asks
    (fun a ha => by cases List.mem_singleton.mp ha; rfl) (called "B") t
  rw [if_neg (by decide +kernel)] at hresult
  obtain ⟨hrefused, hsame⟩ := hresult
  refine ⟨by decide +kernel, hback _ fun s => by simp, hrefused, hsame.trans hold, ?_⟩
  rw [hsent, hhanded, hsame, hold]
  rfl

end Station

end Telemetry.Frame
