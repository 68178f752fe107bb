import Telemetry.Proofs.Asides
import Telemetry.Proofs.Sends

/-!
# The table, slot by slot

Most of what is claimed of a node is claimed of each of its measurements, and a
measurement knows nothing of the others. `Table.Passes` says that one table
becomes another by something that is done to each measurement on its own, and
which calls are made for it; holes stay holes. Turns, polls, sends, answers and
reads are all of this kind.

That the calls for two measurements can be told apart needs different names,
which a table that passes into another keeps (`Passes.distinct`).
-/

namespace Telemetry

/-! ## Slots -/

namespace Table

def get? (t : Table) (i : Nat) : Option Entry := (t.slots[i]?).join

def Distinct (t : Table) : Prop :=
  ∀ i j e e', t.get? i = some e → t.get? j = some e' → e.name = e'.name → i = j

theorem get?_eq_some {t : Table} {i : Nat} {e : Entry} :
    t.get? i = some e ↔ t.slots[i]? = some (some e) := Option.join_eq_some_iff

theorem get?_empty (capacity : Nat) (fallback : UInt32) (i : Nat) :
    (empty capacity fallback).get? i = none := by
  rw [get?, empty, List.getElem?_replicate]
  split <;> rfl

theorem lt_of_get? {t : Table} {i : Nat} {e : Entry} (h : t.get? i = some e) :
    i < t.slots.length := (List.getElem?_eq_some_iff.mp (get?_eq_some.mp h)).1

theorem get?_put_self {t : Table} {i : Nat} (h : i < t.slots.length) (slot : Slot) :
    (t.put i slot).get? i = slot := by
  rw [get?, put, List.getElem?_set_self h, Option.join_some]

theorem get?_put_ne {t : Table} {i j : Nat} (h : i ≠ j) (slot : Slot) :
    (t.put i slot).get? j = t.get? j := by
  rw [get?, put, List.getElem?_set_ne h, get?]

theorem get?_clearAcks (t : Table) (i : Nat) :
    t.clearAcks.get? i = (t.get? i).map Entry.settled := by
  rw [get?, get?, clearAcks, List.getElem?_map]
  cases t.slots[i]? with
  | none => rfl
  | some slot => cases slot with
    | none => rfl
    | some e => rfl

theorem getElem?_window (t : Table) (lo hi k : Nat) :
    (t.window lo hi)[k]? = if k < hi - lo then t.slots[lo + k]? else none := by
  rw [window, List.getElem?_take, List.getElem?_drop]

theorem slots_of_window {t : Table} {lo hi k : Nat} {slot : Slot}
    (h : (t.window lo hi)[k]? = some slot) : t.slots[lo + k]? = some slot := by
  rw [getElem?_window] at h
  split at h
  · exact h
  · cases h

theorem window_of_slots {t : Table} {lo hi i : Nat} (hlo : lo ≤ i)
    (hlt : i < lo + (t.window lo hi).length) : (t.window lo hi)[i - lo]? = t.slots[i]? := by
  rw [window, List.length_take] at hlt
  rw [getElem?_window, if_pos (by omega), Nat.add_sub_cancel' hlo]

theorem capacity_withWindow {t : Table} {lo hi : Nat} {slots : List Slot}
    (hlen : slots.length = (t.window lo hi).length) :
    (t.withWindow lo slots).capacity = t.capacity := by
  rw [window, List.length_take, List.length_drop] at hlen
  simp only [capacity, withWindow, List.length_append, List.length_take, List.length_drop]
  omega

/-- A slot of the table, with other slots in the window. -/
theorem get?_withWindow {t : Table} {lo hi : Nat} {slots : List Slot}
    (hlen : slots.length = (t.window lo hi).length) (i : Nat) :
    (t.withWindow lo slots).get? i =
      if lo ≤ i ∧ i < lo + slots.length then (slots[i - lo]?).join else t.get? i := by
  rw [window, List.length_take, List.length_drop] at hlen
  rw [get?, get?, withWindow]
  split
  · next h =>
      rw [List.append_assoc, List.getElem?_append_right (by rw [List.length_take]; omega),
        List.length_take, Nat.min_eq_left (by omega), List.getElem?_append_left (by omega)]
  · next h =>
      by_cases hlo : i < lo
      · rw [List.append_assoc]
        by_cases hi : i < t.slots.length
        · rw [List.getElem?_append_left (by rw [List.length_take]; omega),
            List.getElem?_take_of_lt hlo]
        · have hnil : slots = [] := List.length_eq_zero_iff.mp (by omega)
          rw [hnil, List.length_nil, List.nil_append, Nat.add_zero, List.take_append_drop]
      · have hout : (t.slots.take lo ++ slots).length ≤ i := by
          rw [List.length_append, List.length_take]
          omega
        rw [List.getElem?_append_right hout, List.length_append, List.length_take,
          List.getElem?_drop]
        by_cases hin : lo ≤ t.slots.length
        · rw [Nat.min_eq_left hin, show lo + slots.length + (i - (lo + slots.length)) = i by omega]
        · rw [List.getElem?_eq_none (by omega), List.getElem?_eq_none (by omega)]

end Table

/-! ## Notes about a measurement -/

/-- The name of the measurement a call is made for. -/
def Call.subject : Call → Option String
  | .collectionTime m _ | .start m _ _ | .poll m _ | .collect m _ | .power m _ | .delivered m
  | .append m _ _ | .appendReading m _ _ => some m.name
  | .openFrame _ | .send _ | .reset | .onBattery | .sleepFor _ | .spin => none

/-- Whether a call is made for the measurement of a name. -/
def Call.about (name : String) (c : Call) : Bool := c.subject == some name

/-- Whether a note tells of the schedule's work on the measurement of a name. -/
def Note.concerns (name : String) : Note → Bool
  | .call .schedule c => c.about name
  | .call .aside _ => false
  | .turn _ | .sent _ _ => true

theorem filter_schedule (name : String) (calls : List Call) :
    (Voice.schedule.notes calls).filter (·.concerns name) =
      Voice.schedule.notes (calls.filter (·.about name)) := by
  rw [Voice.notes, List.filter_map]
  rfl

theorem filter_aside (name : String) (calls : List Call) :
    (Voice.aside.notes calls).filter (·.concerns name) = [] := by
  rw [Voice.notes, List.filter_map, List.map_eq_nil_iff, List.filter_eq_nil_iff]
  intro c _ hc
  cases hc

/-- Calls that are made for other measurements, or for none, are not heard. -/
theorem filter_about_eq_nil {name : String} {calls : List Call}
    (h : ∀ c ∈ calls, c.subject ≠ some name) : calls.filter (·.about name) = [] := by
  rw [List.filter_eq_nil_iff]
  intro c hc
  simpa only [Call.about, beq_iff_eq] using h c hc

theorem filter_about_eq_self {name : String} {calls : List Call}
    (h : ∀ c ∈ calls, c.subject = some name) : calls.filter (·.about name) = calls := by
  rw [List.filter_eq_self]
  intro c hc
  simpa only [Call.about, beq_iff_eq] using h c hc

/-! ## Tables that pass into others -/

/-- One table passes into another: something is done to each measurement on its
own, `deal` says what, and nothing to the holes. The calls about a measurement
are those that are made in dealing with it. -/
structure Table.Passes (deal : Entry → List Call → Entry → Prop) (t t' : Table)
    (calls : List Call) : Prop where
  capacity : t'.capacity = t.capacity
  hole : ∀ i, t.get? i = none → t'.get? i = none
  entry : ∀ i e, t.get? i = some e → ∃ e' own, t'.get? i = some e' ∧ deal e own e' ∧
    (t.Distinct → calls.filter (·.about e.name) = own)

namespace Table.Passes

variable {deal deal' : Entry → List Call → Entry → Prop} {t t' t'' : Table}
  {calls more : List Call}

theorem imp (h : t.Passes deal t' calls) (himp : ∀ e own e', deal e own e' → deal' e own e') :
    t.Passes deal' t' calls where
  capacity := h.capacity
  hole := h.hole
  entry i e hi := by
    obtain ⟨e', own, hi', hdeal, hown⟩ := h.entry i e hi
    exact ⟨e', own, hi', himp _ _ _ hdeal, hown⟩

/-- Nothing is done to any measurement, and no call is made for one. -/
theorem same (hdeal : ∀ e, deal e [] e) (hcalls : ∀ c ∈ calls, c.subject = none) :
    t.Passes deal t calls where
  capacity := rfl
  hole _ hi := hi
  entry _ e hi := by
    refine ⟨e, [], hi, hdeal e, fun _ => filter_about_eq_nil fun c hc => ?_⟩
    rw [hcalls c hc]
    exact Option.some_ne_none _ |>.symm

/-- All waiting for answers is dropped. -/
theorem cleared (hdeal : ∀ e, deal e [] e.settled) (hcalls : ∀ c ∈ calls, c.subject = none) :
    t.Passes deal t.clearAcks calls where
  capacity := t.capacity_clearAcks
  hole i hi := by rw [get?_clearAcks, hi, Option.map_none]
  entry i e hi := by
    refine ⟨e.settled, [], by rw [get?_clearAcks, hi, Option.map_some], hdeal e, fun _ => ?_⟩
    refine filter_about_eq_nil fun c hc => ?_
    rw [hcalls c hc]
    exact Option.some_ne_none _ |>.symm

/-- A measurement of the table afterwards was there before. -/
theorem origin (h : t.Passes deal t' calls) {i : Nat} {e' : Entry} (hi' : t'.get? i = some e') :
    ∃ e own, t.get? i = some e ∧ deal e own e' := by
  cases hi : t.get? i with
  | none =>
      rw [h.hole i hi] at hi'
      cases hi'
  | some e =>
      obtain ⟨_, own, hi₁, hdeal, _⟩ := h.entry i e hi
      rw [hi₁] at hi'
      cases hi'
      exact ⟨e, own, rfl, hdeal⟩

/-- What is done to a measurement keeps its name, so names stay distinct. -/
theorem distinct (h : t.Passes deal t' calls)
    (hname : ∀ e own e', deal e own e' → e'.definition = e.definition) (ht : t.Distinct) :
    t'.Distinct := by
  intro i j e e' hi hj heq
  obtain ⟨e₁, own₁, hi₁, h₁⟩ := h.origin hi
  obtain ⟨e₂, own₂, hj₂, h₂⟩ := h.origin hj
  refine ht i j e₁ e₂ hi₁ hj₂ ?_
  rw [Entry.name, Entry.name, ← hname _ _ _ h₁, ← hname _ _ _ h₂]
  exact heq

theorem trans {deal'' : Entry → List Call → Entry → Prop} (h : t.Passes deal t' calls)
    (hname : ∀ e own e', deal e own e' → e'.definition = e.definition)
    (hrest : t'.Passes deal' t'' more)
    (hjoin : ∀ e own e' own' e'', deal e own e' → deal' e' own' e'' →
      deal'' e (own ++ own') e'') :
    t.Passes deal'' t'' (calls ++ more) where
  capacity := hrest.capacity.trans h.capacity
  hole i hi := hrest.hole i (h.hole i hi)
  entry i e hi := by
    obtain ⟨e', own, hi', hdeal, hown⟩ := h.entry i e hi
    obtain ⟨e'', own', hi'', hdeal', hown'⟩ := hrest.entry i e' hi'
    refine ⟨e'', own ++ own', hi'', hjoin _ _ _ _ _ hdeal hdeal', fun ht => ?_⟩
    have heq : e'.name = e.name := by rw [Entry.name, Entry.name, hname e own e' hdeal]
    have hrest' := hown' (h.distinct hname ht)
    rw [heq] at hrest'
    rw [List.filter_append, hown ht, hrest']

/-- The entries of two slots have different names, one of them seen in a window. -/
theorem name_ne {lo hi i j : Nat} {e e₁ : Entry} (ht : t.Distinct) (hi' : t.get? i = some e)
    (hj : (t.window lo hi)[j]? = some (some e₁)) (hne : lo + j ≠ i) :
    some e₁.name ≠ some e.name := by
  intro heq
  exact hne (ht _ _ _ _ (get?_eq_some.mpr (slots_of_window hj)) hi' (Option.some_inj.mp heq))

/-- A sweep over a window of a table deals with every measurement of the window
by a visit, or leaves it alone. -/
theorem of_swept {σ : Type} {visit : Entry → σ → Entry × σ × Bool → List Call → Prop}
    {lo hi : Nat} {s : σ} {x : List Slot × σ × Option Nat}
    (h : Slot.Swept visit (t.window lo hi) s x calls)
    (hsubject : ∀ e s x own, visit e s x own → ∀ c ∈ own, c.subject = some e.name)
    (hspared : ∀ e, deal e [] e)
    (hdeal : ∀ e s e' s' stop own, visit e s (e', s', stop) own → deal e own e') :
    t.Passes deal (t.withWindow lo x.1) calls where
  capacity := capacity_withWindow h.length_eq
  hole i hi' := by
    rw [get?_withWindow h.length_eq]
    split
    · next hin =>
        rw [h.length_eq] at hin
        have hlt : i - lo < (t.window lo hi).length := by omega
        have hslot : (t.window lo hi)[i - lo]? = some none := by
          rw [get?, ← window_of_slots hin.1 hin.2, List.getElem?_eq_getElem hlt,
            Option.join_some] at hi'
          rw [List.getElem?_eq_getElem hlt, hi']
        rw [h.at_hole hslot, Option.join_some]
    · exact hi'
  entry i e hi' := by
    rw [get?_withWindow h.length_eq]
    split
    · next hin =>
        rw [h.length_eq] at hin
        have hslot : (t.window lo hi)[i - lo]? = some (some e) := by
          rw [window_of_slots hin.1 hin.2]
          exact get?_eq_some.mp hi'
        obtain ⟨e', before, own, after, he', hcalls, hvisit⟩ := h.at_slot hslot
        refine ⟨e', own, by rw [he', Option.join_some], ?_, fun ht => ?_⟩
        · rcases hvisit.visited with ⟨rfl, rfl⟩ | ⟨s₁, s₂, stop, hv⟩
          · exact hspared _
          · exact hdeal _ _ _ _ _ _ hv
        · have hothers : ∀ c ∈ before ++ after, c.subject ≠ some e.name := by
            intro c hc
            obtain ⟨j, e₁, s₁, x₁, cs, hne, hj, hv, hmem⟩ := hvisit.others c hc
            rw [hsubject _ _ _ _ hv c hmem]
            exact name_ne ht hi' hj (by omega)
          have hself : ∀ c ∈ own, c.subject = some e.name := by
            rcases hvisit.visited with ⟨_, rfl⟩ | ⟨s₁, s₂, stop, hv⟩
            · exact fun c hc => absurd hc List.not_mem_nil
            · exact hsubject _ _ _ _ hv
          rw [hcalls, List.filter_append, List.filter_append, filter_about_eq_self hself,
            filter_about_eq_nil fun c hc => hothers c (List.mem_append_left _ hc),
            filter_about_eq_nil fun c hc => hothers c (List.mem_append_right _ hc),
            List.nil_append, List.append_nil]
    · next hout =>
        refine ⟨e, [], hi', hspared e, fun ht => filter_about_eq_nil fun c hc => ?_⟩
        obtain ⟨j, e₁, s₁, x₁, cs, hj, hv, hmem⟩ := h.calls_of c hc
        have hlt := (List.getElem?_eq_some_iff.mp hj).1
        rw [hsubject _ _ _ _ hv c hmem]
        rw [h.length_eq] at hout
        exact name_ne ht hi' hj (by omega)

end Table.Passes

/-- One measurement of a table is dealt with, without a call. -/
theorem Table.Passes.put {deal : Entry → List Call → Entry → Prop} {t : Table} {i : Nat}
    {e e' : Entry} (hi : t.get? i = some e) (hdeal : deal e [] e')
    (hspared : ∀ e, deal e [] e) : t.Passes deal (t.put i (some e')) [] where
  capacity := t.capacity_put i (some e')
  hole j hj := by
    have hne : i ≠ j := by
      intro heq
      subst heq
      rw [hi] at hj
      cases hj
    rw [get?_put_ne hne, hj]
  entry j e₁ hj := by
    by_cases heq : i = j
    · subst heq
      rw [hi] at hj
      cases hj
      exact ⟨e', [], get?_put_self (lt_of_get? hi) _, hdeal, fun _ => rfl⟩
    · exact ⟨e₁, [], by rw [get?_put_ne heq, hj], hspared e₁, fun _ => rfl⟩

/-! ## What turns and polls are to a table -/

/-- What the sampler calls for a measurement. -/
inductive Call.Samples (m : Definition) : Call → Prop where
  | start (answer : Reply Unit) : Samples m (.start m false answer)
  | collect (answer : Reply Reading) : Samples m (.collect m answer)
  | collectionTime (answer : Option (Reply UInt32)) : Samples m (.collectionTime m answer)
  | poll (answer : Reply Unit) : Samples m (.poll m answer)

theorem Call.Samples.subject {m : Definition} {c : Call} (h : c.Samples m) :
    c.subject = some m.name := by
  cases h <;> rfl

namespace Sampler

variable {p : Plan} {m : Definition} {t : Tally} {s : SamplerStats} {e : Entry} {calls : List Call}

theorem StartTurns.asks {x : Tally × SamplerStats × UInt64} (h : StartTurns p m t s x calls) :
    ∀ c ∈ calls, ∃ answer, c = .start m false answer := by
  cases h with
  | early h => exact fun c hc => absurd hc List.not_mem_nil
  | due h hstart =>
      cases hstart with
      | refused h => exact fun c hc => absurd hc List.not_mem_nil
      | opened h => exact fun c hc => ⟨_, List.mem_singleton.mp hc⟩
      | failed h cause => exact fun c hc => ⟨_, List.mem_singleton.mp hc⟩
      | busy h => exact fun c hc => ⟨_, List.mem_singleton.mp hc⟩

theorem CollectTurns.asks {collectAt : UInt64} {x : Tally × SamplerStats × Option UInt64}
    (h : CollectTurns p m collectAt t s x calls) :
    ∀ c ∈ calls, (∃ answer, c = .collect m answer) ∨ ∃ answer, c = .collectionTime m answer := by
  cases h with
  | idle h => exact fun c hc => absurd hc List.not_mem_nil
  | early hopen h => exact fun c hc => absurd hc List.not_mem_nil
  | astray hne hopen => exact fun c hc => absurd hc List.not_mem_nil
  | due hopen h hcollect =>
      cases hcollect with
      | failed cause => exact fun c hc => .inl ⟨_, List.mem_singleton.mp hc⟩
      | busy => exact fun c hc => .inl ⟨_, List.mem_singleton.mp hc⟩
      | done r leadTime answer hlead =>
          intro c hc
          rcases List.mem_cons.mp hc with rfl | hc
          · exact .inl ⟨_, rfl⟩
          · exact .inr ⟨_, List.mem_singleton.mp hc⟩

theorem Visits.samples {guard : UInt32} {clock : TransmitClock} {now : Timestamp}
    {s : SamplerStats × Option UInt64} {x : Entry × SamplerStats × Option UInt64}
    (h : Visits guard clock now e s x calls) : ∀ c ∈ calls, c.Samples e.definition := by
  cases h with
  | idle h => exact fun c hc => absurd hc List.not_mem_nil
  | active h hturn =>
      cases hturn with
      | turn hstart hcollect =>
          intro c hc
          rcases List.mem_append.mp hc with hc | hc
          · obtain ⟨answer, rfl⟩ := hstart.asks c hc
            exact .start answer
          · rcases hcollect.asks c hc with ⟨answer, rfl⟩ | ⟨answer, rfl⟩
            · exact .collect answer
            · exact .collectionTime answer

theorem Polls.samples {s : SamplerStats × UInt32} {x : Entry × SamplerStats × UInt32}
    (h : Polls e s x calls) : ∀ c ∈ calls, c.Samples e.definition := by
  cases h with
  | idle h => exact fun c hc => absurd hc List.not_mem_nil
  | failed h cause =>
      intro c hc
      rw [List.mem_singleton.mp hc]
      exact .poll _
  | asked h answer hfine =>
      intro c hc
      rw [List.mem_singleton.mp hc]
      exact .poll _

end Sampler

namespace Entry

/-- What a turn of the sampler is to a measurement. -/
def TurnedTo (guard : UInt32) (clock : TransmitClock) (now : Timestamp) (e : Entry)
    (own : List Call) (e' : Entry) : Prop :=
  e' = e ∧ own = [] ∨ ∃ s s', Sampler.Visits guard clock now e s (e', s') own

/-- What a round of polls is to a measurement. -/
def PolledTo (e : Entry) (own : List Call) (e' : Entry) : Prop :=
  e' = e ∧ own = [] ∨ ∃ s s', Sampler.Polls e s (e', s') own

end Entry

/-- A whole table, seen as a window. -/
theorem Table.window_capacity (t : Table) : t.window 0 t.capacity = t.slots := by
  rw [window, List.drop_zero, Nat.sub_zero, capacity, List.take_length]

theorem Table.withWindow_zero {t : Table} {slots : List Slot}
    (h : slots.length = t.slots.length) : t.withWindow 0 slots = { t with slots } := by
  rw [withWindow, List.take_zero, List.nil_append, Nat.zero_add, h, List.drop_length,
    List.append_nil]

theorem Sampler.Turns.passes {s s' : Sampler} {t t' : Table} {clock : TransmitClock}
    {now : Timestamp} {calls : List Call} (h : s.Turns t clock now (s', t') calls) :
    t.Passes (Entry.TurnedTo s.guard clock now) t' calls := by
  cases h with
  | turn h =>
      have hlen := h.length_eq
      rw [← t.window_capacity] at h
      rw [← Table.withWindow_zero hlen]
      refine .of_swept h ?_ (fun e => .inl ⟨rfl, rfl⟩) ?_
      · exact fun e s x own hv c hc => (hv.2.samples c hc).subject
      · exact fun e s e' s' stop own hv => .inr ⟨s, s', hv.2⟩

theorem Sampler.PollsOpen.passes {s s' : Sampler} {t t' : Table} {polled : UInt32}
    {calls : List Call} (h : s.PollsOpen t (s', t', polled) calls) :
    t.Passes Entry.PolledTo t' calls := by
  cases h with
  | polled h =>
      have hlen := h.length_eq
      rw [← t.window_capacity] at h
      rw [← Table.withWindow_zero hlen]
      refine .of_swept h ?_ (fun e => .inl ⟨rfl, rfl⟩) ?_
      · exact fun e s x own hv c hc => (hv.2.samples c hc).subject
      · exact fun e s e' s' stop own hv => .inr ⟨s, s', hv.2⟩

/-! ## What sends and answers are to a table -/

namespace Outgoing

theorem Appends.subject {count : UInt32} {e : Entry} {s : UInt16 × UplinkStats}
    {x : Entry × (UInt16 × UplinkStats) × Bool} {calls : List Call}
    (h : Appends count e s x calls) : ∀ c ∈ calls, c.subject = some e.name := by
  cases h with
  | idle h => exact fun c hc => absurd hc List.not_mem_nil
  | unsampled h hs => exact fun c hc => absurd hc List.not_mem_nil
  | refused h hs cause => simp [Call.subject, Entry.name]
  | accepted h hs => simp [Call.subject, Entry.name]

theorem Settles.subject {count : UInt32} {e : Entry} {s : Unit} {x : Entry × Unit}
    {calls : List Call} (h : Settles count e s x calls) :
    ∀ c ∈ calls, c.subject = some e.name := by
  cases h with
  | idle h => exact fun c hc => absurd hc List.not_mem_nil
  | settled h hwaits => simp [Call.subject, Entry.name]

end Outgoing

namespace Entry

/-- What a send or an answer may do to a measurement at a time. -/
inductive Handled (e : Entry) : List Call → Entry → Prop where
  | appended {count : UInt32} {s s' : UInt16 × UplinkStats} {e' : Entry} {stop : Bool}
      {own : List Call} (h : Outgoing.Appends count e s (e', s', stop) own) : Handled e own e'
  | answered {count : UInt32} {s s' : Unit} {e' : Entry} {own : List Call}
      (h : Outgoing.Settles count e s (e', s') own) : Handled e own e'
  | cleared : Handled e [] e.settled

/-- What a send or an answer is to a measurement. -/
inductive Handlings : Entry → List Call → Entry → Prop where
  | nil (e : Entry) : Handlings e [] e
  | cons {e e' e'' : Entry} {own more : List Call} (h : e.Handled own e')
      (hrest : Handlings e' more e'') : Handlings e (own ++ more) e''

theorem Handlings.single {e e' : Entry} {own : List Call} (h : e.Handled own e') :
    e.Handlings own e' := by
  have hone := Handlings.cons h (.nil e')
  rwa [List.append_nil] at hone

theorem Handlings.trans {e e' e'' : Entry} {own more : List Call} (h : e.Handlings own e')
    (hrest : e'.Handlings more e'') : e.Handlings (own ++ more) e'' := by
  induction h with
  | nil e => exact hrest
  | cons h _ ih =>
      rw [List.append_assoc]
      exact .cons h (ih hrest)

/-- A property that is kept at a time is kept by all of it. -/
theorem Handlings.keeps {claim : Entry → Prop}
    (hkeep : ∀ e own e', e.Handled own e' → claim e → claim e') {e e' : Entry}
    {own : List Call} (h : e.Handlings own e') (he : claim e) : claim e' := by
  induction h with
  | nil e => exact he
  | cons h _ ih => exact ih (hkeep _ _ _ h he)

theorem Handled.definition_eq {e e' : Entry} {own : List Call} (h : e.Handled own e') :
    e'.definition = e.definition := by
  cases h with
  | appended h => cases h <;> rfl
  | answered h => cases h <;> rfl
  | cleared => rfl

theorem Handlings.definition_eq {e e' : Entry} {own : List Call} (h : e.Handlings own e') :
    e'.definition = e.definition := by
  induction h with
  | nil e => rfl
  | cons h _ ih => rw [ih, h.definition_eq]

end Entry

namespace Outgoing

/-- A call that is made for no measurement. -/
theorem subject_openFrame (answer : Except FrameError Unit) :
    ∀ c ∈ [Call.openFrame answer], c.subject = none := by
  simp [Call.subject]

theorem Fills.passes {o o' : Outgoing} {queued : UInt16} {complete : Bool} {calls : List Call}
    (h : o.Fills (o', queued, complete) calls) :
    o.table.Passes Entry.Handlings o'.table calls := by
  cases h with
  | walked h =>
      refine .of_swept h (fun e s x own hv => hv.subject) (fun e => .nil e) ?_
      exact fun e s e' s' stop own hv => .single (.appended hv)

theorem HandsOver.passes {o : Outgoing} {queued : UInt16} {complete : Bool}
    {x : Outgoing × SendOutcome} {calls : List Call} (h : o.HandsOver queued complete x calls) :
    o.table.Passes Entry.Handlings x.1.table calls := by
  cases h with
  | failed cause =>
      exact .cleared (fun e => .single .cleared) (by simp [Call.subject])
  | last h => exact .same (fun e => .nil e) (by simp [Call.subject])
  | part h => exact .same (fun e => .nil e) (by simp [Call.subject])

theorem ticked_table (o : Outgoing) (now : Timestamp) : (o.ticked now).table = o.table := by
  unfold ticked
  split <;> rfl

theorem Sends.passes {o : Outgoing} {now : Timestamp} {x : Outgoing × SendOutcome}
    {calls : List Call} (h : o.Sends now x calls) :
    o.table.Passes Entry.Handlings x.1.table calls := by
  have hopen : o.table.Passes Entry.Handlings o.table [.openFrame (.ok ())] :=
    .same (fun e => .nil e) (subject_openFrame _)
  have hopened : ∀ {t : Table} {more : List Call}, o.table.Passes Entry.Handlings t more →
      o.table.Passes Entry.Handlings t (.openFrame (.ok ()) :: more) :=
    fun h => hopen.trans (fun _ _ _ h => h.definition_eq) h fun _ _ _ _ _ h h' => h.trans h'
  cases h with
  | stillOffline h => exact .same (fun e => .nil e) (by simp)
  | lostLink h => exact .same (fun e => .nil e) (by simp)
  | deferred => exact .same (fun e => .nil e) (by simp)
  | timedOut h hlate => exact .cleared (fun e => .single .cleared) (by simp [Call.subject])
  | stillPending h hearly => exact .same (fun e => .nil e) (by simp)
  | newlyPending h => exact .same (fun e => .nil e) (by simp)
  | initFailed cause => exact .same (fun e => .nil e) (subject_openFrame _)
  | nothing hfill h =>
      refine hopened ?_
      rw [ticked_table]
      exact hfill.passes
  | handed hfill h hhand =>
      have hover := hhand.passes
      rw [ticked_table] at hover
      exact hopened (hfill.passes.trans (fun _ _ _ h => h.definition_eq) hover
        fun _ _ _ _ _ h h' => h.trans h')

theorem Answers.passes {o : Outgoing} {now : Timestamp} {good : Bool}
    {x : Outgoing × Option SendOutcome} {calls : List Call} (h : o.Answers now good x calls) :
    o.table.Passes Entry.Handlings x.1.table calls := by
  have hsettled : ∀ {slots : List Slot} {own : List Call},
      Slot.Swept (Slot.Through (Settles o.clock.count))
        (o.table.window o.uplink.previous o.uplink.reach) () (slots, (), none) own →
      o.table.Passes Entry.Handlings (o.table.withWindow o.uplink.previous slots) own := by
    intro slots own h
    refine .of_swept h (fun e s x own hv => hv.2.subject) (fun e => .nil e) ?_
    exact fun e s e' s' stop own hv => .single (.answered hv.2)
  cases h with
  | bad => exact .cleared (fun e => .single .cleared) (by simp)
  | last h hpending => exact hsettled h
  | next h hpending hsend =>
      exact (hsettled h).trans (fun _ _ _ h => h.definition_eq) hsend.passes
        fun _ _ _ _ _ h h' => h.trans h'

end Outgoing

end Telemetry
