import Telemetry.Proofs.Gathering
import Telemetry.Proofs.Reliable
import Telemetry.Proofs.Resuming

/-!
# Frames that take everything

If the radio refuses nothing, a cycle is over with its first frame. This file
says what such a frame is to a single measurement. Names are distinct, so one
slot at most has the name, and what the frame has of it is its tally if it is
ready and nothing otherwise (`Outgoing.Sends.all`).

Nothing that the schedule does to a measurement asks for a send outside of it,
so a table without requests stays one (`Table.Plain`).
-/

namespace Telemetry

/-! ## A frame for everything -/

namespace Outgoing

variable {kind : Definition → ValueKind} {o o' : Outgoing} {now : Timestamp} {calls : List Call}

theorem Fills.through {queued : UInt16} {complete : Bool}
    (h : o.Fills (o', queued, complete) calls) (hfine : ∀ c ∈ calls, c.Fine kind) :
    o'.uplink.cursor = o'.uplink.capacity := by
  cases h with
  | walked h =>
      obtain ⟨pre, rest, more, -, -, -, rfl, hends⟩ := Appends.passes_stretch h
      cases hends with
      | through => rfl
      | @full e rest cause h =>
          cases hfine (.append e.definition e.tally (.error cause)) (by simp)

/-- A send that fills a frame, and of which all calls are fine, leaves nothing
for another. -/
theorem Sends.whole {outcome : SendOutcome} {count : UInt32} {before todo beyond : List Slot}
    (h : o.Sends now (o', outcome) calls) (hsteady : ∃ o₁, Steadily (o₁, outcome))
    (hfine : ∀ c ∈ calls, c.Fine kind) (hfaces : o.Faces count before todo beyond) :
    Dispatches count todo [] outcome calls ∧ o'.Leaves count before todo [] beyond ∧
      o'.uplink.pending = false := by
  have hsteady : Steadily (o', outcome) := by
    obtain ⟨o₁, hsteady⟩ := hsteady
    cases hsteady with
    | complete queued => exact .complete queued
    | fragment queued => exact .fragment queued
    | nothing h₁ =>
        refine .nothing ?_
        cases h with
        | nothing hfill hzero =>
            have hcursor := hfill.through fun c hc => hfine c (List.mem_cons_of_mem _ hc)
            rw [ticked]
            split
            · exact hcursor
            · exact hcursor
        | handed hfill hsome hhand => cases hhand
  obtain ⟨pre, rest, rfl, hdispatches, hleaves, hpending⟩ := h.dispatches hsteady hfaces
  cases hdispatches with
  | nothing hnone =>
      rw [List.append_nil]
      exact ⟨.nothing hnone, hleaves, hpending⟩
  | complete hsome =>
      rw [List.append_nil]
      exact ⟨.complete hsome, hleaves, hpending⟩
  | @fragment e rest cause hsome he =>
      cases hfine (.append e.definition e.tally (.error cause)) (by simp)

end Outgoing

/-! ## Requests -/

namespace Entry

variable {e e' : Entry} {own : List Call}

theorem Handled.requested_eq (h : e.Handled own e') :
    e'.tally.instantRequested = e.tally.instantRequested := by
  cases h with
  | appended h => cases h <;> rfl
  | answered h => cases h <;> rfl
  | cleared => rfl

theorem Handlings.requested_eq (h : e.Handlings own e') :
    e'.tally.instantRequested = e.tally.instantRequested := by
  induction h with
  | nil e => rfl
  | cons h _ ih => rw [ih, h.requested_eq]

end Entry

/-- A table without requests, all within some slots, under different names. -/
structure Table.Plain (t : Table) (capacity : Nat) : Prop where
  distinct : t.Distinct
  within : ∀ i e, t.get? i = some e → i < capacity
  unasked : ∀ i e, t.get? i = some e → e.tally.instantRequested = false

namespace Table.Plain

variable {t t' : Table} {capacity : Nat} {deal : Entry → List Call → Entry → Prop}
  {calls : List Call}

theorem passes (ht : t.Plain capacity) (h : t.Passes deal t' calls)
    (hdeal : ∀ e own e', deal e own e' → e'.definition = e.definition ∧
      e'.tally.instantRequested = e.tally.instantRequested) : t'.Plain capacity where
  distinct := h.distinct (fun _ _ _ hd => (hdeal _ _ _ hd).1) ht.distinct
  within i e' hi' := by
    obtain ⟨e, own, hi, -⟩ := h.origin hi'
    exact ht.within i e hi
  unasked i e' hi' := by
    obtain ⟨e, own, hi, hd⟩ := h.origin hi'
    rw [(hdeal _ _ _ hd).2]
    exact ht.unasked i e hi

theorem hasRequests (ht : t.Plain capacity) : t.hasRequests = false := by
  rw [Table.hasRequests, List.any_eq_false]
  intro e he
  obtain ⟨slot, hslot, heq⟩ := List.mem_filterMap.mp he
  obtain ⟨i, hi⟩ := List.mem_iff_getElem?.mp hslot
  rw [ht.unasked i e (get?_eq_some.mpr (by rw [hi, show slot = some e from heq]))]
  exact Bool.false_ne_true

end Table.Plain

/-! ## Frames of one measurement -/

/-- Notes of which none is of an append have no frame. -/
theorem framed_of_quiet {notes : List Note} (h : notes.filterMap Note.takes = []) (name : String) :
    framed (notes.filter (·.concerns name)) = [] := by
  rw [List.filterMap_eq_nil_iff] at h
  refine List.filterMap_eq_nil_iff.mpr fun note hnote => ?_
  have htakes := h note (List.mem_of_mem_filter hnote)
  split
  · cases htakes
  · rfl

theorem framed_append (notes more : List Note) :
    framed (notes ++ more) = framed notes ++ framed more := List.filterMap_append

namespace Slot

variable {count : UInt32} {slots : List Slot} {name : String}

theorem ready_unnamed
    (h : ∀ (j : Nat) (e : Entry), slots[j]? = some (some e) → e.name ≠ name) :
    (ready count slots).filter (·.name == name) = [] := by
  refine List.filter_eq_nil_iff.mpr fun e he => ?_
  obtain ⟨slot, hslot, hready⟩ := List.mem_filterMap.mp he
  obtain ⟨rfl, -⟩ := Option.filter_eq_some_iff.mp hready
  obtain ⟨j, hj⟩ := List.mem_iff_getElem?.mp hslot
  rw [beq_iff_eq]
  exact h j e hj

/-- Of the measurements that a frame takes one at most has the name of a slot. -/
theorem ready_named {i : Nat} {e : Entry} (hi : slots[i]? = some (some e))
    (hothers : ∀ (j : Nat) (e' : Entry), slots[j]? = some (some e') → e'.name = e.name → j = i) :
    (ready count slots).filter (·.name == e.name) = if e.ready count = true then [e] else [] := by
  induction slots generalizing i with
  | nil => cases hi
  | cons slot rest ih =>
      cases i with
      | zero =>
          cases hi
          have hrest : (ready count rest).filter (·.name == e.name) = [] :=
            ready_unnamed fun j e' hj hname => by cases hothers (j + 1) e' hj hname
          rw [ready_cons]
          split
          · rw [List.filter_cons, if_pos (beq_self_eq_true _), hrest]
          · exact hrest
      | succ i =>
          have hrest := ih hi fun j e' hj hname =>
            Nat.succ_inj.mp (hothers (j + 1) e' hj hname)
          cases slot with
          | none => exact hrest
          | some e₀ =>
              have hname : ¬ (e₀.name == e.name) = true := fun heq => by
                cases hothers 0 e₀ rfl (beq_iff_eq.mp heq)
              rw [ready_cons]
              split
              · rw [List.filter_cons, if_neg hname, hrest]
              · exact hrest

end Slot

namespace Outgoing

/-- What a frame that leaves nothing for another has of one measurement. -/
theorem Dispatches.framed {count : UInt32} {todo : List Slot} {outcome : SendOutcome}
    {calls : List Call} (h : Dispatches count todo [] outcome calls) (name : String) :
    Telemetry.framed ((Voice.schedule.notes calls).filter (·.concerns name)) =
      ((Slot.ready count todo).filter (·.name == name)).map Entry.tally := by
  have hentries : ∀ entries : List Entry, Telemetry.framed
      ((Voice.schedule.notes (entries.map Entry.appended)).filter (·.concerns name)) =
        (entries.filter (·.name == name)).map Entry.tally := by
    intro entries
    induction entries with
    | nil => rfl
    | cons e rest ih =>
        have habout : e.appended.about name = (e.name == name) := by
          rw [Bool.eq_iff_iff]
          simp [Call.about, Call.subject, Entry.appended, Entry.name]
        rw [filter_schedule] at ih ⊢
        rw [List.map_cons, List.filter_cons, List.filter_cons, habout]
        split
        · exact congrArg (e.tally :: ·) ih
        · exact ih
  have hquiet : ∀ c : Call, c.subject = none →
      (Voice.schedule.notes [c]).filter (·.concerns name) = [] := by
    intro c hc
    rw [filter_schedule, filter_about_eq_nil, Voice.notes_nil]
    intro c' hc'
    rw [List.mem_singleton.mp hc', hc]
    exact Option.some_ne_none _ |>.symm
  cases h with
  | nothing h =>
      rw [h, hquiet _ rfl]
      rfl
  | complete h =>
      rw [← List.singleton_append, Voice.notes_append, Voice.notes_append, List.filter_append,
        List.filter_append, hquiet _ rfl, hquiet _ rfl, List.nil_append, List.append_nil, hentries]

end Outgoing

/-- The table after a frame has passed its first slots. -/
theorem Table.get?_of_passed {t t' : Table} {count : UInt32} {capacity i : Nat}
    (h : t'.slots = Slot.passed count (t.slots.take capacity) ++ t.slots.drop capacity)
    (hi : i < capacity) : t'.get? i = (t.get? i).map (·.passed count) := by
  have hlen : (Slot.passed count (t.slots.take capacity)).length =
      min capacity t.slots.length := by
    rw [Slot.passed, List.length_map, List.length_take]
  rw [get?, get?, h]
  by_cases hlt : i < t.slots.length
  · rw [List.getElem?_append_left (by omega), Slot.passed, List.getElem?_map,
      List.getElem?_take_of_lt hi]
    cases t.slots[i]? with
    | none => rfl
    | some slot => rfl
  · have hnone : t.slots[i]? = none := List.getElem?_eq_none (by omega)
    rw [List.getElem?_append_right (by omega), List.getElem?_drop, hnone,
      List.getElem?_eq_none (by omega)]
    rfl

namespace Outgoing

/-- Of an idle cycle, a send that fills one frame takes all that is ready, and
begins a new tick. -/
theorem Sends.all {kind : Definition → ValueKind} {o o' : Outgoing} {now : Timestamp}
    {outcome : SendOutcome} {calls : List Call} (h : o.Sends now (o', outcome) calls)
    (hsteady : ∃ o₁, Steadily (o₁, outcome)) (hfine : ∀ c ∈ calls, c.Fine kind)
    (hidle : o.Idle) (hplain : o.table.Plain o.uplink.capacity) :
    o'.Idle ∧ o'.table.Plain o'.uplink.capacity ∧ o'.clock = o.clock.restart now ∧
      ∀ i e, o.table.get? i = some e →
        o'.table.get? i = some (e.passed o.clock.count) ∧
        Telemetry.framed ((Voice.schedule.notes calls).filter (·.concerns e.name)) =
          if e.ready o.clock.count = true then [e.tally] else [] := by
  obtain ⟨hdispatches, hleaves, hpending⟩ := h.whole hsteady hfine hidle.faces
  have hcursor : o'.uplink.cursor = o'.uplink.capacity := hleaves.cursor
  have hkept := hplain.passes h.passes fun _ _ _ hd => ⟨hd.definition_eq, hd.requested_eq⟩
  refine ⟨⟨hpending, ?_⟩, { hkept with within := fun i e' hi' => ?_ }, ?_, fun i e hi => ⟨?_, ?_⟩⟩
  · rw [Uplink.start, hcursor, if_pos (Nat.le_refl _)]
  · -- the frame has passed the slot, so it is within the capacity
    obtain ⟨e, own, hi, -⟩ := h.passes.origin hi'
    have hlt := Table.lt_of_get? hi
    have hwithin := hplain.within i e hi
    have hbound := hleaves.bound
    simp only [List.length_nil, List.length_take] at hbound
    omega
  · rw [h.clock_eq, hidle.pending]
    cases hdispatches <;> rfl
  · rw [Table.get?_of_passed hleaves.slots (hplain.within i e hi), hi]
    rfl
  · have hslot : (o.table.slots.take o.uplink.capacity)[i]? = some (some e) := by
      rw [List.getElem?_take_of_lt (hplain.within i e hi)]
      exact Table.get?_eq_some.mp hi
    have hothers : ∀ (j : Nat) (e' : Entry),
        (o.table.slots.take o.uplink.capacity)[j]? = some (some e') → e'.name = e.name → j = i := by
      intro j e' hj hname
      rw [List.getElem?_take] at hj
      split at hj
      · exact hplain.distinct j i e' e (Table.get?_eq_some.mpr hj) hi hname
      · cases hj
    rw [hdispatches.framed, Slot.ready_named hslot hothers]
    split <;> rfl

end Outgoing

end Telemetry
