import Telemetry.Proofs.Frames
import Telemetry.Proofs.Stays

/-!
# Walks over the table

A frame that is full leaves the cursor at the slot that did not fit, and later
frames walk on from there. `Table.Walk` says what such a walk takes, slot by
slot: a measurement is taken if it is due and has samples when the walk comes to
it, by one count of the transmit clock.

Between two frames nothing is lost of what the slots ahead of the cursor have to
send (`Table.Carries`), whatever the sampler and reads on the spot do. A later
walk is therefore a walk over the table as it was before (`Walk.earlier`).
-/

namespace Telemetry

/-! ## Readings are kept -/

/-- The same measurement, still with samples if it had some. -/
def Entry.Retains (e e' : Entry) : Prop :=
  e'.definition = e.definition ∧ (e.tally.samples ≠ 0 → e'.tally.samples ≠ 0)

namespace Tally

theorem taking_samples {t : Tally} (r : Reading) (h : t.samples ≠ 0) :
    (t.taking r).samples ≠ 0 := by
  unfold taking fold
  split
  · next t' heq =>
      split at heq
      · cases heq
      · split at heq
        · cases heq
        · cases heq
          simp only []
          split
          · decide
          · intro hzero
            have hnat := congrArg UInt32.toNat hzero
            rw [Saturating.toNat_succ, UInt32.toNat_zero, UInt32.size] at hnat
            omega
  · exact h

end Tally

namespace Sampler

variable {m : Definition} {t t' : Tally} {s s' : SamplerStats}

theorem Starts.samples_eq {busy : Bool} {calls : List Call}
    (h : Starts m t s (t', s', busy) calls) : t'.samples = t.samples := by
  cases h <;> rfl

theorem StartTurns.samples_eq {p : Plan} {wait : UInt64} {calls : List Call}
    (h : StartTurns p m t s (t', s', wait) calls) : t'.samples = t.samples := by
  cases h with
  | early h => rfl
  | due h hstart =>
      rw [hstart.samples_eq, Tally.givenUp]
      split <;> rfl

theorem CollectTurns.samples_ne {p : Plan} {collectAt : UInt64} {wait : Option UInt64}
    {calls : List Call} (h : CollectTurns p m collectAt t s (t', s', wait) calls)
    (ht : t.samples ≠ 0) : t'.samples ≠ 0 := by
  cases h with
  | idle h => exact ht
  | early hopen h => exact ht
  | due hopen h hcollect =>
      cases hcollect with
      | done r leadTime answer hlead => exact t.closed.taking_samples r ht
      | failed cause => exact ht
      | busy => exact ht
  | astray hne hopen => exact ht

end Sampler

namespace Entry

theorem TurnedTo.retains {guard : UInt32} {clock : TransmitClock} {now : Timestamp} {e e' : Entry}
    {own : List Call} (h : e.TurnedTo guard clock now own e') : e.Retains e' := by
  refine ⟨h.definition_eq, fun hs => ?_⟩
  rcases h with ⟨rfl, -⟩ | ⟨s, s', h⟩
  · exact hs
  · cases h with
    | idle h => exact hs
    | active h hturn =>
        cases hturn with
        | turn hstart hcollect =>
            refine hcollect.samples_ne ?_
            rw [hstart.samples_eq, Sampler.capLead]
            split
            · exact hs
            · exact hs

theorem PolledTo.retains {e e' : Entry} {own : List Call} (h : e.PolledTo own e') :
    e.Retains e' := by
  refine ⟨h.definition_eq, fun hs => ?_⟩
  rcases h with ⟨rfl, -⟩ | ⟨s, s', h⟩
  · exact hs
  · cases h with
    | idle h => exact hs
    | failed h cause => exact hs
    | asked h answer hfine => exact hs

theorem TouchedTo.retains {e e' : Entry} {own : List Call} (h : e.TouchedTo own e') :
    e.Retains e' := by
  refine ⟨h.definition_eq, fun hs => ?_⟩
  rcases h.2 with rfl | h | h
  · exact hs
  · cases h with
    | refused h => exact hs
    | made h leadTime => exact hs
  · cases h with
    | refused h => exact hs
    | made h leadTime => exact hs

end Entry

/-! ## Marks are kept -/

/-- What a tally remembers that is no business of the sampler: whether an answer
is waited for, and whether a send outside the schedule was asked for. -/
def Tally.marks (t : Tally) : Bool × Bool := (t.awaitsAck, t.instantRequested)

namespace Sampler

variable {m : Definition} {t t' : Tally} {s s' : SamplerStats} {calls : List Call}

theorem Starts.marks_eq {busy : Bool} (h : Starts m t s (t', s', busy) calls) :
    t'.marks = t.marks := by
  cases h <;> rfl

theorem Collects.marks_eq {busy : Bool} (h : Collects m t s (t', s', busy) calls) :
    t'.marks = t.marks := by
  cases h with
  | done r leadTime answer hlead =>
      obtain ⟨summary, samples, heq⟩ := t.closed.taking_eq r
      rw [heq]
      rfl
  | failed cause => rfl
  | busy => rfl

theorem StartTurns.marks_eq {p : Plan} {wait : UInt64}
    (h : StartTurns p m t s (t', s', wait) calls) : t'.marks = t.marks := by
  cases h with
  | early h => rfl
  | due h hstart =>
      rw [hstart.marks_eq, Tally.givenUp]
      split <;> rfl

theorem CollectTurns.marks_eq {p : Plan} {collectAt : UInt64} {wait : Option UInt64}
    (h : CollectTurns p m collectAt t s (t', s', wait) calls) : t'.marks = t.marks := by
  cases h with
  | idle h => rfl
  | early hopen h => rfl
  | due hopen h hcollect => exact hcollect.marks_eq
  | astray hne hopen => rfl

theorem Attends.marks_eq {p : Plan} {wait : UInt64}
    (h : Attends p m t s (t', s', wait) calls) : t'.marks = t.marks := by
  cases h with
  | turn hstart hcollect =>
      rw [hcollect.marks_eq, hstart.marks_eq, capLead]
      split <;> rfl

end Sampler

namespace Entry

theorem TurnedTo.marks_eq {guard : UInt32} {clock : TransmitClock} {now : Timestamp}
    {e e' : Entry} {own : List Call} (h : e.TurnedTo guard clock now own e') :
    e'.tally.marks = e.tally.marks := by
  rcases h with ⟨rfl, -⟩ | ⟨s, s', h⟩
  · rfl
  · cases h with
    | idle h => rfl
    | active h hturn => exact hturn.marks_eq

theorem PolledTo.marks_eq {e e' : Entry} {own : List Call} (h : e.PolledTo own e') :
    e'.tally.marks = e.tally.marks := by
  rcases h with ⟨rfl, -⟩ | ⟨s, s', h⟩
  · rfl
  · cases h <;> rfl

/-- A read leaves alone whether an answer is waited for. -/
theorem TouchedTo.awaits_eq {e e' : Entry} {own : List Call} (h : e.TouchedTo own e') :
    e'.tally.awaitsAck = e.tally.awaitsAck := by
  rcases h.2 with rfl | h | h
  · rfl
  · cases h <;> rfl
  · cases h <;> rfl

end Entry

namespace Table

/-- The same measurements, and from a slot on nothing lost that they have to send. -/
structure Carries (lo : Nat) (t t' : Table) : Prop where
  hole : ∀ i, t.get? i = none → t'.get? i = none
  entry : ∀ i e, t.get? i = some e → ∃ e', t'.get? i = some e' ∧
    e'.definition = e.definition ∧ (lo ≤ i → e.Retains e')

namespace Carries

variable {lo hi : Nat} {t t' t'' : Table}

protected theorem refl (lo : Nat) (t : Table) : t.Carries lo t where
  hole _ hi := hi
  entry _ e hi := ⟨e, hi, rfl, fun _ => ⟨rfl, id⟩⟩

theorem trans (h : t.Carries lo t') (h' : t'.Carries hi t'') (hle : lo ≤ hi) :
    t.Carries hi t'' where
  hole i hi := h'.hole i (h.hole i hi)
  entry i e hi := by
    obtain ⟨e', hi', hm, hkept⟩ := h.entry i e hi
    obtain ⟨e'', hi'', hm', hkept'⟩ := h'.entry i e' hi'
    refine ⟨e'', hi'', hm'.trans hm, fun hge => ⟨hm'.trans hm, fun hs => ?_⟩⟩
    exact (hkept' hge).2 ((hkept (Nat.le_trans hle hge)).2 hs)

theorem of_passes {deal : Entry → List Call → Entry → Prop} {calls : List Call}
    (h : t.Passes deal t' calls) (hdeal : ∀ e own e', deal e own e' → e.Retains e') :
    t.Carries lo t' where
  hole := h.hole
  entry i e hi := by
    obtain ⟨e', own, hi', hdone, -⟩ := h.entry i e hi
    exact ⟨e', hi', (hdeal _ _ _ hdone).1, fun _ => hdeal _ _ _ hdone⟩

theorem of_touches (h : Relation.ReflTransGen Touches t t') : t.Carries lo t' := by
  induction h with
  | refl => exact .refl lo t
  | tail _ hlast ih =>
      exact ih.trans (of_passes hlast.passes fun _ _ _ hdeal => hdeal.retains) (Nat.le_refl lo)

end Carries

/-! ## Walks -/

/-- What a walk over the slots from one to another takes, by name. -/
inductive Walk (t : Table) (count : UInt32) : Nat → Nat → List String → Prop where
  | nil (i : Nat) : Walk t count i i []
  | hole {i hi : Nat} {names : List String} (h : t.get? i = none)
      (hrest : Walk t count (i + 1) hi names) : Walk t count i hi names
  | taken {i hi : Nat} {e : Entry} {names : List String} (h : t.get? i = some e)
      (hdue : e.definition.due count = true) (hrest : Walk t count (i + 1) hi names) :
      Walk t count i hi (e.name :: names)
  | passed {i hi : Nat} {e : Entry} {names : List String} (h : t.get? i = some e)
      (hnot : e.definition.due count = true → e.tally.samples = 0)
      (hrest : Walk t count (i + 1) hi names) : Walk t count i hi names

namespace Walk

variable {t t' : Table} {count : UInt32} {lo mid hi : Nat} {names more : List String}

theorem le (h : t.Walk count lo hi names) : lo ≤ hi := by
  induction h with
  | nil i => exact Nat.le_refl i
  | hole h _ ih | taken h hdue _ ih | passed h hnot _ ih => exact Nat.le_of_succ_le ih

theorem trans (h : t.Walk count lo mid names) (hrest : t.Walk count mid hi more) :
    t.Walk count lo hi (names ++ more) := by
  induction h with
  | nil i => exact hrest
  | hole h _ ih => exact .hole h (ih hrest)
  | taken h hdue _ ih => exact .taken h hdue (ih hrest)
  | passed h hnot _ ih => exact .passed h hnot (ih hrest)

/-- A later walk, told of the table as it was before. -/
theorem earlier (h : t'.Walk count lo hi names) (hcarries : t.Carries mid t') (hle : mid ≤ lo) :
    t.Walk count lo hi names := by
  have hback : ∀ {i : Nat} {e' : Entry}, t'.get? i = some e' →
      ∃ e, t.get? i = some e ∧ e'.definition = e.definition ∧ (mid ≤ i → e.Retains e') := by
    intro i e' hi'
    cases hi : t.get? i with
    | none =>
        rw [hcarries.hole i hi] at hi'
        cases hi'
    | some e =>
        obtain ⟨_, hi₁, hm, hkept⟩ := hcarries.entry i e hi
        rw [hi₁] at hi'
        cases hi'
        exact ⟨e, rfl, hm, hkept⟩
  induction h with
  | nil i => exact .nil i
  | @hole i hi names h _ ih =>
      refine .hole ?_ (ih (by omega))
      cases hslot : t.get? i with
      | none => rfl
      | some e =>
          obtain ⟨e', hi', -⟩ := hcarries.entry i e hslot
          rw [h] at hi'
          cases hi'
  | taken h hdue _ ih =>
      obtain ⟨e, hi, hm, -⟩ := hback h
      rw [Entry.name, hm]
      exact .taken hi (hm ▸ hdue) (ih (by omega))
  | passed h hnot _ ih =>
      obtain ⟨e, hi, hm, hkept⟩ := hback h
      refine .passed hi (fun hdue => ?_) (ih (by omega))
      refine Decidable.byContradiction fun hs => ?_
      exact (hkept hle).2 hs (hnot (hm ▸ hdue))

theorem beyond (hnone : ∀ i, lo ≤ i → t.get? i = none) (hle : lo ≤ hi) :
    t.Walk count lo hi [] := by
  obtain ⟨k, rfl⟩ := Nat.exists_eq_add_of_le hle
  induction k generalizing lo with
  | zero => exact .nil lo
  | succ k ih =>
      refine .hole (hnone lo (Nat.le_refl lo)) ?_
      have hrest : t.Walk count (lo + 1) (lo + 1 + k) [] :=
        ih (fun i hi => hnone i (by omega)) (by omega)
      rwa [Nat.add_assoc, Nat.add_comm 1 k] at hrest

/-- A frame's walk over a stretch takes what is ready. -/
theorem of_stretch {pre : List Slot}
    (hpre : ∀ k, k < pre.length → t.slots[lo + k]? = pre[k]?) :
    t.Walk count lo (lo + pre.length) ((Slot.ready count pre).map Entry.name) := by
  induction pre generalizing lo with
  | nil => exact .nil lo
  | cons slot rest ih =>
      have hfirst : t.get? lo = slot := by
        have hslot := hpre 0 (Nat.zero_lt_succ _)
        rw [Nat.add_zero, List.getElem?_cons_zero] at hslot
        rw [get?, hslot, Option.join_some]
      have hrest : t.Walk _ (lo + 1) _ _ := ih fun k hk => by
        have hslot := hpre (k + 1) (Nat.succ_lt_succ hk)
        rwa [List.getElem?_cons_succ, ← Nat.add_assoc, Nat.add_right_comm] at hslot
      rw [List.length_cons, show lo + (rest.length + 1) = lo + 1 + rest.length by omega]
      cases slot with
      | none => exact .hole hfirst hrest
      | some e =>
          rw [Slot.ready_cons]
          by_cases hready : e.ready count = true
          · rw [if_pos hready, List.map_cons]
            exact .taken hfirst (Entry.due_of_ready hready).1 hrest
          · rw [if_neg hready]
            refine .passed hfirst (fun hdue => ?_) hrest
            exact Decidable.byContradiction fun hs => hready (Entry.ready_of_due hdue hs)

end Walk

/-- The table after a frame's walk over a stretch. -/
theorem get?_passed {t : Table} {count : UInt32} {lo hi : Nat} {pre rest : List Slot}
    (hwindow : t.window lo hi = pre ++ rest) (i : Nat) :
    (t.withWindow lo (Slot.passed count pre ++ rest)).get? i =
      if lo ≤ i ∧ i < lo + pre.length then (t.get? i).map (·.passed count) else t.get? i := by
  have hlen : (Slot.passed count pre ++ rest).length = (t.window lo hi).length := by
    rw [hwindow, List.length_append, List.length_append, Slot.passed, List.length_map]
  have hpassed : (Slot.passed count pre).length = pre.length := List.length_map ..
  rw [get?_withWindow hlen, hlen]
  split
  · next hin =>
      rw [get?, ← window_of_slots hin.1 hin.2, hwindow]
      by_cases hpre : i - lo < pre.length
      · rw [if_pos (by omega), List.getElem?_append_left (by omega),
          List.getElem?_append_left hpre, Slot.passed, List.getElem?_map]
        cases pre[i - lo]? with
        | none => rfl
        | some slot => rfl
      · rw [if_neg (by omega), List.getElem?_append_right (by omega),
          List.getElem?_append_right (by omega), hpassed]
  · next hout =>
      rw [hwindow, List.length_append] at hout
      rw [if_neg (by omega)]

theorem Carries.of_passed {t : Table} {count : UInt32} {lo hi cursor : Nat} {pre rest : List Slot}
    (hwindow : t.window lo hi = pre ++ rest) (hle : lo + pre.length ≤ cursor) :
    t.Carries cursor (t.withWindow lo (Slot.passed count pre ++ rest)) where
  hole i hi := by rw [get?_passed hwindow, hi, Option.map_none, ite_self]
  entry i e hi := by
    rw [get?_passed hwindow, hi]
    split
    · exact ⟨_, rfl, e.passed_definition _, fun hge => absurd hge (by omega)⟩
    · exact ⟨e, rfl, rfl, fun _ => ⟨rfl, id⟩⟩

end Table

end Telemetry
