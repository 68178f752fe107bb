import Telemetry.Proofs.Slots
import Telemetry.Proofs.Steps

/-!
# The stay of a measurement

A measurement stays in its slot from the edit that adds it to the edit that
removes it, under one name or more. `Node.stay` gathers the notes that concern
the measurement in a slot since the slot was last empty, and `stay_induction`
is how claims about it are proved: what holds of a fresh tally and no notes,
and is kept by whatever a step is to a measurement (`Seen`), holds of every
measurement of every node that a run can reach.

Distinct names, which make the notes of two measurements tell apart, are an
invariant of all operations and nothing to worry about outside this file.
-/

namespace Telemetry

/-! ## What steps are to a measurement -/

/-- What a read is to a measurement. -/
def Entry.TouchedTo (e : Entry) (own : List Call) (e' : Entry) : Prop :=
  own = [] ∧ (e' = e ∨ e.ReadTo e' ∨
    (e.withTally { e.tally with instantRequested := false }).ReadTo e')

theorem Table.Touches.passes {t t' : Table} (h : t.Touches t') :
    t.Passes Entry.TouchedTo t' [] := by
  have hspared : ∀ e : Entry, e.TouchedTo [] e := fun e => ⟨rfl, .inl rfl⟩
  cases h with
  | read h hread => exact .put (get?_eq_some.mpr h) ⟨rfl, .inr (.inl hread)⟩ hspared
  | served h hread => exact .put (get?_eq_some.mpr h) ⟨rfl, .inr (.inr hread)⟩ hspared

/-- What is done to a measurement without an edit keeps its definition. -/
theorem Entry.TurnedTo.definition_eq {guard : UInt32} {clock : TransmitClock} {now : Timestamp}
    {e e' : Entry} {own : List Call} (h : e.TurnedTo guard clock now own e') :
    e'.definition = e.definition := by
  rcases h with ⟨rfl, _⟩ | ⟨s, s', h⟩
  · rfl
  · cases h <;> rfl

theorem Entry.PolledTo.definition_eq {e e' : Entry} {own : List Call} (h : e.PolledTo own e') :
    e'.definition = e.definition := by
  rcases h with ⟨rfl, _⟩ | ⟨s, s', h⟩
  · rfl
  · cases h <;> rfl

theorem Entry.TouchedTo.definition_eq {e e' : Entry} {own : List Call} (h : e.TouchedTo own e') :
    e'.definition = e.definition := by
  rcases h.2 with rfl | h | h
  · rfl
  · cases h <;> rfl
  · cases h <;> rfl

namespace Node

/-- What a step is to the measurement in a slot, with the notes that concern it. -/
inductive Seen (n n' : Node) (e : Entry) : List Note → Entry → Prop where
  | turn (now : Timestamp) {own : List Call} {e' : Entry}
      (h : e.TurnedTo n.sampler.guard n.clock now own e') :
      Seen n n' e (.turn now :: Voice.schedule.notes own) e'
  | polled {own : List Call} {e' : Entry} (h : e.PolledTo own e') :
      Seen n n' e (Voice.schedule.notes own) e'
  | sent {own : List Call} {e' : Entry} (h : e.Handlings own e') :
      Seen n n' e (Voice.schedule.notes own ++ [.sent n.table n'.table]) e'
  | touched {e' : Entry} (h : e.TouchedTo [] e') : Seen n n' e [] e'

theorem Seen.definition_eq {n n' : Node} {e e' : Entry} {own : List Note}
    (h : Seen n n' e own e') : e'.definition = e.definition := by
  cases h with
  | turn now h => exact h.definition_eq
  | polled h => exact h.definition_eq
  | sent h => exact h.definition_eq
  | touched h => exact h.definition_eq

theorem setInterval_table {n n' : Node} {interval : UInt32}
    (h : n.setInterval interval = .ok n') :
    n'.table = n.table ∧ n'.sampler = n.sampler := by
  unfold setInterval at h
  simp only [] at h
  split at h
  · cases h
  · cases h
    exact ⟨rfl, rfl⟩

/-- Calls to the board concern no measurement. -/
theorem filter_board {name : String} {calls : List Call} (h : ∀ c ∈ calls, c.ToBoard) :
    (Voice.schedule.notes calls).filter (·.concerns name) = [] := by
  have hnone : calls.filter (·.about name) = [] := by
    refine filter_about_eq_nil fun c hc => ?_
    cases h c hc with
    | onBattery => exact Option.some_ne_none _ |>.symm
    | sleepFor ms => exact Option.some_ne_none _ |>.symm
  rw [filter_schedule, hnone, Voice.notes_nil]

namespace Step

variable {n n' : Node} {notes : List Note}

theorem seen (h : Step n notes n') (ht : n.table.Distinct) {i : Nat} {e : Entry}
    (hi : n.table.get? i = some e) :
    ∃ e', n'.table.get? i = some e' ∧ Seen n n' e (notes.filter (·.concerns e.name)) e' := by
  have hspared : ∀ {n' : Node}, n'.table = n.table →
      ∃ e', n'.table.get? i = some e' ∧ Seen n n' e [] e' :=
    fun heq => ⟨e, by rw [heq, hi], .touched ⟨rfl, .inl rfl⟩⟩
  cases h with
  | @turn now sampler table calls hdue h =>
      obtain ⟨e', own, hi', hdeal, hown⟩ := h.passes.entry i e hi
      refine ⟨e', hi', ?_⟩
      rw [List.filter_cons_of_pos rfl, filter_schedule, hown ht]
      exact .turn now hdeal
  | poll h =>
      obtain ⟨e', own, hi', hdeal, hown⟩ := h.passes.entry i e hi
      refine ⟨e', hi', ?_⟩
      rw [filter_schedule, hown ht]
      exact .polled hdeal
  | transmit hdue h =>
      obtain ⟨e', own, hi', hdeal, hown⟩ := h.passes.entry i e hi
      refine ⟨e', hi', ?_⟩
      rw [List.filter_append, filter_schedule, hown ht]
      exact .sent hdeal
  | answer h =>
      obtain ⟨e', own, hi', hdeal, hown⟩ := h.passes.entry i e hi
      refine ⟨e', hi', ?_⟩
      rw [List.filter_append, filter_schedule, hown ht]
      exact .sent hdeal
  | nap slept h =>
      rw [filter_board h]
      exact hspared rfl
  | aside calls =>
      rw [filter_aside]
      exact hspared rfl
  | touch h =>
      obtain ⟨e', own, hi', hdeal, _⟩ := h.passes.entry i e hi
      have hquiet := hdeal.1
      subst hquiet
      exact ⟨e', hi', .touched hdeal⟩
  | drop => exact hspared rfl
  | relink now => exact hspared rfl
  | switch enabled => exact hspared rfl
  | wake now h => exact hspared rfl
  | power mode => exact hspared rfl
  | interval interval h => exact hspared (setInterval_table h).1

theorem passes (h : Step n notes n') :
    ∃ calls, n.table.Passes (fun e _ e' => e'.definition = e.definition) n'.table calls := by
  have hspared : ∀ {n' : Node}, n'.table = n.table →
      ∃ calls, n.table.Passes (fun e _ e' => e'.definition = e.definition) n'.table calls :=
    fun heq => ⟨[], heq ▸ .same (fun e => rfl) (by simp)⟩
  cases h with
  | turn hdue h => exact ⟨_, h.passes.imp fun _ _ _ hdeal => hdeal.definition_eq⟩
  | poll h => exact ⟨_, h.passes.imp fun _ _ _ hdeal => hdeal.definition_eq⟩
  | transmit hdue h => exact ⟨_, h.passes.imp fun _ _ _ hdeal => hdeal.definition_eq⟩
  | answer h => exact ⟨_, h.passes.imp fun _ _ _ hdeal => hdeal.definition_eq⟩
  | touch h => exact ⟨_, h.passes.imp fun _ _ _ hdeal => hdeal.definition_eq⟩
  | nap slept h => exact hspared rfl
  | aside calls => exact hspared rfl
  | drop => exact hspared rfl
  | relink now => exact hspared rfl
  | switch enabled => exact hspared rfl
  | wake now h => exact hspared rfl
  | power mode => exact hspared rfl
  | interval interval h => exact hspared (setInterval_table h).1

theorem distinct (h : Step n notes n') (ht : n.table.Distinct) : n'.table.Distinct := by
  obtain ⟨calls, hpasses⟩ := h.passes
  exact hpasses.distinct (fun _ _ _ h => h) ht

theorem hole (h : Step n notes n') {i : Nat} (hi : n.table.get? i = none) :
    n'.table.get? i = none := by
  obtain ⟨calls, hpasses⟩ := h.passes
  exact hpasses.hole i hi

end Step

namespace Path

variable {n n' : Node} {notes : List Note}

theorem passes (h : Path n notes n') :
    ∃ calls, n.table.Passes (fun e _ e' => e'.definition = e.definition) n'.table calls := by
  induction h with
  | nil n => exact ⟨[], .same (fun e => rfl) (by simp)⟩
  | cons h _ ih =>
      obtain ⟨calls, hpasses⟩ := h.passes
      obtain ⟨more, hrest⟩ := ih
      exact ⟨calls ++ more,
        hpasses.trans (fun _ _ _ h => h) hrest fun _ _ _ _ _ h h' => h'.trans h⟩

theorem hole (h : Path n notes n') {i : Nat} (hi : n.table.get? i = none) :
    n'.table.get? i = none := by
  obtain ⟨calls, hpasses⟩ := h.passes
  exact hpasses.hole i hi

theorem capacity_eq (h : Path n notes n') : n'.table.capacity = n.table.capacity := by
  obtain ⟨calls, hpasses⟩ := h.passes
  exact hpasses.capacity

theorem distinct (h : Path n notes n') (ht : n.table.Distinct) : n'.table.Distinct := by
  obtain ⟨calls, hpasses⟩ := h.passes
  exact hpasses.distinct (fun _ _ _ h => h) ht

end Path

end Node

/-! ## What edits are to a measurement -/

/-- How a measurement may come out of an edit of the table: with another
definition or a request, or as a new one. -/
inductive Entry.EditedTo : Option Entry → Entry → Prop where
  | kept (e : Entry) (m : Definition) (instantRequested : Bool) :
      EditedTo (some e) { definition := m, tally := { e.tally with instantRequested } }
  | added (m : Definition) (kind : ValueKind) (leadTime : UInt32) :
      EditedTo none { definition := m, tally := Tally.fresh kind leadTime }

namespace Table

theorem name_ne_of_indexOf {t : Table} {name : String} (h : t.indexOf name = none) {i : Nat}
    {e : Entry} (hi : t.get? i = some e) : e.name ≠ name := by
  have hslot := List.findIdx?_eq_none_iff.mp h _ (List.mem_of_getElem? (get?_eq_some.mp hi))
  simpa only [Slot.holds, beq_eq_false_iff_ne] using hslot

theorem lt_of_firstFree {t : Table} {i : Nat} (h : t.firstFree = some i) :
    i < t.slots.length ∧ t.get? i = none := by
  obtain ⟨hlt, hfree, _⟩ := List.findIdx?_eq_some_iff_getElem.mp h
  refine ⟨hlt, ?_⟩
  rw [get?, List.getElem?_eq_getElem hlt, Option.join_some]
  simpa only [Option.isNone_iff_eq_none] using hfree

/-- A measurement whose name no other has may stand in a slot. -/
theorem Distinct.put {t : Table} (ht : t.Distinct) {i : Nat} (hlt : i < t.slots.length)
    {e : Entry} (hname : ∀ j e', j ≠ i → t.get? j = some e' → e'.name ≠ e.name) :
    (t.put i (some e)).Distinct := by
  intro j k e₁ e₂ hj hk heq
  by_cases hji : i = j
  · subst hji
    by_cases hki : i = k
    · exact hki
    · rw [get?_put_self hlt] at hj
      rw [get?_put_ne hki] at hk
      cases hj
      exact absurd heq.symm (hname k e₂ (Ne.symm hki) hk)
  · rw [get?_put_ne hji] at hj
    by_cases hki : i = k
    · subst hki
      rw [get?_put_self hlt] at hk
      cases hk
      exact absurd heq (hname j e₁ (Ne.symm hji) hj)
    · rw [get?_put_ne hki] at hk
      exact ht j k e₁ e₂ hj hk heq

theorem distinct_empty (capacity : Nat) (fallback : UInt32) : (empty capacity fallback).Distinct := by
  intro i j e e' hi
  rw [get?_empty] at hi
  cases hi

theorem Adds.distinct {t t' : Table} (h : t.Adds t') (ht : t.Distinct) : t'.Distinct := by
  cases h with
  | added kind leadTime hnew hfree =>
      exact ht.put (lt_of_firstFree hfree).1 fun j e' _ hj => name_ne_of_indexOf hnew hj

/-- An addition leaves what is there, and what is new is fresh. -/
theorem Adds.edited {t t' : Table} (h : t.Adds t') (i : Nat) :
    t'.get? i = t.get? i ∨ t.get? i = none ∧ ∀ e', t'.get? i = some e' → Entry.EditedTo none e' := by
  cases h with
  | @added j m kind leadTime hnew hfree =>
      obtain ⟨hlt, hnone⟩ := lt_of_firstFree hfree
      by_cases heq : j = i
      · subst heq
        refine .inr ⟨hnone, fun e' hi => ?_⟩
        rw [get?_put_self hlt] at hi
        cases hi
        exact .added m kind leadTime
      · exact .inl (get?_put_ne heq _)

theorem edited_of_adds {t t' : Table} (h : Relation.ReflTransGen Adds t t') (i : Nat) :
    t'.get? i = t.get? i ∨ t.get? i = none ∧ ∀ e', t'.get? i = some e' → Entry.EditedTo none e' := by
  induction h with
  | refl => exact .inl rfl
  | tail _ hlast ih =>
      rcases ih with hsame | ⟨hnone, hadded⟩
      · have hlast' := hlast.edited i
        rwa [hsame] at hlast'
      · rcases hlast.edited i with hsame | ⟨_, hadded'⟩
        · exact .inr ⟨hnone, by rw [hsame]; exact hadded⟩
        · exact .inr ⟨hnone, hadded'⟩

theorem Edits.distinct {t t' : Table} (h : t.Edits t') (ht : t.Distinct) : t'.Distinct := by
  cases h with
  | added h =>
      induction h with
      | refl => exact ht
      | tail _ hlast ih => exact hlast.distinct ih
  | @removed i e h =>
      intro j k e₁ e₂ hj hk
      have hlt := lt_of_get? (get?_eq_some.mpr h)
      have hne : ∀ {k : Nat} {e' : Entry}, (t.put i none).get? k = some e' → i ≠ k := by
        intro k e' hk heq
        subst heq
        rw [get?_put_self hlt] at hk
        cases hk
      rw [get?_put_ne (hne hj)] at hj
      rw [get?_put_ne (hne hk)] at hk
      exact ht j k e₁ e₂ hj hk
  | @redefined i e h m hname =>
      have hi := get?_eq_some.mpr h
      refine ht.put (lt_of_get? hi) fun j e' hne hj heq => ?_
      rcases hname with hsame | hnew
      · exact hne (ht j i e' e hj hi (heq.trans hsame))
      · exact name_ne_of_indexOf hnew hj heq
  | @requested i e h =>
      have hi := get?_eq_some.mpr h
      exact ht.put (lt_of_get? hi) fun j e' hne hj heq => hne (ht j i e' e hj hi heq)

theorem Edits.capacity_eq {t t' : Table} (h : t.Edits t') : t'.capacity = t.capacity := by
  cases h with
  | added h =>
      induction h with
      | refl => rfl
      | tail _ hlast ih =>
          cases hlast with
          | added kind leadTime hnew hfree => exact (capacity_put _ _ _).trans ih
  | removed h => exact capacity_put _ _ _
  | redefined h m hname => exact capacity_put _ _ _
  | requested h => exact capacity_put _ _ _

/-- A measurement that was there before an edit keeps its readings. -/
theorem Edits.edited {t t' : Table} (h : t.Edits t') {i : Nat} {e' : Entry}
    (hi : t'.get? i = some e') : Entry.EditedTo (t.get? i) e' := by
  have hkept : ∀ {e : Entry}, t.get? i = some e → Entry.EditedTo (t.get? i) e := by
    intro e he
    rw [he]
    exact .kept e e.definition e.tally.instantRequested
  cases h with
  | added h =>
      rcases edited_of_adds h i with hsame | ⟨hnone, hadded⟩
      · exact hkept (hsame ▸ hi)
      · rw [hnone]
        exact hadded e' hi
  | @removed j e h =>
      by_cases heq : j = i
      · subst heq
        rw [get?_put_self (lt_of_get? (get?_eq_some.mpr h))] at hi
        cases hi
      · rw [get?_put_ne heq] at hi
        exact hkept hi
  | @redefined j e h m hname =>
      by_cases heq : j = i
      · subst heq
        have hj := get?_eq_some.mpr h
        rw [get?_put_self (lt_of_get? hj)] at hi
        cases hi
        rw [hj]
        exact .kept e m e.tally.instantRequested
      · rw [get?_put_ne heq] at hi
        exact hkept hi
  | @requested j e h =>
      by_cases heq : j = i
      · subst heq
        have hj := get?_eq_some.mpr h
        rw [get?_put_self (lt_of_get? hj)] at hi
        cases hi
        rw [hj]
        exact .kept e e.definition true
      · rw [get?_put_ne heq] at hi
        exact hkept hi

end Table

/-! ## Stays -/

namespace Node

/-- The notes that concern the measurement in a slot since the slot was last
empty. In every operation they are found by the name it has before. -/
def stay (i : Nat) (past : List Episode) : List Note :=
  past.foldl (fun notes ep =>
    match ep.before.table.get? i with
    | none => []
    | some e => notes ++ ep.notes.filter (·.concerns e.name)) []

theorem stay_concat (i : Nat) (past : List Episode) (ep : Episode) :
    stay i (past ++ [ep]) =
      match ep.before.table.get? i with
      | none => []
      | some e => stay i past ++ ep.notes.filter (·.concerns e.name) := by
  rw [stay, List.foldl_append, List.foldl_cons, List.foldl_nil]
  rfl

/-- As long as the slot is not empty, a stay only grows. -/
theorem stay_append (i : Nat) (past : List Episode) {more : List Episode}
    (hkept : ∀ ep ∈ more, ep.before.table.get? i ≠ none) :
    ∃ new, stay i (past ++ more) = stay i past ++ new := by
  induction more generalizing past with
  | nil => exact ⟨[], by rw [List.append_nil, List.append_nil]⟩
  | cons ep more ih =>
      obtain ⟨new, hnew⟩ := ih (past ++ [ep]) fun ep' h => hkept ep' (List.mem_cons_of_mem _ h)
      obtain ⟨e, he⟩ := Option.ne_none_iff_exists'.mp (hkept ep List.mem_cons_self)
      rw [← List.append_cons, stay_concat, he] at hnew
      exact ⟨ep.notes.filter (·.concerns e.name) ++ new, by rw [hnew, List.append_assoc]⟩

theorem Deed.distinct {n n' : Node} {notes : List Note} (h : Deed n notes n')
    (ht : n.table.Distinct) : n'.table.Distinct := by
  cases h with
  | steps h => exact h.distinct ht
  | edit calls h => exact h.distinct ht

theorem Deed.capacity_eq {n n' : Node} {notes : List Note} (h : Deed n notes n') :
    n'.table.capacity = n.table.capacity := by
  cases h with
  | steps h => exact h.capacity_eq
  | edit calls h => exact h.capacity_eq

/-- What holds of a fresh tally and is kept by every edit and by whatever a
step is to a measurement. -/
structure Lasting (i : Nat) (claim : List Note → Entry → Prop) : Prop where
  fresh : ∀ m kind leadTime, claim [] { definition := m, tally := Tally.fresh kind leadTime }
  edited : ∀ notes e m instantRequested, claim notes e →
    claim notes { definition := m, tally := { e.tally with instantRequested } }
  seen : ∀ (n n' : Node) notes e more e', n.table.get? i = some e →
    n'.table.get? i = some e' → Seen n n' e more e' → claim notes e → claim (notes ++ more) e'

namespace Lasting

variable {i : Nat} {claim : List Note → Entry → Prop}

theorem path (hlasting : Lasting i claim) {n n' : Node} {notes more : List Note}
    (h : Path n more n') (ht : n.table.Distinct) {e : Entry}
    (hi : n.table.get? i = some e) (he : claim notes e) :
    ∃ e', n'.table.get? i = some e' ∧ claim (notes ++ more.filter (·.concerns e.name)) e' := by
  induction h generalizing notes e with
  | nil n =>
      refine ⟨e, hi, ?_⟩
      rwa [List.filter_nil, List.append_nil]
  | @cons n₁ n₂ n₃ new more hstep _ ih =>
      obtain ⟨e₁, hi₁, hseen⟩ := hstep.seen ht hi
      have he₁ := hlasting.seen _ _ _ _ _ _ hi hi₁ hseen he
      obtain ⟨e₂, hi₂, he₂⟩ := ih (hstep.distinct ht) hi₁ he₁
      have hname : e₁.name = e.name := by
        rw [Entry.name, Entry.name, hseen.definition_eq]
      rw [hname] at he₂
      refine ⟨e₂, hi₂, ?_⟩
      rwa [List.filter_append, ← List.append_assoc]

theorem deed (hlasting : Lasting i claim) {past : List Episode} {n n' : Node} {notes : List Note}
    (h : Deed n notes n') (ht : n.table.Distinct)
    (hpast : ∀ e, n.table.get? i = some e → claim (stay i past) e) :
    n'.table.Distinct ∧
      ∀ e, n'.table.get? i = some e → claim (stay i (past ++ [⟨n, notes, n'⟩])) e := by
  refine ⟨h.distinct ht, fun e' hi' => ?_⟩
  rw [stay_concat]
  cases h with
  | steps h =>
      cases hi : n.table.get? i with
      | none =>
          rw [h.hole hi] at hi'
          cases hi'
      | some e =>
          obtain ⟨e₁, hi₁, he₁⟩ := hlasting.path h ht hi (hpast e hi)
          rw [hi₁] at hi'
          cases hi'
          exact he₁
  | edit calls h =>
      have hedited := h.edited hi'
      cases hi : n.table.get? i with
      | none =>
          rw [hi] at hedited
          cases hedited with
          | added m kind leadTime => exact hlasting.fresh m kind leadTime
      | some e =>
          rw [hi] at hedited
          cases hedited with
          | kept e m instantRequested =>
              simp only [filter_aside, List.append_nil]
              exact hlasting.edited _ e m instantRequested (hpast e hi)

/-- What lasts holds of every measurement of a node, with the notes of its stay. -/
theorem holds {W : Type} (hlasting : Lasting i claim) (l : Life W) {e : Entry}
    (hi : l.node.table.get? i = some e) : claim (stay i l.past) e := by
  have hstart : l.birth.table.Distinct :=
    Table.distinct_empty l.capacity l.settings.collectionTime
  have hrun := history_induction l.devices l.birth
    (fun past n => n.table.Distinct ∧ ∀ e, n.table.get? i = some e → claim (stay i past) e)
    (fun _ _ _ _ hpast hdeed => hlasting.deed hdeed hpast.1 hpast.2) l.moves [] l.world
    ⟨hstart, fun e he => by
      rw [Life.birth, create, Table.get?_empty] at he
      cases he⟩
  rw [List.nil_append] at hrun
  exact hrun.2 e hi

end Lasting

end Node

end Telemetry
