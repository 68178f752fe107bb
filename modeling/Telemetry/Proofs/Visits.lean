import Telemetry.Proofs.Watching

/-!
# What a sweep over the table comes to

A sweep is as good as its visits. `Slot.Swept` says what a whole sweep does in
terms of what one visit may do, slot by slot and with the calls of every visit
in their place; it covers sweeps that go through and sweeps that stop.

Its lemmas make it useful. `Swept.keeps` carries a property of entries and one
of the threaded state through the sweep. `Swept.at_slot` looks at one slot: its
entry has been visited at most once, its own calls stand together, and all
other calls were made for the entries of other slots. `Swept.at_reached` looks at
one slot up to the one that stops the sweep: its entry has been visited, in some
state from which the sweep went on; `Swept.at_rest` looks at the slots behind.
`Swept.at_visit` is for sweeps that go through.
-/

namespace Telemetry.Slot

variable {W σ : Type} {v : Voice}

/-- What a sweep over some slots may come to, if `visit` says what a visit may
come to: the entry afterwards, the state, whether the sweep stops, and the
calls it makes. -/
inductive Swept (visit : Entry → σ → Entry × σ × Bool → List Call → Prop) :
    List Slot → σ → List Slot × σ × Option Nat → List Call → Prop where
  | nil (s : σ) : Swept visit [] s ([], s, none) []
  | hole {rest rest' : List Slot} {s s' : σ} {stop : Option Nat} {calls : List Call}
      (h : Swept visit rest s (rest', s', stop) calls) :
      Swept visit (none :: rest) s (none :: rest', s', stop.map (· + 1)) calls
  | stop {e e' : Entry} {rest : List Slot} {s s' : σ} {calls : List Call}
      (h : visit e s (e', s', true) calls) :
      Swept visit (some e :: rest) s (some e' :: rest, s', some 0) calls
  | next {e e' : Entry} {rest rest' : List Slot} {s s' s'' : σ} {stop : Option Nat}
      {calls more : List Call} (h : visit e s (e', s', false) calls)
      (hrest : Swept visit rest s' (rest', s'', stop) more) :
      Swept visit (some e :: rest) s (some e' :: rest', s'', stop.map (· + 1)) (calls ++ more)

/-- A visit that never stops the sweep. -/
def Through (visit : Entry → σ → Entry × σ → List Call → Prop) (e : Entry) (s : σ)
    (x : Entry × σ × Bool) (calls : List Call) : Prop :=
  x.2.2 = false ∧ visit e s (x.1, x.2.1) calls

theorem sweepUntil_speaks {visit' : Entry → σ → Action (W × List Note) (Entry × σ × Bool)}
    {visit : Entry → σ → Action W (Entry × σ × Bool)}
    {fit : Entry → σ → Entry × σ × Bool → List Call → Prop}
    (h : ∀ e s, Action.Speaks v (visit' e s) (visit e s) (fit e s)) (slots : List Slot) (s : σ) :
    Action.Speaks v (sweepUntil visit' slots s) (sweepUntil visit slots s)
      (Swept fit slots s) := by
  induction slots generalizing s with
  | nil => exact .pure (.nil s)
  | cons slot rest ih =>
      cases slot with
      | none =>
          refine (ih s).bind ?_
          intro r calls hrest
          obtain ⟨rest', s', stop⟩ := r
          refine .pure ?_
          rw [List.append_nil]
          exact .hole hrest
      | some e =>
          refine (h e s).bind ?_
          intro r calls hvisit
          obtain ⟨e', s', enough⟩ := r
          cases enough with
          | true =>
              refine .pure ?_
              rw [List.append_nil]
              exact .stop hvisit
          | false =>
              refine (ih s').bind ?_
              intro r more hrest
              obtain ⟨rest', s'', stop⟩ := r
              refine .pure ?_
              rw [List.append_nil]
              exact .next hvisit hrest

theorem sweep_speaks {visit' : Entry → σ → Action (W × List Note) (Entry × σ)}
    {visit : Entry → σ → Action W (Entry × σ)} {fit : Entry → σ → Entry × σ → List Call → Prop}
    (h : ∀ e s, Action.Speaks v (visit' e s) (visit e s) (fit e s)) (slots : List Slot) (s : σ) :
    Action.Speaks v (sweep visit' slots s) (sweep visit slots s)
      fun x calls => Swept (Through fit) slots s (x.1, x.2, none) calls := by
  induction slots generalizing s with
  | nil => exact .pure (.nil s)
  | cons slot rest ih =>
      cases slot with
      | none =>
          refine (ih s).bind ?_
          intro r calls hrest
          obtain ⟨rest', s'⟩ := r
          refine .pure ?_
          rw [List.append_nil]
          exact .hole hrest
      | some e =>
          refine (h e s).bind ?_
          intro r calls hvisit
          obtain ⟨e', s'⟩ := r
          refine (ih s').bind ?_
          intro r more hrest
          obtain ⟨rest', s''⟩ := r
          refine .pure ?_
          rw [List.append_nil]
          exact .next ⟨rfl, hvisit⟩ hrest

/-- What is so of every visit, from the world in which it begins to the world in which it ends, and
goes on being so from one visit to the next, is so of the sweep. -/
theorem sweepUntil_speaksAt {visit' : Entry → σ → Action (W × List Note) (Entry × σ × Bool)}
    {visit : Entry → σ → Action W (Entry × σ × Bool)} (along : W → W → List Call → Prop)
    (hrefl : ∀ w, along w w [])
    (htrans : ∀ w w₁ w' calls more,
      along w w₁ calls → along w₁ w' more → along w w' (calls ++ more))
    (h : ∀ e s w, Action.SpeaksAt v (visit' e s) (visit e s) w fun _ w' calls => along w w' calls)
    (slots : List Slot) (s : σ) (w : W) :
    Action.SpeaksAt v (sweepUntil visit' slots s) (sweepUntil visit slots s) w
      fun _ w' calls => along w w' calls := by
  induction slots generalizing s w with
  | nil => exact .pure (hrefl w)
  | cons slot rest ih =>
      cases slot with
      | none =>
          refine (ih s w).bind ?_
          intro r w' calls hrest
          refine .pure ?_
          rw [List.append_nil]
          exact hrest
      | some e =>
          refine (h e s w).bind ?_
          intro r w₁ calls hvisit
          obtain ⟨e', s', enough⟩ := r
          cases enough with
          | true =>
              refine .pure ?_
              rw [List.append_nil]
              exact hvisit
          | false =>
              refine (ih s' w₁).bind ?_
              intro r w' more hrest
              refine .pure ?_
              rw [List.append_nil]
              exact htrans _ _ _ _ _ hvisit hrest

namespace Swept

variable {visit : Entry → σ → Entry × σ × Bool → List Call → Prop}
  {slots : List Slot} {s : σ} {x : List Slot × σ × Option Nat} {calls : List Call}

theorem length_eq (h : Swept visit slots s x calls) : x.1.length = slots.length := by
  induction h with
  | nil s => rfl
  | hole h ih => simpa only [List.length_cons, Nat.add_right_cancel_iff] using ih
  | stop h => rfl
  | next h hrest ih => simpa only [List.length_cons, Nat.add_right_cancel_iff] using ih

/-- What every visit keeps, the sweep keeps: `good` of the entries before,
`better` of the entries after, and `calm` of the state. -/
theorem keeps (good better : Entry → Prop) (calm : σ → Prop)
    (hvisit : ∀ e s e' s' stop calls, visit e s (e', s', stop) calls → good e → calm s →
      better e' ∧ calm s')
    (hstay : ∀ e, good e → better e) (h : Swept visit slots s x calls)
    (hgood : ∀ e, some e ∈ slots → good e) (hcalm : calm s) :
    (∀ e, some e ∈ x.1 → better e) ∧ calm x.2.1 := by
  induction h with
  | nil s => exact ⟨fun e he => absurd he List.not_mem_nil, hcalm⟩
  | hole h ih =>
      obtain ⟨hbetter, hcalm'⟩ := ih (fun e he => hgood e (List.mem_cons_of_mem _ he)) hcalm
      refine ⟨fun e he => ?_, hcalm'⟩
      rcases List.mem_cons.mp he with h' | h'
      · cases h'
      · exact hbetter e h'
  | stop h =>
      obtain ⟨hb, hcalm'⟩ := hvisit _ _ _ _ _ _ h (hgood _ List.mem_cons_self) hcalm
      refine ⟨fun e he => ?_, hcalm'⟩
      rcases List.mem_cons.mp he with h' | h'
      · cases h'; exact hb
      · exact hstay e (hgood e (List.mem_cons_of_mem _ h'))
  | next h hrest ih =>
      obtain ⟨hb, hmid⟩ := hvisit _ _ _ _ _ _ h (hgood _ List.mem_cons_self) hcalm
      obtain ⟨hbetter, hcalm'⟩ := ih (fun e he => hgood e (List.mem_cons_of_mem _ he)) hmid
      refine ⟨fun e he => ?_, hcalm'⟩
      rcases List.mem_cons.mp he with h' | h'
      · cases h'; exact hb
      · exact hbetter e h'

theorem at_hole (h : Swept visit slots s x calls) {i : Nat} (hi : slots[i]? = some none) :
    x.1[i]? = some none := by
  induction h generalizing i with
  | nil s => exact hi
  | hole h ih =>
      cases i with
      | zero => rfl
      | succ i => exact ih hi
  | stop h =>
      cases i with
      | zero => cases hi
      | succ i => exact hi
  | next h hrest ih =>
      cases i with
      | zero => cases hi
      | succ i => exact ih hi

/-- One visit among the visits of a sweep: what it was to the entry of its
slot, and that all other calls were made for the entries of other slots. -/
structure Visit (visit : Entry → σ → Entry × σ × Bool → List Call → Prop) (slots : List Slot)
    (i : Nat) (e e' : Entry) (before own after : List Call) : Prop where
  visited : e' = e ∧ own = [] ∨ ∃ s s' stop, visit e s (e', s', stop) own
  others : ∀ c ∈ before ++ after, ∃ (j : Nat) (e₁ : Entry) (s₁ : σ) (x₁ : Entry × σ × Bool)
    (cs : List Call), j ≠ i ∧ slots[j]? = some (some e₁) ∧ visit e₁ s₁ x₁ cs ∧ c ∈ cs

theorem calls_of (h : Swept visit slots s x calls) :
    ∀ c ∈ calls, ∃ (j : Nat) (e₁ : Entry) (s₁ : σ) (x₁ : Entry × σ × Bool) (cs : List Call),
      slots[j]? = some (some e₁) ∧ visit e₁ s₁ x₁ cs ∧ c ∈ cs := by
  induction h with
  | nil s => exact fun c hc => absurd hc List.not_mem_nil
  | hole h ih =>
      intro c hc
      obtain ⟨j, e₁, s₁, x₁, cs, hj, hv, hmem⟩ := ih c hc
      exact ⟨j + 1, e₁, s₁, x₁, cs, hj, hv, hmem⟩
  | stop h => exact fun c hc => ⟨0, _, _, _, _, rfl, h, hc⟩
  | next h hrest ih =>
      intro c hc
      rcases List.mem_append.mp hc with hc | hc
      · exact ⟨0, _, _, _, _, rfl, h, hc⟩
      · obtain ⟨j, e₁, s₁, x₁, cs, hj, hv, hmem⟩ := ih c hc
        exact ⟨j + 1, e₁, s₁, x₁, cs, hj, hv, hmem⟩

/-- The stop of a sweep, seen from the second slot on. -/
theorem stopped_succ_iff (stop : Option Nat) (i : Nat) :
    stop.map (· + 1) = some (i + 1) ↔ stop = some i := by
  cases stop with
  | none => simp only [Option.map_none, reduceCtorEq]
  | some k => simp only [Option.map_some, Option.some.injEq, Nat.add_right_cancel_iff]

theorem reached_of_succ {stop : Option Nat} {i : Nat}
    (h : ∀ k, stop.map (· + 1) = some k → i + 1 ≤ k) : ∀ k, stop = some k → i ≤ k :=
  fun k hk => Nat.le_of_succ_le_succ (h (k + 1) ((stopped_succ_iff stop k).mpr hk))

/-- A sweep either comes to a slot or stops before. -/
theorem reached_or_behind (stop : Option Nat) (i : Nat) :
    (∀ k, stop = some k → i ≤ k) ∨ ∃ k, stop = some k ∧ k < i := by
  cases stop with
  | none => exact .inl fun k hk => by cases hk
  | some k =>
      rcases Nat.lt_or_ge k i with hk | hk
      · exact .inr ⟨k, rfl, hk⟩
      · exact .inl fun k' hk' => by cases hk'; exact hk

/-- The sweep as one slot sees it. -/
theorem at_slot (h : Swept visit slots s x calls) {i : Nat} {e : Entry}
    (hi : slots[i]? = some (some e)) :
    ∃ e' before own after, x.1[i]? = some (some e') ∧ calls = before ++ own ++ after ∧
      Visit visit slots i e e' before own after := by
  induction h generalizing i with
  | nil s => cases hi
  | hole h ih =>
      cases i with
      | zero => cases hi
      | succ i =>
          obtain ⟨e', before, own, after, he', hcalls, hvisit⟩ := ih hi
          refine ⟨e', before, own, after, he', hcalls, hvisit.visited, fun c hc => ?_⟩
          obtain ⟨j, e₁, s₁, x₁, cs, hne, hj, hv, hmem⟩ := hvisit.others c hc
          exact ⟨j + 1, e₁, s₁, x₁, cs, by omega, hj, hv, hmem⟩
  | @stop e₀ e₀' rest s s' calls h =>
      cases i with
      | zero =>
          cases hi
          refine ⟨e₀', [], calls, [], rfl, by simp only [List.nil_append, List.append_nil], ?_⟩
          exact ⟨.inr ⟨_, _, _, h⟩, fun c hc => absurd hc List.not_mem_nil⟩
      | succ i =>
          refine ⟨e, calls, [], [], hi, by simp only [List.append_nil], .inl ⟨rfl, rfl⟩, ?_⟩
          intro c hc
          rw [List.append_nil] at hc
          exact ⟨0, e₀, s, _, calls, by omega, rfl, h, hc⟩
  | @next e₀ e₀' rest rest' s s' s'' stop calls more h hrest ih =>
      cases i with
      | zero =>
          cases hi
          refine ⟨e₀', [], calls, more, rfl, by rw [List.nil_append], .inr ⟨_, _, _, h⟩, ?_⟩
          intro c hc
          obtain ⟨j, e₁, s₁, x₁, cs, hj, hv, hmem⟩ := hrest.calls_of c hc
          exact ⟨j + 1, e₁, s₁, x₁, cs, by omega, hj, hv, hmem⟩
      | succ i =>
          obtain ⟨e', before, own, after, he', hcalls, hvisit⟩ := ih hi
          refine ⟨e', calls ++ before, own, after, he', ?_, hvisit.visited, fun c hc => ?_⟩
          · rw [hcalls]; simp only [List.append_assoc]
          · rw [List.append_assoc] at hc
            rcases List.mem_append.mp hc with hc | hc
            · exact ⟨0, e₀, s, _, calls, by omega, rfl, h, hc⟩
            · obtain ⟨j, e₁, s₁, x₁, cs, hne, hj, hv, hmem⟩ := hvisit.others c hc
              exact ⟨j + 1, e₁, s₁, x₁, cs, by omega, hj, hv, hmem⟩

/-- A sweep visits every measurement up to the one that stops it, and what the
state goes through after one visit is what the later visits do. -/
theorem at_reached (later : σ → σ → Prop) (hrefl : ∀ s, later s s)
    (htrans : ∀ s s' s'', later s s' → later s' s'' → later s s'')
    (hvisit : ∀ e s e' s' stop own, visit e s (e', s', stop) own → later s s')
    (h : Swept visit slots s x calls) :
    later s x.2.1 ∧ ∀ (i : Nat) (e : Entry), slots[i]? = some (some e) →
      (∀ k, x.2.2 = some k → i ≤ k) → ∃ e' s₁ s₂ stops before own after,
        x.1[i]? = some (some e') ∧ calls = before ++ own ++ after ∧
          visit e s₁ (e', s₂, stops) own ∧ later s₂ x.2.1 ∧ (stops = true ↔ x.2.2 = some i) := by
  induction h with
  | nil s => exact ⟨hrefl s, fun i e hi => by cases hi⟩
  | @hole rest rest' s s' stop calls h ih =>
      obtain ⟨hlater, hrest⟩ := ih
      refine ⟨hlater, fun i e hi hreached => ?_⟩
      cases i with
      | zero => cases hi
      | succ i =>
          obtain ⟨e', s₁, s₂, stops, before, own, after, hi', hcalls, hv, hlater', hstops⟩ :=
            hrest i e hi (reached_of_succ hreached)
          exact ⟨e', s₁, s₂, stops, before, own, after, hi', hcalls, hv, hlater',
            hstops.trans (stopped_succ_iff stop i).symm⟩
  | @stop e₀ e₀' rest s s' calls h =>
      refine ⟨hvisit _ _ _ _ _ _ h, fun i e hi hreached => ?_⟩
      cases i with
      | zero =>
          cases hi
          exact ⟨e₀', s, s', true, [], calls, [], rfl, (List.append_nil _).symm, h, hrefl s',
            iff_of_true rfl rfl⟩
      | succ i => exact absurd (hreached 0 rfl) (Nat.not_succ_le_zero i)
  | @next e₀ e₀' rest rest' s s' s'' stop calls more h hrest ih =>
      obtain ⟨hlater, hafter⟩ := ih
      refine ⟨htrans _ _ _ (hvisit _ _ _ _ _ _ h) hlater, fun i e hi hreached => ?_⟩
      cases i with
      | zero =>
          cases hi
          refine ⟨e₀', s, s', false, [], calls, more, rfl, rfl, h, hlater, ?_⟩
          refine iff_of_false Bool.noConfusion fun heq => ?_
          obtain ⟨k, -, hk⟩ := Option.map_eq_some_iff.mp heq
          exact Nat.succ_ne_zero k hk
      | succ i =>
          obtain ⟨e', s₁, s₂, stops, before, own, after, hi', hcalls, hv, hlater', hstops⟩ :=
            hafter i e hi (reached_of_succ hreached)
          refine ⟨e', s₁, s₂, stops, calls ++ before, own, after, hi', ?_, hv, hlater',
            hstops.trans (stopped_succ_iff stop i).symm⟩
          rw [hcalls]
          simp only [List.append_assoc]

/-- What stops a sweep is a measurement. -/
theorem at_stop (h : Swept visit slots s x calls) {k : Nat} (hstop : x.2.2 = some k) :
    ∃ e, slots[k]? = some (some e) := by
  induction h generalizing k with
  | nil s => cases hstop
  | hole h ih =>
      obtain ⟨k', hstop', rfl⟩ := Option.map_eq_some_iff.mp hstop
      exact ih hstop'
  | stop h =>
      cases hstop
      exact ⟨_, rfl⟩
  | next h hrest ih =>
      obtain ⟨k', hstop', rfl⟩ := Option.map_eq_some_iff.mp hstop
      exact ih hstop'

/-- Behind the measurement that stops a sweep all slots stay as they are. -/
theorem at_rest (h : Swept visit slots s x calls) {i k : Nat} (hstop : x.2.2 = some k)
    (hk : k < i) : x.1[i]? = slots[i]? := by
  induction h generalizing i k with
  | nil s => rfl
  | hole h ih =>
      obtain ⟨k', hstop', rfl⟩ := Option.map_eq_some_iff.mp hstop
      cases i with
      | zero => rfl
      | succ i => exact ih hstop' (Nat.lt_of_succ_lt_succ hk)
  | stop h =>
      cases hstop
      cases i with
      | zero => exact absurd hk (Nat.lt_irrefl 0)
      | succ i => rfl
  | next h hrest ih =>
      obtain ⟨k', hstop', rfl⟩ := Option.map_eq_some_iff.mp hstop
      cases i with
      | zero => exact absurd hk (Nat.not_lt_zero _)
      | succ i => exact ih hstop' (Nat.lt_of_succ_lt_succ hk)

/-- A sweep that goes through to the end visits every measurement. -/
theorem at_visit (later : σ → σ → Prop) (hrefl : ∀ s, later s s)
    (htrans : ∀ s s' s'', later s s' → later s' s'' → later s s'')
    (hvisit : ∀ e s e' s' stop own, visit e s (e', s', stop) own → later s s')
    (h : Swept visit slots s x calls) (hend : x.2.2 = none) :
    later s x.2.1 ∧ ∀ (i : Nat) (e : Entry), slots[i]? = some (some e) → ∃ e' s₁ s₂ own,
      x.1[i]? = some (some e') ∧ visit e s₁ (e', s₂, false) own ∧ later s₂ x.2.1 ∧
        ∀ c ∈ own, c ∈ calls := by
  obtain ⟨hlater, hreached⟩ := h.at_reached later hrefl htrans hvisit
  refine ⟨hlater, fun i e hi => ?_⟩
  obtain ⟨e', s₁, s₂, stops, before, own, after, hi', rfl, hv, hlater', hstops⟩ :=
    hreached i e hi fun k hk => by rw [hend] at hk; cases hk
  rw [hend] at hstops
  cases stops with
  | true => cases hstops.mp rfl
  | false =>
      exact ⟨e', s₁, s₂, own, hi', hv, hlater', fun c hc =>
        List.mem_append_left _ (List.mem_append_right _ hc)⟩

end Swept

end Telemetry.Slot
