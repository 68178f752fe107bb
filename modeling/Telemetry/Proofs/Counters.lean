import Telemetry.Proofs.Stays

/-!
# Starts and finishes keep step

A tally numbers its acquisitions twice, when they start and when they are over,
and the sampler gives up an acquisition that it finds in neither of the two
good states: all over, or all but the last. This file shows that it never finds
one. The counters are words that wrap around, so the claim has a limit: a start
needs a turn of the sampler, and there are fewer turns than words.

The limit enters in one place. A tally with fewer starts than words compares
its counters as numbers do, so the acquisition that is open is seen to be open
and is closed before the next start; that is `Starts.paced`.
-/

namespace Telemetry

def Note.isTurn : Note → Bool
  | .turn _ => true
  | _ => false

def turns (notes : List Note) : Nat := notes.countP Note.isTurn

theorem turns_append (notes more : List Note) :
    turns (notes ++ more) = turns notes + turns more := List.countP_append

theorem turns_filter_le (p : Note → Bool) (notes : List Note) :
    turns (notes.filter p) ≤ turns notes := List.Sublist.countP_le List.filter_sublist

namespace Tally

/-- Nothing is over that has not started, and at most one acquisition is open. -/
def InStep (t : Tally) : Prop :=
  t.finished.toNat ≤ t.started.toNat ∧ t.started.toNat ≤ t.finished.toNat + 1

/-- In step, after at most so many starts. -/
def Paced (k : Nat) (t : Tally) : Prop := t.InStep ∧ t.started.toNat ≤ k

theorem Paced.mono {k l : Nat} {t : Tally} (h : t.Paced k) (hle : k ≤ l) : t.Paced l :=
  ⟨h.1, Nat.le_trans h.2 hle⟩

/-- Whether a tally is in step is a matter of its two counters. -/
theorem Paced.congr {k : Nat} {t t' : Tally} (h : t.Paced k) (hs : t'.started = t.started)
    (hf : t'.finished = t.finished) : t'.Paced k := by
  unfold Paced InStep
  rw [hs, hf]
  exact h

theorem paced_zero {k : Nat} {t : Tally} (hs : t.started = 0) (hf : t.finished = 0) :
    t.Paced k := by
  unfold Paced InStep
  rw [hs, hf, UInt32.toNat_zero]
  omega

theorem toNat_succ {a : UInt32} (h : a.toNat + 1 < UInt32.size) :
    (a + 1).toNat = a.toNat + 1 := by
  rw [UInt32.toNat_add, UInt32.toNat_one]
  exact Nat.mod_eq_of_lt h

theorem InStep.open_or_over {t : Tally} (h : t.InStep) :
    t.finished = t.started ∨ t.finished + 1 = t.started := by
  have hlt := t.started.toNat_lt
  rcases Nat.eq_or_lt_of_le h.1 with heq | hless
  · exact .inl (UInt32.toNat_inj.mp heq)
  · refine .inr (UInt32.toNat_inj.mp ?_)
    rw [toNat_succ (by unfold UInt32.size; omega)]
    have hle := h.2
    omega

/-- Giving up the open acquisition leaves none. -/
theorem InStep.givenUp {t : Tally} (h : t.InStep) :
    t.givenUp.started = t.started ∧ t.givenUp.finished = t.started := by
  unfold Tally.givenUp
  split
  · next hopen =>
      refine ⟨rfl, ?_⟩
      rcases h.open_or_over with heq | hsucc
      · rw [inFlight, heq, decide_eq_true_eq] at hopen
        exact absurd hopen (UInt32.lt_irrefl _)
      · exact hsucc
  · next hover =>
      refine ⟨rfl, ?_⟩
      rw [inFlight, decide_eq_true_eq, UInt32.lt_iff_toNat_lt] at hover
      have hle := h.1
      exact UInt32.toNat_inj.mp (by omega)

end Tally

/-! ## The sampler's half-turns

From a tally in step the start half leaves one acquisition open or none,
whatever the limit; that it leaves a tally in step needs a start to be left. -/

namespace Sampler

variable {p : Plan} {m : Definition} {t t' : Tally} {s s' : SamplerStats} {busy : Bool}
  {calls : List Call}

theorem Starts.open_or_over (h : Starts m t s (t', s', busy) calls)
    (hover : t.finished = t.started) : t'.finished = t'.started ∨ t'.finished + 1 = t'.started := by
  cases h with
  | refused h => exact .inl (by rw [Tally.missed, hover])
  | opened h => exact .inr (by rw [Tally.opened, hover])
  | failed h cause => exact .inl (by rw [Tally.missed, hover])
  | busy h => exact .inl hover

theorem Starts.desyncs (h : Starts m t s (t', s', busy) calls) : s'.desyncs = s.desyncs := by
  cases h <;> rfl

theorem Starts.paced (h : Starts m t s (t', s', busy) calls) (hover : t.finished = t.started)
    (hlimit : t.started.toNat + 1 < UInt32.size) : t'.Paced (t.started.toNat + 1) := by
  have hsucc : (t.started + 1).toNat = t.started.toNat + 1 := Tally.toNat_succ hlimit
  have hmissed : t.missed.Paced (t.started.toNat + 1) := by
    unfold Tally.Paced Tally.InStep
    simp only [Tally.missed, hover, hsucc]
    omega
  cases h with
  | refused h => exact hmissed
  | opened h =>
      unfold Tally.Paced Tally.InStep
      simp only [Tally.opened, hover, hsucc]
      omega
  | failed h cause => exact hmissed
  | busy h =>
      unfold Tally.Paced Tally.InStep
      rw [hover]
      omega

theorem Collects.desyncs (h : Collects m t s (t', s', busy) calls) : s'.desyncs = s.desyncs := by
  cases h <;> rfl

theorem Collects.paced {k : Nat} (h : Collects m t s (t', s', busy) calls)
    (hopen : t.finished + 1 = t.started) (ht : t.Paced k) : t'.Paced k := by
  have hclosed : t.closed.Paced k := by
    refine ⟨?_, ht.2⟩
    unfold Tally.InStep
    simp only [Tally.closed, hopen]
    omega
  cases h with
  | done r leadTime answer hlead =>
      obtain ⟨summary, samples, heq⟩ := t.closed.taking_eq r
      rw [heq]
      exact hclosed.congr rfl rfl
  | failed cause => exact hclosed
  | busy => exact ht.congr rfl rfl

variable {startWait : UInt64} {collectAt : UInt64} {collectWait : Option UInt64}

theorem StartTurns.open_or_over (h : StartTurns p m t s (t', s', startWait) calls)
    (ht : t.InStep) : t'.finished = t'.started ∨ t'.finished + 1 = t'.started := by
  cases h with
  | early h => exact ht.open_or_over
  | due h hstart => exact hstart.open_or_over (by rw [ht.givenUp.1, ht.givenUp.2])

theorem StartTurns.desyncs (h : StartTurns p m t s (t', s', startWait) calls) :
    s'.desyncs = s.desyncs := by
  cases h with
  | early h => rfl
  | due h hstart => exact hstart.desyncs

theorem StartTurns.paced {k : Nat} (h : StartTurns p m t s (t', s', startWait) calls)
    (ht : t.Paced k) (hlimit : k + 1 < UInt32.size) : t'.Paced (k + 1) := by
  have hk := ht.2
  cases h with
  | early h => exact ht.mono (by omega)
  | due h hstart =>
      obtain ⟨hstarted, hfinished⟩ := ht.1.givenUp
      have hpaced := hstart.paced (by rw [hfinished, hstarted]) (by rw [hstarted]; omega)
      rw [hstarted] at hpaced
      exact hpaced.mono (by omega)

/-- The same of the program, whatever its devices are. -/
theorem startTurn_open_or_over {W : Type} (d : Devices W) (p : Plan) (m : Definition)
    (s : SamplerStats) (w : W) (ht : t.InStep) :
    let t' := ((startTurn d p m t s).run w).1.1
    t'.finished = t'.started ∨ t'.finished + 1 = t'.started := by
  obtain ⟨_, _, calls, rfl, h⟩ := startTurn_speaks (v := .schedule) d p m t s w []
  exact h.open_or_over ht

theorem CollectTurns.desyncs (h : CollectTurns p m collectAt t s (t', s', collectWait) calls)
    (ht : t.finished = t.started ∨ t.finished + 1 = t.started) : s'.desyncs = s.desyncs := by
  cases h with
  | idle h => rfl
  | early hopen h => rfl
  | due hopen h hcollect => exact hcollect.desyncs
  | astray hne hopen =>
      rcases ht with h | h
      · exact absurd h hne
      · exact absurd h hopen

theorem CollectTurns.paced {k : Nat}
    (h : CollectTurns p m collectAt t s (t', s', collectWait) calls) (ht : t.Paced k) :
    t'.Paced k := by
  cases h with
  | idle h => exact ht
  | early hopen h => exact ht
  | due hopen h hcollect => exact hcollect.paced hopen ht
  | astray hne hopen =>
      rcases ht.1.open_or_over with h | h
      · exact absurd h hne
      · exact absurd h hopen

theorem capLead_counters (p : Plan) (t : Tally) :
    (capLead p t).started = t.started ∧ (capLead p t).finished = t.finished := by
  unfold capLead
  split
  · exact ⟨rfl, rfl⟩
  · exact ⟨rfl, rfl⟩

theorem capLead_paced {k : Nat} (p : Plan) (ht : t.Paced k) : (capLead p t).Paced k :=
  ht.congr (capLead_counters p t).1 (capLead_counters p t).2

variable {guard : UInt32} {clock : TransmitClock} {now : Timestamp} {e e' : Entry}
  {near near' : Option UInt64}

theorem Visits.desyncs {k : Nat} (h : Visits guard clock now e (s, near) (e', s', near') calls)
    (he : e.tally.Paced k) : s'.desyncs = s.desyncs := by
  cases h with
  | idle h => rfl
  | active h hturn =>
      cases hturn with
      | turn hstart hcollect =>
          have hcap := capLead_paced (Plan.of e.definition guard clock now) he
          rw [hcollect.desyncs (hstart.open_or_over hcap.1), hstart.desyncs]

theorem Visits.paced {k : Nat} (h : Visits guard clock now e (s, near) (e', s', near') calls)
    (he : e.tally.Paced k) (hlimit : k + 1 < UInt32.size) : e'.tally.Paced (k + 1) := by
  cases h with
  | idle h => exact he.mono (by omega)
  | active h hturn =>
      cases hturn with
      | turn hstart hcollect =>
          have hcap := capLead_paced (Plan.of e.definition guard clock now) he
          exact hcollect.paced (hstart.paced hcap hlimit)

theorem Polls.paced {k : Nat} {polled polled' : UInt32}
    (h : Polls e (s, polled) (e', s', polled') calls) (he : e.tally.Paced k) :
    e'.tally.Paced k := by
  cases h with
  | idle h => exact he
  | failed h cause =>
      refine ⟨?_, he.2⟩
      unfold Tally.InStep
      simp only [Entry.withTally_tally, Tally.abandoned]
      omega
  | asked h answer hfine => exact he

theorem Polls.desyncs {polled polled' : UInt32}
    (h : Polls e (s, polled) (e', s', polled') calls) : s'.desyncs = s.desyncs := by
  cases h <;> rfl

end Sampler

/-! ## Everything else a node does to a measurement -/

namespace Entry

variable {k : Nat} {e e' : Entry} {own : List Call}

/-- A send leaves the counters, or begins them anew. -/
theorem Handled.paced (h : e.Handled own e') (he : e.tally.Paced k) : e'.tally.Paced k := by
  cases h with
  | appended h =>
      cases h with
      | idle h => exact he
      | unsampled h hs => exact Tally.paced_zero rfl rfl
      | refused h hs cause => exact he
      | accepted h hs => exact Tally.paced_zero rfl rfl
  | answered h =>
      cases h with
      | idle h => exact he
      | settled h hwaits => exact he.congr rfl rfl
  | cleared => exact he.congr rfl rfl

theorem Handlings.paced (h : e.Handlings own e') (he : e.tally.Paced k) : e'.tally.Paced k :=
  h.keeps (fun _ _ _ h he => h.paced he) he

theorem ReadTo.paced (h : e.ReadTo e') (he : e.tally.Paced k) : e'.tally.Paced k := by
  cases h with
  | refused h => exact he
  | made h leadTime => exact he.congr rfl rfl

theorem TouchedTo.paced (h : e.TouchedTo own e') (he : e.tally.Paced k) : e'.tally.Paced k := by
  rcases h.2 with rfl | h | h
  · exact he
  · exact h.paced he
  · exact h.paced (he.congr rfl rfl)

theorem TurnedTo.paced {guard : UInt32} {clock : TransmitClock} {now : Timestamp}
    (h : e.TurnedTo guard clock now own e') (he : e.tally.Paced k)
    (hlimit : k + 1 < UInt32.size) : e'.tally.Paced (k + 1) := by
  rcases h with ⟨rfl, _⟩ | ⟨s, s', h⟩
  · exact he.mono (by omega)
  · exact h.paced he hlimit

theorem PolledTo.paced (h : e.PolledTo own e') (he : e.tally.Paced k) : e'.tally.Paced k := by
  rcases h with ⟨rfl, _⟩ | ⟨s, s', h⟩
  · exact he
  · exact h.paced he

end Entry

namespace Node

variable {k : Nat} {n n' : Node} {notes : List Note}

theorem Seen.paced {e e' : Entry} {own : List Note} (h : Seen n n' e own e')
    (he : e.tally.Paced k) (hlimit : k + turns own < UInt32.size) :
    e'.tally.Paced (k + turns own) := by
  cases h with
  | @turn now calls e' h =>
      have hone : 1 ≤ turns (.turn now :: Voice.schedule.notes calls) := by
        rw [turns, List.countP_cons_of_pos rfl]
        omega
      exact (h.paced he (by omega)).mono (by omega)
  | polled h => exact (h.paced he).mono (by omega)
  | sent h => exact (h.paced he).mono (by omega)
  | touched h => exact (h.paced he).mono (by omega)

/-- Every measurement of a node is in step after at most so many turns, and
none has been given up for not being so. -/
structure Paced (k : Nat) (n : Node) : Prop where
  tallies : ∀ i e, n.table.get? i = some e → e.tally.Paced k
  desyncs : n.sampler.stats.desyncs = 0

theorem Step.desyncs (h : Step n notes n') (hn : n.Paced k) :
    n'.sampler.stats.desyncs = 0 := by
  cases h with
  | turn hdue h =>
      cases h with
      | turn h =>
          refine (h.keeps (fun e => e.tally.Paced k) (fun _ => True) (fun s => s.1.desyncs = 0)
            ?_ (fun _ _ => trivial) ?_ hn.desyncs).2
          · intro e s e' s' stop calls hvisit he hs
            refine ⟨trivial, ?_⟩
            rw [hvisit.2.desyncs he, hs]
          · intro e he
            obtain ⟨i, hi⟩ := List.mem_iff_getElem?.mp he
            exact hn.tallies i e (Table.get?_eq_some.mpr hi)
  | poll h =>
      cases h with
      | polled h =>
          refine (h.keeps (fun _ => True) (fun _ => True) (fun s => s.1.desyncs = 0)
            ?_ (fun _ _ => trivial) (fun _ _ => trivial) hn.desyncs).2
          intro e s e' s' stop calls hvisit _ hs
          refine ⟨trivial, ?_⟩
          rw [hvisit.2.desyncs, hs]
  | transmit hdue h => exact hn.desyncs
  | answer h => exact hn.desyncs
  | nap slept h => exact hn.desyncs
  | aside calls => exact hn.desyncs
  | touch h => exact hn.desyncs
  | drop => exact hn.desyncs
  | relink now => exact hn.desyncs
  | switch enabled => exact hn.desyncs
  | wake now h => exact hn.desyncs
  | power mode => exact hn.desyncs
  | interval interval h => rw [(setInterval_table h).2, hn.desyncs]

theorem Step.paced (h : Step n notes n') (ht : n.table.Distinct) (hn : n.Paced k)
    (hlimit : k + turns notes < UInt32.size) : n'.Paced (k + turns notes) where
  tallies i e' hi' := by
    cases hi : n.table.get? i with
    | none =>
        rw [h.hole hi] at hi'
        cases hi'
    | some e =>
        obtain ⟨e₁, hi₁, hseen⟩ := h.seen ht hi
        rw [hi₁] at hi'
        cases hi'
        have hfilter := turns_filter_le (·.concerns e.name) notes
        exact (hseen.paced (hn.tallies i e hi) (by omega)).mono (by omega)
  desyncs := h.desyncs hn

theorem Path.paced (h : Path n notes n') (ht : n.table.Distinct) (hn : n.Paced k)
    (hlimit : k + turns notes < UInt32.size) : n'.Paced (k + turns notes) := by
  induction h generalizing k with
  | nil n => exact hn
  | @cons n n₁ n₂ notes more hstep _ ih =>
      rw [turns_append] at hlimit ⊢
      have hmid := hstep.paced ht hn (by omega)
      rw [← Nat.add_assoc] at hlimit ⊢
      exact ih (hstep.distinct ht) hmid hlimit

theorem Deed.paced (h : Deed n notes n') (ht : n.table.Distinct) (hn : n.Paced k)
    (hlimit : k + turns notes < UInt32.size) : n'.Paced (k + turns notes) := by
  cases h with
  | steps h => exact h.paced ht hn hlimit
  | edit calls h =>
      refine ⟨fun i e' hi' => ?_, hn.desyncs⟩
      have hedited := h.edited hi'
      cases hi : n.table.get? i with
      | none =>
          rw [hi] at hedited
          cases hedited with
          | added m kind leadTime => exact Tally.paced_zero rfl rfl
      | some e =>
          rw [hi] at hedited
          cases hedited with
          | kept e m instantRequested =>
              exact ((hn.tallies i e hi).congr rfl rfl).mono (by omega)

/-! ## Runs -/

def turnsOf (past : List Episode) : Nat := turns (past.flatMap Episode.notes)

end Node

/-- Names stay distinct, and a node keeps pace as long as there are fewer turns than words. -/
theorem Life.paced {W : Type} (l : Life W) :
    l.node.table.Distinct ∧
      (Node.turnsOf l.past < UInt32.size → l.node.Paced (Node.turnsOf l.past)) := by
  refine Node.history_induction l.devices l.birth
    (fun past n => n.table.Distinct ∧
      (Node.turnsOf past < UInt32.size → n.Paced (Node.turnsOf past))) ?_ l.moves [] l.world ?_
  · intro past n notes n' hpast hdeed
    refine ⟨hdeed.distinct hpast.1, fun hlimit => ?_⟩
    have hsum : Node.turnsOf (past ++ [⟨n, notes, n'⟩]) = Node.turnsOf past + turns notes := by
      rw [Node.turnsOf, List.flatMap_append, turns_append, List.flatMap_singleton, Node.turnsOf]
    rw [hsum] at hlimit ⊢
    exact hdeed.paced hpast.1 (hpast.2 (by omega)) hlimit
  · refine ⟨Table.distinct_empty l.capacity l.settings.collectionTime, fun _ => ⟨?_, rfl⟩⟩
    intro i e hi
    rw [Life.birth, Node.create, Table.get?_empty] at hi
    cases hi

/-- Fewer turns than words keep all counters in step, and the sampler never
finds a measurement that is not: whatever the start half of another turn does,
it leaves one acquisition open or none. -/
theorem Life.counters_in_step {W : Type} (l : Life W)
    (hlimit : Node.turnsOf l.past < UInt32.size) :
    l.node.sampler.stats.desyncs = 0 ∧ ∀ i e, l.node.table.get? i = some e →
      e.tally.finished.toNat ≤ e.tally.started.toNat ∧
      e.tally.started.toNat ≤ e.tally.finished.toNat + 1 ∧
      ∀ (d : Devices W) (p : Plan) (s : SamplerStats) (w : W),
        let t := ((Sampler.startTurn d p e.definition (Sampler.capLead p e.tally) s).run w).1.1
        t.finished = t.started ∨ t.finished + 1 = t.started := by
  have hpaced := l.paced.2 hlimit
  refine ⟨hpaced.desyncs, fun i e hi => ?_⟩
  have he := hpaced.tallies i e hi
  refine ⟨he.1.1, he.1.2, fun d p s w => ?_⟩
  exact Sampler.startTurn_open_or_over d p e.definition s w (Sampler.capLead_paced p he).1

/-- One turn in, with an acquisition open. -/
theorem Life.counters_in_step_ticking :
    let l := Life.ticking 600 1000 [1, 500]
    Node.turnsOf l.past = 1 ∧
      (l.node.table.get? 0).map (fun e => (e.tally.started, e.tally.finished)) = some (1, 0) ∧
      l.node.sampler.stats.desyncs = 0 ∧ ∀ e, l.node.table.get? 0 = some e →
        e.tally.started.toNat ≤ e.tally.finished.toNat + 1 := by
  have hone : Node.turnsOf (Life.ticking 600 1000 [1, 500]).past = 1 := by decide +kernel
  have hstep := Life.counters_in_step (Life.ticking 600 1000 [1, 500]) (by rw [hone]; decide)
  exact ⟨hone, by decide +kernel, hstep.1, fun e he => (hstep.2 0 e he).2.1⟩

end Telemetry
