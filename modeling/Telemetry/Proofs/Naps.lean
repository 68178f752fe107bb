import Telemetry.Proofs.Deadlines
import Telemetry.Proofs.Inactive
import Telemetry.Proofs.TickEnds

/-!
# What a nap must not miss

A node that decides to sleep looks at the transmit clock and at the open
acquisitions, so its nap ends before the tick does and nothing is acquired
meanwhile. It does not look at the measurements. It goes by the wait that the
last turn of the sampler has left, and that wait was made for the table and the
clock of that turn: an edit, another interval, a read or a send may move a start
point behind it, and only the next turn of the sampler takes notice.

So a nap is as good as the wait, and `Node.Covers` says how good that is: the nap
ends before every start point as the last turn of the sampler left it. That turn
is found again in a run by `Life.lastTurned`. If it belongs to the very turn of
the loop that sleeps, and no tick ended in between, then nothing has moved.
-/

namespace Telemetry

variable {W : Type}

/-! ## Naps and deadlines -/

namespace Sleeper

variable {s : Sleeper} {sampler : Sampler} {clock : TransmitClock} {now : Timestamp} {ms : UInt32}

/-- A nap and its margin fit before both deadlines, neither of which has been reached. -/
theorem nap_ok (h : s.nap sampler clock now = .ok ms) :
    sampler.remaining now ≠ 0 ∧ clock.elapsed now < clock.interval.toUInt64 ∧
      ms.toNat + s.least.toNat ≤ (sampler.remaining now).toNat ∧
      ms.toNat + s.least.toNat ≤ (clock.remaining now).toNat := by
  unfold nap at h
  split at h
  · cases h
  · next hsample =>
      split at h
      · cases h
      · next hsend =>
          simp only [] at h
          split at h
          · cases h
          · next hfree =>
              cases h
              have hle := UInt64.le_iff_toNat_le.mp (UInt64.not_lt.mp hfree)
              have hnear : ∀ a b : UInt64, (min a b).toNat ≤ a.toNat ∧ (min a b).toNat ≤ b.toNat :=
                fun a b => ⟨UInt64.le_iff_toNat_le.mp Std.min_le_left,
                  UInt64.le_iff_toNat_le.mp Std.min_le_right⟩
              obtain ⟨hsampler, hclock⟩ := hnear (sampler.remaining now) (clock.remaining now)
              rw [UInt32.toNat_toUInt64] at hle
              rw [Saturating.toNat_narrow, UInt64.toNat_sub_of_le _ _ (UInt64.not_lt.mp hfree),
                UInt32.toNat_toUInt64]
              exact ⟨hsample, UInt64.not_le.mp hsend, by omega, by omega⟩

/-- The nap ends within the sampler's wait. -/
theorem nap_le_wait (h : s.nap sampler clock now = .ok ms) :
    sampler.wait ≠ 0 ∧ now.toNat + ms.toNat + s.least.toNat ≤
      sampler.lastTurn.toNat + sampler.wait.toNat := by
  obtain ⟨hsome, -, hle, -⟩ := nap_ok h
  rw [Ne, ← UInt64.toNat_inj, UInt64.toNat_zero] at hsome ⊢
  rw [Sampler.remaining, Saturating.toNat_sub, elapsed, Saturating.toNat_sub] at hle hsome
  omega

/-- The nap ends before the tick is over. -/
theorem nap_not_due (h : s.nap sampler clock now = .ok ms) {later : Timestamp}
    (hlater : later.toNat ≤ now.toNat + ms.toNat + s.least.toNat) : clock.due later = false := by
  obtain ⟨-, hearly, -, hle⟩ := nap_ok h
  rw [Bool.eq_false_iff, Ne, clock.due_iff]
  rw [UInt64.lt_iff_toNat_lt, UInt32.toNat_toUInt64] at hearly
  rw [TransmitClock.remaining, Saturating.toNat_sub, UInt32.toNat_toUInt64] at hle
  rw [TransmitClock.elapsed, elapsed, Saturating.toNat_sub] at hearly hle
  omega

theorem nap_error {decision : SleepDecision} (h : s.nap sampler clock now = .error decision)
    {entered : Bool} : decision ≠ .slept ms entered := by
  intro heq
  subst heq
  unfold nap at h
  split at h
  · cases h
  · split at h
    · cases h
    · simp only [] at h
      split at h
      · cases h
      · cases h

/-- A board that was asked to sleep was asked for a nap. -/
theorem rest_slept {d : Devices W} {w : W} {entered : Bool}
    (h : ((s.rest d sampler clock now).run w).1.2 = .slept ms entered) :
    s.nap sampler clock now = .ok ms := by
  unfold rest at h
  simp only [Action.run_bind, Action.run_ite] at h
  split at h
  · cases h
  · cases hnap : s.nap sampler clock now with
    | error decision =>
        simp only [hnap, Action.run_pure] at h
        exact absurd h (nap_error hnap)
    | ok ms' =>
        simp only [hnap, Action.run_ite] at h
        split at h
        · cases h
          rfl
        · cases h
          rfl

end Sleeper

/-! ## What a wait covers -/

/-- The sampler is the same, what it has seen apart. -/
structure Sampler.Keeps (s s' : Sampler) : Prop where
  guard : s'.guard = s.guard
  lastTurn : s'.lastTurn = s.lastTurn
  wait : s'.wait = s.wait

namespace Sampler.Keeps

variable {s s' s'' : Sampler}

theorem refl (s : Sampler) : s.Keeps s := ⟨rfl, rfl, rfl⟩

theorem trans (h : s.Keeps s') (h' : s'.Keeps s'') : s.Keeps s'' :=
  ⟨h'.guard.trans h.guard, h'.lastTurn.trans h.lastTurn, h'.wait.trans h.wait⟩

theorem of_polls {t t' : Table} {polled : UInt32} {calls : List Call}
    (h : s.PollsOpen t (s', t', polled) calls) : s.Keeps s' := by
  cases h with
  | polled h => exact ⟨rfl, rfl, rfl⟩

end Sampler.Keeps

/-- A poll leaves a measurement alone that has no open acquisition. -/
theorem Entry.PolledTo.idle {e e' : Entry} {own : List Call} (h : e.PolledTo own e')
    (hover : e.tally.inFlight = false) : e' = e := by
  rcases h with ⟨rfl, -⟩ | ⟨s, s', h⟩
  · rfl
  · cases h with
    | idle h => rfl
    | failed h cause => exact absurd (h.symm.trans hover) Bool.noConfusion
    | asked h answer hfine => rfl

namespace Node

/-- No measurement has to be started before a moment. -/
def Covers (n : Node) (moment : Nat) : Prop :=
  ∀ i e, n.table.get? i = some e → e.Regular n.sampler.guard n.clock →
    moment ≤ e.startsAt n.sampler.guard n.clock

/-- The wait of the sampler, if there is one, is good for the node as it is. -/
def Timely (n : Node) : Prop :=
  n.sampler.wait ≠ 0 → n.sampler.lastTurn.toNat < 0x8000000000000000 →
    n.Covers (n.sampler.lastTurn.toNat + n.sampler.wait.toNat)

/-- The sampler does not wait, or it still has the wait of a node that the wait was good for. -/
def Minds (n : Node) (last : Option Node) : Prop :=
  n.sampler.wait = 0 ∨ ∃ x ∈ last, x.Timely ∧ x.sampler.Keeps n.sampler

/-! ## The sampler's part of a turn of the loop -/

section

variable (d : Devices W) (n : Node)

/-- The node as the sampler leaves it in a turn of the loop, if the turn comes to the sampler. -/
def sampled : Action W (Option Node) := do
  if !n.enabled then pure none
  else if !(← d.radio.connected) then pure none
  else if n.offline then pure none
  else
    let n ← n.upToTick d
    pure (some n)

/-- The node as a turn of the sampler leaves it, if this turn of the loop has one. -/
def turned : Action W (Option Node) := do
  let n' ← n.sampled d
  pure (n'.filter (·.sampler.lastTurn != n.sampler.lastTurn))

/-- The time at which a node decides on a nap, if no acquisition is open. -/
def settleTime : Action W (Option Timestamp) := do
  let (_, polled) ← n.poll d
  if polled = 0 then some <$> d.now else pure none

/-- The time at which a turn of the loop does so. -/
def restTime : Action W (Option Timestamp) := do
  match ← n.sampled d with
  | none => pure none
  | some n => do
      let (n, _) ← n.transmit d
      n.settleTime d

/-- What a turn of the loop does after the sampler. -/
def afterSample : Action W (Node × Iteration) := do
  let (n, send) ← n.transmit d
  let (n, sleep) ← n.settle d
  pure (n, .ran send sleep)

variable {d n} {w : W}

/-- A turn of the loop that comes to the sampler goes on from the node as the sampler leaves it. -/
theorem of_sampled {n' : Node} (h : ((n.sampled d).run w).1 = some n') :
    (∃ w', ((n.upToTick d).run w').1 = n') ∧
      (n.iterate d).run w = (n'.afterSample d).run ((n.sampled d).run w).2 := by
  cases henabled : n.enabled with
  | false => simp [sampled, henabled] at h
  | true =>
      cases hlink : (d.radio.connected.run w).1 with
      | false => simp [sampled, henabled, hlink] at h
      | true =>
          cases hoffline : n.offline with
          | true => simp [sampled, henabled, hoffline] at h
          | false =>
              simp only [sampled, henabled, Bool.not_true, Bool.false_eq_true, if_false,
                Action.run_bind, hlink, hoffline, Action.run_pure, Option.some.injEq] at h ⊢
              subst h
              refine ⟨⟨_, rfl⟩, ?_⟩
              simp only [iterate, henabled, Bool.not_true, Bool.false_eq_true, if_false,
                Action.run_bind, hlink, hoffline, iterateOnline_eq, afterSample]

theorem Loops.keeps {reads : Timestamp → Prop} {n' : Node} {iteration : Iteration}
    {notes : List Note} (h : Loops reads n iteration notes n')
    (hother : ∀ send sleep, iteration ≠ .ran send sleep) : n.sampler.Keeps n'.sampler := by
  cases h with
  | disabled h => exact .refl _
  | disconnected henabled hdropped h =>
      rename_i n₁ sampler table polled calls
      have hsame : n₁.sampler = n.sampler := by
        rw [hdropped]
        split
        · rfl
        · rfl
      rw [← hsame]
      exact .of_polls h
  | reconnected henabled hoffline hreads => exact .refl _
  | ran sleep calls henabled hoffline haside hidle hsamples hsends hrests =>
      exact absurd rfl (hother _ _)

/-- A turn of the loop that does not come to the sampler leaves it alone. -/
theorem of_unsampled (h : ((n.sampled d).run w).1 = none) :
    (∀ send sleep, ((n.iterate d).run w).1.2 ≠ .ran send sleep) ∧
      n.sampler.Keeps ((n.iterate d).run w).1.1.sampler := by
  obtain ⟨notes, hloops⟩ := loops_any d n w
  have hother : ∀ send sleep, ((n.iterate d).run w).1.2 ≠ .ran send sleep := by
    intro send sleep hran
    cases henabled : n.enabled with
    | false => simp [iterate, henabled] at hran
    | true =>
        cases hlink : (d.radio.connected.run w).1 with
        | false => simp [iterate, iterateOffline, henabled, hlink] at hran
        | true =>
            cases hoffline : n.offline with
            | true => simp [iterate, henabled, hlink, hoffline] at hran
            | false => simp [sampled, henabled, hlink, hoffline] at h
  exact ⟨hother, hloops.keeps hother⟩

/-- The sampler's part of a turn of the loop follows on the reads that were asked for. -/
theorem upToTick_samples (w : W) :
    ∃ table notes, Relation.ReflTransGen Table.Touches n.table table ∧
      Samples (fun _ => True) { n with table } notes ((n.upToTick d).run w).1 := by
  have hwithin : d.Within (.keeping fun _ => True) := d.within_of_leads fun _ _ _ => trivial
  have hsample : ∀ (n : Node) (w : W),
      ∃ notes, Samples (fun _ => True) n notes ((n.sample d).run w).1 := by
    intro n w
    have htraced : Action.TracedIn (fun _ => True) (n.sampleBy (.full d)) (n.sampleBy (.blind d))
        fun n' new => Samples (fun _ => True) n new n' :=
      sampleBy_samples hwithin n fun _ _ => trivial
    obtain ⟨notes, -, -, h⟩ := htraced w [] trivial
    exact ⟨notes, h⟩
  have hasked : ∀ ready : Bool, ∃ table, Relation.ReflTransGen Table.Touches n.table table ∧
      ((if ready then n.sendRequested d else pure n).run (d.radio.ready.run w).2).1 =
        { n with table } := by
    intro ready
    cases ready with
    | false => exact ⟨n.table, .refl, rfl⟩
    | true =>
        obtain ⟨-, -, -, calls, table, -, hsame, htouches, -⟩ :=
          sendRequested_touches hwithin n (d.radio.ready.run w).2 [] trivial
        exact ⟨table, htouches, hsame⟩
  obtain ⟨table, htouches, hsame⟩ := hasked (d.radio.ready.run w).1
  obtain ⟨notes, hsamples⟩ := hsample { n with table }
    ((if (d.radio.ready.run w).1 then n.sendRequested d else pure n).run
      (d.radio.ready.run w).2).2
  refine ⟨table, notes, htouches, ?_⟩
  rw [← hsame] at hsamples ⊢
  exact hsamples

/-- What comes after the sampler in a turn of the loop leaves it alone. -/
theorem transmit_keeps (w : W) : ((n.transmit d).run w).1.1.sampler = n.sampler := by
  unfold transmit
  rw [Action.run_bind, Action.run_ite]
  split
  · rfl
  · rfl

theorem settle_rests_any (w : W) :
    ∃ notes, Rests n ((n.settle d).run w).1.2 notes ((n.settle d).run w).1.1 := by
  have hwithin : d.Within (.keeping fun _ => True) := d.within_of_leads fun _ _ _ => trivial
  obtain ⟨notes, -, -, h⟩ := settle_rests hwithin n w [] trivial
  exact ⟨notes, h⟩

end

variable {reads : Timestamp → Prop} {n n' : Node} {notes : List Note} {k : Nat}
  {sleep : Option SleepDecision}

theorem Rests.keeps (h : Rests n sleep notes n') : n.sampler.Keeps n'.sampler := by
  cases h with
  | rested h slept hnap hsleep => exact .of_polls h

theorem Paced.touched (hn : n.Paced k) (ht : n.table.Distinct) (hlimit : k < UInt32.size)
    {table : Table} (h : Relation.ReflTransGen Table.Touches n.table table) :
    ({ n with table } : Node).Paced k :=
  (Path.of_touches [] h).paced ht hn hlimit

/-- A turn of the sampler is seen by its time, and leaves a wait that is good. -/
theorem Samples.timely (h : Samples reads n notes n') (hn : n.Paced k)
    (hlimit : k + 1 < UInt32.size) :
    n' = n ∨ n'.sampler.lastTurn ≠ n.sampler.lastTurn ∧ n'.Timely := by
  cases h with
  | waits hreads h => exact .inl rfl
  | @turns now sampler table calls hreads hdue h =>
      obtain ⟨hlast, hguard⟩ : sampler.lastTurn = now ∧ sampler.guard = n.sampler.guard := by
        cases h with
        | turn h => exact ⟨rfl, rfl⟩
      refine .inr ⟨?_, fun hwait hlate i e hi he => ?_⟩
      · rw [n.sampler.due_iff] at hdue
        show sampler.lastTurn ≠ n.sampler.lastTurn
        intro heq
        rw [hlast] at heq
        rw [heq] at hdue
        omega
      · rcases h.waits hn.tallies hlimit (hlast ▸ hlate) hi he with hnone | hbound
        · exact absurd hnone hwait
        · exact hbound

variable {d : Devices W} {w : W}

/-- The sampler's part of a turn of the loop keeps the sampler, or is a turn of it. -/
theorem sampled_cases (ht : n.table.Distinct) (hn : n.Paced k) (hlimit : k + 1 < UInt32.size)
    (h : ((n.sampled d).run w).1 = some n') :
    ((n.turned d).run w).1 = none ∧ n.sampler.Keeps n'.sampler ∨
      ((n.turned d).run w).1 = some n' ∧ n'.Timely := by
  have hturned : ((n.turned d).run w).1 =
      (some n').filter (·.sampler.lastTurn != n.sampler.lastTurn) := by
    rw [← h]
    rfl
  obtain ⟨⟨w', rfl⟩, -⟩ := of_sampled h
  obtain ⟨table, notes, htouches, hsamples⟩ := upToTick_samples (d := d) (n := n) w'
  rcases hsamples.timely (hn.touched ht (by omega) htouches) hlimit with hsame | ⟨hne, htimely⟩
  · refine .inl ⟨?_, ?_⟩
    · rw [hturned, hsame]
      simp
    · rw [hsame]
      exact .refl _
  · refine .inr ⟨?_, htimely⟩
    rw [hturned, Option.filter_some, if_pos]
    exact bne_iff_ne.mpr hne

/-! ## Runs -/

/-- The node as a turn of the sampler leaves it, if the operation has one. -/
def turnedBy (d : Devices W) (n : Node) (w : W) : Op → Option Node
  | .iterate => ((n.turned d).run w).1
  | _ => none

/-- The node as the last turn of the sampler in a run leaves it; before the first it is `last`. -/
def lastTurned (d : Devices W) : List (Move W) → Node → W → Option Node → Option Node
  | [], _, _, last => last
  | m :: rest, n, w, last =>
      let r := (n.performBy (.blind d) m.op).run (m.meanwhile w)
      lastTurned d rest r.1 r.2 ((n.turnedBy d (m.meanwhile w) m.op).or last)

theorem Minds.keeps {last : Option Node} (h : n.Minds last) (hkeeps : n.sampler.Keeps n'.sampler) :
    n'.Minds last := by
  rcases h with hnone | ⟨x, hx, htimely, hsame⟩
  · exact .inl (hkeeps.wait.trans hnone)
  · exact .inr ⟨x, hx, htimely, hsame.trans hkeeps⟩

theorem afterSample_keeps (w : W) : n.sampler.Keeps ((n.afterSample d).run w).1.1.sampler := by
  obtain ⟨notes, hrests⟩ := settle_rests_any (d := d) (n := ((n.transmit d).run w).1.1)
    ((n.transmit d).run w).2
  have hkeeps := hrests.keeps
  rw [transmit_keeps] at hkeeps
  exact hkeeps

theorem iterate_minds {last : Option Node} (ht : n.table.Distinct) (hn : n.Paced k)
    (hlimit : k + 1 < UInt32.size) (h : n.Minds last) :
    ((n.iterate d).run w).1.1.Minds (((n.turned d).run w).1.or last) := by
  cases hsampled : ((n.sampled d).run w).1 with
  | none =>
      have hturned : ((n.turned d).run w).1 = none := by
        show Option.filter _ ((n.sampled d).run w).1 = none
        rw [hsampled]
        rfl
      rw [hturned]
      exact h.keeps (of_unsampled hsampled).2
  | some n₁ =>
      rw [(of_sampled hsampled).2]
      refine Minds.keeps ?_ (afterSample_keeps _)
      rcases sampled_cases ht hn hlimit hsampled with ⟨hturned, hkeeps⟩ | ⟨hturned, htimely⟩
      · rw [hturned]
        exact h.keeps hkeeps
      · rw [hturned]
        exact .inr ⟨n₁, rfl, htimely, .refl _⟩

/-- Every operation keeps the node's mind on the last turn of the sampler, or forgets the wait. -/
theorem performBy_minds {last : Option Node} (ht : n.table.Distinct) (hn : n.Paced k)
    (hlimit : k + 1 < UInt32.size) (h : n.Minds last) (op : Op) :
    ((n.performBy (.blind d) op).run w).1.Minds ((n.turnedBy d w op).or last) := by
  obtain ⟨hperforms, hrun⟩ := performs_any d n w op
  generalize (n.performBy (.full d) op).run (w, []) = r at hperforms hrun
  obtain ⟨n', w', notes⟩ := r
  have hafter : ((n.performBy (.blind d) op).run w).1 = n' := congrArg Prod.fst hrun
  rw [hafter]
  cases hperforms with
  | iterated hloops =>
      rw [← hafter]
      exact iterate_minds ht hn hlimit h
  | woken now hoff => exact .inl rfl
  | set interval hset => exact h.keeps ((setInterval_table hset).2 ▸ .refl _)
  | answered | switched | powered | refused | requested | edited | loaded | read | asked | tested =>
      exact h.keeps (.refl _)

theorem run_minds (d : Devices W) (n : Node) (moves : List (Move W)) (w : W) (last : Option Node)
    (ht : n.table.Distinct) (hn : n.Paced k)
    (hlimit : k + turnsOf (history d moves n w) + 1 < UInt32.size) (h : n.Minds last) :
    ((run d moves n).run w).1.Paced (k + turnsOf (history d moves n w)) ∧
      ((run d moves n).run w).1.Minds (lastTurned d moves n w last) := by
  induction moves generalizing n w last k with
  | nil => exact ⟨hn, h⟩
  | cons m rest ih =>
      obtain ⟨notes, hrun, hdeed⟩ := performBy_deed d n m.op (m.meanwhile w) []
      rw [List.nil_append] at hrun
      have hsum : k + turnsOf (history d (m :: rest) n w) = k + turns notes +
          turnsOf (history d rest ((n.performBy (.blind d) m.op).run (m.meanwhile w)).1
            ((n.performBy (.blind d) m.op).run (m.meanwhile w)).2) := by
        simp only [history, hrun, turnsOf, List.flatMap_cons, turns_append, Nat.add_assoc]
      rw [hsum] at hlimit ⊢
      have hafter := performBy_minds (d := d) (w := m.meanwhile w) ht hn (by omega) h m.op
      have hpaced := hdeed.paced ht hn (by omega)
      exact ih _ _ _ (hdeed.distinct ht) hpaced hlimit hafter

/-! ## The turn of the loop that sleeps -/

theorem settle_slept {ms : UInt32} {entered : Bool}
    (h : ((n.settle d).run w).1.2 = some (.slept ms entered)) :
    let n' := ((n.settle d).run w).1.1
    ∃ now, ((n.settleTime d).run w).1 = some now ∧
      n'.sleeper.nap n'.sampler n'.clock now = .ok ms := by
  unfold settle at h ⊢
  simp only [settleTime, Action.run_bind, Action.run_ite] at h ⊢
  generalize (n.poll d).run w = x at h ⊢
  obtain ⟨⟨n₁, polled⟩, w₁⟩ := x
  simp only [] at h ⊢
  split at h
  · next hnone =>
      have hrest := Option.some.inj h
      have hnap := Sleeper.rest_slept hrest
      obtain ⟨-, -, -, -, ⟨slept, hslept⟩, -⟩ := Sleeper.rest_speaks (v := .schedule) d n₁.sleeper
        n₁.sampler n₁.clock (d.now.run w₁).1 (d.now.run w₁).2 []
      rw [if_pos hnone, if_pos hnone]
      refine ⟨_, rfl, ?_⟩
      simp only [Action.run_pure, hslept]
      exact hnap
  · cases h

/-- A node that comes to a decision on sleep has no open acquisition. -/
theorem Rests.idle {decision : SleepDecision} (h : Rests n (some decision) notes n')
    (hroom : n'.table.capacity < UInt32.size) :
    (∀ i, n'.table.get? i = n.table.get? i) ∧
      ∀ i e, n'.table.get? i = some e → e.tally.inFlight = false := by
  cases h with
  | @rested sampler table polled calls more _ h slept hnap hsleep =>
      have hover : ∀ i e, n.table.get? i = some e → e.tally.inFlight = false := by
        intro i e hi
        refine Bool.eq_false_iff.mpr fun hopen => ?_
        have hpolled := (h.polled_ne_zero_iff (h.passes.capacity ▸ hroom)).mpr ⟨i, e, hi, hopen⟩
        exact Option.some_ne_none decision (hsleep.mpr hpolled)
      have hsame : ∀ i, table.get? i = n.table.get? i := by
        intro i
        cases hi : n.table.get? i with
        | none => exact h.passes.hole i hi
        | some e =>
            obtain ⟨e', own, hi', hpolled, -⟩ := h.passes.entry i e hi
            rw [hi', hpolled.idle (hover i e hi)]
      exact ⟨hsame, fun i e hi => hover i e (hsame i ▸ hi)⟩

theorem Covers.congr {moment : Nat} (h : n.Covers moment)
    (htable : ∀ i, n'.table.get? i = n.table.get? i) (hclock : n'.clock = n.clock)
    (hkeeps : n.sampler.Keeps n'.sampler) : n'.Covers moment := by
  intro i e hi he
  rw [hclock, hkeeps.guard] at he ⊢
  exact h i e (htable i ▸ hi) he

/-- A nap within a wait that is good for a node is covered by it. -/
theorem Timely.covers {moment : Nat} (h : n.Timely) (hkeeps : n.sampler.Keeps n'.sampler)
    (hwait : n'.sampler.wait ≠ 0) (hlast : n'.sampler.lastTurn.toNat < 0x8000000000000000)
    (hle : moment ≤ n'.sampler.lastTurn.toNat + n'.sampler.wait.toNat) : n.Covers moment := by
  rw [hkeeps.lastTurn] at hlast hle
  rw [hkeeps.wait] at hwait hle
  exact fun i e hi he => Nat.le_trans hle (h hwait hlast i e hi he)

theorem iterate_capacity (d : Devices W) (n : Node) (w : W) :
    ((n.iterate d).run w).1.1.table.capacity = n.table.capacity := by
  obtain ⟨notes, -, hdeed⟩ := performBy_deed d n .iterate w []
  exact hdeed.capacity_eq

/-- A turn of the loop without a send has left the node as the sampler did. -/
theorem transmit_quiet (h : ((n.transmit d).run w).1.2 = none) :
    ((n.transmit d).run w).1.1 = n := by
  unfold transmit at h ⊢
  rw [Action.run_bind, Action.run_ite] at h ⊢
  split at h
  · cases h
  · next hdue => rw [if_neg hdue]; rfl

theorem afterSample_slept {send : Option SendOutcome} {ms : UInt32} {entered : Bool}
    (h : ((n.afterSample d).run w).1.2 = .ran send (some (.slept ms entered))) :
    let n' := ((n.afterSample d).run w).1.1
    ∃ n₁ now notes, (send = none → n₁ = n) ∧ Rests n₁ (some (.slept ms entered)) notes n' ∧
      ((n.transmit d >>= fun x => x.1.settleTime d).run w).1 = some now ∧
      n'.sleeper.nap n'.sampler n'.clock now = .ok ms := by
  have hquiet := transmit_quiet (d := d) (n := n) (w := w)
  unfold afterSample at h ⊢
  simp only [Action.run_bind, Action.run_pure, Iteration.ran.injEq] at h ⊢
  generalize (n.transmit d).run w = x at h hquiet ⊢
  obtain ⟨⟨n₁, sent⟩, w₁⟩ := x
  obtain ⟨rfl, hsleep⟩ := h
  obtain ⟨now, hnow, hnap⟩ := settle_slept hsleep
  obtain ⟨notes, hrests⟩ := settle_rests_any (d := d) (n := n₁) w₁
  rw [hsleep] at hrests
  exact ⟨n₁, now, notes, hquiet, hrests, hnow, hnap⟩

/-- The parts of a turn of the loop that sleeps, and the time at which it decides to. -/
theorem iterate_slept {send : Option SendOutcome} {ms : UInt32} {entered : Bool}
    (h : ((n.iterate d).run w).1.2 = .ran send (some (.slept ms entered))) :
    let n' := ((n.iterate d).run w).1.1
    ∃ n₁ n₂ now notes, ((n.sampled d).run w).1 = some n₁ ∧ (send = none → n₂ = n₁) ∧
      Rests n₂ (some (.slept ms entered)) notes n' ∧ ((n.restTime d).run w).1 = some now ∧
      n'.sleeper.nap n'.sampler n'.clock now = .ok ms := by
  cases hsampled : ((n.sampled d).run w).1 with
  | none => exact absurd h ((of_unsampled hsampled).1 _ _)
  | some n₁ =>
      rw [(of_sampled hsampled).2] at h ⊢
      obtain ⟨n₂, now, notes, hquiet, hrests, hnow, hnap⟩ := afterSample_slept h
      refine ⟨n₁, n₂, now, notes, rfl, hquiet, hrests, ?_, hnap⟩
      rw [← hnow]
      simp only [restTime, Action.run_bind, hsampled]

end Node

namespace Life

/-- The node as the last turn of the sampler left it. -/
def lastTurned (l : Life W) : Option Node :=
  Node.lastTurned l.devices l.moves l.birth l.world none

/-- The sampler of a node does not wait, or it waits since its last turn. -/
theorem minds (l : Life W) (hlimit : Node.turnsOf l.past + 1 < UInt32.size) :
    l.node.Paced (Node.turnsOf l.past) ∧ l.node.Minds l.lastTurned := by
  have hrun := Node.run_minds (k := 0) l.devices l.birth l.moves l.world none
    (Table.distinct_empty l.capacity l.settings.collectionTime) ⟨?_, rfl⟩ ?_ (.inl rfl)
  · rwa [Nat.zero_add] at hrun
  · intro i e hi
    rw [birth, Node.create, Table.get?_empty] at hi
    cases hi
  · rwa [Nat.zero_add]

/-- When a node goes to sleep, the tick lasts longer than the nap and its margin,
and no acquisition is open. Of the measurements the nap knows what the last turn
of the sampler left: all of them had their start points later. One that starts
before the nap is over has had its start point moved since. There is none if the
same turn of the loop is one of the sampler and does not end a tick. -/
theorem nap_covers (l : Life W) (w : W) {send : Option SendOutcome} {ms : UInt32}
    {entered : Bool} (hturns : Node.turnsOf l.past + 1 < UInt32.size)
    (hroom : l.capacity < UInt32.size)
    (hran : ((l.node.iterate l.devices).run w).1.2 = .ran send (some (.slept ms entered)))
    (hlast : ((l.node.iterate l.devices).run w).1.1.sampler.lastTurn.toNat < 0x8000000000000000) :
    let n := ((l.node.iterate l.devices).run w).1.1
    let turned := ((l.node.turned l.devices).run w).1
    ∃ now, ((l.node.restTime l.devices).run w).1 = some now ∧
      let limit := now.toNat + ms.toNat + n.sleeper.least.toNat
      (∀ later : Timestamp, later.toNat ≤ limit → n.clock.due later = false) ∧
      (∀ i e, n.table.get? i = some e → e.tally.inFlight = false) ∧
      (∃ x ∈ turned.or l.lastTurned, x.sampler.Keeps n.sampler ∧ x.Covers limit ∧
        ∀ i e, n.table.get? i = some e → e.startsAt n.sampler.guard n.clock < limit →
          ∀ e₀, x.table.get? i = some e₀ → e₀.Regular x.sampler.guard x.clock →
            e.startsAt n.sampler.guard n.clock < e₀.startsAt x.sampler.guard x.clock) ∧
      (turned.isSome = true → send = none → n.Covers limit) := by
  intro n turned
  obtain ⟨hcapacity, ht⟩ := l.table_kept
  obtain ⟨hpaced, hminds⟩ := l.minds hturns
  obtain ⟨n₁, n₂, now, notes, hsampled, hquiet, hrests, htime, hnap⟩ := Node.iterate_slept hran
  have hafter : n.Minds (turned.or l.lastTurned) := Node.iterate_minds ht hpaced hturns hminds
  have hroom' : n.table.capacity < UInt32.size := by
    rw [Node.iterate_capacity, hcapacity]
    exact hroom
  obtain ⟨hslots, hclosed⟩ := hrests.idle hroom'
  obtain ⟨hwait, hover⟩ := Sleeper.nap_le_wait hnap
  refine ⟨now, htime, fun later hlater => Sleeper.nap_not_due hnap hlater, hclosed, ?_, ?_⟩
  · rcases hafter with hnone | ⟨x, hx, htimely, hkeeps⟩
    · exact absurd hnone hwait
    · have hcovers := htimely.covers hkeeps hwait hlast hover
      refine ⟨x, hx, hkeeps, hcovers, fun i e _ hearly e₀ hi₀ he₀ => ?_⟩
      exact Nat.lt_of_lt_of_le hearly (hcovers i e₀ hi₀ he₀)
  · intro hturned hsend
    rcases Node.sampled_cases ht hpaced hturns hsampled with ⟨hnone, -⟩ | ⟨-, htimely⟩
    · rw [show turned = none from hnone] at hturned
      cases hturned
    · rw [hquiet hsend] at hrests hslots
      exact (htimely.covers hrests.keeps hwait hlast hover).congr hslots hrests.kept.2 hrests.keeps

/-- A node on battery that learns of a faster measurement while it waits for a slow one. -/
def overslept : Life Timestamp where
  devices := .obliging 0
  settings := { interval := 60000, power := .battery }
  capacity := 2
  began := 0
  world := 0
  moves := [⟨id, .edit (.add ⟨"A", .custom0, 1, 1, false⟩)⟩, ⟨fun _ => 1, .iterate⟩,
    ⟨id, .edit (.add ⟨"B", .custom0, 1, 10, false⟩)⟩]

/-- It sleeps for the slow one, and misses five start points of the other. -/
theorem nap_covers_overslept :
    let n := ((overslept.node.iterate overslept.devices).run 2).1.1
    ((overslept.node.iterate overslept.devices).run 2).1.2 =
      .ran none (some (.slept 28998 false)) ∧
    ((overslept.node.restTime overslept.devices).run 2).1 = some 2 ∧
    (∃ e, n.table.get? 1 = some e ∧ e.Regular n.sampler.guard n.clock ∧
      e.startsAt n.sampler.guard n.clock = 3000) ∧
    ∃ x : Node, x.Covers (2 + 28998 + 1000) ∧ x.table.get? 1 = none := by
  intro n
  have hturns : Node.turnsOf overslept.past = 1 := by decide +kernel
  have hran : ((overslept.node.iterate overslept.devices).run 2).1.2 =
      .ran none (some (.slept 28998 false)) := by decide +kernel
  have hlast : n.sampler.lastTurn = 1 ∧ n.sleeper.least = 1000 := by decide +kernel
  have htime : ((overslept.node.restTime overslept.devices).run 2).1 = some 2 := by decide +kernel
  have hnone : (((overslept.node.turned overslept.devices).run 2).1.or overslept.lastTurned).all
      (fun x => (x.table.get? 1).isNone) = true := by decide +kernel
  have hsecond : (n.table.get? 1).any (fun e => decide (e.Regular n.sampler.guard n.clock ∧
      e.startsAt n.sampler.guard n.clock = 3000)) = true := by decide +kernel
  obtain ⟨e, hi, he⟩ := (Option.any_eq_true _ _).mp hsecond
  obtain ⟨hregular, hstart⟩ := of_decide_eq_true he
  obtain ⟨now, hnow, -, -, ⟨x, hx, -, hcovers, -⟩, -⟩ := nap_covers overslept 2
    (by rw [hturns]; decide) (by decide) hran (by rw [hlast.1]; decide)
  rw [htime] at hnow
  cases hnow
  have hempty := (Option.all_eq_true _ _).mp hnone x hx
  refine ⟨hran, htime, ⟨e, hi, hregular, hstart⟩, x, ?_, Option.isNone_iff_eq_none.mp hempty⟩
  rw [hlast.2] at hcovers
  exact hcovers

end Life

end Telemetry
