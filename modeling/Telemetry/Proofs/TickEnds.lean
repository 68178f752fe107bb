import Mathlib.Data.List.Chain
import Telemetry.Proofs.Sends
import Telemetry.Proofs.Worlds

/-!
# When ticks end

The count of the transmit clock goes up when the loop finds the tick over, and
a new tick begins when a send says so. The two are not the same moment: a send
that finds no link, is not allowed, times out or goes on with a cycle leaves
the tick as it is, which is then still over, and the next turn of the loop
moves the count again. `SendOutcome.keepsTick` is the exact condition.

Time needs a clock. `Devices.Forward` says that the devices live in a world with
a time that no request puts back, and that the clock reads it. In such a world
the advances of a run are followed one by one: two in a row are further apart
than the interval, unless the first has kept the tick; and after one that has,
any later moment is good for the next.
-/

namespace Telemetry

variable {W : Type}

/-! ## A clock that goes forward -/

/-- No time is put back. -/
def Drift.forward (time : W → Timestamp) : Drift W where
  leads w w' := time w ≤ time w'
  refl _ := UInt64.le_refl _
  trans := UInt64.le_trans

theorem Action.Within.time_le {α : Type} {time : W → Timestamp} {a : Action W α}
    (h : a.Within (.forward time)) (w : W) : time w ≤ time (a.run w).2 := h w

/-- Devices in a world with a time that only goes forward, and that the clock reads. -/
structure Devices.Forward (d : Devices W) (time : W → Timestamp) : Prop where
  within : d.Within (.forward time)
  now : ∀ w, (d.now.run w).1 = time w

/-! ## Sends and the running tick -/

/-- Whether a send that comes to this leaves the running tick as it is; whether
a send was pending before matters to most. -/
def SendOutcome.keepsTick (pending : Bool) : SendOutcome → Bool
  | .notConnected | .deferred => true
  | .initFailed => false
  | .pending | .timedOut | .nothingQueued | .fragment _ | .complete _ | .sendFailed => pending

namespace Outgoing

variable {o o' : Outgoing} {now : Timestamp} {calls : List Call}

theorem ticked_clock (o : Outgoing) (now : Timestamp) :
    (o.ticked now).clock = if o.uplink.pending then o.clock else o.clock.restart now := by
  unfold ticked
  split <;> rfl

theorem ticked_uplink (o : Outgoing) (now : Timestamp) : (o.ticked now).uplink = o.uplink := by
  unfold ticked
  split <;> rfl

theorem Fills.clock_eq {queued : UInt16} {complete : Bool}
    (h : o.Fills (o', queued, complete) calls) :
    o'.clock = o.clock ∧ o'.uplink.pending = o.uplink.pending := by
  cases h with
  | walked h => exact ⟨rfl, rfl⟩

theorem HandsOver.clock_eq {queued : UInt16} {complete : Bool} {outcome : SendOutcome}
    (h : o.HandsOver queued complete (o', outcome) calls) (pending : Bool) :
    o'.clock = o.clock ∧ outcome.keepsTick pending = pending := by
  cases h with
  | failed cause => exact ⟨rfl, rfl⟩
  | last h => exact ⟨rfl, rfl⟩
  | part h => exact ⟨rfl, rfl⟩

/-- A send begins a new tick, unless its outcome keeps the old one. -/
theorem Sends.clock_eq {outcome : SendOutcome} (h : o.Sends now (o', outcome) calls) :
    o'.clock = if outcome.keepsTick o.uplink.pending then o.clock else o.clock.restart now := by
  cases h with
  | stillOffline h => rfl
  | lostLink h => rfl
  | deferred => rfl
  | timedOut h hlate =>
      rw [SendOutcome.keepsTick, if_pos h]
      rfl
  | stillPending h hearly =>
      rw [SendOutcome.keepsTick, if_pos h]
      rfl
  | newlyPending h =>
      rw [SendOutcome.keepsTick, if_neg (by simpa using h)]
      rfl
  | initFailed cause => rfl
  | nothing hfill h =>
      rw [ticked_clock, hfill.clock_eq.1, hfill.clock_eq.2]
      rfl
  | handed hfill h hhand =>
      obtain ⟨hclock, hkeeps⟩ := hhand.clock_eq o.uplink.pending
      rw [hkeeps, hclock, ticked_clock, hfill.clock_eq.1, hfill.clock_eq.2]
      rfl

theorem Sends.count_eq {outcome : SendOutcome} (h : o.Sends now (o', outcome) calls) :
    o'.clock.count = o.clock.count := by
  rw [h.clock_eq]
  split <;> rfl

theorem Answers.clock_eq {good : Bool} {outcome : Option SendOutcome}
    (h : o.Answers now good (o', outcome) calls) :
    o'.clock = o.clock ∨ o'.clock = o.clock.restart now := by
  cases h with
  | bad => exact .inl rfl
  | last h hpending => exact .inl rfl
  | next h hpending hsend =>
      rw [hsend.clock_eq]
      split
      · exact .inl rfl
      · exact .inr rfl

theorem Answers.count_eq {good : Bool} {outcome : Option SendOutcome}
    (h : o.Answers now good (o', outcome) calls) : o'.clock.count = o.clock.count := by
  rcases h.clock_eq with heq | heq
  · exact congrArg TransmitClock.count heq
  · exact (congrArg TransmitClock.count heq).trans rfl

end Outgoing

/-! ## Advances -/

/-- The end of a tick, as the loop finds it. -/
structure Advance where
  /-- The time at which the tick is found to be over. -/
  time : Timestamp
  /-- Whether a send was pending before. -/
  pending : Bool
  outcome : SendOutcome
  /-- The clock after the turn of the loop. -/
  after : TransmitClock

/-- Whether the tick runs on although it is over. -/
def Advance.keepsTick (a : Advance) : Bool := a.outcome.keepsTick a.pending

/-- What an operation is to the transmit clock: nothing, the begin of a tick at
some moment from a time on, or an advance. -/
inductive TransmitClock.Goes (c : TransmitClock) (time : Timestamp) :
    Option Advance → TransmitClock → Prop where
  | stays : Goes c time none c
  | restarts {now : Timestamp} (h : time ≤ now) : Goes c time none (c.restart now)
  | advances (a : Advance) (h : time ≤ a.time) (hdue : c.due a.time = true)
      (hafter : a.after = if a.keepsTick then c.advance else c.advance.restart a.time) :
      Goes c time (some a) a.after

/-- Two advances in a row: in the order of their times, and further apart than
the interval, unless the first has kept the tick. -/
def Advance.Spaced (interval : UInt32) (a b : Advance) : Prop :=
  a.time ≤ b.time ∧
    (a.keepsTick = false → interval.toNat < b.time.toNat - a.time.toNat)

namespace TransmitClock

theorem due_iff (c : TransmitClock) (now : Timestamp) :
    c.due now = true ↔ c.interval.toNat < now.toNat - c.began.toNat := by
  rw [due, decide_eq_true_eq, UInt64.lt_iff_toNat_lt, UInt32.toNat_toUInt64, elapsed,
    Telemetry.elapsed, Saturating.toNat_sub]

namespace Goes

variable {c c' : TransmitClock} {time : Timestamp} {advance : Option Advance}

theorem interval_eq (h : c.Goes time advance c') : c'.interval = c.interval := by
  cases h with
  | stays => rfl
  | restarts h => rfl
  | advances a h hdue hafter => rw [hafter]; split <;> rfl

theorem count_eq (h : c.Goes time advance c') :
    c'.count = c.count + UInt32.ofNat advance.toList.length := by
  cases h with
  | stays => exact (UInt32.add_zero _).symm
  | restarts h => exact (UInt32.add_zero _).symm
  | advances a h hdue hafter => rw [hafter]; split <;> rfl

/-- A tick that began before a time began before it still, or begins later. -/
theorem began_le {earlier : Timestamp} (h : c.Goes time none c') (hearlier : earlier ≤ time)
    (hbegan : earlier ≤ c.began) : earlier ≤ c'.began := by
  cases h with
  | stays => exact hbegan
  | restarts h => exact UInt64.le_trans hearlier h

theorem time_le_began {a : Advance} (h : c.Goes time (some a) c') (hkeeps : a.keepsTick = false) :
    a.time ≤ c'.began := by
  cases h with
  | advances a h hdue hafter =>
      rw [hafter, hkeeps]
      exact UInt64.le_refl _

/-- After an advance that has kept the tick, every moment finds it over; after
another, those do that are more than the interval away. -/
theorem due_iff {a : Advance} (h : c.Goes time (some a) c') {now : Timestamp}
    (hnow : a.time ≤ now) :
    a.after.due now = true ↔
      a.keepsTick = true ∨ c.interval.toNat < now.toNat - a.time.toNat := by
  have hle := UInt64.le_iff_toNat_le.mp hnow
  cases h with
  | advances a h hdue hafter =>
      rw [c.due_iff] at hdue
      rw [hafter, TransmitClock.due_iff]
      cases a.keepsTick with
      | true =>
          refine iff_of_true ?_ (.inl rfl)
          show c.interval.toNat < now.toNat - c.began.toNat
          omega
      | false => exact ⟨.inr, fun h => h.resolve_left Bool.false_ne_true⟩

/-- An advance after another finds the tick over that began with it, or later. -/
theorem spaced {a b : Advance} (h : c.Goes time (some b) c') (hle : a.time ≤ time)
    (hbegan : a.keepsTick = false → a.time ≤ c.began) : a.Spaced c.interval b := by
  cases h with
  | advances b h hdue hafter =>
      refine ⟨UInt64.le_trans hle h, fun hkeeps => ?_⟩
      have hfrom := UInt64.le_iff_toNat_le.mp (hbegan hkeeps)
      have hover := (c.due_iff b.time).mp hdue
      omega

end Goes

end TransmitClock

namespace Node

variable (d : Devices W) (n : Node) {time : W → Timestamp}

/-- The turn of the loop with a link, up to the question whether the tick is over. -/
def upToTick : Action W Node := do
  let n ← (do if ← d.radio.ready then n.sendRequested d else pure n)
  n.sample d

/-- The time at which a turn of the loop finds the tick over, if it does. -/
def tickEnd : Action W (Option Timestamp) := do
  if !n.enabled then pure none
  else if !(← d.radio.connected) then pure none
  else if n.offline then pure none
  else
    let n ← n.upToTick d
    let now ← d.now
    pure (if n.clock.due now then some now else none)

/-- The advance in an operation, if there is one. -/
def advance? (w : W) : Op → Option Advance
  | .iterate =>
      let r := (n.iterate d).run w
      match ((n.tickEnd d).run w).1, r.1.2 with
      | some time, .ran (some outcome) _ =>
          some { time, pending := n.uplink.pending, outcome, after := r.1.1.clock }
      | _, _ => none
  | _ => none

/-- The advances in a run, one after the other. -/
def advances (d : Devices W) : List (Move W) → Node → W → List Advance
  | [], _, _ => []
  | m :: rest, n, w =>
      let r := (n.performBy (.blind d) m.op).run (m.meanwhile w)
      (n.advance? d (m.meanwhile w) m.op).toList ++ advances d rest r.1 r.2

theorem sendRequested_keeps (w : W) :
    ∃ table, ((n.sendRequested d).run w).1 = { n with table } := by
  unfold sendRequested
  rw [Action.run_bind]
  obtain ⟨table, outcome⟩ :=
    ((InstantSend.run d n.settings.instantGuard n.uplink n.clock n.table).run w).1
  cases outcome with
  | ok sent =>
      simp only [Action.run_ite]
      split
      · exact ⟨table, rfl⟩
      · exact ⟨table, rfl⟩
  | error cause => exact ⟨table, rfl⟩

theorem sample_keeps (w : W) :
    ∃ sampler table, ((n.sample d).run w).1 = { n with sampler, table } := by
  unfold sample
  rw [Action.run_bind, Action.run_ite]
  split
  · exact ⟨_, _, rfl⟩
  · exact ⟨_, _, rfl⟩

theorem settle_keeps (w : W) :
    ∃ sampler table sleeper, ((n.settle d).run w).1.1 = { n with sampler, table, sleeper } := by
  unfold settle
  rw [Action.run_bind]
  simp only [Action.run_ite]
  split
  · exact ⟨_, _, _, rfl⟩
  · exact ⟨_, _, _, rfl⟩

theorem upToTick_keeps (w : W) :
    ((n.upToTick d).run w).1.clock = n.clock ∧ ((n.upToTick d).run w).1.uplink = n.uplink := by
  unfold upToTick
  rw [Action.run_bind]
  obtain ⟨sampler, table, hsample⟩ := sample_keeps d
    (((do if ← d.radio.ready then n.sendRequested d else pure n) : Action W Node).run w).1
    (((do if ← d.radio.ready then n.sendRequested d else pure n) : Action W Node).run w).2
  rw [hsample]
  simp only [Action.run_bind, Action.run_ite]
  split
  · obtain ⟨table', hrequested⟩ := sendRequested_keeps d n (d.radio.ready.run w).2
    rw [hrequested]
    exact ⟨rfl, rfl⟩
  · exact ⟨rfl, rfl⟩

theorem iterateOnline_eq :
    n.iterateOnline d = (do
      let n ← n.upToTick d
      let (n, send) ← n.transmit d
      let (n, sleep) ← n.settle d
      pure (n, .ran send sleep)) := by
  simp only [iterateOnline, upToTick, bind_assoc]

theorem upToTick_within {r : Drift W} (hd : d.Within r) : (n.upToTick d).Within r := by
  refine Action.Within.bind ?_ fun n' => sampleBy_within (Watch.blind_within hd) n'
  refine hd.ready.bind fun ready => ?_
  split
  · exact sendRequested_within hd n
  · exact .pure _

/-- What the rest of the turn is to the clock, from that question on. -/
theorem transmit_goes (hd : d.Forward time) (w : W) :
    let x := (n.transmit d).run w
    time w ≤ time x.2 ∧
      if n.clock.due (time w) then
        ∃ outcome, x.1.2 = some outcome ∧
          x.1.1.clock = if outcome.keepsTick n.uplink.pending then n.clock.advance
            else n.clock.advance.restart (time w)
      else x.1.2 = none ∧ x.1.1.clock = n.clock := by
  refine ⟨(transmitBy_within (Watch.blind_within hd.within) n).time_le w, ?_⟩
  unfold transmit
  rw [Action.run_bind, hd.now, Action.run_ite]
  split
  · let o : Outgoing := { n.outgoing with clock := n.clock.advance }
    obtain ⟨_, _, calls, _, hsend⟩ := Outgoing.send_speaks (v := .schedule) d o (time w)
      ((d.log.debug ("Transmit tick " ++ toString n.clock.advance.count.toNat)).run
        (d.now.run w).2).2 []
    exact ⟨_, rfl, hsend.clock_eq⟩
  · exact ⟨rfl, rfl⟩

/-- A turn of the loop with a link advances the clock if the tick is over at the
time it asks, and leaves it alone if not. -/
theorem iterateOnline_goes (hd : d.Forward time) (w : W) :
    let asked := ((n.upToTick d).run w).2
    let x := (n.iterateOnline d).run w
    time w ≤ time asked ∧ time asked ≤ time x.2 ∧
      if n.clock.due (time asked) then
        ∃ outcome sleep, x.1.2 = .ran (some outcome) sleep ∧
          x.1.1.clock = if outcome.keepsTick n.uplink.pending then n.clock.advance
            else n.clock.advance.restart (time asked)
      else (∃ sleep, x.1.2 = .ran none sleep) ∧ x.1.1.clock = n.clock := by
  have hasked := (upToTick_within d n hd.within).time_le w
  obtain ⟨hclock, huplink⟩ := upToTick_keeps d n w
  rw [iterateOnline_eq, Action.run_bind]
  generalize (n.upToTick d).run w = x at hasked hclock huplink ⊢
  obtain ⟨n', w'⟩ := x
  obtain ⟨hsent, hgoes⟩ := transmit_goes d n' hd w'
  rw [Action.run_bind]
  generalize (n'.transmit d).run w' = x at hsent hgoes ⊢
  obtain ⟨⟨n'', send⟩, w''⟩ := x
  have hsettled := (settle_within hd.within n'').time_le w''
  obtain ⟨sampler, table, sleeper, hsettle⟩ := settle_keeps d n'' w''
  simp only [Action.run_bind, Action.run_pure, hsettle]
  rw [hclock, huplink] at hgoes
  refine ⟨hasked, UInt64.le_trans hsent hsettled, ?_⟩
  split at hgoes
  · next hdue =>
      obtain ⟨outcome, rfl, hafter⟩ := hgoes
      rw [if_pos hdue]
      exact ⟨outcome, _, rfl, hafter⟩
  · next hdue =>
      obtain ⟨rfl, hsame⟩ := hgoes
      rw [if_neg hdue]
      exact ⟨⟨_, rfl⟩, hsame⟩

theorem iterateOffline_clock (w : W) : ((n.iterateOffline d).run w).1.1.clock = n.clock := by
  simp only [iterateOffline, poll, Action.run_bind, Action.run_pure, Action.run_ite]
  split
  · rfl
  · rfl

/-- An advance in a turn of the loop lies between the time before and the time after. -/
theorem online_goes (hd : d.Forward time) (w : W) (henabled : n.enabled = true)
    (hlink : (d.radio.connected.run w).1 = true) (hoffline : n.offline = false) :
    n.clock.Goes (time w) (n.advance? d w .iterate) ((n.iterate d).run w).1.1.clock ∧
      ∀ a ∈ n.advance? d w .iterate, a.time ≤ time ((n.iterate d).run w).2 := by
  have hconnected := hd.within.connected.time_le w
  have honline : (n.iterate d).run w = (n.iterateOnline d).run (d.radio.connected.run w).2 := by
    simp only [iterate, henabled, Bool.not_true, Bool.false_eq_true, if_false, Action.run_bind,
      hlink, hoffline]
  have htick : ((n.tickEnd d).run w).1 =
      if n.clock.due (time ((n.upToTick d).run (d.radio.connected.run w).2).2) then
        some (time ((n.upToTick d).run (d.radio.connected.run w).2).2) else none := by
    simp only [tickEnd, henabled, Bool.not_true, Bool.false_eq_true, if_false, Action.run_bind,
      hlink, hoffline, Action.run_pure, hd.now, (upToTick_keeps d n _).1]
  obtain ⟨hasked, hended, hgoes⟩ := iterateOnline_goes d n hd (d.radio.connected.run w).2
  unfold advance?
  simp only [htick, honline]
  generalize ((n.upToTick d).run (d.radio.connected.run w).2).2 = asked at hasked hended hgoes ⊢
  generalize (n.iterateOnline d).run (d.radio.connected.run w).2 = x at hended hgoes ⊢
  obtain ⟨⟨n', iteration⟩, w'⟩ := x
  simp only [] at hended hgoes ⊢
  split at hgoes
  · next hdue =>
      obtain ⟨outcome, sleep, rfl, hafter⟩ := hgoes
      rw [if_pos hdue]
      let a : Advance := ⟨time asked, n.uplink.pending, outcome, n'.clock⟩
      have hadvances : n.clock.Goes (time w) (some a) a.after :=
        .advances a (UInt64.le_trans hconnected hasked) hdue hafter
      exact ⟨hadvances, fun b hb => by cases hb; exact hended⟩
  · next hdue =>
      rw [if_neg hdue, hgoes.2]
      exact ⟨.stays, nofun⟩

theorem iterate_goes (hd : d.Forward time) (w : W) :
    n.clock.Goes (time w) (n.advance? d w .iterate) ((n.iterate d).run w).1.1.clock ∧
      ∀ a ∈ n.advance? d w .iterate, a.time ≤ time ((n.iterate d).run w).2 := by
  have hquiet : ((n.tickEnd d).run w).1 = none →
      n.clock.Goes (time w) none ((n.iterate d).run w).1.1.clock →
      n.clock.Goes (time w) (n.advance? d w .iterate) ((n.iterate d).run w).1.1.clock ∧
        ∀ a ∈ n.advance? d w .iterate, a.time ≤ time ((n.iterate d).run w).2 := by
    intro htick hgoes
    have hnone : n.advance? d w .iterate = none := by simp only [advance?, htick]
    rw [hnone]
    exact ⟨hgoes, nofun⟩
  cases henabled : n.enabled with
  | false =>
      refine hquiet (by simp [tickEnd, henabled]) ?_
      have hsame : ((n.iterate d).run w).1.1.clock = n.clock := by simp [iterate, henabled]
      rw [hsame]
      exact .stays
  | true =>
      cases hlink : (d.radio.connected.run w).1 with
      | false =>
          refine hquiet (by simp [tickEnd, henabled, hlink]) ?_
          have hsame : ((n.iterate d).run w).1.1.clock = n.clock := by
            rw [← iterateOffline_clock d n (d.radio.connected.run w).2]
            simp [iterate, henabled, hlink]
          rw [hsame]
          exact .stays
      | true =>
          cases hoffline : n.offline with
          | false => exact online_goes d n hd w henabled hlink hoffline
          | true =>
              refine hquiet (by simp [tickEnd, henabled, hoffline]) ?_
              have hrestarted : ((n.iterate d).run w).1.1.clock = n.clock.restart (time
                  ((d.log .debug "Connected, restarting transmit tick.").run
                    (d.radio.connected.run w).2).2) := by
                simp [iterate, Logger.debug, henabled, hlink, hoffline, hd.now]
              rw [hrestarted]
              exact .restarts (UInt64.le_trans (hd.within.connected.time_le w)
                ((hd.within.log _ _).time_le _))

theorem answerBy_goes (hd : d.Forward time) (good : Bool) (w : W) :
    n.clock.Goes (time w) none ((n.answerBy (.blind d) good).run w).1.1.clock := by
  obtain ⟨_, _, calls, _, hanswer⟩ := Outgoing.answer_speaks (v := .schedule) d n.outgoing good
    (d.now.run w).1 (d.now.run w).2 []
  have hclock : ((n.answerBy (.blind d) good).run w).1.1.clock = n.clock ∨
      ((n.answerBy (.blind d) good).run w).1.1.clock = n.clock.restart (d.now.run w).1 :=
    hanswer.clock_eq
  rcases hclock with hsame | hrestarted
  · rw [hsame]
    exact .stays
  · rw [hrestarted, hd.now]
    exact .restarts (UInt64.le_refl _)

theorem setEnabled_goes (hd : d.Forward time) (enabled : Bool) (w : W) :
    n.clock.Goes (time w) none ((n.setEnabled d enabled).run w).1.clock := by
  unfold setEnabled
  rw [Action.run_ite]
  split
  · simp only [Action.run_bind, Action.run_pure, hd.now]
    exact .restarts (UInt64.le_refl _)
  · exact .stays

theorem sendTest_clock (name : String) (w : W) :
    ((n.sendTest d name).run w).1.1.clock = n.clock := by
  simp only [sendTest, Action.run_bind, Action.run_ite]
  split
  · rfl
  · split
    · rfl
    · split
      · rfl
      · simp only [Action.run_bind]
        split
        · rfl
        · rfl
        · rfl

/-- What an operation is to the clock, if it leaves the interval alone. -/
theorem performBy_goes (hd : d.Forward time) (op : Op)
    (hop : ∀ interval, op ≠ .setInterval interval) (w : W) :
    let x := (n.performBy (.blind d) op).run w
    n.clock.Goes (time w) (n.advance? d w op) x.1.clock ∧
      ∀ a ∈ n.advance? d w op, a.time ≤ time x.2 := by
  cases op with
  | iterate => exact iterate_goes d n hd w
  | answer good => exact ⟨answerBy_goes d n hd good w, nofun⟩
  | setEnabled enabled => exact ⟨setEnabled_goes d n hd enabled w, nofun⟩
  | setPower power => exact ⟨.stays, nofun⟩
  | setInterval interval => exact absurd rfl (hop interval)
  | edit e => exact ⟨.stays, nofun⟩
  | load persisted defaults => exact ⟨.stays, nofun⟩
  | read name timeout => exact ⟨.stays, nofun⟩
  | collectionTimeout name => exact ⟨.stays, nofun⟩
  | sendTest name =>
      refine ⟨?_, nofun⟩
      have hsame : ((n.performBy (.blind d) (.sendTest name)).run w).1.clock = n.clock :=
        sendTest_clock d n name w
      rw [hsame]
      exact .stays

/-! ## Runs -/

variable {d} (hd : d.Forward time) {moves : List (Move W)}

/-- The time does not go back between the operations of a run, and none of them
changes the interval. -/
structure Calm (time : W → Timestamp) (moves : List (Move W)) : Prop where
  meanwhile : ∀ m ∈ moves, ∀ w, time w ≤ time (m.meanwhile w)
  interval : ∀ m ∈ moves, ∀ interval, m.op ≠ .setInterval interval

theorem Calm.tail {m : Move W} (h : Calm time (m :: moves)) : Calm time moves :=
  ⟨fun m' hm => h.meanwhile m' (List.mem_cons_of_mem _ hm),
    fun m' hm => h.interval m' (List.mem_cons_of_mem _ hm)⟩

include hd

theorem run_count (hmoves : Calm time moves) (w : W) :
    ((run d moves n).run w).1.clock.count =
      n.clock.count + UInt32.ofNat (advances d moves n w).length := by
  induction moves generalizing n w with
  | nil => exact (UInt32.add_zero _).symm
  | cons m rest ih =>
      obtain ⟨hgoes, _⟩ := performBy_goes d n hd m.op
        (hmoves.interval m List.mem_cons_self) (m.meanwhile w)
      have hrest := ih ((n.performBy (.blind d) m.op).run (m.meanwhile w)).1 hmoves.tail
        ((n.performBy (.blind d) m.op).run (m.meanwhile w)).2
      rw [hgoes.count_eq] at hrest
      rw [advances, List.length_append, UInt32.ofNat_add, ← UInt32.add_assoc]
      exact hrest

theorem advances_due (hmoves : Calm time moves) (w : W) {a : Advance}
    (ha : a ∈ advances d moves n w) {now : Timestamp} (hnow : a.time ≤ now) :
    a.after.due now = true ↔
      a.keepsTick = true ∨ n.clock.interval.toNat < now.toNat - a.time.toNat := by
  induction moves generalizing n w with
  | nil => exact absurd ha List.not_mem_nil
  | cons m rest ih =>
      obtain ⟨hgoes, _⟩ := performBy_goes d n hd m.op
        (hmoves.interval m List.mem_cons_self) (m.meanwhile w)
      rcases List.mem_append.mp ha with ha | ha
      · rw [Option.mem_toList.mp ha] at hgoes
        exact hgoes.due_iff hnow
      · rw [← hgoes.interval_eq]
        exact ih _ hmoves.tail _ ha

/-- The advances of a run that follows on another are spaced, the last one of
that included. -/
theorem advances_chain (hmoves : Calm time moves) (w : W) (last : Option Advance)
    (hlast : ∀ a ∈ last, a.time ≤ time w ∧ (a.keepsTick = false → a.time ≤ n.clock.began)) :
    (last.toList ++ advances d moves n w).IsChain (Advance.Spaced n.clock.interval) := by
  induction moves generalizing n w last with
  | nil =>
      rw [advances, List.append_nil]
      cases last with
      | none => exact .nil
      | some a => exact .singleton a
  | cons m rest ih =>
      obtain ⟨hgoes, hended⟩ := performBy_goes d n hd m.op
        (hmoves.interval m List.mem_cons_self) (m.meanwhile w)
      have hmeanwhile := hmoves.meanwhile m List.mem_cons_self w
      have hperformed :=
        (performBy_within (Watch.blind_within hd.within) n m.op).time_le (m.meanwhile w)
      rw [advances, ← hgoes.interval_eq]
      cases hadvance : n.advance? d (m.meanwhile w) m.op with
      | none =>
          rw [hadvance] at hgoes
          refine ih _ hmoves.tail _ last fun a ha => ?_
          obtain ⟨hle, hbegan⟩ := hlast a ha
          have hle' := UInt64.le_trans hle hmeanwhile
          exact ⟨UInt64.le_trans hle' hperformed,
            fun hkeeps => hgoes.began_le hle' (hbegan hkeeps)⟩
      | some b =>
          rw [hadvance] at hgoes
          have hchain := ih ((n.performBy (.blind d) m.op).run (m.meanwhile w)).1 hmoves.tail
            ((n.performBy (.blind d) m.op).run (m.meanwhile w)).2 (some b) fun a ha => by
              cases ha
              exact ⟨hended _ hadvance, hgoes.time_le_began⟩
          cases last with
          | none => exact hchain
          | some a =>
              obtain ⟨hle, hbegan⟩ := hlast a rfl
              rw [hgoes.interval_eq] at hchain ⊢
              exact .cons_cons (hgoes.spaced (UInt64.le_trans hle hmeanwhile) hbegan) hchain

end Node

def Life.advances (l : Life W) : List Advance :=
  Node.advances l.devices l.moves l.birth l.world

/-- In a life under one interval and a clock that never goes back, the count of
the transmit clock is the number of the advances. Two in a row are further
apart than the interval unless the first has kept the tick, and that is exactly
when any later moment is good for the next. -/
theorem Life.advances_spaced (l : Life W) {time : W → Timestamp}
    (hclock : l.devices.Forward time) (hmoves : Node.Calm time l.moves) :
    l.node.clock.count = UInt32.ofNat l.advances.length ∧
    l.advances.IsChain (Advance.Spaced l.settings.interval) ∧
    ∀ a ∈ l.advances, ∀ now, a.time ≤ now →
      (a.after.due now = true ↔
        a.keepsTick = true ∨ l.settings.interval.toNat < now.toNat - a.time.toNat) := by
  refine ⟨?_, ?_, ?_⟩
  · have hcount := Node.run_count l.birth hclock hmoves l.world
    have hzero : l.birth.clock.count = 0 := rfl
    rw [hzero, UInt32.zero_add] at hcount
    exact hcount
  · exact Node.advances_chain l.birth hclock hmoves l.world none nofun
  · exact fun a ha now hnow => Node.advances_due l.birth hclock hmoves l.world ha hnow

/-- A world that is a clock and nothing else, with a radio that is never ready
and never allowed to send. -/
def Devices.mute : Devices Timestamp where
  sensors := {
    valueKind := fun _ => pure none
    collect := fun _ => pure .busy }
  radio := {
    openFrame := pure (.error .bufferFull)
    append := fun _ _ => pure (.error .bufferFull)
    appendReading := fun _ _ => pure (.error .bufferFull)
    send := pure (.error .bufferFull)
    ready := pure false
    allowed := pure false
    connected := pure true }
  board := {}
  now := Action.look id
  log := fun _ _ => pure ()

theorem Devices.mute_forward : mute.Forward id where
  within := { obliging_within 0 _ with
    valueKind := fun _ => .pure _
    collectionTime := fun _ => .pure _
    collect := fun _ => .pure _
    openFrame := .pure _
    append := fun _ _ => .pure _
    appendReading := fun _ _ => .pure _
    send := .pure _
    ready := .pure _
    allowed := .pure _ }
  now _ := rfl

/-- Two turns of the loop, one past the end of the first tick and a millisecond apart. -/
def Life.muted : Life Timestamp where
  devices := .mute
  settings := { interval := 1000 }
  capacity := 1
  began := 0
  world := 0
  moves := [⟨fun now => max now 1001, .iterate⟩, ⟨fun now => max now 1002, .iterate⟩]

/-- Both of them advance the clock, for neither begins a new tick. -/
theorem Life.advances_spaced_muted :
    muted.advances.map (fun a => (a.time, a.outcome, a.keepsTick)) =
      [(1001, .deferred, true), (1002, .deferred, true)] ∧
    muted.node.clock.count = 2 ∧
    ∀ a ∈ muted.advances, ∀ now, a.time ≤ now → a.after.due now = true := by
  have hadvances : muted.advances.map (fun a => (a.time, a.outcome, a.keepsTick)) =
      [(1001, .deferred, true), (1002, .deferred, true)] := by decide +kernel
  have hmoves : Node.Calm id muted.moves := by
    have hmax : ∀ now later : UInt64, now ≤ max now later := fun now later => by
      have hif : max now later = if now ≤ later then later else now := rfl
      rw [hif]
      split
      · assumption
      · exact UInt64.le_refl _
    constructor
    · intro m hm w
      simp only [muted, List.mem_cons, List.not_mem_nil, or_false] at hm
      rcases hm with rfl | rfl
      · exact hmax w 1001
      · exact hmax w 1002
    · intro m hm interval
      simp only [muted, List.mem_cons, List.not_mem_nil, or_false] at hm
      rcases hm with rfl | rfl
      · exact nofun
      · exact nofun
  obtain ⟨hcount, -, hdue⟩ := advances_spaced muted Devices.mute_forward hmoves
  refine ⟨hadvances, ?_, fun a ha now hnow => (hdue a ha now hnow).mpr (.inl ?_)⟩
  · have hlength := congrArg List.length hadvances
    rw [List.length_map] at hlength
    rw [hcount, hlength]
    rfl
  · have hmem := List.mem_map_of_mem (f := fun a : Advance => (a.time, a.outcome, a.keepsTick)) ha
    rw [hadvances] at hmem
    simp only [List.mem_cons, Prod.mk.injEq, List.not_mem_nil, or_false] at hmem
    rcases hmem with ⟨-, -, hkeeps⟩ | ⟨-, -, hkeeps⟩
    · exact hkeeps
    · exact hkeeps

end Telemetry
