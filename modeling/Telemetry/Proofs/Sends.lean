import Telemetry.Proofs.Visits
import Telemetry.Uplink

/-!
# What a send and an answer come to

The uplink's functions, met by relations in the same way as the sampler's: one
constructor for each way through, with the state afterwards, the outcome and
the calls, and no device in sight. `send_speaks` and `answer_speaks` tie them
to the program.

A send has nine ways through. Only the last two fill a frame, and only the very
last hands one over; the others leave the slots of the table as they are, but
for the flags that a reset clears.
-/

namespace Telemetry

namespace Outgoing

variable {W : Type} {v : Voice}

def online (o : Outgoing) : Outgoing := { o with uplink := { o.uplink with offline := false } }

/-- The frame under way begins a new tick, unless it goes on with a cycle. -/
def ticked (o : Outgoing) (now : Timestamp) : Outgoing :=
  if o.uplink.pending then o else o.restart now

/-- The outgoing side with other slots from a position on. -/
def withSlots (o : Outgoing) (lo : Nat) (slots : List Slot) : Outgoing :=
  { o with table := o.table.withWindow lo slots }

/-- A good answer is counted. -/
def acked (o : Outgoing) : Outgoing := o.tell fun s => { s with acks := s.acks + 1 }

/-! ## Filling a frame -/

/-- What a visit on the way through the due measurements may come to. -/
inductive Appends (count : UInt32) (e : Entry) (s : UInt16 × UplinkStats) :
    Entry × (UInt16 × UplinkStats) × Bool → List Call → Prop where
  | idle (h : e.definition.due count = false) : Appends count e s (e, s, false) []
  | unsampled (h : e.definition.due count = true) (hs : e.tally.samples = 0) :
      Appends count e s (e.withTally e.tally.resetCounters,
        (s.1, { s.2 with skippedUnsampled := s.2.skippedUnsampled + 1 }), false) []
  | refused (h : e.definition.due count = true) (hs : e.tally.samples ≠ 0) (cause : FrameError) :
      Appends count e s (e, s, true) [.append e.definition e.tally (.error cause)]
  | accepted (h : e.definition.due count = true) (hs : e.tally.samples ≠ 0) :
      Appends count e s
        (e.withTally { e.tally.reset with awaitsAck := true }, (Saturating.succ16 s.1, s.2), false)
        [.append e.definition e.tally (.ok ())]

theorem appendOne_speaks (d : Devices W) (count : UInt32) (e : Entry) (s : UInt16 × UplinkStats) :
    Action.Speaks v (appendOne (d.voiced v) count e s) (appendOne d count e s)
      (Appends count e s) := by
  unfold appendOne
  split
  · next h => exact .pure (.idle (by simpa only [Bool.not_eq_true'] using h))
  · next h =>
      have hdue : e.definition.due count = true := by simpa using h
      split
      · next hs => exact .after (d.log_speaks _ _) fun _ => .pure (.unsampled hdue hs)
      · next hs =>
          refine (d.append_speaks e.definition e.tally).bind ?_
          intro answer _ heq
          subst heq
          cases answer with
          | error cause => exact .after (d.log_speaks _ _) fun _ => .pure (.refused hdue hs cause)
          | ok _ => exact .pure (.accepted hdue hs)

/-- The outgoing side after a walk that began at the cursor, with the number of
measurements in the frame and whether the walk came to the end. -/
def filled (o : Outgoing) (slots : List Slot) (s : UInt16 × UplinkStats) (stop : Option Nat) :
    Outgoing × UInt16 × Bool :=
  ({ o with
    uplink := { o.uplink with
      previous := o.uplink.start
      cursor := stop.elim o.uplink.capacity (o.uplink.start + ·)
      stats := s.2 }
    table := o.table.withWindow o.uplink.start slots }, s.1, stop.isNone)

inductive Fills (o : Outgoing) : Outgoing × UInt16 × Bool → List Call → Prop where
  | walked {slots : List Slot} {s : UInt16 × UplinkStats} {stop : Option Nat} {calls : List Call}
      (h : Slot.Swept (Appends o.clock.count) (o.table.window o.uplink.start o.uplink.capacity)
        (0, o.uplink.stats) (slots, s, stop) calls) :
      Fills o (o.filled slots s stop) calls

theorem fill_speaks (d : Devices W) (o : Outgoing) :
    Action.Speaks v (o.fill (d.voiced v)) (o.fill d) (Fills o) := by
  unfold fill
  simp only []
  split
  case' isTrue => refine .after (d.log_speaks _ _) fun _ => ?_
  all_goals
    refine (Slot.sweepUntil_speaks (appendOne_speaks d o.clock.count) _ _).bind ?_
    intro r calls h
    obtain ⟨slots, ⟨queued, stats⟩, stop⟩ := r
    refine .pure ?_
    rw [List.append_nil]
    cases stop with
    | none => exact .walked h
    | some offset => exact .walked h

/-! ## Handing over -/

inductive HandsOver (o : Outgoing) (queued : UInt16) (complete : Bool) :
    Outgoing × SendOutcome → List Call → Prop where
  | failed (cause : FrameError) :
      HandsOver o queued complete ((o.setPending (!complete)).dropProgress, .sendFailed)
        [.send (.error cause), .reset]
  | last (h : complete = true) :
      HandsOver o queued complete
        ((o.setPending (!complete)).tell fun s => { s with completeSends := s.completeSends + 1 },
          .complete queued) [.send (.ok ())]
  | part (h : complete = false) :
      HandsOver o queued complete
        ((o.setPending (!complete)).tell fun s => { s with fragments := s.fragments + 1 },
          .fragment queued) [.send (.ok ())]

theorem reset_speaks (d : Devices W) (o : Outgoing) :
    Action.Speaks v (o.reset (d.voiced v)) (o.reset d)
      fun x calls => x = o.dropProgress ∧ calls = [.reset] := by
  refine .after (d.log_speaks _ _) fun _ => ?_
  refine d.reset_speaks.bind ?_
  intro _ _ heq
  subst heq
  exact .pure ⟨rfl, rfl⟩

theorem handOver_speaks (d : Devices W) (o : Outgoing) (queued : UInt16) (complete : Bool) :
    Action.Speaks v (o.handOver (d.voiced v) queued complete) (o.handOver d queued complete)
      (HandsOver o queued complete) := by
  unfold handOver
  refine d.send_speaks.bind ?_
  intro answer _ heq
  subst heq
  cases answer with
  | error cause =>
      refine .after (d.log_speaks _ _) fun _ => ?_
      refine (reset_speaks d _).bind ?_
      intro _ _ hr
      obtain ⟨rfl, rfl⟩ := hr
      exact .pure (.failed cause)
  | ok _ =>
      cases complete with
      | true => exact .after (d.log_speaks _ _) fun _ => .pure (.last rfl)
      | false => exact .after (d.log_speaks _ _) fun _ => .pure (.part rfl)

/-! ## Sends -/

inductive Sends (o : Outgoing) (now : Timestamp) : Outgoing × SendOutcome → List Call → Prop where
  | stillOffline (h : o.uplink.offline = true) :
      Sends o now (o.setPending false, .notConnected) []
  | lostLink (h : o.uplink.offline = false) :
      Sends o now ((({ o with uplink := { o.uplink with
        offline := true, cursor := 0, previous := 0 } } : Outgoing).tell fun s =>
          { s with droppedDisconnected := s.droppedDisconnected + 1 }).setPending false,
        .notConnected) []
  | deferred : Sends o now (o.online, .deferred) []
  | timedOut (h : o.uplink.pending = true)
      (hlate : (o.clock.interval / Limits.pendingShare).toUInt64 < o.clock.elapsed now) :
      Sends o now ((o.online.tell fun s =>
        { s with pendingTimeouts := s.pendingTimeouts + 1 }).dropProgress, .timedOut) [.reset]
  | stillPending (h : o.uplink.pending = true)
      (hearly : ¬ (o.clock.interval / Limits.pendingShare).toUInt64 < o.clock.elapsed now) :
      Sends o now (o.online, .pending) []
  | newlyPending (h : o.uplink.pending = false) :
      Sends o now ((o.online.restart now).setPending true, .pending) []
  | initFailed (cause : FrameError) :
      Sends o now ((o.online.setPending false).restart now, .initFailed)
        [.openFrame (.error cause)]
  | nothing {o₁ : Outgoing} {queued : UInt16} {complete : Bool} {calls : List Call}
      (hfill : Fills o.online (o₁, queued, complete) calls) (h : queued = 0) :
      Sends o now (o₁.ticked now, .nothingQueued) (.openFrame (.ok ()) :: calls)
  | handed {o₁ : Outgoing} {queued : UInt16} {complete : Bool} {calls more : List Call}
      {x : Outgoing × SendOutcome} (hfill : Fills o.online (o₁, queued, complete) calls)
      (h : queued ≠ 0) (hhand : HandsOver (o₁.ticked now) queued complete x more) :
      Sends o now x (.openFrame (.ok ()) :: (calls ++ more))

theorem loseLink_speaks (d : Devices W) (o : Outgoing) (now : Timestamp) :
    Action.Speaks v (o.loseLink (d.voiced v)) (o.loseLink d) (Sends o now) := by
  unfold loseLink
  split
  · next h => exact .pure (.stillOffline h)
  · next h =>
      exact .after (d.log_speaks _ _) fun _ => .pure (.lostLink (Bool.eq_false_iff.mpr h))

theorem awaitRadio_speaks (d : Devices W) (o : Outgoing) (now : Timestamp) :
    Action.Speaks v (o.online.awaitRadio (d.voiced v) now) (o.online.awaitRadio d now)
      (Sends o now) := by
  unfold awaitRadio
  refine .after d.allowed_speaks fun allowed => ?_
  split
  · exact .after (d.log_speaks _ _) fun _ => .pure .deferred
  · split
    · next h =>
        split
        · next hlate =>
            refine .after (d.log_speaks _ _) fun _ => ?_
            refine (reset_speaks d _).bind ?_
            intro _ _ hr
            obtain ⟨rfl, rfl⟩ := hr
            exact .pure (.timedOut h hlate)
        · next hearly => exact .pure (.stillPending h hearly)
    · next h => exact .pure (.newlyPending (Bool.eq_false_iff.mpr h))

theorem sendFrame_speaks (d : Devices W) (o : Outgoing) (now : Timestamp) :
    Action.Speaks v (o.online.sendFrame (d.voiced v) now) (o.online.sendFrame d now)
      fun x calls => Sends o now x (.openFrame (.ok ()) :: calls) := by
  unfold sendFrame
  refine (fill_speaks d o.online).bind ?_
  intro r calls hfill
  obtain ⟨o₁, queued, complete⟩ := r
  simp only []
  split
  · next h =>
      refine .pure ?_
      rw [List.append_nil]
      exact .nothing hfill h
  · next h =>
      exact (handOver_speaks d _ queued complete).imp fun x more hhand => .handed hfill h hhand

theorem send_speaks (d : Devices W) (o : Outgoing) (now : Timestamp) :
    Action.Speaks v (o.send (d.voiced v) now) (o.send d now) (Sends o now) := by
  unfold send
  refine .after d.connected_speaks fun connected => ?_
  split
  · exact loseLink_speaks d o now
  · refine .after d.ready_speaks fun ready => ?_
    split
    · exact awaitRadio_speaks d o now
    · refine d.openFrame_speaks.bind ?_
      intro answer _ heq
      subst heq
      cases answer with
      | error cause =>
          exact .after (d.log_speaks _ _) fun _ => .pure (.initFailed cause)
      | ok _ => exact sendFrame_speaks d o now

/-! ## Answers -/

/-- What a visit on the way through an answered frame may come to. -/
inductive Settles (count : UInt32) (e : Entry) (s : Unit) : Entry × Unit → List Call → Prop where
  | idle (h : (e.definition.due count && e.tally.awaitsAck) = false) :
      Settles count e s (e, s) []
  | settled (h : e.definition.due count = true) (hwaits : e.tally.awaitsAck = true) :
      Settles count e s (e.settled, s) [.delivered e.definition]

theorem settleOne_speaks (d : Devices W) (count : UInt32) (e : Entry) (s : Unit) :
    Action.Speaks v (settleOne (d.voiced v) count e s) (settleOne d count e s)
      (Settles count e s) := by
  unfold settleOne
  split
  · next h =>
      obtain ⟨hdue, hwaits⟩ := Bool.and_eq_true_iff.mp h
      refine (d.delivered_speaks e.definition).bind ?_
      intro _ _ heq
      subst heq
      exact .pure (.settled hdue hwaits)
  · next h => exact .pure (.idle (Bool.eq_false_iff.mpr h))

inductive Answers (o : Outgoing) (now : Timestamp) :
    Bool → Outgoing × Option SendOutcome → List Call → Prop where
  | bad : Answers o now false ((o.tell fun s => { s with nacks := s.nacks + 1 }).dropProgress, none) []
  | last {slots : List Slot} {calls : List Call}
      (h : Slot.Swept (Slot.Through (Settles o.clock.count))
        (o.table.window o.uplink.previous o.uplink.reach) () (slots, (), none) calls)
      (hpending : o.uplink.pending = false) :
      Answers o now true ({ o.acked.withSlots o.uplink.previous slots with
        uplink := { o.acked.uplink with cursor := 0, previous := 0 } }, none) calls
  | next {slots : List Slot} {calls more : List Call} {o' : Outgoing} {outcome : SendOutcome}
      (h : Slot.Swept (Slot.Through (Settles o.clock.count))
        (o.table.window o.uplink.previous o.uplink.reach) () (slots, (), none) calls)
      (hpending : o.uplink.pending = true)
      (hsend : Sends (o.acked.withSlots o.uplink.previous slots) now (o', outcome) more) :
      Answers o now true (o', some outcome) (calls ++ more)

theorem answer_speaks (d : Devices W) (o : Outgoing) (good : Bool) (now : Timestamp) :
    Action.Speaks v (o.answer (d.voiced v) good now) (o.answer d good now)
      (Answers o now good) := by
  unfold answer
  cases good with
  | false => exact .after (d.log_speaks _ _) fun _ => .pure .bad
  | true =>
      refine (Slot.sweep_speaks (settleOne_speaks d o.clock.count)
        (o.table.window o.uplink.previous o.uplink.reach) ()).bind ?_
      intro r calls h
      obtain ⟨slots, ⟨⟩⟩ := r
      simp only []
      split
      · next hpending =>
          refine (send_speaks d _ now).bind ?_
          intro r more hsend
          obtain ⟨o', outcome⟩ := r
          refine .pure ?_
          rw [List.append_nil]
          exact .next h hpending hsend
      · next hpending =>
          refine .pure ?_
          rw [List.append_nil]
          exact .last h (Bool.eq_false_iff.mpr hpending)

end Outgoing

end Telemetry
