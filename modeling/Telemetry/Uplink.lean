import Telemetry.Table
import Telemetry.TransmitClock

/-!
# The uplink

When a tick of the transmit clock is over, the uplink walks the table in slot
order and appends every measurement that is due to the radio's frame. A frame
that is full is sent as a fragment, and the next one resumes at the slot that
did not fit:

```text
  slots:      0    1    2    3    4
  due:        x    x    x    x    x
  frame 1:  [ 0    1 ]                   2 does not fit, the cursor stays there
  frame 2:            [ 2    3    4 ]    the cursor is past the end
```

A measurement's tally is cleared the moment it is appended, so that no reading
is sent twice, and it then waits for the radio's answer. A good answer walks
the slots of the last frame once more and tells their sensors; a bad one drops
the progress, but cleared tallies do not come back.

An uplink has a capacity of its own: it does not look at slots beyond it.
-/

namespace Telemetry

/-- What the uplink has seen so far. -/
structure UplinkStats where
  /-- Frames with which a cycle was complete. -/
  completeSends : UInt32 := 0
  /-- Frames that left a part of the cycle for later. -/
  fragments : UInt32 := 0
  /-- Due measurements without a sample. -/
  skippedUnsampled : UInt32 := 0
  /-- Sends that waited too long for the radio. -/
  pendingTimeouts : UInt32 := 0
  acks : UInt32 := 0
  nacks : UInt32 := 0
  /-- Cycles dropped because there was no link. -/
  droppedDisconnected : UInt32 := 0
  deriving DecidableEq, Repr

inductive SendOutcome where
  | notConnected
  | deferred
  | pending
  /-- The radio was not ready for too long; the progress is dropped. -/
  | timedOut
  | initFailed
  /-- Nothing was due, or nothing fitted. -/
  | nothingQueued
  /-- A part of the cycle was sent. -/
  | fragment (queued : UInt16)
  /-- The last part of the cycle was sent. -/
  | complete (queued : UInt16)
  /-- The frame was refused; the progress is dropped. -/
  | sendFailed
  deriving DecidableEq, Repr

def SendOutcome.label : SendOutcome → String
  | .notConnected => "NotConnected"
  | .deferred => "Deferred"
  | .pending => "Pending"
  | .timedOut => "TimedOut"
  | .initFailed => "InitFailed"
  | .nothingQueued => "NothingQueued"
  | .fragment _ => "Fragment"
  | .complete _ => "Complete"
  | .sendFailed => "SendFailed"

/-- How far the running cycle has got. -/
structure Uplink where
  /-- The number of slots it looks at. -/
  capacity : Nat
  /-- The slot at which the next frame begins; the capacity once all are sent. -/
  cursor : Nat := 0
  /-- The slot at which the last frame began. -/
  previous : Nat := 0
  /-- Whether a send waits for the radio, or for the next fragment. -/
  pending : Bool := false
  /-- Whether the loss of the link has been noticed. -/
  offline : Bool := false
  stats : UplinkStats := {}
  deriving DecidableEq, Repr

namespace Uplink

/-- Whether a part of the cycle is sent and another is not. -/
def midFragment (u : Uplink) : Bool := u.cursor != 0 && u.cursor != u.capacity

/-- Forgets how far the cycle has got. -/
def resetCursors (u : Uplink) : Uplink := { u with cursor := 0, previous := 0, pending := false }

/-- The slot at which the next frame really begins. -/
def start (u : Uplink) : Nat := if u.capacity ≤ u.cursor then 0 else u.cursor

/-- The slot after the last one that the last frame may have covered. -/
def reach (u : Uplink) : Nat := if u.cursor ≠ 0 then u.cursor else u.capacity

end Uplink

/-- Slots from one position up to another. -/
def Table.window (t : Table) (lo hi : Nat) : List Slot := (t.slots.drop lo).take (hi - lo)

/-- The table with other slots from a position on. -/
def Table.withWindow (t : Table) (lo : Nat) (slots : List Slot) : Table :=
  { t with slots := t.slots.take lo ++ slots ++ t.slots.drop (lo + slots.length) }

/-- All that a send reads and changes. -/
structure Outgoing where
  uplink : Uplink
  table : Table
  clock : TransmitClock

namespace Outgoing

variable {W : Type}

/-! ## Small changes -/

def tell (o : Outgoing) (count : UplinkStats → UplinkStats) : Outgoing :=
  { o with uplink := { o.uplink with stats := count o.uplink.stats } }

/-- Begins a new tick of the transmit clock. -/
def restart (o : Outgoing) (now : Timestamp) : Outgoing := { o with clock := o.clock.restart now }

def setPending (o : Outgoing) (pending : Bool) : Outgoing :=
  { o with uplink := { o.uplink with pending } }

/-- Drops the progress and all waiting for answers. -/
def dropProgress (o : Outgoing) : Outgoing :=
  { o with uplink := o.uplink.resetCursors, table := o.table.clearAcks }

/-- Drops the radio's frame as well. -/
def reset (d : Devices W) (o : Outgoing) : Action W Outgoing := do
  d.log.debug "Protocol reset"
  d.radio.reset
  pure o.dropProgress

/-! ## Before a frame -/

/-- Without a link the progress is dropped, once. -/
def loseLink (d : Devices W) (o : Outgoing) : Action W (Outgoing × SendOutcome) := do
  if o.uplink.offline then pure (o.setPending false, .notConnected)
  else
    d.log.debug "Not connected to send, dropping readings"
    let o := { o with uplink := { o.uplink with offline := true, cursor := 0, previous := 0 } }
    let o := o.tell fun s => { s with droppedDisconnected := s.droppedDisconnected + 1 }
    pure (o.setPending false, .notConnected)

/-- A radio that is not ready is waited for, unless it takes too long or
sending is not permitted. -/
def awaitRadio (d : Devices W) (o : Outgoing) (now : Timestamp) :
    Action W (Outgoing × SendOutcome) := do
  if !(← d.radio.allowed) then
    d.log.debug "Send not allowed, deferring"
    pure (o, .deferred)
  else if o.uplink.pending then
    if (o.clock.interval / Limits.pendingShare).toUInt64 < o.clock.elapsed now then
      d.log.warn "Pending send timed out."
      let o := o.tell fun s => { s with pendingTimeouts := s.pendingTimeouts + 1 }
      let o ← o.reset d
      pure (o, .timedOut)
    else pure (o, .pending)
  else pure ((o.restart now).setPending true, .pending)

/-! ## Filling a frame -/

/-- Appends one measurement if it is due and has samples. The walk ends at one
that does not fit. -/
def appendOne (d : Devices W) (count : UInt32) (e : Entry) (s : UInt16 × UplinkStats) :
    Action W (Entry × (UInt16 × UplinkStats) × Bool) := do
  if !e.definition.due count then pure (e, s, false)
  else if e.tally.samples = 0 then
    d.log.error ("Measurement " ++ e.name ++ " requested but value not set.")
    let skipped := { s.2 with skippedUnsampled := s.2.skippedUnsampled + 1 }
    pure (e.withTally e.tally.resetCounters, (s.1, skipped), false)
  else
    match ← d.radio.append e.definition e.tally with
    | .error _ => do
        d.log.debug ("Failed to queue send of " ++ e.name ++ ".")
        pure (e, s, true)
    | .ok () =>
        let t := { e.tally.reset with awaitsAck := true }
        pure (e.withTally t, (Saturating.succ16 s.1, s.2), false)

/-- Walks the slots from the cursor on and moves the cursor. Gives the number
of measurements in the frame and whether the walk came to the end. -/
def fill (d : Devices W) (o : Outgoing) : Action W (Outgoing × UInt16 × Bool) := do
  let start := o.uplink.start
  if start ≠ 0 then d.log.debug "Resuming previous measurements send."
  let (slots, (queued, stats), stop) ←
    Slot.sweepUntil (appendOne d o.clock.count) (o.table.window start o.uplink.capacity)
      (0, o.uplink.stats)
  let cursor := match stop with
    | some offset => start + offset
    | none => o.uplink.capacity
  pure ({ o with
    uplink := { o.uplink with previous := start, cursor, stats }
    table := o.table.withWindow start slots }, queued, stop.isNone)

/-- Hands over a frame that is not empty. -/
def handOver (d : Devices W) (o : Outgoing) (queued : UInt16) (complete : Bool) :
    Action W (Outgoing × SendOutcome) := do
  let o := o.setPending (!complete)
  match ← d.radio.send with
  | .error _ => do
      d.log.debug "Protocol send failed, resetting protocol"
      let o ← o.reset d
      pure (o, .sendFailed)
  | .ok () =>
      if complete then do
        d.log.debug "Complete send"
        pure (o.tell fun s => { s with completeSends := s.completeSends + 1 }, .complete queued)
      else do
        d.log.debug "Fragment send, wait to send more."
        pure (o.tell fun s => { s with fragments := s.fragments + 1 }, .fragment queued)

/-- Fills the open frame and hands it over. A frame that is not a resumption
begins a new tick of the transmit clock. -/
def sendFrame (d : Devices W) (o : Outgoing) (now : Timestamp) :
    Action W (Outgoing × SendOutcome) := do
  let (o, queued, complete) ← o.fill d
  let o := if o.uplink.pending then o else o.restart now
  if queued = 0 then pure (o, .nothingQueued)
  else o.handOver d queued complete

/-! ## Sends and answers -/

/-- Sends what is due, or goes on with a cycle of which a part is sent. -/
def send (d : Devices W) (o : Outgoing) (now : Timestamp) : Action W (Outgoing × SendOutcome) := do
  if !(← d.radio.connected) then o.loseLink d
  else
    let o := { o with uplink := { o.uplink with offline := false } }
    if !(← d.radio.ready) then o.awaitRadio d now
    else
      match ← d.radio.openFrame with
      | .error _ => do
          d.log.debug "Could not open an uplink frame."
          pure ((o.setPending false).restart now, .initFailed)
      | .ok () => o.sendFrame d now

/-- Tells the sensor of a measurement that waited for a good answer. -/
def settleOne (d : Devices W) (count : UInt32) (e : Entry) (s : Unit) :
    Action W (Entry × Unit) := do
  if e.definition.due count && e.tally.awaitsAck then
    d.sensors.delivered e.definition
    pure (e.settled, s)
  else pure (e, s)

/-- Takes the radio's answer to the last frame. A good one settles the
measurements of that frame and sends the next fragment, if there is one. -/
def answer (d : Devices W) (o : Outgoing) (good : Bool) (now : Timestamp) :
    Action W (Outgoing × Option SendOutcome) := do
  if !good then
    d.log.debug "Send not acknowledged, dropping cycle state"
    let o := o.tell fun s => { s with nacks := s.nacks + 1 }
    pure (o.dropProgress, none)
  else
    let o := o.tell fun s => { s with acks := s.acks + 1 }
    let (slots, ()) ← Slot.sweep (settleOne d o.clock.count)
      (o.table.window o.uplink.previous o.uplink.reach) ()
    let o := { o with table := o.table.withWindow o.uplink.previous slots }
    if o.uplink.pending then
      let (o, outcome) ← o.send d now
      pure (o, some outcome)
    else pure ({ o with uplink := { o.uplink with cursor := 0, previous := 0 } }, none)

end Outgoing

end Telemetry
