import Telemetry.SpotRead
import Telemetry.Uplink

/-!
# Sends outside the schedule

A measurement can be asked for out of turn. It is then read on the spot and
sent in a frame of its own kind, together with all others that were asked for;
what they have gathered for the schedule is not touched.

Such a send keeps away from the schedule: it is refused while a fragmented
cycle is under way, and while the next scheduled send is closer than a guard. A
refused request stays and is tried again later.
-/

namespace Telemetry.InstantSend

variable {W : Type}

/-- Serves the request for one measurement, if there is one, and counts it if
it is in the frame. The round ends at one that does not fit. -/
def serve (d : Devices W) (fallback : UInt32) (e : Entry) (count : UInt16) :
    Action W (Entry × UInt16 × Bool) := do
  if !e.tally.instantRequested then pure (e, count, false)
  else
    let e := e.withTally { e.tally with instantRequested := false }
    let (e, result) ← e.read d fallback none
    match result with
    | .error cause => do
        d.log.debug ("Could not get measurement '" ++ e.name ++ "' for instant send: " ++
          cause.message)
        pure (e, count, false)
    | .ok r => do
        match ← d.radio.appendReading e.definition r with
        | .error _ => do
            d.log.debug ("Could not add measurement '" ++ e.name ++ "' to frame.")
            pure (e, count, true)
        | .ok () => pure (e, Saturating.succ16 count, false)

/-- Hands the frame over if there is anything in it. -/
def handOver (d : Devices W) (count : UInt16) : Action W (Except SendError UInt16) := do
  if count = 0 then
    d.log.debug "No measurements were added, not sending."
    pure (.error .nothingQueued)
  else
    match ← d.radio.send with
    | .error cause => pure (.error (.frame cause))
    | .ok () => pure (.ok count)

/-- Serves all requests with one frame and gives the number of measurements in
it. Without requests nothing happens. -/
def run (d : Devices W) (guard : UInt32) (u : Uplink) (clock : TransmitClock) (t : Table) :
    Action W (Table × Except SendError UInt16) := do
  if !t.hasRequests then pure (t, .ok 0)
  else if u.midFragment then
    d.log.debug "Cannot instant send, there is a measurement send underway."
    pure (t, .error .fragmentInProgress)
  else
    let now ← d.now
    if clock.remaining now ≤ guard.toUInt64 then
      d.log.debug "Cannot send instant send, scheduled uplink soon."
      pure (t, .error .scheduledSendImminent)
    else
      match ← d.radio.openFrame with
      | .error cause => do
          d.log.debug "Could not initialise the frame for the protocol."
          pure (t, .error (.frame cause))
      | .ok () => do
          let (slots, count, _) ← Slot.sweepUntil (serve d t.fallback) t.slots 0
          let outcome ← handOver d count
          pure ({ t with slots }, outcome)

end Telemetry.InstantSend
