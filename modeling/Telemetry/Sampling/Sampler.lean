import Telemetry.Sampling.Plan
import Telemetry.Table

/-!
# The sampler

At each of its turns the sampler visits every active measurement, starts the
acquisitions that have to begin and collects those that have to be there, and
finds out how long it may wait until the next such moment. A sensor is started
early enough to be ready at its target; a busy sensor makes the wait zero, so
that it is asked again at the next turn.

`started` and `finished` number the next acquisition to start and the next to
collect. When a new one has to start while the last is still open, the last is
given up. Between its turns the sampler polls what is open; a failed poll gives
it up as well.
-/

namespace Telemetry

/-- What the sampler has seen so far. -/
structure SamplerStats where
  starts : UInt32 := 0
  collects : UInt32 := 0
  sensorErrors : UInt32 := 0
  busyRetries : UInt32 := 0
  /-- Counters that had drifted apart. -/
  desyncs : UInt32 := 0
  deriving DecidableEq, Repr

namespace SamplerStats

def addStart (s : SamplerStats) : SamplerStats := { s with starts := s.starts + 1 }

def addCollect (s : SamplerStats) : SamplerStats := { s with collects := s.collects + 1 }

def addError (s : SamplerStats) : SamplerStats := { s with sensorErrors := s.sensorErrors + 1 }

def addBusy (s : SamplerStats) : SamplerStats := { s with busyRetries := s.busyRetries + 1 }

def addDesync (s : SamplerStats) : SamplerStats := { s with desyncs := s.desyncs + 1 }

end SamplerStats

/-- The sampler's memory between two turns. -/
structure Sampler where
  /-- How long before its send a late sample is taken. -/
  guard : UInt32 := Limits.immediateGuard
  /-- The collection time of a sensor that does not report its own. -/
  fallback : UInt32 := Limits.defaultCollectionTime
  /-- When the last turn was. -/
  lastTurn : Timestamp := 0
  /-- How long the last turn allowed to wait. -/
  wait : UInt64 := 0
  stats : SamplerStats := {}
  deriving DecidableEq, Repr

namespace Sampler

variable {W : Type}

/-! ## Starting and collecting -/

/-- Starts an acquisition and says whether the sensor was busy. One that cannot
start counts as over at once. -/
def start (d : Devices W) (m : Definition) (t : Tally) (s : SamplerStats) :
    Action W (Tally × SamplerStats × Bool) := do
  if t.acquiring then
    d.log.debug ("Measurement " ++ m.name ++ " already collecting.")
    pure (t.missed, s.addError, false)
  else
    match ← d.sensors.start m false with
    | .done () => do
        d.log.debug (m.name ++ " successfully started.")
        pure (t.opened, s.addStart, false)
    | .failed cause => do
        d.log.debug (m.name ++ " could not start, will not collect: " ++ cause.message)
        pure (t.missed, s.addError, false)
    | .busy => pure (t, s.addBusy, true)

/-- Collects the open acquisition and says whether the sensor was busy. A
reading is folded in, and the sensor's collection time is asked for anew. -/
def collect (d : Devices W) (fallback : UInt32) (m : Definition) (t : Tally) (s : SamplerStats) :
    Action W (Tally × SamplerStats × Bool) := do
  match ← d.sensors.collect m with
  | .done r => do
      d.log.debug (m.name ++ " successfully collected.")
      let (t, _) ← t.closed.observe d.log r
      let leadTime ← d.leadTime m fallback
      pure ({ t with leadTime }, s.addCollect, false)
  | .failed cause => do
      d.log.debug (m.name ++ " could not collect: " ++ cause.message)
      pure (t.closed, s.addError, false)
  | .busy => pure ({ t with acquiring := false }, s.addBusy, true)

/-! ## One measurement's turn -/

/-- An open acquisition is given up before a new one starts. -/
def giveUp (d : Devices W) (m : Definition) (t : Tally) : Action W Tally := do
  if t.inFlight then
    d.log.debug (m.name ++ " could not collect before next start")
    pure t.closed
  else pure t

/-- The next start: its moment is the target less the lead time. Gives the time
until then. -/
def startTurn (d : Devices W) (p : Plan) (m : Definition) (t : Tally) (s : SamplerStats) :
    Action W (Tally × SamplerStats × UInt64) := do
  let target := p.target t.started
  let startAt := target - t.leadTime.toUInt64
  if startAt ≤ p.position then
    let t ← giveUp d m t
    let (t, s, busy) ← start d m t s
    pure (t, s, if busy then 0 else Saturating.sub target p.position)
  else pure (t, s, startAt - p.position)

/-- The open acquisition, if there is one, against the moment it has to be
collected. Gives the time until the next collect. -/
def collectTurn (d : Devices W) (fallback : UInt32) (p : Plan) (m : Definition)
    (collectAt : UInt64) (t : Tally) (s : SamplerStats) :
    Action W (Tally × SamplerStats × Option UInt64) := do
  if t.finished = t.started then pure (t, s, none)
  else if t.finished + 1 = t.started then
    if collectAt ≤ p.position then
      let (t, s, busy) ← collect d fallback m t s
      pure (t, s, some (if busy then 0
        else Saturating.sub (collectAt + p.spacing) (t.leadTime.toUInt64 + p.position)))
    else pure (t, s, some (collectAt - p.position))
  else
    d.log.error ("Collect and start fell out of sync for " ++ m.name ++ ", skipping collects.")
    pure (t.abandoned, s.addDesync, none)

/-- A lead time longer than the way to the next target is cut down to it. -/
def capLead (p : Plan) (t : Tally) : Tally :=
  if p.target t.started < t.leadTime.toUInt64 then
    { t with leadTime := (p.target t.started).toUInt32 }
  else t

/-- Gives one measurement its turn, and the time until its next moment. The
moment to collect is fixed before anything is started. -/
def attend (d : Devices W) (fallback : UInt32) (p : Plan) (m : Definition) (t : Tally)
    (s : SamplerStats) : Action W (Tally × SamplerStats × UInt64) := do
  let t := capLead p t
  let collectAt := p.target t.finished
  let (t, s, startWait) ← startTurn d p m t s
  let (t, s, collectWait) ← collectTurn d fallback p m collectAt t s
  pure (t, s, match collectWait with
    | some wait => min startWait wait
    | none => startWait)

/-! ## Turns of the sampler -/

/-- The nearer of two moments, the first of which may not exist. -/
def nearer (a : Option UInt64) (b : UInt64) : Option UInt64 :=
  some (match a with
    | some a => min a b
    | none => b)

/-- Visits one measurement: only an active one has a turn. -/
def visit (d : Devices W) (guard fallback : UInt32) (clock : TransmitClock) (now : Timestamp)
    (e : Entry) (s : SamplerStats × Option UInt64) :
    Action W (Entry × SamplerStats × Option UInt64) := do
  if e.definition.active then
    let p := Plan.of e.definition guard clock now
    let (t, stats, wait) ← attend d fallback p e.definition e.tally s.1
    pure (e.withTally t, stats, nearer s.2 wait)
  else pure (e, s)

/-- A turn of the sampler: every active measurement is visited, and the time
until the nearest moment is kept. Without measurements it is zero. -/
def turn (d : Devices W) (s : Sampler) (table : Table) (clock : TransmitClock) (now : Timestamp) :
    Action W (Sampler × Table) := do
  let (slots, stats, nearest) ←
    Slot.sweep (visit d s.guard s.fallback clock now) table.slots (s.stats, none)
  pure ({ s with lastTurn := now, wait := nearest.getD 0, stats }, { table with slots })

/-- Polls one measurement if its acquisition is open, and counts it. -/
def pollOne (d : Devices W) (e : Entry) (s : SamplerStats × UInt32) :
    Action W (Entry × SamplerStats × UInt32) := do
  if e.tally.inFlight then
    match ← d.sensors.poll e.definition with
    | .failed cause => do
        d.log.debug (e.name ++ " errored on poll, will not collect: " ++ cause.message)
        pure (e.withTally e.tally.abandoned, s.1.addError, s.2 + 1)
    | _ => pure (e, s.1, s.2 + 1)
  else pure (e, s)

/-- Polls every open acquisition and says how many there were. -/
def pollOpen (d : Devices W) (s : Sampler) (table : Table) :
    Action W (Sampler × Table × UInt32) := do
  let (slots, stats, polled) ← Slot.sweep (pollOne d) table.slots (s.stats, 0)
  pure ({ s with stats }, { table with slots }, polled)

/-! ## Waiting -/

/-- Whether the wait of the last turn is over. -/
def due (s : Sampler) (now : Timestamp) : Bool := s.wait < elapsed s.lastTurn now

def remaining (s : Sampler) (now : Timestamp) : UInt64 :=
  Saturating.sub s.wait (elapsed s.lastTurn now)

/-- Forgets the wait; the next turn may come as soon as time moves. -/
def restart (s : Sampler) (now : Timestamp) : Sampler := { s with lastTurn := now, wait := 0 }

end Sampler

end Telemetry
