import Telemetry.Devices

/-!
# Pulse counters

A pulse counter counts edges while it is on. Reading it takes a snapshot of the
count; when the reading has arrived, the snapshot is taken off the count, so
that edges between the two are kept for the next reading. Switching it off
forgets everything.
-/

namespace Telemetry

/-- A counter of edges. -/
structure PulseCounter where
  /-- Edges that have not been delivered. -/
  count : UInt32 := 0
  /-- The count at the last reading, until it is delivered. -/
  snapshot : UInt32 := 0
  /-- Whether edges are counted. -/
  counting : Bool := false
  deriving DecidableEq, Repr

namespace PulseCounter

/-- One edge, which counts only while the counter is on. -/
def record (p : PulseCounter) : PulseCounter :=
  if p.counting then { p with count := p.count + 1 } else p

/-- Several edges. -/
def recordMany (p : PulseCounter) : Nat → PulseCounter
  | 0 => p
  | n + 1 => recordMany p.record n

/-- Switches the counter; one that is off has counted nothing. -/
def power (on : Bool) (p : PulseCounter) : PulseCounter :=
  if on then { p with counting := true } else {}

/-- The reading has arrived: the snapshot is taken off the count. -/
def delivered (p : PulseCounter) : PulseCounter :=
  { p with count := p.count - p.snapshot, snapshot := 0 }

/-- Takes a snapshot of the count. -/
def capture (p : PulseCounter) : PulseCounter := { p with snapshot := p.count }

/-- Whether a counter is what the measurement is taken from. -/
def serves (m : Definition) : Bool := m.kind == .pulseCount

/-- Why the counter cannot be read, if it cannot. -/
def fault (p : PulseCounter) (m : Definition) : Option SensorError :=
  if !serves m then some (.failed "not a pulse counter")
  else if !p.counting then some .disabled
  else none

variable {W : Type}

/-- Begins a reading; the counter is always ready for one. -/
def start (log : Logger W) (part : Part W PulseCounter) (m : Definition) :
    Action W (Reply Unit) := do
  let p ← Action.look part.get
  match p.fault m with
  | some cause => pure (.failed cause)
  | none => do
      log.debug (m.name ++ " at start " ++ toString p.count.toNat)
      pure (.done ())

/-- Ends a reading with the count so far. -/
def collect (log : Logger W) (part : Part W PulseCounter) (m : Definition) :
    Action W (Reply Reading) := do
  let p ← Action.look part.get
  match p.fault m with
  | some cause => pure (.failed cause)
  | none => do
      Action.change (part.set p.capture)
      log.debug (m.name ++ " at end " ++ toString p.count.toNat)
      pure (.done (.integer p.count.toUInt64.toInt64))

/-- The counter as the sensor of every measurement that is taken from one. -/
def sensors (log : Logger W) (part : Part W PulseCounter) : Sensors W where
  valueKind := fun m => pure (if serves m then some .integer else none)
  collectionTime := fun _ => pure (some (.done Limits.pulseCollectionTime))
  start := fun m _ => start log part m
  collect := collect log part
  power := fun _ on => Action.change fun w => part.set ((part.get w).power on) w
  powered := fun _ => Action.look fun w => some (part.get w).counting
  delivered := fun _ => Action.change fun w => part.set (part.get w).delivered w

end PulseCounter

end Telemetry
