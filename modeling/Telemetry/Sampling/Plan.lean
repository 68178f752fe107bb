import Telemetry.Definition
import Telemetry.TransmitClock

/-!
# Where the samples of a period fall

A period of `period` ticks is cut into `sampleCount` equal slices:

```text
  |<------------------ period * interval ------------------>|
  |     slice 0      |     slice 1      |     slice 2      |
  |--------^---------|--------^---------|--------^---------|
        target 0           target 1           target 2
```

A sample belongs in the middle of its slice. A measurement that is taken late
has one slice, and its sample belongs a guard before the end of it, so that it
is fresh when it is sent. `position` is how far the period has run.
-/

namespace Telemetry

/-- The slices of one measurement's period, and how far the period has run. -/
structure Plan where
  spacing : UInt64
  /-- From the beginning of a slice to the moment its sample belongs to. -/
  lead : UInt64
  /-- How far the period has run. -/
  position : UInt64
  deriving DecidableEq, Repr

namespace Plan

/-- The length of a measurement's slices under an interval. -/
def spacingOf (m : Definition) (interval : UInt32) : UInt64 :=
  m.period.toUInt64 * interval.toUInt64 / m.sampleCount.toUInt64

/-- From the beginning of a slice to its sample. -/
def leadOf (m : Definition) (interval guard : UInt32) : UInt64 :=
  if m.takenLate then Saturating.sub (spacingOf m interval) guard.toUInt64
  else spacingOf m interval / 2

/-- How far a measurement's period has run: the ticks of it that are over and
the running one. -/
def positionOf (m : Definition) (clock : TransmitClock) (now : Timestamp) : UInt64 :=
  clock.elapsed now + (clock.count % m.period.toUInt32).toUInt64 * clock.interval.toUInt64

/-- The plan of a measurement at a moment. -/
def of (m : Definition) (guard : UInt32) (clock : TransmitClock) (now : Timestamp) : Plan where
  spacing := spacingOf m clock.interval
  lead := leadOf m clock.interval guard
  position := positionOf m clock now

/-- The moment in the period that the sample of a number belongs to. -/
def target (p : Plan) (n : UInt32) : UInt64 := n.toUInt64 * p.spacing + p.lead

end Plan

end Telemetry
