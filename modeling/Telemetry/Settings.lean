import Telemetry.Failure
import Telemetry.Limits
import Telemetry.Saturating

/-!
# Settings of a node

The timing and the power policy that may change at run time. Every field has a
default; a deployment usually changes only the interval and the power mode.
-/

namespace Telemetry

/-- When a node may sleep. -/
inductive PowerMode where
  /-- Sleep while the board runs on its battery. -/
  | auto
  /-- Sleep whenever there is time. -/
  | battery
  | plugged
  deriving DecidableEq, Repr, Inhabited

/-- The settings of a node; all times are in milliseconds. -/
structure Settings where
  /-- The interval of the transmit clock. -/
  interval : UInt32 := Limits.defaultInterval
  /-- How long before its send an immediate sample is taken. -/
  immediateGuard : UInt32 := Limits.immediateGuard
  /-- The collection time of a sensor that cannot report its own. -/
  collectionTime : UInt32 := Limits.defaultCollectionTime
  /-- The margin and the least length of a nap. -/
  leastSleep : UInt32 := Limits.leastSleep
  /-- How far an instant send keeps away from a scheduled one. -/
  instantGuard : UInt32 := Limits.instantGuard
  /-- When the node may sleep. -/
  power : PowerMode := .auto
  deriving DecidableEq, Repr

namespace Settings

/-- Default settings with an interval in thousandths of a minute. One too long
for 32 bits becomes the longest there is. -/
def ofMilliMinutes (milli : UInt32) : Settings :=
  { interval :=
      Saturating.narrow (milli.toUInt64 * Limits.msPerMinute.toUInt64 / 1000) }

/-- The interval in thousandths of a minute, rounded down. -/
def milliMinutes (s : Settings) : UInt32 :=
  (s.interval.toUInt64 * 1000 / Limits.msPerMinute.toUInt64).toUInt32

/-- Settings are good if the interval is long enough by itself and for the
guard of immediate samples. The first fault is reported. -/
def validate (s : Settings) : Except SetupError Unit :=
  if s.interval < Limits.leastInterval then
    .error (.invalidInterval s.interval Limits.leastInterval)
  else if s.interval ≤ s.immediateGuard then
    .error (.invalidInterval s.interval (Saturating.succ s.immediateGuard))
  else .ok ()

end Settings

end Telemetry
