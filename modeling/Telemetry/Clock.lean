import Telemetry.Saturating

/-!
# Time

Time is a count of milliseconds that someone else keeps. The difference of two
readings is never negative: a clock that briefly reads behind an earlier
reading gives zero.
-/

namespace Telemetry

/-- Milliseconds since some fixed moment. -/
abbrev Timestamp := UInt64

/-- The time between two readings of the clock. -/
def elapsed (earlier later : Timestamp) : UInt64 := Saturating.sub later earlier

/-- A clock that is moved by hand. It tells no time of day. -/
structure ManualClock where
  now : Timestamp := 0
  deriving DecidableEq, Repr

namespace ManualClock

/-- The clock put to a time, forward or back. -/
def set (_ : ManualClock) (time : Timestamp) : ManualClock := { now := time }

/-- The clock moved forward; it stops at the last time there is. -/
def advance (c : ManualClock) (ms : UInt64) : ManualClock := { now := Saturating.add c.now ms }

/-- Whether the readings are times of day. -/
def tellsTimeOfDay (_ : ManualClock) : Bool := false

end ManualClock

end Telemetry
