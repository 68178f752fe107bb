import Telemetry.Clock

/-!
# The transmit clock

Sends happen at ticks of this clock. It remembers when the running tick began
and how many ticks are over; a send restarts the tick, and only the end of a
tick moves the count.
-/

namespace Telemetry

/-- The running tick and the number of ticks that are over. -/
structure TransmitClock where
  /-- The length of a tick in milliseconds. -/
  interval : UInt32
  /-- When the running tick began. -/
  began : Timestamp
  /-- Ticks that are over, counted around at 32 bits. -/
  count : UInt32 := 0
  deriving DecidableEq, Repr

namespace TransmitClock

/-- How long the tick has been running. -/
def elapsed (c : TransmitClock) (now : Timestamp) : UInt64 := Telemetry.elapsed c.began now

/-- Whether the tick is over. A tick still runs at the moment its interval is reached. -/
def due (c : TransmitClock) (now : Timestamp) : Bool := c.interval.toUInt64 < c.elapsed now

def remaining (c : TransmitClock) (now : Timestamp) : UInt64 :=
  Saturating.sub c.interval.toUInt64 (c.elapsed now)

def advance (c : TransmitClock) : TransmitClock := { c with count := c.count + 1 }

/-- Several more ticks are over. -/
def advanceBy (c : TransmitClock) : Nat → TransmitClock
  | 0 => c
  | n + 1 => c.advance.advanceBy n

def restart (c : TransmitClock) (now : Timestamp) : TransmitClock := { c with began := now }

/-- The same tick under another interval. -/
def setInterval (c : TransmitClock) (interval : UInt32) : TransmitClock := { c with interval }

@[simp] theorem advance_began (c : TransmitClock) : c.advance.began = c.began := rfl
@[simp] theorem advance_interval (c : TransmitClock) : c.advance.interval = c.interval := rfl
@[simp] theorem restart_count (c : TransmitClock) (now : Timestamp) :
    (c.restart now).count = c.count := rfl
@[simp] theorem restart_interval (c : TransmitClock) (now : Timestamp) :
    (c.restart now).interval = c.interval := rfl

end TransmitClock

end Telemetry
