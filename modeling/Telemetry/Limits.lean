/-!
# Fixed limits and defaults

Every number the node was built with. Times are in milliseconds unless the name
says otherwise. The defaults here are what a node starts from; a `Settings`
value may replace most of them at run time, but the sizes and the least
transmit interval are fixed.
-/

namespace Telemetry.Limits

/-- The release this library describes. -/
def version : String := "0.1.0"

/-! ## Units of time -/

/-- Milliseconds in a second. -/
def msPerSecond : UInt32 := 1000

/-- Seconds in a minute. -/
def secondsPerMinute : UInt32 := 60

/-- Milliseconds in a minute. -/
def msPerMinute : UInt32 := msPerSecond * secondsPerMinute

/-! ## The transmit clock -/

/-- The time between two scheduled sends, unless the settings say otherwise. -/
def defaultInterval : UInt32 := 15 * msPerMinute

/-- The shortest time between two scheduled sends that a node accepts. -/
def leastInterval : UInt32 := 15 * msPerSecond

/-- A pending send is given up after this fraction of the interval. -/
def pendingShare : UInt32 := 4

/-! ## Acquisition -/

/-- The collection time of a sensor that cannot report its own. -/
def defaultCollectionTime : UInt32 := 1000

/-- How long before the end of its slice an immediate measurement is taken. -/
def immediateGuard : UInt32 := 10

/-- A one-shot read is worth waiting for this many tenths of the collection time. -/
def readTimeoutTenths : UInt32 := 15

/-- The collection time of a pulse counter. -/
def pulseCollectionTime : UInt32 := 10

/-! ## Power -/

/-- The margin that a nap leaves before the next deadline, and the shortest nap
worth planning. -/
def leastSleep : UInt32 := 1000

/-- An instant send keeps this far away from the next scheduled one. -/
def instantGuard : UInt32 := leastInterval

/-! ## Sizes -/

/-- Slots of a measurement table of the usual size. -/
def tableSlots : Nat := 25

/-- The most bytes a measurement's name may take. -/
def nameBytes : Nat := 4

/-- The most bytes a text reading may take. -/
def textBytes : Nat := 22

end Telemetry.Limits
