import Telemetry.Devices

/-!
# The measurement table

A table has a fixed number of slots, and each holds one measurement or none.
Measurements never move: one that is removed leaves a hole, and the next one
added takes the first hole. The order of the slots is the order in which the
node visits its measurements.

`sweep` and `sweepUntil` are the two ways to visit them. Both thread a state
through the visits; the second may stop at an entry and says where.
-/

namespace Telemetry

structure Entry where
  definition : Definition
  tally : Tally

namespace Entry

def name (e : Entry) : String := e.definition.name

def withTally (e : Entry) (t : Tally) : Entry := { e with tally := t }

/-- The measurement no longer waits for an answer. -/
def settled (e : Entry) : Entry := e.withTally { e.tally with awaitsAck := false }

@[simp] theorem withTally_definition (e : Entry) (t : Tally) :
    (e.withTally t).definition = e.definition := rfl

@[simp] theorem withTally_tally (e : Entry) (t : Tally) : (e.withTally t).tally = t := rfl

end Entry

/-- A place for a measurement. -/
abbrev Slot := Option Entry

/-! ## Visits -/

namespace Slot

variable {W σ : Type}

/-- Visits all measurements in order. -/
def sweep (visit : Entry → σ → Action W (Entry × σ)) : List Slot → σ → Action W (List Slot × σ)
  | [], s => pure ([], s)
  | none :: rest, s => do
      let (rest, s) ← sweep visit rest s
      pure (none :: rest, s)
  | some e :: rest, s => do
      let (e, s) ← visit e s
      let (rest, s) ← sweep visit rest s
      pure (some e :: rest, s)

/-- Visits measurements in order until a visit says so by its last answer. The
slots after that one stay as they are, and its position is given back. -/
def sweepUntil (visit : Entry → σ → Action W (Entry × σ × Bool)) :
    List Slot → σ → Action W (List Slot × σ × Option Nat)
  | [], s => pure ([], s, none)
  | none :: rest, s => do
      let (rest, s, stop) ← sweepUntil visit rest s
      pure (none :: rest, s, stop.map (· + 1))
  | some e :: rest, s => do
      let (e, s, enough) ← visit e s
      if enough then pure (some e :: rest, s, some 0)
      else
        let (rest, s, stop) ← sweepUntil visit rest s
        pure (some e :: rest, s, stop.map (· + 1))

/-- Whether the slot holds the measurement of a name. -/
def holds (name : String) : Slot → Bool
  | some e => e.name == name
  | none => false

end Slot

/-! ## Tables -/

/-- The measurements of a node. -/
structure Table where
  slots : List Slot
  /-- The collection time of a sensor that cannot report its own. -/
  fallback : UInt32 := Limits.defaultCollectionTime

namespace Table

def empty (capacity : Nat) (fallback : UInt32) : Table :=
  { slots := List.replicate capacity none, fallback }

def capacity (t : Table) : Nat := t.slots.length

def size (t : Table) : Nat := t.slots.countP Option.isSome

def isEmpty (t : Table) : Bool := t.slots.all Option.isNone

/-- The measurements, in slot order. -/
def entries (t : Table) : List Entry := t.slots.filterMap id

/-- The slot of the measurement of a name. -/
def indexOf (t : Table) (name : String) : Option Nat := t.slots.findIdx? (Slot.holds name)

/-- The measurement of a name. -/
def find? (t : Table) (name : String) : Option Entry :=
  (t.indexOf name).bind fun i => (t.slots[i]?).join

/-- The first slot without a measurement. -/
def firstFree (t : Table) : Option Nat := t.slots.findIdx? Option.isNone

/-- The table with another content of one slot. -/
def put (t : Table) (index : Nat) (slot : Slot) : Table := { t with slots := t.slots.set index slot }

/-- The measurement of a name with its slot. -/
def locate (t : Table) (name : String) : Option (Nat × Entry) :=
  (t.indexOf name).bind fun i => ((t.slots[i]?).join).map fun e => (i, e)

/-- Changes the measurement of a name, if there is one. -/
def amend (t : Table) (name : String) (change : Entry → Entry) : Table × Except SetupError Unit :=
  match t.locate name with
  | some (i, e) => (t.put i (some (change e)), .ok ())
  | none => (t, .error .unknownMeasurement)

/-- Reads off the measurement of a name, if there is one. -/
def ask {α : Type} (t : Table) (name : String) (f : Definition → α) : Except SetupError α :=
  match t.find? name with
  | some e => .ok (f e.definition)
  | none => .error .unknownMeasurement

/-- Whether some measurement waits for a send outside the schedule. -/
def hasRequests (t : Table) : Bool := t.entries.any (·.tally.instantRequested)

/-- No measurement waits for an answer any more. -/
def clearAcks (t : Table) : Table := { t with slots := t.slots.map (Option.map Entry.settled) }

@[simp] theorem capacity_put (t : Table) (i : Nat) (slot : Slot) :
    (t.put i slot).capacity = t.capacity := List.length_set

@[simp] theorem capacity_clearAcks (t : Table) : t.clearAcks.capacity = t.capacity :=
  List.length_map ..

@[simp] theorem capacity_empty (n : Nat) (fallback : UInt32) :
    (empty n fallback).capacity = n := List.length_replicate

end Table

end Telemetry
