import Telemetry.Devices

/-!
# Scripted devices

On a test bench the devices do as they are told. A script is a list of answers,
one for each call; when it runs out, the device answers by a rule of its own. A
scripted sensor is busy until its latency has passed since it was started, and a
scripted radio takes as many entries as its frame has room for.
-/

namespace Telemetry.Bench

/-- The next answer of a script, and the rest of it. -/
def draw {α : Type} : List α → Option α × List α
  | [] => (none, [])
  | a :: rest => (some a, rest)

/-! ## Sensors -/

/-- The script of one sensor, which serves the measurement of a name. -/
structure Channel where
  name : String
  kind : Option ValueKind := some .integer
  /-- Whether the sensor is on, if it can tell. -/
  on : Option Bool := some false
  times : List (Option (Reply UInt32)) := []
  /-- The collection time once the script has run out. -/
  timeElse : Option (Reply UInt32) := none
  starts : List (Reply Unit) := []
  polls : List (Reply Unit) := []
  collects : List (Reply Reading) := []
  /-- The reading once the script has run out. -/
  collectElse : Reply Reading := .done (.integer 1)
  /-- How long the sensor is at work after a start. -/
  latency : UInt64 := 0
  startedAt : Timestamp := 0

namespace Channel

/-- Whether the sensor is still at work. -/
def working (c : Channel) (now : Timestamp) : Bool := elapsed c.startedAt now < c.latency

/-- Tells the collection time. -/
def collectionTime (c : Channel) : Option (Reply UInt32) × Channel :=
  match draw c.times with
  | (some answer, times) => (answer, { c with times })
  | (none, _) => (c.timeElse, c)

/-- Starts, unless the script says otherwise. -/
def start (now : Timestamp) (c : Channel) : Reply Unit × Channel :=
  match draw c.starts with
  | (some .busy, starts) => (.busy, { c with starts })
  | (some (.failed cause), starts) => (.failed cause, { c with starts })
  | (_, starts) => (.done (), { c with starts, startedAt := now })

/-- Polls: as the script says, or busy while the sensor is at work. -/
def poll (now : Timestamp) (c : Channel) : Reply Unit × Channel :=
  match draw c.polls with
  | (some answer, polls) => (answer, { c with polls })
  | (none, _) => (if c.working now then .busy else .done (), c)

/-- Collects: busy while the sensor is at work, and then as the script says. -/
def collect (now : Timestamp) (c : Channel) : Reply Reading × Channel :=
  if c.working now then (.busy, c)
  else
    match draw c.collects with
    | (some answer, collects) => (answer, { c with collects })
    | (none, _) => (c.collectElse, c)

/-- Switches the sensor, if it can be switched. -/
def power (on : Bool) (c : Channel) : Channel := { c with on := c.on.map fun _ => on }

/-- The reading of a sensor without a script. -/
def usualReading : Option ValueKind → Reading
  | some .float => .float 1.5
  | some .text => .text "txt"
  | _ => .integer 1

/-- Puts a channel in the place of the one with its name, or at the end. -/
def replace (c : Channel) : List Channel → List Channel
  | [] => [c]
  | a :: rest => if a.name == c.name then c :: rest else a :: replace c rest

/-- Lets the channel of a name answer, if there is one. -/
def serve {α : Type} (name : String) (f : Channel → α × Channel) :
    List Channel → Option α × List Channel
  | [] => (none, [])
  | c :: rest =>
      if c.name == name then
        let r := f c
        (some r.1, r.2 :: rest)
      else
        let r := serve name f rest
        (r.1, c :: r.2)

end Channel

/-! ## The radio -/

/-- The script of a radio whose frame is only counted. -/
structure LinkScript where
  connected : Bool := true
  ready : Bool := true
  allowed : Bool := true
  opens : List (Except FrameError Unit) := []
  appends : List (Except FrameError Unit) := []
  sends : List (Except FrameError Unit) := []
  /-- How many entries the coming frames have room for. -/
  rooms : List Nat := []
  used : Nat := 0
  room : Option Nat := none

namespace LinkScript

/-- Opens a frame, with the next room if there is one. -/
def openFrame (l : LinkScript) : Except FrameError Unit × LinkScript :=
  match draw l.opens with
  | (some (.error cause), opens) => (.error cause, { l with opens })
  | (_, opens) =>
      let (room, rooms) := draw l.rooms
      (.ok (), { l with opens, rooms, room, used := 0 })

/-- Whether the frame has no room left. -/
def full (l : LinkScript) : Bool :=
  match l.room with
  | some room => room ≤ l.used
  | none => false

/-- Takes an entry, if the script and the room allow it. -/
def append (l : LinkScript) : Except FrameError Unit × LinkScript :=
  match draw l.appends with
  | (some (.error cause), appends) => (.error cause, { l with appends })
  | (_, appends) =>
      if l.full then (.error .bufferFull, { l with appends })
      else (.ok (), { l with appends, used := l.used + 1 })

/-- Sends, unless the script says otherwise. -/
def send (l : LinkScript) : Except FrameError Unit × LinkScript :=
  match draw l.sends with
  | (some answer, sends) => (answer, { l with sends })
  | (none, _) => (.ok (), l)

end LinkScript

/-! ## The board -/

structure BoardScript where
  battery : Option Bool := none
  /-- Whether it sleeps when it is asked to. -/
  sleeps : Bool := false
  /-- How much time passes in a moment of waiting. -/
  spin : UInt64 := 0

end Telemetry.Bench
