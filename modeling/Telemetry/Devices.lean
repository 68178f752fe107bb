import Telemetry.Clock
import Telemetry.Definition
import Telemetry.Tally

/-!
# The devices of a node

The node never touches hardware. It speaks to sensors, to a radio and to the
board it runs on, and it reads a clock and writes a log; each of these is a
record of actions on one common world. A device with fewer abilities leaves
fields out: their defaults are what such a device answers.
-/

namespace Telemetry

/-- The answer of a device that may need more time. -/
inductive Reply (α : Type) where
  | done (value : α)
  /-- The device is at work; ask again later. -/
  | busy
  | failed (cause : SensorError)

/-- What a node may ask of its sensors. A request names the definition it is
made for; one sensor may serve many. -/
structure Sensors (W : Type) where
  /-- The kind of value the sensor produces, if there is a sensor. -/
  valueKind : Definition → Action W (Option ValueKind)
  /-- How long the sensor takes from start to reading, if it can tell. -/
  collectionTime : Definition → Action W (Option (Reply UInt32)) := fun _ => pure none
  /-- Begins an acquisition, either for the schedule or for a read on its own. -/
  start : Definition → Bool → Action W (Reply Unit) := fun _ _ => pure (.done ())
  /-- Looks after an acquisition. -/
  poll : Definition → Action W (Reply Unit) := fun _ => pure (.done ())
  /-- Ends an acquisition with its reading. -/
  collect : Definition → Action W (Reply Reading)
  /-- Switches the sensor on or off. -/
  power : Definition → Bool → Action W Unit := fun _ _ => pure ()
  /-- Whether the sensor is on, if it can tell. -/
  powered : Definition → Action W (Option Bool) := fun _ => pure none
  /-- Tells the sensor that its last reading has arrived. -/
  delivered : Definition → Action W Unit := fun _ => pure ()

/-- What a node may ask of its radio. A radio holds one outgoing frame. -/
structure Radio (W : Type) where
  openFrame : Action W (Except FrameError Unit)
  /-- Adds a measurement's tally to the frame, or leaves the frame as it was. -/
  append : Definition → Tally → Action W (Except FrameError Unit)
  /-- Adds a single reading to the frame, or leaves the frame as it was. -/
  appendReading : Definition → Reading → Action W (Except FrameError Unit)
  send : Action W (Except FrameError Unit)
  /-- Whether a frame would be taken right now. -/
  ready : Action W Bool
  allowed : Action W Bool := pure true
  connected : Action W Bool
  reset : Action W Unit := pure ()

/-- A radio without a form of its own for single readings adds the tally of one. -/
def Radio.appendAsTally {W : Type} (log : Logger W)
    (append : Definition → Tally → Action W (Except FrameError Unit))
    (d : Definition) (r : Reading) : Action W (Except FrameError Unit) := do
  let t ← Tally.ofReading log r
  append d t

/-- What a node may ask of its board. -/
structure Board (W : Type) where
  /-- Whether the board runs on its battery, if it can tell. -/
  onBattery : Action W (Option Bool) := pure none
  /-- Sleeps for some milliseconds; answers whether it slept. -/
  sleepFor : UInt32 → Action W Bool := fun _ => pure false
  /-- Passes a moment while a read waits. -/
  spin : Action W Unit := pure ()

/-- All that a node speaks to. -/
structure Devices (W : Type) where
  sensors : Sensors W
  radio : Radio W
  board : Board W
  now : Action W Timestamp
  log : Logger W

/-- How long a sensor takes: nothing if it cannot tell, and a fallback if it
could but does not. -/
def Devices.leadTime {W : Type} (d : Devices W) (m : Definition) (fallback : UInt32) :
    Action W UInt32 := do
  match ← d.sensors.collectionTime m with
  | none => pure 0
  | some (.done ms) => pure ms
  | some .busy => do
      d.log.debug (m.name ++ " busy reporting collection time, using default")
      pure fallback
  | some (.failed cause) => do
      d.log.debug (m.name ++ " failed to report collection time: " ++ cause.message ++
        ", using default")
      pure fallback

end Telemetry
