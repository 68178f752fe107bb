import Telemetry.Definition
import Telemetry.Json.Write
import Telemetry.Reading
import Telemetry.Settings
import Telemetry.Stored.Fields

/-!
# Stored records

The form in which settings, definitions and readings are kept between two runs.
Settings leave out what has its default; a definition has to be complete. Names
and texts may not be longer than a node can hold, but a stored name is taken as
it is.
-/

namespace Telemetry.Stored

open Json

/-! ## Choices -/

/-- All kinds of sensors with their stored names. -/
def sensorKinds : List (String × SensorKind) :=
  [("Modbus", .modbus), ("Pm10", .pm10), ("Pm25", .pm25), ("CurrentClamp", .currentClamp),
   ("W1Probe", .w1Probe), ("Htu21dHumidity", .htu21dHumidity),
   ("Htu21dTemperature", .htu21dTemperature), ("BatteryMonitor", .batteryMonitor),
   ("PulseCount", .pulseCount), ("Light", .light), ("Sound", .sound),
   ("FirmwareVersion", .firmwareVersion), ("ConfigRevision", .configRevision), ("Ftma", .ftma),
   ("IoReading", .ioReading), ("Custom0", .custom0), ("Custom1", .custom1)]

def sensorKind? (name : String) : Option SensorKind := sensorKinds.lookup name

def sensorKindName : SensorKind → String
  | .modbus => "Modbus"
  | .pm10 => "Pm10"
  | .pm25 => "Pm25"
  | .currentClamp => "CurrentClamp"
  | .w1Probe => "W1Probe"
  | .htu21dHumidity => "Htu21dHumidity"
  | .htu21dTemperature => "Htu21dTemperature"
  | .batteryMonitor => "BatteryMonitor"
  | .pulseCount => "PulseCount"
  | .light => "Light"
  | .sound => "Sound"
  | .firmwareVersion => "FirmwareVersion"
  | .configRevision => "ConfigRevision"
  | .ftma => "Ftma"
  | .ioReading => "IoReading"
  | .custom0 => "Custom0"
  | .custom1 => "Custom1"

def valueKind? : String → Option ValueKind
  | "Integer" => some .integer
  | "Float" => some .float
  | "Text" => some .text
  | _ => none

def powerMode? : String → Option PowerMode
  | "Auto" => some .auto
  | "Battery" => some .battery
  | "Plugged" => some .plugged
  | _ => none

def powerModeName : PowerMode → String
  | .auto => "Auto"
  | .battery => "Battery"
  | .plugged => "Plugged"

/-- Every kind of sensor is found under its stored name. -/
theorem sensorKind?_name (k : SensorKind) : sensorKind? (sensorKindName k) = some k := by
  cases k <;> decide

/-- Every power mode is found under its stored name. -/
theorem powerMode?_name (m : PowerMode) : powerMode? (powerModeName m) = some m := by
  cases m <;> decide

/-! ## Reading -/

def settings (t : Tree) : Option Settings := do
  let f ← Fields.ofTree 6 t
  let start : Settings := {}
  let interval ← f.optional 0 "transmit_interval_ms" start.interval word
  let immediateGuard ← f.optional 1 "immediate_guard_ms" start.immediateGuard word
  let collectionTime ← f.optional 2 "default_collection_time_ms" start.collectionTime word
  let leastSleep ← f.optional 3 "min_sleep_ms" start.leastSleep word
  let instantGuard ← f.optional 4 "instant_send_guard_ms" start.instantGuard word
  let power ← f.optional 5 "power_mode" start.power fun t => (choice t).bind powerMode?
  pure { interval, immediateGuard, collectionTime, leastSleep, instantGuard, power }

def definition (t : Tree) : Option Definition := do
  let f ← Fields.ofTree 5 t
  let name ← f.require 0 "name" (text Limits.nameBytes)
  let kind ← f.require 1 "kind" fun t => (choice t).bind sensorKind?
  let period ← f.require 2 "period" byte
  let sampleCount ← f.require 3 "samplecount" byte
  let immediate ← f.require 4 "is_immediate" boolean
  pure { name, kind, period, sampleCount, immediate }

def reading (t : Tree) : Option Reading := do
  let (kind, t) ← tagged t
  match ← valueKind? kind with
  | .integer => (integer t).map .integer
  | .float => (float t).map .float
  | .text => (text Limits.textBytes t).map .text

/-! ## Writing -/

/-- A number of 32 bits under a key. -/
def wordMember (key : String) (n : UInt32) : String := member key (toString n.toNat)

def ofSettings (s : Settings) : String :=
  object [wordMember "transmit_interval_ms" s.interval,
    wordMember "immediate_guard_ms" s.immediateGuard,
    wordMember "default_collection_time_ms" s.collectionTime,
    wordMember "min_sleep_ms" s.leastSleep,
    wordMember "instant_send_guard_ms" s.instantGuard,
    member "power_mode" (string (powerModeName s.power))]

def ofDefinition (m : Definition) : String :=
  object [member "name" (string m.name),
    member "kind" (string (sensorKindName m.kind)),
    member "period" (toString m.period.toNat),
    member "samplecount" (toString m.sampleCount.toNat),
    member "is_immediate" (Json.boolean m.immediate)]

def ofReading : Reading → Option String
  | .integer v => some (object [member "Integer" (toString v.toInt)])
  | .float _ => none
  | .text s => some (object [member "Text" (string s)])

end Telemetry.Stored
