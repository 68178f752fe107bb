import Telemetry.Failure
import Telemetry.Limits

/-!
# Measurement definitions

A definition says what to sample and how often: `sampleCount` samples, spread
evenly over `period` ticks of the transmit clock, sent together at the end of
each period. A definition without a period, without samples or without a name
is inactive; it is neither sampled nor sent.
-/

namespace Telemetry

/-- What a measurement is taken from. -/
inductive SensorKind where
  | modbus
  | pm10
  | pm25
  | currentClamp
  | w1Probe
  | htu21dHumidity
  | htu21dTemperature
  | batteryMonitor
  | pulseCount
  | light
  | sound
  | firmwareVersion
  | configRevision
  | ftma
  | ioReading
  | custom0
  | custom1
  deriving DecidableEq, Repr, Inhabited

def SensorKind.label : SensorKind → String
  | .modbus => "MODBUS"
  | .pm10 => "PM10"
  | .pm25 => "PM25"
  | .currentClamp => "CURRENT_CLAMP"
  | .w1Probe => "W1_PROBE"
  | .htu21dHumidity => "HTU21D_HUM"
  | .htu21dTemperature => "HTU21D_TMP"
  | .batteryMonitor => "BAT_MON"
  | .pulseCount => "PULSE_COUNT"
  | .light => "LIGHT"
  | .sound => "SOUND"
  | .firmwareVersion => "FW_VERSION"
  | .configRevision => "CONFIG_REVISION"
  | .ftma => "FTMA"
  | .ioReading => "IO_READING"
  | .custom0 => "CUSTOM_0"
  | .custom1 => "CUSTOM_1"

/-! ## Names -/

namespace Name

/-- The characters without the spaces they end with. -/
def trim (chars : List Char) : List Char := (chars.reverse.dropWhile (· == ' ')).reverse

/-- A space inside a name is written as an underscore. -/
def bridge (c : Char) : Char := if c = ' ' then '_' else c

/-- The form in which a name is kept: no spaces, not empty and at most
`Limits.nameBytes` bytes long. Spaces at the end do not count. -/
def normalise (raw : String) : Except SetupError String :=
  let kept := String.ofList (trim raw.toList)
  if kept.isEmpty || Limits.nameBytes < kept.utf8ByteSize then .error .invalidName
  else .ok (String.ofList (kept.toList.map bridge))

end Name

/-! ## Definitions -/

/-- What to sample and how often. -/
structure Definition where
  /-- The name under which the measurement is kept and sent. -/
  name : String
  /-- The sensor it is taken from. -/
  kind : SensorKind
  /-- Ticks of the transmit clock from one send to the next; zero turns it off. -/
  period : UInt8
  /-- Samples in one period; zero turns it off. -/
  sampleCount : UInt8
  /-- Whether a single sample is taken just before the send. -/
  immediate : Bool
  deriving DecidableEq, Repr

namespace Definition

/-- A definition under the kept form of a name. -/
def named (raw : String) (kind : SensorKind) (period sampleCount : UInt8) (immediate : Bool) :
    Except SetupError Definition :=
  (Name.normalise raw).map fun name => { name, kind, period, sampleCount, immediate }

/-- Whether the measurement is sampled and sent at all. -/
def active (d : Definition) : Bool := 0 < d.period && 0 < d.sampleCount && !d.name.isEmpty

/-- Whether the measurement is sent at a tick of the transmit clock. -/
def due (d : Definition) (count : UInt32) : Bool := d.active && count % d.period.toUInt32 == 0

/-- Whether the sample is taken at the end of its slice: only if there is one. -/
def takenLate (d : Definition) : Bool := d.immediate && d.sampleCount == 1

/-- Whether the sensor of a new definition is switched on. -/
def wantsPower (d : Definition) : Bool := 0 < d.period

theorem active_of_due {d : Definition} {count : UInt32} (h : d.due count) : d.active := by
  simp only [due, Bool.and_eq_true] at h
  exact h.1

end Definition

end Telemetry
