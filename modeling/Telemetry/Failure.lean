/-!
# What can go wrong

Errors are causes: one constructor for each reason a request is refused or
fails, and one function per type that gives the wording. A sensor that is still
working is not an error; that answer is `Reply.busy`, and it lives with the
devices.
-/

namespace Telemetry

/-- Why a table edit or a setting is refused. -/
inductive SetupError where
  | duplicateName
  | invalidName
  | tableFull
  | unknownMeasurement
  | invalidSampleCount
  | unsupportedKind
  | invalidInterval (interval least : UInt32)
  deriving DecidableEq, Repr

/-- Why a sensor did not start, poll or collect. -/
inductive SensorError where
  | failed (reason : String)
  | alreadyCollecting
  | timeout
  | disabled
  deriving DecidableEq, Repr

/-- Why the radio did not take a frame or a part of one. -/
inductive FrameError where
  | initFailed
  | bufferFull
  | sendFailed
  | notConnected
  deriving DecidableEq, Repr

/-- Why a one-shot read has no value. -/
inductive ReadError where
  | refused (cause : SetupError)
  | failed (cause : SensorError)
  | timedOut
  deriving DecidableEq, Repr

/-- Why a send outside the schedule did not happen. -/
inductive SendError where
  | notConnected
  | notReady
  | fragmentInProgress
  | scheduledSendImminent
  | nothingQueued
  | frame (cause : FrameError)
  | read (cause : ReadError)
  deriving DecidableEq, Repr

/-- Why a link did not carry a finished frame. -/
inductive LinkError where
  | notConnected
  | timeout
  | rejected (reason : String)
  deriving DecidableEq, Repr

/-! ## Names

The short name of a cause; that of a cause with another one inside names both. -/

def SetupError.label : SetupError → String
  | .duplicateName => "DuplicateName"
  | .invalidName => "InvalidName"
  | .tableFull => "TableFull"
  | .unknownMeasurement => "UnknownMeasurement"
  | .invalidSampleCount => "InvalidSampleCount"
  | .unsupportedKind => "UnsupportedKind"
  | .invalidInterval _ _ => "InvalidInterval"

def SensorError.label : SensorError → String
  | .failed _ => "Failed"
  | .alreadyCollecting => "AlreadyCollecting"
  | .timeout => "Timeout"
  | .disabled => "Disabled"

def FrameError.label : FrameError → String
  | .initFailed => "InitFailed"
  | .bufferFull => "BufferFull"
  | .sendFailed => "SendFailed"
  | .notConnected => "NotConnected"

def ReadError.label : ReadError → String
  | .refused cause => "Config." ++ cause.label
  | .failed cause => "Sensor." ++ cause.label
  | .timedOut => "TimedOut"

def SendError.label : SendError → String
  | .notConnected => "NotConnected"
  | .notReady => "NotReady"
  | .fragmentInProgress => "FragmentInProgress"
  | .scheduledSendImminent => "ScheduledSendImminent"
  | .nothingQueued => "NothingQueued"
  | .frame cause => "Protocol." ++ cause.label
  | .read cause => "Read." ++ cause.label

def LinkError.label : LinkError → String
  | .notConnected => "NotConnected"
  | .timeout => "Timeout"
  | .rejected _ => "Rejected"

/-! ## Wording -/

def SetupError.message : SetupError → String
  | .duplicateName => "Measurement name already in use"
  | .invalidName => "Invalid measurement name"
  | .tableFull => "Measurement table is full"
  | .unknownMeasurement => "Unknown measurement"
  | .invalidSampleCount => "Sample count must be at least 1"
  | .unsupportedKind => "Sensor kind has no driver"
  | .invalidInterval interval least =>
      s!"Transmit interval {interval.toNat}ms below minimum {least.toNat}ms"

def SensorError.message : SensorError → String
  | .failed reason => "Sensor failed: " ++ reason
  | .alreadyCollecting => "Acquisition already in progress"
  | .timeout => "Sensor timed out"
  | .disabled => "Sensor disabled"

def FrameError.message : FrameError → String
  | .initFailed => "Protocol init failed"
  | .bufferFull => "Uplink buffer full"
  | .sendFailed => "Send failed"
  | .notConnected => "Not connected"

def ReadError.message : ReadError → String
  | .refused cause => "Read refused: " ++ cause.message
  | .failed cause => "Read failed: " ++ cause.message
  | .timedOut => "Read timed out"

def SendError.message : SendError → String
  | .notConnected => "Not connected"
  | .notReady => "Protocol not ready"
  | .fragmentInProgress => "Scheduled send underway"
  | .scheduledSendImminent => "Scheduled send imminent"
  | .nothingQueued => "Nothing queued"
  | .frame cause => "Protocol error: " ++ cause.message
  | .read cause => "Read error: " ++ cause.message

def LinkError.message : LinkError → String
  | .notConnected => "Not connected"
  | .timeout => "Timeout"
  | .rejected reason => "Frame rejected: " ++ reason

end Telemetry
