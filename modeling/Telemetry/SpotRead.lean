import Telemetry.Table

/-!
# Reads on the spot

A spot read wants one value now. It starts the sensor on its own account, asks
again and again until the value is there or the time is up, and lets the board
pass a moment between two questions. Polling and collecting share one budget of
time, and each is tried at least once.

The measurement's schedule is left alone. A sensor that was switched off is on
for the time of the read only, and a measurement whose sensor is already at
work for the schedule is not read at all.
-/

namespace Telemetry

namespace SpotRead

variable {W α : Type}

/-- The most questions one wait may take. A budget has 32 bits, so a board
whose moments take a millisecond or more never reaches this number. -/
def patience : Nat := UInt32.size

/-- Asks until there is an answer, or until the time since `began` reaches the
limit after an answer that the device is busy. -/
def askUntil (d : Devices W) (ask : Action W (Reply α)) (limit : UInt64) (began : Timestamp) :
    Nat → Action W (Option (Except SensorError α))
  | 0 => pure none
  | questions + 1 => do
      match ← ask with
      | .done value => pure (some (.ok value))
      | .failed cause => pure (some (.error cause))
      | .busy => do
          let now ← d.now
          if limit ≤ elapsed began now then pure none
          else
            d.board.spin
            askUntil d ask limit began questions

/-- Asks for as long as a limit allows, and at least once. -/
def askFor (d : Devices W) (limit : UInt64) (ask : Action W (Reply α)) :
    Action W (Option (Except SensorError α)) := do
  let began ← d.now
  askUntil d ask limit began patience

/-- Waits for a started acquisition: polls it and collects it within a budget. -/
def await (d : Devices W) (m : Definition) (budget : UInt64) :
    Action W (Except ReadError Reading) := do
  let began ← d.now
  match ← askFor d budget (d.sensors.poll m) with
  | none => do
      d.log.debug ("Timed out polling " ++ m.name ++ ".")
      pure (.error .timedOut)
  | some (.error cause) => do
      d.log.debug ("Failed on poll of " ++ m.name ++ ".")
      pure (.error (.failed cause))
  | some (.ok ()) => do
      let polled ← d.now
      let rest := Saturating.sub budget (elapsed began polled)
      let collected ← askFor d rest (d.sensors.collect m)
      let ended ← d.now
      d.log.debug ("Read of " ++ m.name ++ " took " ++ toString (elapsed began ended).toNat ++ "ms")
      match collected with
      | some (.ok r) => pure (.ok r)
      | some (.error cause) => pure (.error (.failed cause))
      | none => do
          d.log.debug "Collect is timed out..."
          pure (.error .timedOut)

/-- Starts the sensor and waits for its value: for the given time, or for as
long as the sensor says it takes. -/
def acquire (d : Devices W) (fallback : UInt32) (timeout : Option UInt32) (m : Definition)
    (t : Tally) : Action W (Tally × Except ReadError Reading) := do
  match ← d.sensors.start m true with
  | .busy => do
      d.log.debug ("Could not begin " ++ m.name ++ ", sensor busy.")
      pure (t, .error (.failed (.failed "busy at start")))
  | .failed cause => do
      d.log.debug ("Could not begin " ++ m.name ++ ".")
      pure (t, .error (.failed cause))
  | .done () => do
      let leadTime ← d.leadTime m fallback
      let result ← await d m (timeout.getD leadTime).toUInt64
      pure ({ t with leadTime, acquiring := true }, result)

end SpotRead

variable {W : Type}

/-- Reads one measurement on the spot. -/
def Entry.read (d : Devices W) (fallback : UInt32) (timeout : Option UInt32) (e : Entry) :
    Action W (Entry × Except ReadError Reading) := do
  if e.tally.acquiring then
    d.log.debug ("Measurement " ++ e.name ++ " already being collected.")
    pure (e, .error (.failed .alreadyCollecting))
  else
    let wasOff := (← d.sensors.powered e.definition) == some false
    if wasOff then d.sensors.power e.definition true
    let (t, result) ← SpotRead.acquire d fallback timeout e.definition e.tally
    if wasOff then d.sensors.power e.definition false
    pure (e.withTally { t with acquiring := false }, result)

/-- Reads the measurement of a name on the spot. -/
def Table.read (d : Devices W) (t : Table) (name : String) (timeout : Option UInt32) :
    Action W (Table × Except ReadError Reading) :=
  match t.locate name with
  | none => pure (t, .error (.refused .unknownMeasurement))
  | some (i, e) => do
      let (e, result) ← e.read d t.fallback timeout
      pure (t.put i (some e), result)

end Telemetry
