import Telemetry.Table

/-!
# Edits of the table

Adding, removing and changing measurements. Every edit first finds all reasons
to refuse it; only an edit that goes through changes the table or switches a
sensor. Edits that concern a sensor's power speak to the devices, the others
are plain functions.

A node that boots adds the measurements it has stored, or its defaults if there
are none; one that cannot be added is skipped.
-/

namespace Telemetry.Table

variable {W : Type}

/-- Adds a measurement in the first free slot and gives that slot back. -/
def add (d : Devices W) (t : Table) (m : Definition) : Action W (Table × Except SetupError Nat) :=
  match Name.normalise m.name with
  | .error cause => pure (t, .error cause)
  | .ok name => do
      let m := { m with name }
      if (t.indexOf name).isSome then
        d.log.error ("Tried to add measurement with the same name: " ++ name)
        pure (t, .error .duplicateName)
      else
        match t.firstFree with
        | none => do
            d.log.error ("Could not find a space to add " ++ name)
            pure (t, .error .tableFull)
        | some index => do
            match ← d.sensors.valueKind m with
            | none => do
                d.log.error ("No sensor interface for " ++ name ++ " (" ++ m.kind.label ++ ")")
                pure (t, .error .unsupportedKind)
            | some kind => do
                let leadTime ← d.leadTime m t.fallback
                d.sensors.power m m.wantsPower
                let entry : Entry := { definition := m, tally := Tally.fresh kind leadTime }
                pure (t.put index (some entry), .ok index)

/-- Takes a measurement out and switches its sensor off. -/
def remove (d : Devices W) (t : Table) (name : String) :
    Action W (Table × Except SetupError Definition) :=
  match t.locate name with
  | none => pure (t, .error .unknownMeasurement)
  | some (i, e) => do
      d.sensors.power e.definition false
      pure (t.put i none, .ok e.definition)

/-- Sets the period; a sensor is switched when the period becomes zero or ceases to be. -/
def setPeriod (d : Devices W) (t : Table) (name : String) (period : UInt8) :
    Action W (Table × Except SetupError Unit) :=
  match t.locate name with
  | none => pure (t, .error .unknownMeasurement)
  | some (i, e) => do
      let changed := { e.definition with period }
      if changed.wantsPower != e.definition.wantsPower then
        d.sensors.power e.definition changed.wantsPower
      pure (t.put i (some { e with definition := changed }), .ok ())

/-- Gives a measurement another name, which no measurement may have yet. -/
def rename (d : Devices W) (t : Table) (old new : String) :
    Action W (Table × Except SetupError Unit) :=
  match Name.normalise new with
  | .error cause => pure (t, .error cause)
  | .ok name => do
      if (t.indexOf name).isSome then
        d.log.debug "Measurement with new name already exists."
        pure (t, .error .duplicateName)
      else
        pure (t.amend old fun e => { e with definition := { e.definition with name } })

/-- Sets the number of samples in a period, which may not be zero. -/
def setSampleCount (d : Devices W) (t : Table) (name : String) (sampleCount : UInt8) :
    Action W (Table × Except SetupError Unit) :=
  if sampleCount = 0 then do
    d.log.error "Cannot set the samplecount to 0."
    pure (t, .error .invalidSampleCount)
  else
    pure (t.amend name fun e => { e with definition := { e.definition with sampleCount } })

/-- Sets whether a single sample is taken late. -/
def setImmediate (t : Table) (name : String) (immediate : Bool) :
    Action W (Table × Except SetupError Unit) :=
  pure (t.amend name fun e => { e with definition := { e.definition with immediate } })

/-- Asks for a send of the measurement outside the schedule. -/
def request (t : Table) (name : String) : Action W (Table × Except SetupError Unit) :=
  pure (t.amend name fun e => e.withTally { e.tally with instantRequested := true })

/-! ## Boot -/

/-- Which definitions a node has booted with. -/
inductive BootSource where
  | persisted
  | defaults
  deriving DecidableEq, Repr

/-- Adds the named definitions one by one and skips those that are refused. -/
def addAll (d : Devices W) : Table → List Definition → Action W Table
  | t, [] => pure t
  | t, m :: rest =>
      if m.name.isEmpty then addAll d t rest
      else do
        let (t, outcome) ← t.add d m
        match outcome with
        | .ok _ => pure ()
        | .error cause => d.log.warn ("Skipping " ++ m.name ++ " at boot: " ++ cause.message)
        addAll d t rest

/-- Adds the stored definitions, or the defaults if no stored one has a name. -/
def load (d : Devices W) (t : Table) (persisted defaults : List Definition) :
    Action W (Table × BootSource) := do
  if persisted.all (·.name.isEmpty) then
    d.log.error "No persistent loaded, load defaults."
    let t ← addAll d t defaults
    pure (t, .defaults)
  else
    d.log.debug "Loading measurements."
    let t ← addAll d t persisted
    pure (t, .persisted)

/-! ## Lists -/

/-- Shows the definitions with a period to a visitor, until one says no. The
last answer tells whether none did. -/
def visitAll {σ : Type} (visit : Definition → σ → Bool × σ) : List Definition → σ → Bool × σ
  | [], s => (true, s)
  | m :: rest, s =>
      let r := visit m s
      if r.1 then visitAll visit rest r.2 else (false, r.2)

/-- Shows every definition that has a period and a name to a visitor. -/
def forEach {σ : Type} (t : Table) (visit : Definition → σ → Bool × σ) (s : σ) : Bool × σ :=
  visitAll visit ((t.entries.map Entry.definition).filter fun m => m.wantsPower && !m.name.isEmpty) s

end Telemetry.Table
