import Telemetry.Bench.Script
import Telemetry.Frame.Loopback
import Telemetry.Journal
import Telemetry.PulseCounter

/-!
# The test bench

A world made of scripted devices, a clock that is moved by hand and a journal.
Every call to a device and every log record goes into the journal, a call as
its answer returns: what happens inside a call comes before the call itself.
-/

namespace Telemetry.Bench

inductive Record where
  /-- A call, and for a send the frame as it stands after it. -/
  | call (c : Call) (frame : Option String)
  | log (severity : Severity) (text : String)
  /-- An entry that reaches a radio with the least abilities. -/
  | plainAppend (m : Definition) (t : Tally)

structure World where
  clock : ManualClock := {}
  channels : List Channel := []
  counter : PulseCounter := {}
  draft : Frame.Draft := { capacity := 0 }
  loopback : Frame.Loopback := {}
  script : LinkScript := {}
  board : BoardScript := {}
  journal : Array Record := #[]

namespace World

/-- Writes a line into the journal. -/
def write (r : Record) (w : World) : World := { w with journal := w.journal.push r }

/-- Moves the clock forward. -/
def pass (ms : UInt64) (w : World) : World := { w with clock := w.clock.advance ms }

def counterPart : Part World PulseCounter where
  get := counter
  set := fun counter w => { w with counter }

def draftPart : Part World Frame.Draft where
  get := draft
  set := fun draft w => { w with draft }

def loopbackPart : Part World Frame.Loopback where
  get := loopback
  set := fun loopback w => { w with loopback }

def scriptPart : Part World LinkScript where
  get := script
  set := fun script w => { w with script }

end World

open World

/-- Writes log records into the journal. -/
def log : Logger World := fun severity text => Action.change (write (.log severity text))

/-! ## Sensors -/

/-- Lets the channel of a measurement answer, if there is one. -/
def serve {α : Type} (m : Definition) (f : Timestamp → Channel → α × Channel) :
    Action World (Option α) := fun w =>
  let r := Channel.serve m.name (f w.clock.now) w.channels
  (r.1, { w with channels := r.2 })

def absent {α : Type} : Option (Reply α) → Reply α
  | some answer => answer
  | none => .failed (.failed "no channel")

/-- Sensors that answer by their scripts. -/
def scriptedSensors : Sensors World where
  valueKind := fun m => do
    let kind ← serve m fun _ c => (c.kind, c)
    pure kind.join
  collectionTime := fun m => do
    let answer ← serve m fun _ c => c.collectionTime
    pure answer.join
  start := fun m _ => absent <$> serve m Channel.start
  poll := fun m => absent <$> serve m Channel.poll
  collect := fun m => absent <$> serve m Channel.collect
  power := fun m on => do
    let _ ← serve m fun _ c => ((), c.power on)
    pure ()
  powered := fun m => do
    let on ← serve m fun _ c => (c.on, c)
    pure on.join

/-- A sensor that has nothing but one reading. -/
def plainSensor (r : Reading) : Sensors World where
  valueKind := fun _ => pure (some r.kind)
  collect := fun _ => pure (.done r)

/-- One of two sensors, by the kind of the measurement. -/
def choose {α : Type} (m : Definition) (pulse other : Action World α) : Action World α :=
  if PulseCounter.serves m then pulse else other

/-- Scripted sensors beside a pulse counter for the measurements that want one. -/
def sensorsWithCounter : Sensors World :=
  let pulse := PulseCounter.sensors log counterPart
  let other := scriptedSensors
  { valueKind := fun m => choose m (pulse.valueKind m) (other.valueKind m)
    collectionTime := fun m => choose m (pulse.collectionTime m) (other.collectionTime m)
    start := fun m alone => choose m (pulse.start m alone) (other.start m alone)
    poll := fun m => choose m (pulse.poll m) (other.poll m)
    collect := fun m => choose m (pulse.collect m) (other.collect m)
    power := fun m on => choose m (pulse.power m on) (other.power m on)
    powered := fun m => choose m (pulse.powered m) (other.powered m)
    delivered := fun m => choose m (pulse.delivered m) (other.delivered m) }

/-! ## The radio and the board -/

/-- A radio that answers by its script. -/
def scriptedRadio : Radio World where
  openFrame := scriptPart.run LinkScript.openFrame
  append := fun _ _ => scriptPart.run LinkScript.append
  appendReading := fun _ _ => scriptPart.run LinkScript.append
  send := scriptPart.run LinkScript.send
  ready := Action.look (·.script.ready)
  allowed := Action.look (·.script.allowed)
  connected := Action.look (·.script.connected)

/-- Takes an entry and says so in the journal. -/
def plainAppend (m : Definition) (t : Tally) : Action World (Except FrameError Unit) := do
  Action.change (write (.plainAppend m t))
  scriptPart.run LinkScript.append

/-- A radio that answers by its script and has the least abilities. -/
def plainRadio : Radio World where
  openFrame := scriptPart.run LinkScript.openFrame
  append := plainAppend
  appendReading := Radio.appendAsTally log plainAppend
  send := scriptPart.run LinkScript.send
  ready := Action.look (·.script.ready)
  connected := Action.look (·.script.connected)

/-- A radio that writes frames and keeps them in a loopback. -/
def loopbackRadio : Radio World := Frame.radio log draftPart (Frame.Loopback.transport loopbackPart)

/-- Sleeps, which takes its time, or does not. -/
def sleepFor (ms : UInt32) : Action World Bool := fun w =>
  if w.board.sleeps then (true, w.pass ms.toUInt64) else (false, w)

def board : Board World where
  onBattery := Action.look (·.board.battery)
  sleepFor := sleepFor
  spin := Action.change fun w => w.pass w.board.spin

/-! ## All together -/

inductive SensorSetup where
  | plain (r : Reading)
  | scripted
  | withCounter

inductive RadioSetup where
  | loopback
  | scripted
  | plain
  deriving DecidableEq

def SensorSetup.sensors : SensorSetup → Sensors World
  | .plain r => plainSensor r
  | .scripted => scriptedSensors
  | .withCounter => sensorsWithCounter

def RadioSetup.radio : RadioSetup → Radio World
  | .loopback => loopbackRadio
  | .scripted => scriptedRadio
  | .plain => plainRadio

/-- Writes a call into the journal; a loopback's send shows the frame. -/
def note (r : RadioSetup) (c : Call) (w : World) : World :=
  match r, c with
  | .loopback, .send _ => w.write (.call c (some w.draft.text))
  | _, _ => w.write (.call c none)

def devices (s : SensorSetup) (r : RadioSetup) : Devices World :=
  Devices.watched
    { sensors := s.sensors
      radio := r.radio
      board
      now := Action.look (·.clock.now)
      log }
    (note r)

end Telemetry.Bench
