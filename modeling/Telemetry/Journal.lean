import Telemetry.Devices

/-!
# A record of all calls

Devices can be watched: every call is written down together with its answer,
or, where there is no answer, as it is made. Questions that only look at a
device (its kind of value, whether it is on, ready or connected, the time) are
not written down. Watching does not change what the devices answer.
-/

namespace Telemetry

/-- One call to a device, with what came back. -/
inductive Call where
  | collectionTime (m : Definition) (answer : Option (Reply UInt32))
  | start (m : Definition) (alone : Bool) (answer : Reply Unit)
  | poll (m : Definition) (answer : Reply Unit)
  | collect (m : Definition) (answer : Reply Reading)
  | power (m : Definition) (on : Bool)
  | delivered (m : Definition)
  | openFrame (answer : Except FrameError Unit)
  | append (m : Definition) (t : Tally) (answer : Except FrameError Unit)
  | appendReading (m : Definition) (r : Reading) (answer : Except FrameError Unit)
  | send (answer : Except FrameError Unit)
  | reset
  | onBattery
  | sleepFor (ms : UInt32)
  | spin

namespace Action

variable {W α : Type}

/-- Writes the call down once its answer is there. -/
def noting (note : Call → W → W) (call : α → Call) (a : Action W α) : Action W α := do
  let answer ← a
  change (note (call answer))
  pure answer

/-- Writes the call down, then makes it. -/
def announced (note : Call → W → W) (call : Call) (a : Action W α) : Action W α := do
  change (note call)
  a

end Action

/-- The same devices, with a note of every call in the world. -/
def Devices.watched {W : Type} (d : Devices W) (note : Call → W → W) : Devices W where
  sensors := {
    valueKind := d.sensors.valueKind
    collectionTime := fun m => (d.sensors.collectionTime m).noting note (.collectionTime m)
    start := fun m alone => (d.sensors.start m alone).noting note (.start m alone)
    poll := fun m => (d.sensors.poll m).noting note (.poll m)
    collect := fun m => (d.sensors.collect m).noting note (.collect m)
    power := fun m on => (d.sensors.power m on).announced note (.power m on)
    powered := d.sensors.powered
    delivered := fun m => (d.sensors.delivered m).announced note (.delivered m) }
  radio := {
    openFrame := d.radio.openFrame.noting note .openFrame
    append := fun m t => (d.radio.append m t).noting note (.append m t)
    appendReading := fun m r => (d.radio.appendReading m r).noting note (.appendReading m r)
    send := d.radio.send.noting note .send
    ready := d.radio.ready
    allowed := d.radio.allowed
    connected := d.radio.connected
    reset := d.radio.reset.announced note .reset }
  board := {
    onBattery := d.board.onBattery.announced note .onBattery
    sleepFor := fun ms => (d.board.sleepFor ms).announced note (.sleepFor ms)
    spin := d.board.spin.announced note .spin }
  now := d.now
  log := d.log

end Telemetry
