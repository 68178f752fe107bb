import Telemetry.InstantSend
import Telemetry.Sleep
import Telemetry.Table.Edits

/-!
# The node

A node holds the table, the sampler, the transmit clock and the uplink, and
drives them from one loop. Each turn of the loop does a bounded amount of work:

```text
  disabled?        nothing happens
  no link?         the cycle is dropped, once; open acquisitions are polled
  link is back?    a new tick begins
  radio ready?     sends outside the schedule
  sampler due?     starts and collects
  tick over?       one more tick, and a send
  open ones?       are polled; without any, the node may sleep
```
-/

namespace Telemetry

/-- What one turn of the loop came to. -/
inductive Iteration where
  | disabled
  | disconnected
  | reconnected
  | ran (send : Option SendOutcome) (sleep : Option SleepDecision)
  deriving DecidableEq, Repr

/-- A node without its devices. -/
structure Node where
  settings : Settings
  table : Table
  sampler : Sampler
  clock : TransmitClock
  uplink : Uplink
  sleeper : Sleeper
  /-- Whether the loop does anything. -/
  enabled : Bool := true
  /-- Whether the loss of the link has been noticed. -/
  offline : Bool := false

namespace Node

variable {W : Type}

/-- A node without measurements whose first tick begins now. -/
def create (settings : Settings) (capacity : Nat) (now : Timestamp) : Node where
  settings
  table := Table.empty capacity settings.collectionTime
  sampler := { guard := settings.immediateGuard, fallback := settings.collectionTime }
  clock := { interval := settings.interval, began := now }
  uplink := { capacity }
  sleeper := { mode := settings.power, least := settings.leastSleep }

/-! ## The loop -/

/-- Sends what was asked for outside the schedule. -/
def sendRequested (d : Devices W) (n : Node) : Action W Node := do
  let (table, outcome) ← InstantSend.run d n.settings.instantGuard n.uplink n.clock n.table
  match outcome with
  | .ok sent =>
      if sent ≠ 0 then
        d.log.debug ("Instant sent " ++ toString sent.toNat ++ " measurements")
  | .error cause => d.log.debug ("Instant send not done: " ++ cause.message)
  pure { n with table }

/-- A turn of the sampler, if its wait is over. -/
def sample (d : Devices W) (n : Node) : Action W Node := do
  let now ← d.now
  if n.sampler.due now then
    let (sampler, table) ← n.sampler.turn d n.table n.clock now
    pure { n with sampler, table }
  else pure n

/-- What a send reads and changes. -/
def outgoing (n : Node) : Outgoing := { uplink := n.uplink, table := n.table, clock := n.clock }

/-- The node after a send. -/
def withOutgoing (n : Node) (o : Outgoing) : Node :=
  { n with uplink := o.uplink, table := o.table, clock := o.clock }

/-- Ends the tick, if it is over, and sends what is due. -/
def transmit (d : Devices W) (n : Node) : Action W (Node × Option SendOutcome) := do
  let now ← d.now
  if n.clock.due now then
    let n := { n with clock := n.clock.advance }
    d.log.debug ("Transmit tick " ++ toString n.clock.count.toNat)
    let (o, outcome) ← n.outgoing.send d now
    pure (n.withOutgoing o, some outcome)
  else pure (n, none)

/-- Polls the open acquisitions. -/
def poll (d : Devices W) (n : Node) : Action W (Node × UInt32) := do
  let (sampler, table, polled) ← n.sampler.pollOpen d n.table
  pure ({ n with sampler, table }, polled)

/-- Polls the open acquisitions, and sleeps if there are none. -/
def settle (d : Devices W) (n : Node) : Action W (Node × Option SleepDecision) := do
  let (n, polled) ← n.poll d
  if polled = 0 then
    let now ← d.now
    let (sleeper, decision) ← n.sleeper.rest d n.sampler n.clock now
    pure ({ n with sleeper }, some decision)
  else pure (n, none)

/-- A turn of the loop without a link. -/
def iterateOffline (d : Devices W) (n : Node) : Action W (Node × Iteration) := do
  let n ← (do
    if n.offline then pure n
    else
      d.log.debug "Not connected, dropping cycle state."
      pure { n with offline := true, uplink := n.uplink.resetCursors })
  let (n, _) ← n.poll d
  pure (n, .disconnected)

/-- A turn of the loop with a link. -/
def iterateOnline (d : Devices W) (n : Node) : Action W (Node × Iteration) := do
  let n ← (do if ← d.radio.ready then n.sendRequested d else pure n)
  let n ← n.sample d
  let (n, send) ← n.transmit d
  let (n, sleep) ← n.settle d
  pure (n, .ran send sleep)

/-- One turn of the loop. -/
def iterate (d : Devices W) (n : Node) : Action W (Node × Iteration) := do
  if !n.enabled then pure (n, .disabled)
  else if !(← d.radio.connected) then n.iterateOffline d
  else if n.offline then
    d.log.debug "Connected, restarting transmit tick."
    let now ← d.now
    pure ({ n with offline := false, clock := n.clock.restart now }, .reconnected)
  else n.iterateOnline d

/-- Takes the radio's answer to the last frame. -/
def answer (d : Devices W) (n : Node) (good : Bool) : Action W (Node × Option SendOutcome) := do
  let now ← d.now
  let (o, outcome) ← n.outgoing.answer d good now
  pure (n.withOutgoing o, outcome)

/-! ## Settings -/

/-- Switches the loop on or off. One that was off begins with a new tick. -/
def setEnabled (d : Devices W) (n : Node) (enabled : Bool) : Action W Node := do
  if enabled && !n.enabled then
    let now ← d.now
    pure { n with
      enabled
      clock := n.clock.restart now
      sampler := n.sampler.restart now }
  else pure { n with enabled }

/-- Sets when the node may sleep. -/
def setPower (n : Node) (power : PowerMode) : Node :=
  { n with settings := { n.settings with power }, sleeper := { n.sleeper with mode := power } }

/-- Sets the interval, if the settings are good with it. -/
def setInterval (n : Node) (interval : UInt32) : Except SetupError Node :=
  let settings := { n.settings with interval }
  match settings.validate with
  | .error cause => .error cause
  | .ok () => .ok { n with settings, clock := n.clock.setInterval interval }

/-! ## Reads -/

/-- Reads a measurement on the spot. -/
def read (d : Devices W) (n : Node) (name : String) (timeout : Option UInt32) :
    Action W (Node × Except ReadError Reading) := do
  let (table, result) ← n.table.read d name timeout
  pure ({ n with table }, result)

/-- How long a read of a measurement is worth waiting for: one and a half of
its sensor's collection time. -/
def collectionTimeout (d : Devices W) (n : Node) (name : String) :
    Action W (Except SetupError UInt32) :=
  match n.table.find? name with
  | none => pure (.error .unknownMeasurement)
  | some e => do
      let ms ← d.leadTime e.definition n.settings.collectionTime
      pure (.ok (Saturating.narrow (ms.toUInt64 * Limits.readTimeoutTenths.toUInt64 / 10)))

/-- Puts a reading into the open frame and hands the frame over. -/
def sendReading (d : Devices W) (m : Definition) (name : String) (r : Reading) :
    Action W (Except SendError Unit) := do
  match ← d.radio.appendReading m r with
  | .error cause => do
      d.log.debug ("Failed to add " ++ name ++ " to the frame.")
      pure (.error (.frame cause))
  | .ok () => do
      match ← d.radio.send with
      | .error cause => pure (.error (.frame cause))
      | .ok () => do
          d.log.debug ("Sent " ++ name ++ " = " ++ r.display)
          pure (.ok ())

/-- Reads a measurement on the spot and sends it at once. -/
def sendTest (d : Devices W) (n : Node) (name : String) :
    Action W (Node × Except SendError Unit) := do
  if !(← d.radio.connected) then
    d.log.debug "Not connected, cannot send."
    pure (n, .error .notConnected)
  else if !(← d.radio.ready) then
    d.log.debug "Radio not ready, cannot send."
    pure (n, .error .notReady)
  else
    match ← d.radio.openFrame with
    | .error cause => pure (n, .error (.frame cause))
    | .ok () => do
        let (n, result) ← n.read d name none
        match result, n.table.find? name with
        | .error cause, _ => pure (n, .error (.read cause))
        | .ok _, none => pure (n, .error (.read (.refused .unknownMeasurement)))
        | .ok r, some e => do
            let outcome ← sendReading d e.definition name r
            pure (n, outcome)

/-! ## Edits -/

/-- Every edit of the table is an edit of the node. -/
def edit {α : Type} (n : Node) (change : Table → Action W (Table × α)) : Action W (Node × α) := do
  let (table, outcome) ← change n.table
  pure ({ n with table }, outcome)

end Node

end Telemetry
