import Telemetry.Sampling.Sampler
import Telemetry.Settings

/-!
# Sleep

Between two turns a node may sleep. A nap ends a safe margin before the nearer
of the sampler's next moment and the end of the tick:

```text
  now              next sample        next send
   |----------------------|----------------|
   |<--- nap --->|<margin>|
```

There is no nap if the power policy forbids it, if one of the two has been
reached, or if there is less time than the margin.
-/

namespace Telemetry

/-- What came of the wish to sleep. -/
inductive SleepDecision where
  | powerPolicy
  /-- The sampler's moment has come. -/
  | sampleDue
  | sendDue
  | tooShort
  /-- The board was asked to sleep; it did or did not. -/
  | slept (ms : UInt32) (entered : Bool)
  deriving DecidableEq, Repr

def SleepDecision.label : SleepDecision → String
  | .powerPolicy => "PowerPolicy"
  | .sampleDue => "SampleDue"
  | .sendDue => "SendDue"
  | .tooShort => "TooShort"
  | .slept _ _ => "Slept"

/-- When a node may sleep, and whether it just did. -/
structure Sleeper where
  mode : PowerMode
  /-- The margin before the next deadline. -/
  least : UInt32
  /-- Whether the board slept the last time. -/
  slept : Bool := false
  deriving DecidableEq, Repr

namespace Sleeper

variable {W : Type}

/-- Whether the power policy allows to sleep. Only the automatic mode asks the board. -/
def permitted (d : Devices W) (s : Sleeper) : Action W Bool := do
  match s.mode with
  | .auto => do
      let battery ← d.board.onBattery
      pure (battery == some true)
  | .battery => pure true
  | .plugged => pure false

/-- The length of a nap that would be safe now, or why there is none. -/
def nap (s : Sleeper) (sampler : Sampler) (clock : TransmitClock) (now : Timestamp) :
    Except SleepDecision UInt32 :=
  if sampler.remaining now = 0 then .error .sampleDue
  else if clock.interval.toUInt64 ≤ clock.elapsed now then .error .sendDue
  else
    let free := min (sampler.remaining now) (clock.remaining now)
    if free < s.least.toUInt64 then .error .tooShort
    else .ok (Saturating.narrow (free - s.least.toUInt64))

/-- Sleeps if it is allowed and there is time. -/
def rest (d : Devices W) (s : Sleeper) (sampler : Sampler) (clock : TransmitClock)
    (now : Timestamp) : Action W (Sleeper × SleepDecision) := do
  if !(← s.permitted d) then pure (s, .powerPolicy)
  else
    match s.nap sampler clock now with
    | .error decision => pure (s, decision)
    | .ok ms => do
        if s.slept then d.log.debug "Woke from sleep."
        d.log.debug ("Sleeping for " ++ toString ms.toNat ++ "ms")
        let entered ← d.board.sleepFor ms
        pure ({ s with slept := entered }, .slept ms entered)

end Sleeper

end Telemetry
