import Telemetry.Node
import Telemetry.Proofs.Watching

/-!
# Arithmetic that is watched

Words wrap in silence: a sum that does not fit is a small number, a difference
below zero a large one. This file writes the sampler, the uplink's send and the
length of a nap once more, with every plain operation on words under watch. An
operation that slips gives the same word as ever, but leaves a note of what went
wrong: a sum or product that does not fit, a difference below zero, a division
by zero, a cast that loses bits. Operations that stop at their ends or wrap on
purpose are left as they are.

`Action.Sure` compares such an action with the one it was written after: the
same answer, the same world, and no note. Its rules follow the structure of an
action, so a function is judged by walking through its body, and the bounds an
operation needs are met where it stands.
-/

namespace Telemetry

/-- What may go wrong in an operation on words. -/
inductive Slip where
  /-- A sum or a product does not fit. -/
  | overflow
  /-- A difference is below zero. -/
  | negative
  | byZero
  /-- A cast loses bits. -/
  | cut
  deriving DecidableEq, Repr

variable {W α β : Type}

/-- The devices of a node whose arithmetic is watched; they note nothing. -/
def Devices.minded (d : Devices W) : Devices (W × List Slip) := d.through Part.first

namespace Careful

/-! ## Operations -/

/-- Gives a word, and notes a slip if there is one. -/
def minding (slip : Slip) (slipped : Bool) (x : α) : Action (W × List Slip) α :=
  Action.step fun w => (x, if slipped then (w.1, w.2 ++ [slip]) else w)

def add (a b : UInt64) : Action (W × List Slip) UInt64 :=
  minding .overflow (UInt64.size ≤ a.toNat + b.toNat) (a + b)

def mul (a b : UInt64) : Action (W × List Slip) UInt64 :=
  minding .overflow (UInt64.size ≤ a.toNat * b.toNat) (a * b)

def sub (a b : UInt64) : Action (W × List Slip) UInt64 :=
  minding .negative (a.toNat < b.toNat) (a - b)

def div (a b : UInt64) : Action (W × List Slip) UInt64 :=
  minding .byZero (b.toNat = 0) (a / b)

/-- The quotient of two short words. -/
def share (a b : UInt32) : Action (W × List Slip) UInt32 :=
  minding .byZero (b.toNat = 0) (a / b)

def rem (a b : UInt32) : Action (W × List Slip) UInt32 :=
  minding .byZero (b.toNat = 0) (a % b)

/-- One more on a counter. -/
def next (a : UInt32) : Action (W × List Slip) UInt32 :=
  minding .overflow (UInt32.size ≤ a.toNat + 1) (a + 1)

/-- A long word as a short one. -/
def cut (a : UInt64) : Action (W × List Slip) UInt32 :=
  minding .cut (UInt32.size ≤ a.toNat) a.toUInt32

/-! ## A measurement's turn -/

def planOf (m : Definition) (guard : UInt32) (clock : TransmitClock) (now : Timestamp) :
    Action (W × List Slip) Plan := do
  let whole ← mul m.period.toUInt64 clock.interval.toUInt64
  let spacing ← div whole m.sampleCount.toUInt64
  let tick ← rem clock.count m.period.toUInt32
  let before ← mul tick.toUInt64 clock.interval.toUInt64
  let position ← add (clock.elapsed now) before
  if m.takenLate then
    pure { spacing, lead := Saturating.sub spacing guard.toUInt64, position }
  else
    let lead ← div spacing 2
    pure { spacing, lead, position }

def target (p : Plan) (n : UInt32) : Action (W × List Slip) UInt64 := do
  let begins ← mul n.toUInt64 p.spacing
  add begins p.lead

def capLead (p : Plan) (t : Tally) : Action (W × List Slip) Tally := do
  let startTarget ← target p t.started
  if startTarget < t.leadTime.toUInt64 then
    let leadTime ← cut startTarget
    pure { t with leadTime }
  else pure t

def missed (t : Tally) : Action (W × List Slip) Tally := do
  let started ← next t.started
  let finished ← next t.finished
  pure { t with started, finished }

def opened (t : Tally) : Action (W × List Slip) Tally := do
  let started ← next t.started
  pure { t with started, acquiring := true }

def closed (t : Tally) : Action (W × List Slip) Tally := do
  let finished ← next t.finished
  pure { t with finished, acquiring := false }

variable (d : Devices (W × List Slip))

def start (m : Definition) (t : Tally) (s : SamplerStats) :
    Action (W × List Slip) (Tally × SamplerStats × Bool) := do
  if t.acquiring then
    d.log.debug ("Measurement " ++ m.name ++ " already collecting.")
    let t ← missed t
    pure (t, s.addError, false)
  else
    match ← d.sensors.start m false with
    | .done () => do
        d.log.debug (m.name ++ " successfully started.")
        let t ← opened t
        pure (t, s.addStart, false)
    | .failed cause => do
        d.log.debug (m.name ++ " could not start, will not collect: " ++ cause.message)
        let t ← missed t
        pure (t, s.addError, false)
    | .busy => pure (t, s.addBusy, true)

def collect (fallback : UInt32) (m : Definition) (t : Tally) (s : SamplerStats) :
    Action (W × List Slip) (Tally × SamplerStats × Bool) := do
  match ← d.sensors.collect m with
  | .done r => do
      d.log.debug (m.name ++ " successfully collected.")
      let t ← closed t
      let (t, _) ← t.observe d.log r
      let leadTime ← d.leadTime m fallback
      pure ({ t with leadTime }, s.addCollect, false)
  | .failed cause => do
      d.log.debug (m.name ++ " could not collect: " ++ cause.message)
      let t ← closed t
      pure (t, s.addError, false)
  | .busy => pure ({ t with acquiring := false }, s.addBusy, true)

def giveUp (m : Definition) (t : Tally) : Action (W × List Slip) Tally := do
  if t.inFlight then
    d.log.debug (m.name ++ " could not collect before next start")
    closed t
  else pure t

def startTurn (p : Plan) (m : Definition) (t : Tally) (s : SamplerStats) :
    Action (W × List Slip) (Tally × SamplerStats × UInt64) := do
  let startTarget ← target p t.started
  let startAt ← sub startTarget t.leadTime.toUInt64
  if startAt ≤ p.position then
    let t ← giveUp d m t
    let (t, s, busy) ← start d m t s
    pure (t, s, if busy then 0 else Saturating.sub startTarget p.position)
  else
    let wait ← sub startAt p.position
    pure (t, s, wait)

def collectTurn (fallback : UInt32) (p : Plan) (m : Definition) (collectAt : UInt64) (t : Tally)
    (s : SamplerStats) : Action (W × List Slip) (Tally × SamplerStats × Option UInt64) := do
  if t.finished = t.started then pure (t, s, none)
  else
    let following ← next t.finished
    if following = t.started then
      if collectAt ≤ p.position then
        let (t, s, busy) ← collect d fallback m t s
        if busy then pure (t, s, some 0)
        else
          let nextCollect ← add collectAt p.spacing
          let reached ← add t.leadTime.toUInt64 p.position
          pure (t, s, some (Saturating.sub nextCollect reached))
      else
        let wait ← sub collectAt p.position
        pure (t, s, some wait)
    else
      d.log.error ("Collect and start fell out of sync for " ++ m.name ++ ", skipping collects.")
      pure (t.abandoned, s.addDesync, none)

def attend (fallback : UInt32) (p : Plan) (m : Definition) (t : Tally) (s : SamplerStats) :
    Action (W × List Slip) (Tally × SamplerStats × UInt64) := do
  let t ← capLead p t
  let collectAt ← target p t.finished
  let (t, s, startWait) ← startTurn d p m t s
  let (t, s, collectWait) ← collectTurn d fallback p m collectAt t s
  pure (t, s, match collectWait with
    | some wait => min startWait wait
    | none => startWait)

/-! ## The sampler -/

def visit (guard fallback : UInt32) (clock : TransmitClock) (now : Timestamp) (e : Entry)
    (s : SamplerStats × Option UInt64) :
    Action (W × List Slip) (Entry × SamplerStats × Option UInt64) := do
  if e.definition.active then
    let p ← planOf e.definition guard clock now
    let (t, stats, wait) ← attend d fallback p e.definition e.tally s.1
    pure (e.withTally t, stats, Sampler.nearer s.2 wait)
  else pure (e, s)

def turn (s : Sampler) (table : Table) (clock : TransmitClock) (now : Timestamp) :
    Action (W × List Slip) (Sampler × Table) := do
  let (slots, stats, nearest) ←
    Slot.sweep (visit d s.guard s.fallback clock now) table.slots (s.stats, none)
  pure ({ s with lastTurn := now, wait := nearest.getD 0, stats }, { table with slots })

def pollOne (e : Entry) (s : SamplerStats × UInt32) :
    Action (W × List Slip) (Entry × SamplerStats × UInt32) := do
  if e.tally.inFlight then
    let polled ← next s.2
    match ← d.sensors.poll e.definition with
    | .failed cause => do
        d.log.debug (e.name ++ " errored on poll, will not collect: " ++ cause.message)
        pure (e.withTally e.tally.abandoned, s.1.addError, polled)
    | _ => pure (e, s.1, polled)
  else pure (e, s)

def pollOpen (s : Sampler) (table : Table) :
    Action (W × List Slip) (Sampler × Table × UInt32) := do
  let (slots, stats, polled) ← Slot.sweep (pollOne d) table.slots (s.stats, 0)
  pure ({ s with stats }, { table with slots }, polled)

/-! ## Sends and naps -/

def due (m : Definition) (count : UInt32) : Action (W × List Slip) Bool := do
  if m.active then
    let before ← rem count m.period.toUInt32
    pure (before == 0)
  else pure false

/-- Whether the measurement is due is found out under watch, before it is appended. -/
def appendOne (count : UInt32) (e : Entry) (s : UInt16 × UplinkStats) :
    Action (W × List Slip) (Entry × (UInt16 × UplinkStats) × Bool) := do
  if !(← due e.definition count) then pure (e, s, false)
  else Outgoing.appendOne d count e s

def fill (o : Outgoing) : Action (W × List Slip) (Outgoing × UInt16 × Bool) := do
  let start := o.uplink.start
  if start ≠ 0 then d.log.debug "Resuming previous measurements send."
  let (slots, (queued, stats), stop) ←
    Slot.sweepUntil (appendOne d o.clock.count) (o.table.window start o.uplink.capacity)
      (0, o.uplink.stats)
  let cursor := match stop with
    | some offset => start + offset
    | none => o.uplink.capacity
  pure ({ o with
    uplink := { o.uplink with previous := start, cursor, stats }
    table := o.table.withWindow start slots }, queued, stop.isNone)

def sendFrame (o : Outgoing) (now : Timestamp) :
    Action (W × List Slip) (Outgoing × SendOutcome) := do
  let (o, queued, complete) ← fill d o
  let o := if o.uplink.pending then o else o.restart now
  if queued = 0 then pure (o, .nothingQueued)
  else o.handOver d queued complete

def awaitRadio (o : Outgoing) (now : Timestamp) :
    Action (W × List Slip) (Outgoing × SendOutcome) := do
  if !(← d.radio.allowed) then
    d.log.debug "Send not allowed, deferring"
    pure (o, .deferred)
  else if o.uplink.pending then
    let patience ← share o.clock.interval Limits.pendingShare
    if patience.toUInt64 < o.clock.elapsed now then
      d.log.warn "Pending send timed out."
      let o := o.tell fun s => { s with pendingTimeouts := s.pendingTimeouts + 1 }
      let o ← o.reset d
      pure (o, .timedOut)
    else pure (o, .pending)
  else pure ((o.restart now).setPending true, .pending)

def send (o : Outgoing) (now : Timestamp) : Action (W × List Slip) (Outgoing × SendOutcome) := do
  if !(← d.radio.connected) then o.loseLink d
  else
    let o := { o with uplink := { o.uplink with offline := false } }
    if !(← d.radio.ready) then awaitRadio d o now
    else
      match ← d.radio.openFrame with
      | .error _ => do
          d.log.debug "Could not open an uplink frame."
          pure ((o.setPending false).restart now, .initFailed)
      | .ok () => sendFrame d o now

def nap (s : Sleeper) (sampler : Sampler) (clock : TransmitClock) (now : Timestamp) :
    Action (W × List Slip) (Except SleepDecision UInt32) := do
  if sampler.remaining now = 0 then pure (.error .sampleDue)
  else if clock.interval.toUInt64 ≤ clock.elapsed now then pure (.error .sendDue)
  else
    let free := min (sampler.remaining now) (clock.remaining now)
    if free < s.least.toUInt64 then pure (.error .tooShort)
    else
      let spare ← sub free s.least.toUInt64
      let ms ← cut (min spare 0xffffffff)
      pure (.ok ms)

end Careful

/-! ## The judgment -/

/-- The watched action answers and changes the world as the plain one does, and
nothing slips. -/
def Action.Sure (watched : Action (W × List Slip) α) (plain : Action W α) : Prop :=
  ∀ w slips, watched.run (w, slips) = ((plain.run w).1, (plain.run w).2, slips)

namespace Action.Sure

variable {a' : Action (W × List Slip) α} {a : Action W α}
  {f' : α → Action (W × List Slip) β} {f : α → Action W β}

protected theorem pure (x : α) : (pure x : Action (W × List Slip) α).Sure (pure x) :=
  fun _ _ => rfl

/-- What holds of every answer may be taken along. -/
theorem bind_of (mid : α → Prop) (ha : a'.Sure a) (hmid : ∀ w, mid (a.run w).1)
    (hf : ∀ x, mid x → (f' x).Sure (f x)) : (a' >>= f').Sure (a >>= f) := by
  intro w slips
  rw [run_bind, run_bind, ha w slips]
  exact hf _ (hmid w) _ _

protected theorem bind (ha : a'.Sure a) (hf : ∀ x, (f' x).Sure (f x)) :
    (a' >>= f').Sure (a >>= f) :=
  ha.bind_of (fun _ => True) (fun _ => trivial) fun x _ => hf x

/-- A word that was made under watch is the word that stands in the plain action. -/
theorem step {x : α} {b : Action W β} (ha : a'.Sure (pure x)) (hf : (f' x).Sure b) :
    (a' >>= f').Sure b := by
  intro w slips
  rw [run_bind, ha w slips]
  exact hf w slips

theorem part (a : Action W α) : (Part.first.run a).Sure a := fun _ _ => rfl

end Action.Sure

namespace Careful

theorem minding_sure {slip : Slip} {slipped : Prop} [Decidable slipped] (h : ¬ slipped) (x : α) :
    (minding slip (decide slipped) x).Sure (pure x : Action W α) := by
  intro w slips
  simp [minding, h]

theorem add_sure {a b : UInt64} (h : a.toNat + b.toNat < UInt64.size) :
    (add a b).Sure (pure (a + b) : Action W UInt64) := minding_sure (Nat.not_le.mpr h) _

theorem mul_sure {a b : UInt64} (h : a.toNat * b.toNat < UInt64.size) :
    (mul a b).Sure (pure (a * b) : Action W UInt64) := minding_sure (Nat.not_le.mpr h) _

theorem sub_sure {a b : UInt64} (h : b.toNat ≤ a.toNat) :
    (sub a b).Sure (pure (a - b) : Action W UInt64) := minding_sure (Nat.not_lt.mpr h) _

theorem div_sure {a b : UInt64} (h : 0 < b.toNat) :
    (div a b).Sure (pure (a / b) : Action W UInt64) := minding_sure (Nat.ne_of_gt h) _

theorem share_sure {a b : UInt32} (h : 0 < b.toNat) :
    (share a b).Sure (pure (a / b) : Action W UInt32) := minding_sure (Nat.ne_of_gt h) _

theorem rem_sure {a b : UInt32} (h : 0 < b.toNat) :
    (rem a b).Sure (pure (a % b) : Action W UInt32) := minding_sure (Nat.ne_of_gt h) _

theorem next_sure {a : UInt32} (h : a.toNat + 1 < UInt32.size) :
    (next a).Sure (pure (a + 1) : Action W UInt32) := minding_sure (Nat.not_le.mpr h) _

theorem cut_sure {a : UInt64} (h : a.toNat < UInt32.size) :
    (cut a).Sure (pure a.toUInt32 : Action W UInt32) := minding_sure (Nat.not_le.mpr h) _

end Careful

end Telemetry
