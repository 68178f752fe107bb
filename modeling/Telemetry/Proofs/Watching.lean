import Telemetry.Journal
import Telemetry.Table

/-!
# What watched devices write down

Claims about calls need a record of them, and a record is only worth
something if it is kept without disturbing anyone. The world gets a second
half, a list of notes, and the devices are watched: every call is noted with
the voice it is made in.

Three judgments compare an action made of watched devices with the same action
made of plain ones. `Action.Traced` says that the answer and the world are the
same, whatever the devices are, and that the notes which were added stand in a
given relation to the answer; `Action.Speaks` says besides that all of them are
calls in one voice; `Action.SpeaksAt` says so of one world, and lets the relation
look at the world in which the action ends. Their rules follow the structure of
an action, so a function is judged by walking through its body once, and the
walk uses nothing but the judgments about the function's parts.
-/

namespace Telemetry

/-- On whose behalf a call is made. -/
inductive Voice where
  /-- The schedule: the sampler, the uplink, and the answers to it. -/
  | schedule
  /-- Reads and sends outside the schedule, and edits of the table. -/
  | aside
  deriving DecidableEq, Repr

inductive Note where
  /-- A call to a device. -/
  | call (voice : Voice) (call : Call)
  /-- The sampler takes a turn. -/
  | turn (now : Timestamp)
  /-- The uplink has been at work on the table. -/
  | sent (before after : Table)

def Voice.notes (v : Voice) (calls : List Call) : List Note := calls.map (.call v)

@[simp] theorem Voice.notes_nil (v : Voice) : v.notes [] = [] := rfl

@[simp] theorem Voice.notes_append (v : Voice) (calls more : List Call) :
    v.notes (calls ++ more) = v.notes calls ++ v.notes more := List.map_append ..

theorem Voice.notes_inj {v : Voice} {calls calls' : List Call}
    (h : v.notes calls = v.notes calls') : calls = calls' :=
  (List.map_inj_right fun _ _ h => (Note.call.inj h).2).mp h

/-- Adds a call to the notes in the second half of the world. -/
def Voice.write {W : Type} (v : Voice) (c : Call) (w : W × List Note) : W × List Note :=
  (w.1, w.2 ++ [.call v c])

/-- The first half of a world in two halves. -/
def Part.first {W J : Type} : Part (W × J) W where
  get := Prod.fst
  set := fun w x => (w, x.2)

/-- The devices of a part, spoken to from the whole world. -/
def Devices.through {W V : Type} (p : Part W V) (d : Devices V) : Devices W where
  sensors := {
    valueKind := fun m => p.run (d.sensors.valueKind m)
    collectionTime := fun m => p.run (d.sensors.collectionTime m)
    start := fun m alone => p.run (d.sensors.start m alone)
    poll := fun m => p.run (d.sensors.poll m)
    collect := fun m => p.run (d.sensors.collect m)
    power := fun m on => p.run (d.sensors.power m on)
    powered := fun m => p.run (d.sensors.powered m)
    delivered := fun m => p.run (d.sensors.delivered m) }
  radio := {
    openFrame := p.run d.radio.openFrame
    append := fun m t => p.run (d.radio.append m t)
    appendReading := fun m r => p.run (d.radio.appendReading m r)
    send := p.run d.radio.send
    ready := p.run d.radio.ready
    allowed := p.run d.radio.allowed
    connected := p.run d.radio.connected
    reset := p.run d.radio.reset }
  board := {
    onBattery := p.run d.board.onBattery
    sleepFor := fun ms => p.run (d.board.sleepFor ms)
    spin := p.run d.board.spin }
  now := p.run d.now
  log := fun severity text => p.run (d.log severity text)

/-- The devices with a note of every call, in one voice. -/
def Devices.voiced {W : Type} (d : Devices W) (v : Voice) : Devices (W × List Note) :=
  (d.through Part.first).watched v.write

/-! ## The judgments -/

variable {W α β : Type} {v : Voice}

/-- The watched action answers and changes the world as the plain one does, and
the notes it adds are fit for the answer. -/
def Action.Traced (watched : Action (W × List Note) α) (plain : Action W α)
    (fit : α → List Note → Prop) : Prop :=
  ∀ w notes, ∃ new,
    watched.run (w, notes) = ((plain.run w).1, (plain.run w).2, notes ++ new) ∧
      fit (plain.run w).1 new

/-- The same for an action all of whose notes are calls in one voice. -/
def Action.Speaks (v : Voice) (watched : Action (W × List Note) α) (plain : Action W α)
    (fit : α → List Call → Prop) : Prop :=
  watched.Traced plain fun x new => ∃ calls, new = v.notes calls ∧ fit x calls

/-- The same for an action in one world. -/
def Action.SpeaksAt (v : Voice) (watched : Action (W × List Note) α) (plain : Action W α) (w : W)
    (fit : α → W → List Call → Prop) : Prop :=
  ∀ notes, ∃ calls,
    watched.run (w, notes) = ((plain.run w).1, (plain.run w).2, notes ++ v.notes calls) ∧
      fit (plain.run w).1 (plain.run w).2 calls

section

variable {a' : Action (W × List Note) α} {a : Action W α}
  {f' : α → Action (W × List Note) β} {f : α → Action W β}

namespace Action.Traced

protected theorem pure {fit : α → List Note → Prop} {x : α} (h : fit x []) :
    (pure x : Action (W × List Note) α).Traced (pure x) fit := by
  intro w notes
  exact ⟨[], by simp only [run_pure, List.append_nil], h⟩

protected theorem bind {fit : β → List Note → Prop} {mid : α → List Note → Prop}
    (ha : a'.Traced a mid)
    (hf : ∀ x new, mid x new → (f' x).Traced (f x) fun y more => fit y (new ++ more)) :
    (a' >>= f').Traced (a >>= f) fit := by
  intro w notes
  obtain ⟨new, hrun, hmid⟩ := ha w notes
  obtain ⟨more, hrun', hfit⟩ := hf _ _ hmid (a.run w).2 (notes ++ new)
  refine ⟨new ++ more, ?_, hfit⟩
  rw [run_bind, run_bind, hrun, hrun', List.append_assoc]

theorem imp {fit fit' : α → List Note → Prop} (ha : a'.Traced a fit)
    (h : ∀ x new, fit x new → fit' x new) : a'.Traced a fit' := by
  intro w notes
  obtain ⟨new, hrun, hfit⟩ := ha w notes
  exact ⟨new, hrun, h _ _ hfit⟩

end Action.Traced

namespace Action.Speaks

protected theorem pure {fit : α → List Call → Prop} {x : α} (h : fit x []) :
    Speaks v (pure x : Action (W × List Note) α) (pure x) fit :=
  Traced.pure ⟨[], rfl, h⟩

protected theorem bind {fit : β → List Call → Prop} {mid : α → List Call → Prop}
    (ha : Speaks v a' a mid)
    (hf : ∀ x calls, mid x calls → Speaks v (f' x) (f x) fun y more => fit y (calls ++ more)) :
    Speaks v (a' >>= f') (a >>= f) fit := by
  refine Traced.bind ha ?_
  intro x _ hr
  obtain ⟨calls, rfl, hmid⟩ := hr
  refine Traced.imp (hf x calls hmid) ?_
  intro y _ hr
  obtain ⟨more, rfl, hfit⟩ := hr
  exact ⟨calls ++ more, (v.notes_append calls more).symm, hfit⟩

theorem imp {fit fit' : α → List Call → Prop} (ha : Speaks v a' a fit)
    (h : ∀ x calls, fit x calls → fit' x calls) : Speaks v a' a fit' := by
  refine Traced.imp ha ?_
  intro x _ hr
  obtain ⟨calls, rfl, hfit⟩ := hr
  exact ⟨calls, rfl, h x calls hfit⟩

/-- What holds of every answer may be taken along. -/
theorem also {fit : α → List Call → Prop} {always : α → Prop} (ha : Speaks v a' a fit)
    (h : ∀ w, always (a.run w).1) : Speaks v a' a fun x calls => always x ∧ fit x calls := by
  intro w notes
  obtain ⟨new, hrun, calls, hnew, hfit⟩ := ha w notes
  exact ⟨new, hrun, calls, hnew, h w, hfit⟩

/-- After an action without calls the rest is judged as if it stood alone. -/
theorem after {fit : β → List Call → Prop} (ha : Speaks v a' a fun _ calls => calls = [])
    (hf : ∀ x, Speaks v (f' x) (f x) fit) : Speaks v (a' >>= f') (a >>= f) fit := by
  refine ha.bind ?_
  intro x _ heq
  subst heq
  simpa only [List.nil_append] using hf x

/-- What is judged world by world is judged for all of them. -/
theorem of_at {fit : α → List Call → Prop}
    (h : ∀ w, SpeaksAt v a' a w fun x _ calls => fit x calls) : Speaks v a' a fit := by
  intro w notes
  obtain ⟨calls, hrun, hfit⟩ := h w notes
  exact ⟨v.notes calls, hrun, calls, rfl, hfit⟩

end Action.Speaks

namespace Action.SpeaksAt

variable {w : W}

/-- In one world the answer and the world afterwards are known. -/
theorem of_speaks {fit : α → List Call → Prop} (ha : Speaks v a' a fit) (w : W) :
    SpeaksAt v a' a w fun x w' calls => x = (a.run w).1 ∧ w' = (a.run w).2 ∧ fit x calls := by
  intro notes
  obtain ⟨_, hrun, calls, rfl, hfit⟩ := ha w notes
  exact ⟨calls, hrun, rfl, rfl, hfit⟩

protected theorem pure {fit : α → W → List Call → Prop} {x : α} (h : fit x w []) :
    SpeaksAt v (pure x : Action (W × List Note) α) (pure x) w fit := by
  intro notes
  exact ⟨[], by rw [run_pure, run_pure, v.notes_nil, List.append_nil], h⟩

protected theorem bind {fit : β → W → List Call → Prop} {mid : α → W → List Call → Prop}
    (ha : SpeaksAt v a' a w mid)
    (hf : ∀ x w₁ calls, mid x w₁ calls →
      SpeaksAt v (f' x) (f x) w₁ fun y w' more => fit y w' (calls ++ more)) :
    SpeaksAt v (a' >>= f') (a >>= f) w fit := by
  intro notes
  obtain ⟨calls, hrun, hmid⟩ := ha notes
  obtain ⟨more, hrun', hfit⟩ := hf _ _ calls hmid (notes ++ v.notes calls)
  refine ⟨calls ++ more, ?_, hfit⟩
  rw [run_bind, run_bind, hrun, hrun', v.notes_append, List.append_assoc]

theorem imp {fit fit' : α → W → List Call → Prop} (ha : SpeaksAt v a' a w fit)
    (h : ∀ x w' calls, fit x w' calls → fit' x w' calls) : SpeaksAt v a' a w fit' := by
  intro notes
  obtain ⟨calls, hrun, hfit⟩ := ha notes
  exact ⟨calls, hrun, h _ _ calls hfit⟩

/-- Two judgments of an action are about the same calls. -/
theorem and {fit fit' : α → W → List Call → Prop} (ha : SpeaksAt v a' a w fit)
    (ha' : SpeaksAt v a' a w fit') :
    SpeaksAt v a' a w fun x w' calls => fit x w' calls ∧ fit' x w' calls := by
  intro notes
  obtain ⟨calls, hrun, hfit⟩ := ha notes
  obtain ⟨calls', hrun', hfit'⟩ := ha' notes
  have hnotes : v.notes calls = v.notes calls' :=
    List.append_cancel_left (congrArg (·.2.2) (hrun.symm.trans hrun'))
  obtain rfl : calls = calls' := Voice.notes_inj hnotes
  exact ⟨calls, hrun, hfit, hfit'⟩

/-- After an action without calls the rest is judged in the world it leaves. -/
theorem after {fit : β → W → List Call → Prop} (ha : Speaks v a' a fun _ calls => calls = [])
    (hf : SpeaksAt v (f' (a.run w).1) (f (a.run w).1) (a.run w).2 fit) :
    SpeaksAt v (a' >>= f') (a >>= f) w fit := by
  refine SpeaksAt.bind (of_speaks ha w) ?_
  intro x w₁ _ hmid
  obtain ⟨rfl, rfl, rfl⟩ := hmid
  simpa only [List.nil_append] using hf

end Action.SpeaksAt

end

/-! ## The devices themselves

There are three kinds of requests: those that are not noted, those that are
noted with their answer, and those that are noted as they are made. -/

namespace Action

theorem quiet_speaks (a : Action W α) :
    Speaks v (Part.first.run a) a fun _ calls => calls = [] := by
  intro w notes
  exact ⟨[], by rw [List.append_nil]; rfl, [], rfl, rfl⟩

theorem noting_speaks (a : Action W α) (call : α → Call) :
    Speaks v ((Part.first.run a).noting v.write call) a fun x calls => calls = [call x] := by
  intro w notes
  exact ⟨v.notes [call (a.run w).1], rfl, _, rfl, rfl⟩

theorem announced_speaks (a : Action W α) (call : Call) :
    Speaks v ((Part.first.run a).announced v.write call) a fun _ calls => calls = [call] := by
  intro w notes
  exact ⟨v.notes [call], rfl, _, rfl, rfl⟩

end Action

namespace Devices

variable (d : Devices W)

theorem valueKind_speaks (m : Definition) :
    Action.Speaks v ((d.voiced v).sensors.valueKind m) (d.sensors.valueKind m)
      fun _ calls => calls = [] :=
  Action.quiet_speaks _

theorem collectionTime_speaks (m : Definition) :
    Action.Speaks v ((d.voiced v).sensors.collectionTime m) (d.sensors.collectionTime m)
      fun x calls => calls = [.collectionTime m x] :=
  Action.noting_speaks _ _

theorem start_speaks (m : Definition) (alone : Bool) :
    Action.Speaks v ((d.voiced v).sensors.start m alone) (d.sensors.start m alone)
      fun x calls => calls = [.start m alone x] :=
  Action.noting_speaks _ _

theorem poll_speaks (m : Definition) :
    Action.Speaks v ((d.voiced v).sensors.poll m) (d.sensors.poll m)
      fun x calls => calls = [.poll m x] :=
  Action.noting_speaks _ _

theorem collect_speaks (m : Definition) :
    Action.Speaks v ((d.voiced v).sensors.collect m) (d.sensors.collect m)
      fun x calls => calls = [.collect m x] :=
  Action.noting_speaks _ _

theorem power_speaks (m : Definition) (on : Bool) :
    Action.Speaks v ((d.voiced v).sensors.power m on) (d.sensors.power m on)
      fun _ calls => calls = [.power m on] :=
  Action.announced_speaks _ _

theorem powered_speaks (m : Definition) :
    Action.Speaks v ((d.voiced v).sensors.powered m) (d.sensors.powered m)
      fun _ calls => calls = [] :=
  Action.quiet_speaks _

theorem delivered_speaks (m : Definition) :
    Action.Speaks v ((d.voiced v).sensors.delivered m) (d.sensors.delivered m)
      fun _ calls => calls = [.delivered m] :=
  Action.announced_speaks _ _

theorem openFrame_speaks :
    Action.Speaks v (d.voiced v).radio.openFrame d.radio.openFrame
      fun x calls => calls = [.openFrame x] :=
  Action.noting_speaks _ _

theorem append_speaks (m : Definition) (t : Tally) :
    Action.Speaks v ((d.voiced v).radio.append m t) (d.radio.append m t)
      fun x calls => calls = [.append m t x] :=
  Action.noting_speaks _ _

theorem appendReading_speaks (m : Definition) (r : Reading) :
    Action.Speaks v ((d.voiced v).radio.appendReading m r) (d.radio.appendReading m r)
      fun x calls => calls = [.appendReading m r x] :=
  Action.noting_speaks _ _

theorem send_speaks :
    Action.Speaks v (d.voiced v).radio.send d.radio.send fun x calls => calls = [.send x] :=
  Action.noting_speaks _ _

theorem ready_speaks :
    Action.Speaks v (d.voiced v).radio.ready d.radio.ready fun _ calls => calls = [] :=
  Action.quiet_speaks _

theorem allowed_speaks :
    Action.Speaks v (d.voiced v).radio.allowed d.radio.allowed fun _ calls => calls = [] :=
  Action.quiet_speaks _

theorem connected_speaks :
    Action.Speaks v (d.voiced v).radio.connected d.radio.connected fun _ calls => calls = [] :=
  Action.quiet_speaks _

theorem reset_speaks :
    Action.Speaks v (d.voiced v).radio.reset d.radio.reset fun _ calls => calls = [.reset] :=
  Action.announced_speaks _ _

theorem onBattery_speaks :
    Action.Speaks v (d.voiced v).board.onBattery d.board.onBattery
      fun _ calls => calls = [.onBattery] :=
  Action.announced_speaks _ _

theorem sleepFor_speaks (ms : UInt32) :
    Action.Speaks v ((d.voiced v).board.sleepFor ms) (d.board.sleepFor ms)
      fun _ calls => calls = [.sleepFor ms] :=
  Action.announced_speaks _ _

theorem spin_speaks :
    Action.Speaks v (d.voiced v).board.spin d.board.spin fun _ calls => calls = [.spin] :=
  Action.announced_speaks _ _

theorem now_speaks : Action.Speaks v (d.voiced v).now d.now fun _ calls => calls = [] :=
  Action.quiet_speaks _

theorem log_speaks (severity : Severity) (text : String) :
    Action.Speaks v ((d.voiced v).log severity text) (d.log severity text)
      fun _ calls => calls = [] :=
  Action.quiet_speaks _

end Devices

end Telemetry
