import Telemetry.Node
import Telemetry.Proofs.Watching

/-!
# Runs of a node

A run is any sequence of operations on a node, with any change of the world
between two of them; a clock that moves is such a change. `Node.run` is the
plain run, on plain devices. `Node.history` is the same run on watched devices:
for every operation the node before, the notes, and the node after.

Both rest on one definition of what an operation does, `performBy`, which takes
the devices of the schedule, the devices of everything else, and a hook for the
moments that are no calls. With the same devices twice and no hook it is the
node itself, by definition.

A history lists what the watched node does; that the plain run does the same
is `after_history` in the file on steps.
-/

namespace Telemetry

/-! ## Operations -/

/-- A change of the table by its owner. -/
inductive Edit where
  | add (m : Definition)
  | remove (name : String)
  | rename (old new : String)
  | setPeriod (name : String) (period : UInt8)
  | setSampleCount (name : String) (sampleCount : UInt8)
  | setImmediate (name : String) (immediate : Bool)
  | request (name : String)

inductive Op where
  | iterate
  | answer (good : Bool)
  | setEnabled (enabled : Bool)
  | setPower (power : PowerMode)
  | setInterval (interval : UInt32)
  | edit (e : Edit)
  | load (persisted defaults : List Definition)
  | read (name : String) (timeout : Option UInt32)
  | collectionTimeout (name : String)
  | sendTest (name : String)

/-- Whether an operation is a change of the table by its owner. -/
def Op.edits : Op → Bool
  | .edit _ | .load _ _ => true
  | _ => false

/-- An operation, and what the world does before it. -/
structure Move (W : Type) where
  meanwhile : W → W
  op : Op

/-- How a node is watched: through its devices, which may differ between the
schedule and everything else, and at moments that are no calls. -/
structure Watch (W : Type) where
  schedule : Devices W
  aside : Devices W
  mark : Note → Action W Unit

namespace Watch

variable {W : Type}

def blind (d : Devices W) : Watch W where
  schedule := d
  aside := d
  mark := fun _ => pure ()

def full (d : Devices W) : Watch (W × List Note) where
  schedule := d.voiced .schedule
  aside := d.voiced .aside
  mark := fun note => Action.change fun w => (w.1, w.2 ++ [note])

theorem mark_traced (d : Devices W) (note : Note) :
    ((full d).mark note).Traced ((blind d).mark note) fun _ new => new = [note] := by
  intro w notes
  exact ⟨[note], rfl, rfl⟩

end Watch

def Edit.apply {W : Type} (d : Devices W) (t : Table) : Edit → Action W Table
  | .add m => Prod.fst <$> t.add d m
  | .remove name => Prod.fst <$> t.remove d name
  | .rename old new => Prod.fst <$> t.rename d old new
  | .setPeriod name period => Prod.fst <$> t.setPeriod d name period
  | .setSampleCount name sampleCount => Prod.fst <$> t.setSampleCount d name sampleCount
  | .setImmediate name immediate => Prod.fst <$> t.setImmediate name immediate
  | .request name => Prod.fst <$> t.request name

namespace Node

variable {W : Type}

/-! ## The loop under watch -/

/-- A turn of the sampler, if its wait is over. -/
def sampleBy (o : Watch W) (n : Node) : Action W Node := do
  let now ← o.schedule.now
  if n.sampler.due now then
    o.mark (.turn now)
    let (sampler, table) ← n.sampler.turn o.schedule n.table n.clock now
    pure { n with sampler, table }
  else pure n

/-- Ends the tick, if it is over, and sends what is due. -/
def transmitBy (o : Watch W) (n : Node) : Action W (Node × Option SendOutcome) := do
  let now ← o.schedule.now
  if n.clock.due now then
    let n := { n with clock := n.clock.advance }
    o.schedule.log.debug ("Transmit tick " ++ toString n.clock.count.toNat)
    let (out, outcome) ← n.outgoing.send o.schedule now
    o.mark (.sent n.table out.table)
    pure (n.withOutgoing out, some outcome)
  else pure (n, none)

def iterateOnlineBy (o : Watch W) (n : Node) : Action W (Node × Iteration) := do
  let n ← (do if ← o.aside.radio.ready then n.sendRequested o.aside else pure n)
  let n ← n.sampleBy o
  let (n, send) ← n.transmitBy o
  let (n, sleep) ← n.settle o.schedule
  pure (n, .ran send sleep)

def iterateBy (o : Watch W) (n : Node) : Action W (Node × Iteration) := do
  if !n.enabled then pure (n, .disabled)
  else if !(← o.schedule.radio.connected) then n.iterateOffline o.schedule
  else if n.offline then
    o.schedule.log.debug "Connected, restarting transmit tick."
    let now ← o.schedule.now
    pure ({ n with offline := false, clock := n.clock.restart now }, .reconnected)
  else n.iterateOnlineBy o

/-- Takes the radio's answer to the last frame. -/
def answerBy (o : Watch W) (n : Node) (good : Bool) : Action W (Node × Option SendOutcome) := do
  let now ← o.schedule.now
  let (out, outcome) ← n.outgoing.answer o.schedule good now
  o.mark (.sent n.table out.table)
  pure (n.withOutgoing out, outcome)

theorem iterateBy_blind (d : Devices W) (n : Node) : n.iterateBy (.blind d) = n.iterate d := rfl

theorem answerBy_blind (d : Devices W) (n : Node) (good : Bool) :
    n.answerBy (.blind d) good = n.answer d good := rfl

/-! ## Runs -/

/-- The node after an operation; one that is refused leaves it as it is. -/
def performBy (o : Watch W) (n : Node) : Op → Action W Node
  | .iterate => Prod.fst <$> n.iterateBy o
  | .answer good => Prod.fst <$> n.answerBy o good
  | .setEnabled enabled => n.setEnabled o.aside enabled
  | .setPower power => pure (n.setPower power)
  | .setInterval interval =>
      pure (match n.setInterval interval with
        | .ok n' => n'
        | .error _ => n)
  | .edit e => (fun table => { n with table }) <$> e.apply o.aside n.table
  | .load persisted defaults =>
      Prod.fst <$> n.edit fun t => t.load o.aside persisted defaults
  | .read name timeout => Prod.fst <$> n.read o.aside name timeout
  | .collectionTimeout name => (fun _ => n) <$> n.collectionTimeout o.aside name
  | .sendTest name => Prod.fst <$> n.sendTest o.aside name

def run (d : Devices W) : List (Move W) → Node → Action W Node
  | [], n => pure n
  | m :: rest, n => do
      Action.change m.meanwhile
      let n ← n.performBy (.blind d) m.op
      run d rest n

theorem run_append (d : Devices W) (moves more : List (Move W)) (n : Node) :
    run d (moves ++ more) n = run d moves n >>= run d more := by
  induction moves generalizing n with
  | nil => rfl
  | cons m rest ih => simp only [List.cons_append, run, ih, bind_assoc]

/-- One operation of a run: the node before it, what was noted, and the node after it. -/
structure Episode where
  before : Node
  notes : List Note
  after : Node

/-- What happens in a run, operation by operation. -/
def history (d : Devices W) : List (Move W) → Node → W → List Episode
  | [], _, _ => []
  | m :: rest, n, w =>
      let r := (n.performBy (.full d) m.op).run (m.meanwhile w, [])
      ⟨n, r.2.2, r.1⟩ :: history d rest r.1 r.2.1

end Node

/-- The whole life of a node: what it speaks to, how it begins, and all that is
done with it. -/
structure Life (W : Type) where
  devices : Devices W
  settings : Settings
  capacity : Nat
  began : Timestamp
  world : W
  moves : List (Move W)

namespace Life

variable {W : Type}

/-- The node at the beginning, without measurements. -/
def birth (l : Life W) : Node := Node.create l.settings l.capacity l.began

def node (l : Life W) : Node := ((Node.run l.devices l.moves l.birth).run l.world).1

def continued (l : Life W) (more : List (Move W)) : Life W := { l with moves := l.moves ++ more }

/-- The world at the end of a life. -/
def present (l : Life W) : W := ((Node.run l.devices l.moves l.birth).run l.world).2

def past (l : Life W) : List Node.Episode := Node.history l.devices l.moves l.birth l.world

/-- A life that goes on does so from where it has come to. -/
theorem run_continued (l : Life W) (more : List (Move W)) :
    (Node.run l.devices more l.node).run l.present =
      ((l.continued more).node, (l.continued more).present) := by
  have happend := congrArg (fun a => a.run l.world)
    (Node.run_append l.devices l.moves more l.birth)
  exact happend.symm

end Life

/-- Devices in a world that is a clock and nothing else: sensors of whole
numbers that take some time and always answer, and a radio that takes all. -/
def Devices.obliging (took : UInt32) : Devices Timestamp where
  sensors := {
    valueKind := fun _ => pure (some .integer)
    collectionTime := fun _ => pure (some (.done took))
    collect := fun _ => pure (.done (.integer 1)) }
  radio := {
    openFrame := pure (.ok ())
    append := fun _ _ => pure (.ok ())
    appendReading := fun _ _ => pure (.ok ())
    send := pure (.ok ())
    ready := pure true
    connected := pure true }
  board := {}
  now := Action.look id
  log := fun _ _ => pure ()

/-- A life with one measurement, in which the loop takes a turn at some moments. -/
def Life.ticking (took interval : UInt32) (moments : List Timestamp) : Life Timestamp where
  devices := .obliging took
  settings := { interval }
  capacity := 1
  began := 0
  world := 0
  moves :=
    ⟨id, .edit (.add ⟨"A", .custom0, 1, 1, false⟩)⟩ ::
      moments.map fun time => ⟨fun _ => time, .iterate⟩

end Telemetry
