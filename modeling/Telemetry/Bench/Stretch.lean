import Telemetry.Bench.World
import Telemetry.Node

/-!
# A node over a stretch of time

On the bench a node can be left alone for a while: its loop turns again and
again, and after each turn some time passes. If the radio is to answer, it
answers every frame at once, and every further fragment as well. What is kept
are the turns that differ from the ones before them or left something in the
journal.
-/

namespace Telemetry.Bench

structure Turn where
  time : Timestamp
  iteration : Iteration
  /-- What came into the journal in this turn. -/
  records : List Record
  /-- What the answers to its frames led to. -/
  answers : List (Option SendOutcome)

/-- Whether a frame went out that the radio can answer. -/
def wentOut : Option SendOutcome → Bool
  | some (.fragment _) => true
  | some (.complete _) => true
  | _ => false

def sentIn : Iteration → Option SendOutcome
  | .ran send _ => send
  | _ => none

/-- Takes the lines out of the journal. -/
def harvest : Action World (List Record) := fun w =>
  (w.journal.toList, { w with journal := #[] })

/-- Answers a frame that went out, and the fragments that follow. Each of these
begins at a later slot, so there are no more of them than slots. -/
def answerAll (d : Devices World) (good : Bool) :
    Nat → Node → Option SendOutcome → Action World (Node × List (Option SendOutcome))
  | 0, n, _ => pure (n, [])
  | most + 1, n, outcome => do
      if wentOut outcome then
        let (n, next) ← n.answer d good
        let (n, rest) ← answerAll d good most n next
        pure (n, next :: rest)
      else pure (n, [])

/-- One turn, with the radio's answers if it gives any. -/
def takeTurn (d : Devices World) (ack : Option Bool) (n : Node) : Action World (Node × Turn) := do
  let time ← d.now
  let (n, iteration) ← n.iterate d
  let (n, answers) ← (match ack with
    | some good => answerAll d good SpotRead.patience n (sentIn iteration)
    | none => pure (n, []))
  let records ← harvest
  pure (n, { time, iteration, records, answers })

/-- Whether a turn is worth keeping after another. -/
def Turn.notable (t : Turn) (last : Option Iteration) : Bool :=
  last != some t.iteration || !t.records.isEmpty || !t.answers.isEmpty

/-- Turns the loop until the clock is past a moment, and gives the turns to
keep. Lines of the journal that are not wanted do not make a turn notable. -/
def stretch (d : Devices World) (wanted : Record → Bool) (last step : UInt64)
    (ack : Option Bool) : Nat → Node → Option Iteration → Array Turn →
    Action World (Node × Array Turn)
  | 0, n, _, kept => pure (n, kept)
  | turns + 1, n, before, kept => do
      let now ← d.now
      if last < now then pure (n, kept)
      else
        let (n, turn) ← takeTurn d ack n
        let turn := { turn with records := turn.records.filter wanted }
        Action.change fun w => w.pass (max step 1)
        if turn.notable before then
          stretch d wanted last step ack turns n (some turn.iteration) (kept.push turn)
        else stretch d wanted last step ack turns n before kept

end Telemetry.Bench
