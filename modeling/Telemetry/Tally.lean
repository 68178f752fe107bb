import Telemetry.Action
import Telemetry.Reading
import Telemetry.Saturating

/-!
# Tallies

Beside every definition stands a tally: how far the running period has got,
and what its readings amount to so far. Numbers are summed, with their bounds;
of texts only the last one counts.

`started` and `finished` number the acquisitions of the running period. At most
one is open at any time, so `finished ≤ started ≤ finished + 1`.
-/

namespace Telemetry

/-- What the readings of one measurement amount to. -/
inductive Summary where
  | empty
  | integer (sum least greatest : Int64)
  | float (sum least greatest : Float32)
  | text (last : String)

namespace Summary

/-- What one reading amounts to. -/
def ofReading : Reading → Summary
  | .integer v => .integer v v v
  | .float v => .float v v v
  | .text s => .text s

/-- The bounds, moved as far as a value demands. A value above the upper bound
is not compared with the lower one. -/
def widen {α : Type} [LT α] [DecidableLT α] (least greatest v : α) : α × α :=
  if greatest < v then (least, v)
  else if v < least then (v, greatest)
  else (least, greatest)

/-- One reading more, unless it is of another kind. Sums of whole numbers wrap. -/
def fold : Summary → Reading → Option Summary
  | .empty, r => some (ofReading r)
  | .integer sum least greatest, .integer v =>
      let bounds := widen least greatest v
      some (.integer (sum + v) bounds.1 bounds.2)
  | .float sum least greatest, .float v =>
      let bounds := widen least greatest v
      some (.float (sum + v) bounds.1 bounds.2)
  | .text _, .text s => some (.text s)
  | _, _ => none

/-- Whether only the last reading is kept. -/
def keepsLast : Summary → Bool
  | .text _ => true
  | _ => false

def notice : Summary → Option String
  | .empty => none
  | .integer sum least greatest =>
      some ("Sum : " ++ toString sum.toInt ++ ", Min : " ++ toString least.toInt ++
        ", Max : " ++ toString greatest.toInt)
  | .float sum least greatest =>
      some ("Sum : " ++ Decimal.ofFloat sum ++ ", Min : " ++ Decimal.ofFloat least ++
        ", Max : " ++ Decimal.ofFloat greatest)
  | .text last => some ("Value : " ++ last)

end Summary

/-- Progress and outcome of one measurement in the running period. -/
structure Tally where
  kind : ValueKind := .integer
  /-- Readings in the summary. -/
  samples : UInt32 := 0
  /-- Acquisitions started in this period. -/
  started : UInt32 := 0
  /-- Acquisitions over in this period, with a reading or without. -/
  finished : UInt32 := 0
  /-- Whether the sensor is at work. -/
  acquiring : Bool := false
  /-- How long the sensor takes, as far as it is known. -/
  leadTime : UInt32 := 0
  /-- What the readings amount to. -/
  summary : Summary := .empty
  /-- Whether the last frame with this measurement waits for an answer. -/
  awaitsAck : Bool := false
  /-- Whether a send outside the schedule was asked for. -/
  instantRequested : Bool := false

/-- Why a reading is left out of a tally. -/
inductive Tally.Refusal where
  | kind (given expected : ValueKind)
  | summary (given : ValueKind)
  deriving DecidableEq, Repr

def Tally.Refusal.message : Tally.Refusal → String
  | .kind given expected => "Reading kind " ++ given.label ++ " does not match " ++ expected.label
  | .summary given => "Reading kind " ++ given.label ++ " does not match aggregate"

namespace Tally

/-- The tally of a sensor that was just added. -/
def fresh (kind : ValueKind) (leadTime : UInt32) : Tally := { kind, leadTime }

/-- Whether an acquisition is open. -/
def inFlight (t : Tally) : Bool := t.finished < t.started

def mean (t : Tally) : Option Float :=
  if t.samples = 0 then none
  else match t.summary with
    | .integer sum _ _ => some (sum.toFloat / t.samples.toFloat)
    | .float sum _ _ => some (sum.toFloat / t.samples.toFloat)
    | _ => none

/-- One reading more. The first one replaces whatever summary is left over;
a text is always the only sample. -/
def fold (t : Tally) (r : Reading) : Except Refusal Tally :=
  if r.kind ≠ t.kind then .error (.kind r.kind t.kind)
  else
    match (if t.samples = 0 then Summary.empty else t.summary).fold r with
    | none => .error (.summary r.kind)
    | some summary =>
        let samples := if summary.keepsLast then 1 else Saturating.succ t.samples
        .ok { t with summary, samples }

/-- Folds a reading in and tells the log what came of it. -/
def observe {W : Type} (log : Logger W) (t : Tally) (r : Reading) : Action W (Tally × Bool) :=
  match t.fold r with
  | .error refusal => do
      log.warn refusal.message
      pure (t, false)
  | .ok t' => do
      match t'.summary.notice with
      | some text => log.debug text
      | none => pure ()
      pure (t', true)

/-- Folds readings in one after the other; those of another kind are left out. -/
def observeAll {W : Type} (log : Logger W) (t : Tally) : List Reading → Action W Tally
  | [] => pure t
  | r :: rest => do
      let (t, _) ← t.observe log r
      observeAll log t rest

/-- The period begins anew: no readings and no acquisitions. -/
def reset (t : Tally) : Tally :=
  { t with summary := .empty, samples := 0, started := 0, finished := 0 }

/-- The acquisitions are numbered anew; the readings stay. -/
def resetCounters (t : Tally) : Tally := { t with started := 0, finished := 0 }

/-- An acquisition has begun. -/
def opened (t : Tally) : Tally := { t with started := t.started + 1, acquiring := true }

/-- An acquisition was over before it began. -/
def missed (t : Tally) : Tally := { t with started := t.started + 1, finished := t.finished + 1 }

/-- The open acquisition is over. -/
def closed (t : Tally) : Tally := { t with finished := t.finished + 1, acquiring := false }

/-- Every acquisition so far is over. -/
def abandoned (t : Tally) : Tally := { t with finished := t.started, acquiring := false }

/-- The tally that holds one reading and nothing else. -/
def ofReading {W : Type} (log : Logger W) (r : Reading) : Action W Tally := do
  let (t, _) ← observe log (fresh r.kind 0) r
  pure t

end Tally

end Telemetry
