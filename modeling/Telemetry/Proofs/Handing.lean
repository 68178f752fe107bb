import Telemetry.Limits
import Telemetry.Proofs.Drafts

/-!
# Frames that are handed over

A radio is asked to open a frame, to add to it and to send it, in any order, and
its link is handed bytes. A station puts the draft beside the world of the link
and writes down what the link is handed, whatever the link makes of it.

`Sheet.after` follows the calls and their answers and says what has been written
since the last frame was opened; the draft shows exactly that (`perform_shows`,
then `performAll_shows` for a whole run). So what a link is handed is known from
the calls alone, and the theorems on frames say how it is read.
-/

namespace Telemetry.Frame

open Json

variable {V : Type}

/-! ## A radio and its link -/

/-- A draft, the world of a link, and the frames the link was handed, in order. -/
structure Station (V : Type) where
  draft : Draft
  link : V
  handed : List ByteArray := []

namespace Station

def draftPart : Part (Station V) Draft where
  get := draft
  set := fun f st => { st with draft := f }

def linkPart : Part (Station V) V where
  get := link
  set := fun v st => { st with link := v }

/-- A link that writes down every frame before it carries it. -/
def noting (link : Transport V) : Transport (Station V) where
  transmit := fun frame => do
    Action.change fun st => { st with handed := st.handed ++ [frame] }
    linkPart.run (link.transmit frame)
  ready := linkPart.run link.ready
  allowed := linkPart.run link.allowed
  connected := linkPart.run link.connected
  reset := linkPart.run link.reset

def radio (log : Logger V) (link : Transport V) : Radio (Station V) :=
  Frame.radio (fun severity text => linkPart.run (log severity text)) draftPart (noting link)

/-- A log that keeps nothing. -/
def silent : Logger Unit := fun _ _ => pure ()

/-- A link that takes every frame. -/
def sink : Transport Unit where
  transmit _ := pure (.ok ())
  ready := pure true
  connected := pure true

end Station

/-! ## Calls to a radio -/

/-- A definition of no particular sensor. -/
def called (name : String) : Definition := ⟨name, .custom0, 1, 1, false⟩

inductive Ask where
  | openFrame
  | append (m : Definition) (t : Tally)
  | appendReading (m : Definition) (r : Reading)
  | send
  | reset

namespace Ask

def perform {W : Type} (r : Radio W) : Ask → Action W (Except FrameError Unit)
  | .openFrame => r.openFrame
  | .append m t => r.append m t
  | .appendReading m reading => r.appendReading m reading
  | .send => r.send
  | .reset => do
      r.reset
      pure (.ok ())

/-- Makes calls in a row and gives their answers back. -/
def performAll {W : Type} (r : Radio W) : List Ask → Action W (List (Except FrameError Unit))
  | [] => pure []
  | a :: rest => do
      let answer ← a.perform r
      let answers ← performAll r rest
      pure (answer :: answers)

end Ask

/-! ## What has been written -/

/-- The value of a single reading. -/
def Written.ofReading : Reading → Written
  | .integer v => .whole v
  | .float x => .decimal x
  | .text s => .text s

/-- What has been written after a call, given its answer. -/
def Sheet.after (s : Sheet) : Ask → Except FrameError Unit → Sheet
  | .openFrame, .ok _ => .writing []
  | .openFrame, .error _ => .blank
  | .append m t, .ok _ =>
      match s with
      | .writing fields => .writing (fields ++ fieldsOf m.name t)
      | s => s
  | .appendReading m r, .ok _ =>
      match s with
      | .writing fields => .writing (fields ++ [⟨m.name, .ofReading r⟩])
      | s => s
  | .send, _ =>
      match s with
      | .writing fields => .closed fields
      | s => s
  | .reset, _ => .blank
  | _, .error _ => s

def Sheet.afterAll (s : Sheet) : List Ask → List (Except FrameError Unit) → Sheet
  | a :: rest, answer :: answers => (s.after a answer).afterAll rest answers
  | _, _ => s

namespace Station

variable (log : Logger V) (link : Transport V) (st : Station V)

/-! ## What a call does -/

theorem open_run :
    (radio log link).openFrame.run st =
      (st.draft.openStep.1, { st with draft := st.draft.openStep.2 }) := rfl

theorem append_run (m : Definition) (t : Tally) :
    ((radio log link).append m t).run st =
      ((st.draft.appendStep m t).1, { st with draft := (st.draft.appendStep m t).2 }) := rfl

/-- The tally of a single reading. -/
def single (r : Reading) : Tally :=
  { Tally.fresh r.kind 0 with summary := .ofReading r, samples := 1 }

theorem fieldsOf_single (name : String) (r : Reading) :
    fieldsOf name (single r) = [⟨name, .ofReading r⟩] := by
  cases r <;> rfl

theorem appendReading_run (m : Definition) (r : Reading) :
    ∃ v, ((radio log link).appendReading m r).run st =
      ((st.draft.appendStep m (single r)).1,
        { st with draft := (st.draft.appendStep m (single r)).2, link := v }) := by
  cases r <;> exact ⟨_, rfl⟩

/-- A frame is handed over if it can be closed, and the link's answer is passed on. -/
theorem send_run :
    (radio log link).send.run st =
      match st.draft.close with
      | none => (.error .sendFailed, st)
      | some g =>
          let carried := (link.transmit g.text.toUTF8).run st.link
          (carried.1.mapError refusal, ⟨g, carried.2, st.handed ++ [g.text.toUTF8]⟩) := by
  change (sendDraft draftPart (noting link)).run st = _
  unfold sendDraft
  rw [Action.run_bind, Action.run_look]
  change Action.run (match st.draft.close with
    | none => _
    | some g => _) st = _
  cases st.draft.close with
  | none => rfl
  | some g =>
      have hlink : ((noting link).transmit g.text.toUTF8).run (draftPart.set g st) =
          (((link.transmit g.text.toUTF8).run st.link).1,
            ⟨g, ((link.transmit g.text.toUTF8).run st.link).2, st.handed ++ [g.text.toUTF8]⟩) := rfl
      simp only [Action.run_bind, Action.run_change]
      rw [hlink]
      cases ((link.transmit g.text.toUTF8).run st.link).1 <;> rfl

variable {log link st} in
theorem handed_close {g : Draft} (h : st.draft.close = some g) :
    ((radio log link).send.run st).2.handed = st.handed ++ [g.text.toUTF8] := by
  rw [send_run, h]

variable {log link st} in
/-- A frame is handed over when the draft could be closed, and it is the closed draft. -/
theorem handed_eq {frame : ByteArray}
    (h : ((radio log link).send.run st).2.handed = st.handed ++ [frame]) :
    ∃ g, st.draft.close = some g ∧ frame = g.text.toUTF8 := by
  cases hclose : st.draft.close with
  | none => simp [send_run, hclose] at h
  | some g => exact ⟨g, rfl, by simpa [handed_close hclose] using h.symm⟩

/-! ## The draft shows what has been written -/

theorem appendStep_shows {f : Draft} {s : Sheet} (h : s.Shows f) (m : Definition) (t : Tally) :
    (s.after (.append m t) (f.appendStep m t).1).Shows (f.appendStep m t).2 := by
  unfold Draft.appendStep
  cases hg : f.append m.name t with
  | none => cases s <;> exact h
  | some g =>
      cases s with
      | blank =>
          have hempty : f.text = "" := h
          rw [Draft.append_blank (by simp [hempty]) hg]
          exact h
      | writing fields => exact Draft.append_writing h hg
      | closed fields => exact Draft.append_closed h hg

variable {log link st} in
theorem open_shows (h : ((radio log link).openFrame.run st).1 = .ok ()) :
    Sheet.Shows ((radio log link).openFrame.run st).2.draft (.writing []) := by
  have hshows := st.draft.openStep_shows
  have hstep : st.draft.openStep.1 = .ok () := h
  rw [hstep] at hshows
  exact hshows

/-- A frame that is closed takes an end; the fields stay what they were. -/
theorem send_shows {s : Sheet} (h : s.Shows st.draft) :
    (s.after .send ((Ask.send.perform (radio log link)).run st).1).Shows
      ((Ask.send.perform (radio log link)).run st).2.draft := by
  rw [Ask.perform, send_run]
  cases s with
  | blank =>
      rw [Draft.close_blank h]
      exact h
  | writing fields =>
      obtain ⟨g, hclose, htext⟩ := Draft.close_writing h
      rw [hclose]
      exact ⟨[], by simpa using htext, fun c hc => by cases hc⟩
  | closed fields =>
      cases hclose : st.draft.close with
      | none => exact h
      | some g =>
          obtain ⟨c, more, hc, htext⟩ := Draft.close_closed h hclose
          refine ⟨c :: more, htext, fun d hd => ?_⟩
          cases hd
          exact hc

/-- A call leaves a draft that shows what has been written by then. -/
theorem perform_shows {s : Sheet} (h : s.Shows st.draft) (a : Ask) :
    (s.after a ((a.perform (radio log link)).run st).1).Shows
      ((a.perform (radio log link)).run st).2.draft := by
  cases a with
  | openFrame =>
      have hopen := st.draft.openStep_shows
      rw [Ask.perform, open_run]
      simp only []
      revert hopen
      cases st.draft.openStep.1 <;> exact id
  | append m t => exact appendStep_shows h m t
  | appendReading m r =>
      obtain ⟨v, hrun⟩ := appendReading_run log link st m r
      have hstep := appendStep_shows h m (single r)
      rw [Ask.perform, hrun]
      revert hstep
      cases (st.draft.appendStep m (single r)).1 with
      | error cause => exact id
      | ok _ =>
          cases s with
          | writing fields =>
              intro hstep
              simpa only [Sheet.after, fieldsOf_single] using hstep
          | blank => exact id
          | closed fields => exact id
  | send => exact send_shows log link st h
  | reset => exact st.draft.clear_shows

theorem performAll_shows (asks : List Ask) {s : Sheet} (h : s.Shows st.draft) :
    (s.afterAll asks ((Ask.performAll (radio log link) asks).run st).1).Shows
      ((Ask.performAll (radio log link) asks).run st).2.draft := by
  induction asks generalizing st s with
  | nil => exact h
  | cons a rest ih => exact ih _ (perform_shows log link st h a)

end Station

end Telemetry.Frame
