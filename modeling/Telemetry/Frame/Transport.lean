import Telemetry.Devices
import Telemetry.Frame.Encode

/-!
# Frames on a link

A transport carries finished frames. With a draft beside it, it makes a radio:
opening begins a frame, appending writes into it, and sending closes it and
hands its bytes over. A measurement that does not fit leaves the frame as it
was. A frame that was closed stays in the buffer until the next one begins.
-/

namespace Telemetry.Frame

variable {W : Type}

/-- Carries finished frames. -/
structure Transport (W : Type) where
  transmit : ByteArray → Action W (Except LinkError Unit)
  /-- Whether a frame would be taken right now. -/
  ready : Action W Bool
  allowed : Action W Bool := pure true
  connected : Action W Bool
  reset : Action W Unit := pure ()

/-- A link's refusal as the radio reports it. -/
def refusal : LinkError → FrameError
  | .notConnected => .notConnected
  | _ => .sendFailed

namespace Draft

/-- Begins a frame; a buffer too small for one stays empty. -/
def openStep (f : Draft) : Except FrameError Unit × Draft :=
  match f.start with
  | some g => (.ok (), g)
  | none => (.error .initFailed, f.clear)

/-- Adds a measurement, or leaves the frame as it was. -/
def appendStep (m : Definition) (t : Tally) (f : Draft) : Except FrameError Unit × Draft :=
  match f.append m.name t with
  | some g => (.ok (), g)
  | none => (.error .bufferFull, f)

end Draft

/-- Closes the frame and hands it over. -/
def sendDraft (draft : Part W Draft) (link : Transport W) : Action W (Except FrameError Unit) := do
  let f ← Action.look draft.get
  match f.close with
  | none => pure (.error .sendFailed)
  | some g => do
      Action.change (draft.set g)
      match ← link.transmit g.text.toUTF8 with
      | .ok () => pure (.ok ())
      | .error cause => pure (.error (refusal cause))

/-- The radio that writes drafts and sends them over a transport. -/
def radio (log : Logger W) (draft : Part W Draft) (link : Transport W) : Radio W where
  openFrame := draft.run Draft.openStep
  append := fun m t => draft.run (Draft.appendStep m t)
  appendReading := Radio.appendAsTally log fun m t => draft.run (Draft.appendStep m t)
  send := sendDraft draft link
  ready := link.ready
  allowed := link.allowed
  connected := link.connected
  reset := do
    Action.change fun w => draft.set (draft.get w).clear w
    link.reset

end Telemetry.Frame
