import Telemetry.Frame.Transport

/-!
# A link that keeps its frames

The loopback carries frames nowhere: it keeps them, counts them and can be told
to be away, busy or forbidden, or to refuse the next frame.
-/

namespace Telemetry.Frame

/-- The frames a loopback was given, and what it pretends to be. -/
structure Loopback where
  frames : Array ByteArray := #[]
  connected : Bool := true
  ready : Bool := true
  allowed : Bool := true
  /-- Whether the next frame is refused. -/
  failNext : Bool := false
  /-- Frames that were taken. -/
  sent : UInt32 := 0
  /-- Frames that were refused. -/
  refused : UInt32 := 0
  /-- Bytes of all frames that were taken. -/
  bytes : UInt64 := 0
  /-- How often the link was reset. -/
  resets : UInt32 := 0

namespace Loopback

/-- Takes a frame or refuses it. -/
def transmit (frame : ByteArray) (l : Loopback) : Except LinkError Unit × Loopback :=
  if !l.connected then (.error .notConnected, { l with refused := l.refused + 1 })
  else if l.failNext then
    (.error (.rejected "scripted failure"), { l with failNext := false, refused := l.refused + 1 })
  else
    (.ok (), { l with
      frames := l.frames.push frame
      sent := l.sent + 1
      bytes := l.bytes + UInt64.ofNat frame.size })

/-- Counts a reset; the frames stay. -/
def reset (l : Loopback) : Loopback := { l with resets := l.resets + 1 }

/-- The loopback as a transport. -/
def transport {W : Type} (p : Part W Loopback) : Transport W where
  transmit := fun frame => p.run (transmit frame)
  ready := Action.look fun w => (p.get w).ready
  allowed := Action.look fun w => (p.get w).allowed
  connected := Action.look fun w => (p.get w).connected
  reset := Action.change fun w => p.set (p.get w).reset w

end Loopback

end Telemetry.Frame
