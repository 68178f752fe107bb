import Telemetry.Failure

/-!
# A frame being written

A frame is one flat object of named values, written piece by piece into a
buffer of fixed size:

```text
{"TMP" : 21.375,"TMP_min" : 20.500,"TMP_max" : 22.250,"PC1" : 14}
```

Every piece must leave room for the closing brace and one byte more, so that a
frame that was opened can always be closed. A piece that does not leave that
room is not written.
-/

namespace Telemetry.Frame

/-- A frame being written, with the size of its buffer in bytes. -/
structure Draft where
  capacity : Nat
  text : String := ""
  deriving DecidableEq, Repr

namespace Draft

/-- The room kept free for the end of a frame. -/
def reserve : Nat := 2

/-- Writes a piece if the reserve stays free. -/
def push (f : Draft) (piece : String) : Option Draft :=
  if f.text.utf8ByteSize + piece.utf8ByteSize + reserve < f.capacity then
    some { f with text := f.text ++ piece }
  else none

def clear (f : Draft) : Draft := { f with text := "" }

/-- Begins a frame in an empty buffer. -/
def start (f : Draft) : Option Draft := f.clear.push "\x7b"

/-- Whether nothing stands after an opening brace yet. -/
def atStart (f : Draft) : Bool := f.text.toList.getLast? == some '{'

/-- Writes the comma that stands between two values. -/
def separate (f : Draft) : Option Draft := if f.atStart then some f else f.push ","

/-- Writes a name and a value, or the beginning of one. There has to be a frame. -/
def field (f : Draft) (name value : String) : Option Draft :=
  if f.text.isEmpty then none
  else f.separate.bind fun f => f.push ("\"" ++ name ++ "\" : " ++ value)

/-- Writes the closing brace, which may use the reserve. There has to be a frame. -/
def close (f : Draft) : Option Draft :=
  if f.text.isEmpty || f.capacity ≤ f.text.utf8ByteSize then none
  else some { f with text := f.text ++ "\x7d" }

/-- What is written stays as it is; more comes after it. -/
theorem text_of_push {f g : Draft} {piece : String} (h : f.push piece = some g) :
    g.text = f.text ++ piece := by
  unfold push at h
  split at h
  · exact (Option.some.inj h) ▸ rfl
  · exact absurd h (by simp)

/-- Writing leaves the size of the buffer as it is. -/
theorem capacity_of_push {f g : Draft} {piece : String} (h : f.push piece = some g) :
    g.capacity = f.capacity := by
  unfold push at h
  split at h
  · exact (Option.some.inj h) ▸ rfl
  · exact absurd h (by simp)

end Draft

end Telemetry.Frame
