import Telemetry.Json.Number

/-!
# Reading stored records

A record is stored as an object with named fields, or as an array of its fields
in order. In an object, fields that nobody asks for are ignored whatever they
hold, but no field may come twice. An array may be too short, in which case its
last fields are missing, but not too long.
-/

namespace Telemetry.Stored

open Json

/-- The fields of a stored record. -/
inductive Fields where
  | named (members : List (Option String × Tree))
  | ordered (items : List Tree)

namespace Fields

/-- The fields of a tree that may be a record with the given number of fields. -/
def ofTree (count : Nat) : Tree → Option Fields
  | .object members => if members.all (·.1.isSome) then some (.named members) else none
  | .array items => if items.length ≤ count then some (.ordered items) else none
  | _ => none

/-- The values under a name. -/
def under (name : String) (members : List (Option String × Tree)) : List Tree :=
  (members.filter (·.1 == some name)).map (·.2)

/-- The field of a name and a position: the outer value is missing if the
record is not a good one, the inner one if it has no such field. -/
def field (f : Fields) (index : Nat) (name : String) : Option (Option Tree) :=
  match f with
  | .ordered items => some items[index]?
  | .named members =>
      match under name members with
      | [] => some none
      | [t] => some (some t)
      | _ => none

/-- A field that has to be there. -/
def require {α : Type} (f : Fields) (index : Nat) (name : String) (decode : Tree → Option α) :
    Option α := do
  let t ← ← f.field index name
  decode t

/-- A field with a default. -/
def optional {α : Type} (f : Fields) (index : Nat) (name : String) (fallback : α)
    (decode : Tree → Option α) : Option α := do
  match ← f.field index name with
  | none => pure fallback
  | some t => decode t

end Fields

/-! ## Values of fields -/

/-- A whole number below a bound. -/
def natural (bound : Nat) : Tree → Option Nat
  | .number n =>
      match n.value with
      | some (.natural m) => if m.toNat < bound then some m.toNat else none
      | _ => none
  | _ => none

def word (t : Tree) : Option UInt32 := (natural UInt32.size t).map UInt32.ofNat

def byte (t : Tree) : Option UInt8 := (natural UInt8.size t).map UInt8.ofNat

/-- A whole number of 64 bits with a sign. -/
def integer : Tree → Option Int64
  | .number n =>
      match n.value with
      | some (.natural m) => if m.toNat < UInt64.size / 2 then some m.toInt64 else none
      | some (.negative m) => some m
      | _ => none
  | _ => none

/-- A number as a 32-bit float: a whole one is rounded once, any other one is
rounded to 64 bits first. -/
def float : Tree → Option Float32
  | .number n =>
      match n.value with
      | some (.natural m) => some m.toFloat32
      | some (.negative m) => some m.toFloat32
      | some (.float x) => some x.toFloat32
      | none => none
  | _ => none

def boolean : Tree → Option Bool
  | .bool b => some b
  | _ => none

/-- A text of at most a number of bytes. -/
def text (bytes : Nat) : Tree → Option String
  | .text (some s) => if s.utf8ByteSize ≤ bytes then some s else none
  | _ => none

def choice : Tree → Option String
  | .text s => s
  | .object [(key, .null)] => key
  | _ => none

def tagged : Tree → Option (String × Tree)
  | .object [(some key, t)] => some (key, t)
  | _ => none

end Telemetry.Stored
