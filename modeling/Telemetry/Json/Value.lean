import Telemetry.Json.Number

/-!
# JSON values

A value is what a JSON text means: numbers have their values, strings are text,
and of several members under one key only the last one counts. Values may be
nested, but not without a limit.
-/

namespace Telemetry.Json

/-- The meaning of a JSON text. -/
inductive Value where
  | null
  | bool (value : Bool)
  | number (value : Number)
  | text (value : String)
  | array (items : List Value)
  | object (members : List (String × Value))

namespace Value

/-- Puts a member in front of others, unless its key comes again. -/
def join (key : String) (v : Value) (rest : List (String × Value)) : List (String × Value) :=
  if rest.any (·.1 == key) then rest else (key, v) :: rest

/-- How many arrays and objects may stand inside one another. -/
def nesting : Nat := 127

mutual

/-- The meaning of a tree with at most a number of arrays and objects inside
one another. -/
def ofTree (depth : Nat) : Tree → Option Value
  | .null => some .null
  | .bool b => some (.bool b)
  | .number n => n.value.map .number
  | .text s => s.map .text
  | .array items => if depth = 0 then none else (ofItems (depth - 1) items).map .array
  | .object members => if depth = 0 then none else (ofMembers (depth - 1) members).map .object

/-- The meaning of an array's items. -/
def ofItems (depth : Nat) : List Tree → Option (List Value)
  | [] => some []
  | t :: rest => do
      let v ← ofTree depth t
      let vs ← ofItems depth rest
      pure (v :: vs)

/-- The meaning of an object's members. -/
def ofMembers (depth : Nat) : List (Option String × Tree) → Option (List (String × Value))
  | [] => some []
  | (key, t) :: rest => do
      let key ← key
      let v ← ofTree depth t
      let vs ← ofMembers depth rest
      pure (join key v vs)

end

/-- The meaning of a text. -/
def read (s : String) : Option Value := (Tree.read s.toList).bind (ofTree nesting)

/-- The meaning of bytes, which have to be a text in UTF-8. -/
def ofBytes (bytes : ByteArray) : Option Value := (String.fromUTF8? bytes).bind read

end Value

end Telemetry.Json
