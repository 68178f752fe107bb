import Telemetry.Decimal
import Telemetry.Limits

/-!
# Readings

A sensor answers with a whole number, a float or a short text. The three kinds
never mix in one measurement.
-/

namespace Telemetry

inductive ValueKind where
  | integer
  | float
  | text
  deriving DecidableEq, Repr, Inhabited

def ValueKind.label : ValueKind → String
  | .integer => "Integer"
  | .float => "Float"
  | .text => "Text"

inductive Reading where
  | integer (value : Int64)
  | float (value : Float32)
  | text (value : String)

namespace Reading

def kind : Reading → ValueKind
  | .integer _ => .integer
  | .float _ => .float
  | .text _ => .text

/-- The longest run of leading characters that takes at most `room` bytes. -/
def fitting (room : Nat) : List Char → List Char
  | [] => []
  | c :: rest => if c.utf8Size ≤ room then c :: fitting (room - c.utf8Size) rest else []

/-- A text reading, cut at a character if the text is too long. -/
def ofText (text : String) : Reading :=
  .text (String.ofList (fitting Limits.textBytes text.toList))

/-- A reading as a person sees it: a float with three decimals, a text in
quotes as it stands. -/
def display : Reading → String
  | .integer value => toString value.toInt
  | .float value => Decimal.ofFloat value
  | .text value => "\"" ++ value ++ "\""

end Reading

end Telemetry
