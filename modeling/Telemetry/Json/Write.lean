import Telemetry.Hex

/-!
# Writing JSON

Compact JSON text: no blanks, members in the given order. Strings escape what
has to be escaped, and the control characters that have a letter of their own
use it.
-/

namespace Telemetry.Json

/-- A character as it stands in a string. -/
def escaped (c : Char) : String :=
  if c = '"' then "\\\""
  else if c = '\\' then "\\\\"
  else if c.toNat = 8 then "\\b"
  else if c = '\t' then "\\t"
  else if c = '\n' then "\\n"
  else if c.toNat = 12 then "\\f"
  else if c = '\r' then "\\r"
  else if c.toNat < 0x20 then "\\u" ++ Hex.ofNat 4 c.toNat
  else String.singleton c

/-- A text as a string. -/
def string (s : String) : String := "\"" ++ String.join (s.toList.map escaped) ++ "\""

def boolean (b : Bool) : String := if b then "true" else "false"

/-- A member of an object whose value is already written. -/
def member (key value : String) : String := string key ++ ":" ++ value

/-- An object of written members. -/
def object (members : List String) : String := "\x7b" ++ ",".intercalate members ++ "\x7d"

end Telemetry.Json
