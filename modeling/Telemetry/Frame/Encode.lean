import Telemetry.Definition
import Telemetry.Frame.Draft
import Telemetry.Hex
import Telemetry.Tally

/-!
# How a measurement is written

One sample is written as it is. Of several, the mean stands under the
measurement's name, and the bounds under the name with a suffix; the mean of
whole numbers is cut towards zero. Floats have three decimals. A text stands in
quotes, with every quote, backslash and control character escaped. A
measurement without samples leaves no trace.
-/

namespace Telemetry.Frame

/-- A character as it stands between quotes. -/
def escape (c : Char) : String :=
  if c = '"' then "\\\""
  else if c = '\\' then "\\\\"
  else if c.toNat < 0x20 then "\\u" ++ Hex.ofNat 4 c.toNat
  else String.singleton c

namespace Draft

/-- Writes the characters of a text one by one. -/
def pushEscaped (f : Draft) : List Char → Option Draft
  | [] => some f
  | c :: rest => (f.push (escape c)).bind fun f => f.pushEscaped rest

/-- Writes a text under a name. -/
def textField (f : Draft) (name text : String) : Option Draft :=
  (f.field name "\"").bind fun f => (f.pushEscaped text.toList).bind fun f => f.push "\""

/-- Writes a mean under a name, and the bounds after it. -/
def meanFields (f : Draft) (name mean least greatest : String) : Option Draft :=
  (f.field name mean).bind fun f => (f.field (name ++ "_min") least).bind fun f =>
    f.field (name ++ "_max") greatest

/-- Writes what a measurement's readings amount to, or nothing at all. -/
def append (f : Draft) (name : String) (t : Tally) : Option Draft :=
  match t.summary with
  | .empty => some f
  | .text last => f.textField name last
  | .integer sum least greatest =>
      if t.samples ≤ 1 then f.field name (toString sum.toInt)
      else
        let mean := sum / t.samples.toUInt64.toInt64
        f.meanFields name (toString mean.toInt) (toString least.toInt) (toString greatest.toInt)
  | .float sum least greatest =>
      if t.samples ≤ 1 then f.field name (Decimal.ofFloat sum)
      else
        let mean := sum / t.samples.toFloat32
        f.meanFields name (Decimal.ofFloat mean) (Decimal.ofFloat least)
          (Decimal.ofFloat greatest)

end Draft

end Telemetry.Frame
