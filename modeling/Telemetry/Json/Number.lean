import Telemetry.Decimal
import Telemetry.Json.Tree

/-!
# The value of a number

A number without a point and an exponent is a whole number if it fits a 64-bit
word: one without a sign, or a negative one. Everything else is a float, also a
negative zero.

A float is found from a significand of 64 bits and a power of ten. Digits that
do not fit the significand are dropped, and the power is moved instead; then the
significand is multiplied or divided once, or more often if the power is out of
the range of floats. A number too large for a float has no value, and one too
small is zero.
-/

namespace Telemetry.Json

/-- The value of a number. -/
inductive Number where
  | natural (n : UInt64)
  | negative (n : Int64)
  | float (x : Float)

/-- Takes digits into a significand while it fits 64 bits; gives back the
digits that are left. -/
def gather (significand : Nat) : List Nat → Nat × List Nat
  | [] => (significand, [])
  | d :: rest =>
      if significand * 10 + d < UInt64.size then gather (significand * 10 + d) rest
      else (significand, d :: rest)

/-- The bits of the 64-bit float nearest to a positive whole number; a half goes
to the even neighbour. -/
def nearestBits (n : Nat) : Nat :=
  let e := n.log2
  let mantissa := if e ≤ 52 then n <<< (52 - e) else Decimal.roundDiv n (1 <<< (e - 52))
  ((e + 1022) <<< 52) + mantissa

/-- A power of ten as a float. -/
def powerOfTen (k : Nat) : Float := Float.ofBits (UInt64.ofNat (nearestBits (Nat.pow 10 k)))

/-- The largest power of ten that is a float. -/
def topPower : Nat := 308

/-- A float moved down by a power of ten, in steps of the largest one. -/
def lower (x : Float) (k : Nat) : Float :=
  if k ≤ topPower then x / powerOfTen k
  else if x == 0 then x
  else lower (x / powerOfTen topPower) (k - topPower)
termination_by k
decreasing_by simp only [topPower] at *; omega

/-- A float moved up by a power of ten, if it stays finite. -/
def raise (x : Float) (k : Nat) : Option Float :=
  if k ≤ topPower then
    let y := x * powerOfTen k
    if y.isInf then none else some y
  else if x == 0 then some x
  else none

/-- The float of a significand and a power of ten. -/
def scale (significand : Nat) (power : Int) : Option Float :=
  let x := (UInt64.ofNat significand).toFloat
  match power with
  | .ofNat k => raise x k
  | .negSucc k => some (lower x (k + 1))

/-- A float under a sign. -/
def signed (negative : Bool) (x : Float) : Float := if negative then -x else x

/-- The number that digits write. -/
def natOf (digits : List Nat) : Nat := digits.foldl (fun n d => n * 10 + d) 0

/-- The power of ten that an exponent makes of an earlier one. An exponent
beyond 32 bits has no value, unless it is there to make something small. -/
def withExponent (significand : Nat) (power : Int) : Option (Bool × List Nat) → Option Float
  | none => scale significand power
  | some (minus, digits) =>
      let e := natOf digits
      if UInt32.size / 2 ≤ e then
        if significand ≠ 0 ∧ !minus then none else some 0
      else scale significand (if minus then power - e else power + e)

namespace Numeral

/-- The value of a numeral as a float. -/
def float (n : Numeral) : Option Float :=
  let (whole, extra) := gather 0 n.whole
  let (significand, power) := match n.fraction with
    | none => (whole, (extra.length : Int))
    | some fraction =>
        let (all, rest) := gather whole fraction
        (all, (extra.length : Int) - (fraction.length - rest.length : Nat))
  (withExponent significand power n.exponent).map (signed n.negative)

/-- Whether a numeral has neither a point nor an exponent. -/
def isWhole (n : Numeral) : Bool := n.fraction.isNone && n.exponent.isNone

/-- The value of a numeral, if it is in range. -/
def value (n : Numeral) : Option Number :=
  let m := natOf n.whole
  if n.isWhole && !n.negative && m < UInt64.size then some (.natural (UInt64.ofNat m))
  else if n.isWhole && n.negative && 0 < m && m ≤ UInt64.size / 2 then
    some (.negative (Int64.ofInt (-(m : Int))))
  else n.float.map .float

end Numeral

end Telemetry.Json
