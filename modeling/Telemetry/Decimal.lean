/-!
# Floats with three decimals

A finite 32-bit float is `mantissa * 2 ^ exponent` for whole numbers, so its
value in thousandths is a fraction of naturals and can be rounded exactly. The
text has no exponent and always three decimals; a half goes to the even
neighbour, a negative zero keeps its sign, and the values that are no numbers
have names of their own.
-/

namespace Telemetry.Decimal

/-- The quotient rounded to the nearest whole number, a half to the even one. -/
def roundDiv (num den : Nat) : Nat :=
  let below := num / den
  let twice := 2 * (num % den)
  if twice < den then below
  else if den < twice then below + 1
  else below + below % 2

/-- What the bits of a 32-bit float stand for. -/
inductive Parts where
  | notANumber
  | infinite (negative : Bool)
  | finite (negative : Bool) (mantissa : Nat) (exponent : Int)
  deriving DecidableEq, Repr

/-- Splits the bits into sign, eight bits of exponent and 23 bits of fraction.
The least exponent field leaves the leading one out, and the largest holds the
infinities and the values that are no numbers. -/
def Parts.ofBits (bits : UInt32) : Parts :=
  let negative := bits.toNat >>> 31 = 1
  let field : Nat := (bits.toNat >>> 23) % 256
  let fraction := bits.toNat % 0x800000
  if field = 255 then
    if fraction = 0 then .infinite negative else .notANumber
  else if field = 0 then .finite negative fraction (-149)
  else .finite negative (0x800000 + fraction) ((field : Int) - 150)

/-- The value `mantissa * 2 ^ exponent` in whole thousandths. -/
def thousandths (mantissa : Nat) (exponent : Int) : Nat :=
  match exponent with
  | .ofNat up => (mantissa * 1000) <<< up
  | .negSucc down => roundDiv (mantissa * 1000) (1 <<< (down + 1))

/-- Three digits, with leading zeros. -/
def threeDigits (n : Nat) : String :=
  toString (n / 100 % 10) ++ toString (n / 10 % 10) ++ toString (n % 10)

/-- A count of thousandths with a point before its last three digits. -/
def ofThousandths (n : Nat) : String := toString (n / 1000) ++ "." ++ threeDigits (n % 1000)

/-- The text of a 32-bit float with three decimals. -/
def ofFloat (value : Float32) : String :=
  match Parts.ofBits value.toBits with
  | .notANumber => "NaN"
  | .infinite negative => if negative then "-inf" else "inf"
  | .finite negative mantissa exponent =>
      (if negative then "-" else "") ++ ofThousandths (thousandths mantissa exponent)

/-- Rounding is within half a unit, from below. -/
theorem two_mul_le_roundDiv (num den : Nat) (h : 0 < den) :
    2 * num ≤ 2 * (roundDiv num den * den) + den := by
  have hdm := Nat.div_add_mod num den
  have hlt := Nat.mod_lt num h
  rw [Nat.mul_comm den] at hdm
  unfold roundDiv
  dsimp only
  split
  · omega
  · split
    · rw [Nat.add_mul]; omega
    · rw [Nat.add_mul]; omega

/-- Rounding is within half a unit, from above. -/
theorem two_mul_roundDiv_le (num den : Nat) :
    2 * (roundDiv num den * den) ≤ 2 * num + den := by
  have hdm := Nat.div_add_mod num den
  rw [Nat.mul_comm den] at hdm
  unfold roundDiv
  dsimp only
  split
  · omega
  · split
    · rw [Nat.add_mul]; omega
    · rcases Nat.mod_two_eq_zero_or_one (num / den) with h0 | h1
      · rw [h0, Nat.add_zero]; omega
      · rw [h1, Nat.add_mul]; omega

end Telemetry.Decimal
