/-!
# Hexadecimal digits

Numbers as hexadecimal digits and back, with a fixed number of digits in lower
case; both cases are read.
-/

namespace Telemetry.Hex

/-- The digit of a number below sixteen. -/
def digit (n : Nat) : Char := Char.ofNat (if n < 10 then '0'.toNat + n else 'a'.toNat + (n - 10))

/-- The last digits of a number, as many as asked for. -/
def digits (n : Nat) : Nat → List Char
  | 0 => []
  | width + 1 => digits (n / 16) width ++ [digit (n % 16)]

/-- A number with a fixed number of digits. -/
def ofNat (width n : Nat) : String := String.ofList (digits n width)

def value (c : Char) : Option Nat :=
  if '0' ≤ c ∧ c ≤ '9' then some (c.toNat - '0'.toNat)
  else if 'a' ≤ c ∧ c ≤ 'f' then some (c.toNat - 'a'.toNat + 10)
  else if 'A' ≤ c ∧ c ≤ 'F' then some (c.toNat - 'A'.toNat + 10)
  else none

/-- Reads digits behind a number that was read before. -/
def readFrom (n : Nat) : List Char → Option Nat
  | [] => some n
  | c :: rest => (value c).bind fun d => readFrom (n * 16 + d) rest

/-- The number that digits write. -/
def toNat? (chars : List Char) : Option Nat := readFrom 0 chars

/-- The bytes that pairs of digits write. -/
def toBytes? : List Char → Option (List UInt8)
  | [] => some []
  | a :: b :: rest => do
      let n ← toNat? [a, b]
      let more ← toBytes? rest
      pure (UInt8.ofNat n :: more)
  | _ => none

end Telemetry.Hex
