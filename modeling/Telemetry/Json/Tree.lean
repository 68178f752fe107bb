import Telemetry.Hex

/-!
# JSON as it is written

A tree keeps what a text says before anyone decides what it means: a number is
its digits, and a string its characters, unless its escapes name half of a
character only. Reading a tree decides the grammar and nothing else. There is no
limit on nesting or on the size of a number; such limits belong to those who use
the value.
-/

namespace Telemetry.Json

/-- A number as it is written. -/
structure Numeral where
  negative : Bool
  whole : List Nat
  fraction : Option (List Nat)
  /-- Whether the exponent has a minus sign, and its digits. -/
  exponent : Option (Bool × List Nat)
  deriving DecidableEq, Repr

/-- A JSON text. A string or a key is missing if its escapes make no text. -/
inductive Tree where
  | null
  | bool (value : Bool)
  | number (value : Numeral)
  | text (value : Option String)
  | array (items : List Tree)
  | object (members : List (Option String × Tree))

/-! ## Strings -/

/-- A character between quotes, or the code of an escape in 16 bits. -/
inductive Piece where
  | char (c : Char)
  | code (n : Nat)
  deriving DecidableEq, Repr

/-- What a backslash before a letter stands for. -/
def shortEscape (c : Char) : Option Char :=
  match c with
  | '"' => some '"'
  | '\\' => some '\\'
  | '/' => some '/'
  | 'b' => some (Char.ofNat 8)
  | 'f' => some (Char.ofNat 12)
  | 'n' => some '\n'
  | 'r' => some '\r'
  | 't' => some '\t'
  | _ => none

/-- Reads up to the closing quote. Control characters have to be escaped. -/
def pieces : List Char → Option (List Piece × List Char)
  | [] => none
  | '"' :: rest => some ([], rest)
  | '\\' :: 'u' :: a :: b :: c :: d :: rest => do
      let n ← Hex.toNat? [a, b, c, d]
      let (more, rest) ← pieces rest
      pure (.code n :: more, rest)
  | '\\' :: c :: rest => do
      let c ← shortEscape c
      let (more, rest) ← pieces rest
      pure (.char c :: more, rest)
  | c :: rest =>
      if c.toNat < 0x20 || c = '\\' then none
      else do
        let (more, rest) ← pieces rest
        pure (.char c :: more, rest)

/-- Puts the two halves of a character together; half a character is no text. -/
def assemble : List Piece → Option (List Char)
  | [] => some []
  | .char c :: rest => (assemble rest).map (c :: ·)
  | .code n :: rest =>
      if n < 0xD800 ∨ 0xE000 ≤ n then (assemble rest).map (Char.ofNat n :: ·)
      else
        match rest with
        | .code m :: rest =>
            if n < 0xDC00 ∧ 0xDC00 ≤ m ∧ m < 0xE000 then
              (assemble rest).map
                (Char.ofNat (0x10000 + (n - 0xD800) * 0x400 + (m - 0xDC00)) :: ·)
            else none
        | _ => none

/-- Reads a string whose opening quote is behind. -/
def quoted (s : List Char) : Option (Option String × List Char) :=
  (pieces s).map fun r => ((assemble r.1).map String.ofList, r.2)

/-! ## Numbers -/

/-- Whether a character is a decimal digit. -/
def isDigit (c : Char) : Bool := '0' ≤ c && c ≤ '9'

/-- The values of the digits at the front, and what follows them. -/
def digits (s : List Char) : List Nat × List Char :=
  ((s.takeWhile isDigit).map fun c => c.toNat - '0'.toNat, s.dropWhile isDigit)

/-- Digits, of which there is at least one. -/
def digits1 (s : List Char) : Option (List Nat × List Char) :=
  match digits s with
  | ([], _) => none
  | r => some r

/-- The digits before the point: a zero stands alone. -/
def wholePart (s : List Char) : Option (List Nat × List Char) :=
  match digits1 s with
  | some (0 :: _ :: _, _) => none
  | r => r

/-- The point and the digits behind it, if there is a point. -/
def fractionPart : List Char → Option (Option (List Nat) × List Char)
  | '.' :: s => (digits1 s).map fun r => (some r.1, r.2)
  | s => some (none, s)

/-- The sign of an exponent, if it has one. -/
def exponentSign : List Char → Bool × List Char
  | '-' :: s => (true, s)
  | '+' :: s => (false, s)
  | s => (false, s)

/-- The exponent, if there is one. -/
def exponentPart (s : List Char) : Option (Option (Bool × List Nat) × List Char) :=
  match s with
  | c :: rest =>
      if c = 'e' ∨ c = 'E' then
        let sign := exponentSign rest
        (digits1 sign.2).map fun r => (some (sign.1, r.1), r.2)
      else some (none, s)
  | [] => some (none, [])

/-- Reads a number without its sign. -/
def unsigned (negative : Bool) (s : List Char) : Option (Numeral × List Char) := do
  let (whole, s) ← wholePart s
  let (fraction, s) ← fractionPart s
  let (exponent, s) ← exponentPart s
  pure ({ negative, whole, fraction, exponent }, s)

/-- Reads a number. -/
def numeral : List Char → Option (Numeral × List Char)
  | '-' :: s => unsigned true s
  | s => unsigned false s

/-! ## Values -/

/-- Whether a character may stand between two tokens. -/
def isBlank (c : Char) : Bool := c = ' ' || c = '\n' || c = '\t' || c = '\r'

/-- What follows the blanks at the front. -/
def skip (s : List Char) : List Char := s.dropWhile isBlank

mutual

/-- Reads a value. The first argument bounds the depth of the calls. -/
def value : Nat → List Char → Option (Tree × List Char)
  | 0, _ => none
  | fuel + 1, s =>
      match skip s with
      | 'n' :: 'u' :: 'l' :: 'l' :: rest => some (.null, rest)
      | 't' :: 'r' :: 'u' :: 'e' :: rest => some (.bool true, rest)
      | 'f' :: 'a' :: 'l' :: 's' :: 'e' :: rest => some (.bool false, rest)
      | '"' :: rest => (quoted rest).map fun r => (.text r.1, r.2)
      | '[' :: rest =>
          match skip rest with
          | ']' :: rest => some (.array [], rest)
          | rest => (items fuel rest).map fun r => (.array r.1, r.2)
      | '{' :: rest =>
          match skip rest with
          | '}' :: rest => some (.object [], rest)
          | rest => (members fuel rest).map fun r => (.object r.1, r.2)
      | rest => (numeral rest).map fun r => (.number r.1, r.2)

/-- Reads values up to the closing bracket; there is at least one. -/
def items : Nat → List Char → Option (List Tree × List Char)
  | 0, _ => none
  | fuel + 1, s =>
      match value fuel s with
      | none => none
      | some (v, rest) =>
          match skip rest with
          | ',' :: rest => (items fuel rest).map fun r => (v :: r.1, r.2)
          | ']' :: rest => some ([v], rest)
          | _ => none

/-- Reads members up to the closing brace; there is at least one. -/
def members : Nat → List Char → Option (List (Option String × Tree) × List Char)
  | 0, _ => none
  | fuel + 1, s =>
      match skip s with
      | '"' :: rest =>
          match quoted rest with
          | none => none
          | some (key, rest) =>
              match skip rest with
              | ':' :: rest =>
                  match value fuel rest with
                  | none => none
                  | some (v, rest) =>
                      match skip rest with
                      | ',' :: rest => (members fuel rest).map fun r => ((key, v) :: r.1, r.2)
                      | '}' :: rest => some ([(key, v)], rest)
                      | _ => none
              | _ => none
      | _ => none

end

/-- Reads a text that is one value, with blanks around it. Every call reads a
character or is followed by one that does, so twice the length bounds them. -/
def Tree.read (s : List Char) : Option Tree :=
  match value (2 * s.length + 2) s with
  | some (v, rest) => if (skip rest).isEmpty then some v else none
  | none => none

end Telemetry.Json
