import Telemetry.Json.Number

/-!
# Numbers as they are written

Whole numbers and decimals are written without thought of JSON: by the
library's own digits, a sign in front and three decimals behind. That the
grammar reads them back is no accident of one number. The digits of a number do
not begin with a zero unless it is zero, and whatever follows a number in a
frame is neither a digit nor a point nor the letter of an exponent.

`numeral_whole` and `numeral_decimal` say what is read, and `value_ofInt` that
the value of a whole number in 64 bits is that number. A float that is no number
is not read at all.
-/

namespace Telemetry.Json

/-! ## Digits -/

/-- The values of a number's decimal digits. -/
def decimals (n : Nat) : List Nat := (Nat.toDigits 10 n).map fun c => c.toNat - '0'.toNat

theorem isDigit_eq (c : Char) : isDigit c = c.isDigit := rfl

theorem isDigit_of_mem_toDigits {n : Nat} {c : Char} (h : c ∈ Nat.toDigits 10 n) : isDigit c :=
  Nat.isDigit_of_mem_toDigits (by omega) (by omega) h

theorem natOf_decimals (n : Nat) : natOf (decimals n) = n := by
  have hfold : natOf (decimals n) = Nat.ofDigitChars 10 (Nat.toDigits 10 n) 0 := by
    rw [natOf, decimals, List.foldl_map, Nat.ofDigitChars]
    congr
    funext sofar c
    rw [Nat.mul_comm]
  rw [hfold, Nat.ofDigitChars_toDigits (by omega) (by omega)]

theorem decimals_of_lt {n : Nat} (h : n < 10) : decimals n = [n] := by
  rw [decimals, Nat.toDigits_of_lt_base h, List.map_singleton, Nat.toNat_digitChar_of_lt_ten h]
  simp

theorem decimals_of_le {n : Nat} (h : 10 ≤ n) : decimals n = decimals (n / 10) ++ [n % 10] := by
  rw [decimals, Nat.toDigits_of_base_le (by omega) h, List.map_append, List.map_singleton,
    Nat.toNat_digitChar_of_lt_ten (by omega)]
  simp [decimals]

/-- Only zero begins with a zero. -/
theorem decimals_head {n : Nat} (h : 0 < n) : ∃ d more, decimals n = d :: more ∧ d ≠ 0 := by
  induction n using Nat.strongRecOn with
  | ind n ih =>
      by_cases hlt : n < 10
      · exact ⟨n, [], decimals_of_lt hlt, by omega⟩
      · obtain ⟨d, more, hhead, hd⟩ := ih (n / 10) (by omega) (by omega)
        exact ⟨d, more ++ [n % 10], by rw [decimals_of_le (by omega), hhead]; rfl, hd⟩

/-! ## What follows a number -/

/-- The text does not go on with a character that could belong to a number. -/
def Ends (rest : List Char) : Prop :=
  ∀ c, rest.head? = some c → isDigit c = false ∧ c ≠ '.' ∧ c ≠ 'e' ∧ c ≠ 'E'

theorem ends_comma (rest : List Char) : Ends (',' :: rest) := by
  intro c h
  cases h
  decide

theorem ends_brace (rest : List Char) : Ends ('}' :: rest) := by
  intro c h
  cases h
  decide

theorem digits_append {ds rest : List Char} (hds : ∀ c ∈ ds, isDigit c)
    (hrest : ∀ c, rest.head? = some c → isDigit c = false) :
    digits (ds ++ rest) = (ds.map fun c => c.toNat - '0'.toNat, rest) := by
  have hnone : rest.takeWhile isDigit = [] ∧ rest.dropWhile isDigit = rest := by
    cases rest with
    | nil => exact ⟨rfl, rfl⟩
    | cons c rest => simp [hrest c rfl]
  rw [digits, List.takeWhile_append_of_pos hds, List.dropWhile_append_of_pos hds, hnone.1, hnone.2,
    List.append_nil]

theorem wholePart_toString (n : Nat) {rest : List Char}
    (hrest : ∀ c, rest.head? = some c → isDigit c = false) :
    wholePart ((toString n).toList ++ rest) = some (decimals n, rest) := by
  have hdigits : digits1 ((toString n).toList ++ rest) = some (decimals n, rest) := by
    rw [Nat.toString_eq_repr, Nat.toList_repr, digits1,
      digits_append (fun _ hc => isDigit_of_mem_toDigits hc) hrest]
    split
    · next h => simp at h
    · rfl
  rw [wholePart, hdigits]
  split
  · next d e more s h =>
      obtain ⟨hzero, -⟩ := Prod.ext_iff.mp (Option.some.inj h)
      simp only at hzero
      cases n with
      | zero => simp [decimals] at hzero
      | succ n =>
          obtain ⟨d, more, hhead, hd⟩ := decimals_head (Nat.succ_pos n)
          rw [hhead] at hzero
          injection hzero with hd'
          exact absurd hd' hd
  · rfl

theorem exponentPart_ends {rest : List Char} (h : Ends rest) :
    exponentPart rest = some (none, rest) := by
  cases rest with
  | nil => rfl
  | cons c rest =>
      obtain ⟨-, -, he, hE⟩ := h c rfl
      simp [exponentPart, he, hE]

theorem fractionPart_ends {rest : List Char} (h : Ends rest) :
    fractionPart rest = some (none, rest) := by
  unfold fractionPart
  split
  · exact absurd rfl (h '.' rfl).2.1
  · rfl

/-! ## Whole numbers -/

/-- A whole number as a numeral. -/
def Numeral.ofInt (n : Int) : Numeral where
  negative := n < 0
  whole := decimals n.natAbs
  fraction := none
  exponent := none

theorem unsigned_toString (negative : Bool) (n : Nat) {rest : List Char} (h : Ends rest) :
    unsigned negative ((toString n).toList ++ rest) =
      some ({ negative, whole := decimals n, fraction := none, exponent := none }, rest) := by
  rw [unsigned, wholePart_toString n fun c hc => (h c hc).1]
  simp [fractionPart_ends h, exponentPart_ends h]

/-- A text that begins with a digit has no sign. -/
theorem numeral_of_digit {c : Char} (hc : isDigit c) (s : List Char) :
    numeral (c :: s) = unsigned false (c :: s) := by
  unfold numeral
  split
  · next h =>
      cases h
      simp [isDigit] at hc
  · rfl

theorem toString_head (n : Nat) : ∃ c s, (toString n).toList = c :: s ∧ isDigit c := by
  rw [Nat.toString_eq_repr, Nat.toList_repr]
  cases h : Nat.toDigits 10 n with
  | nil => simp at h
  | cons c s => exact ⟨c, s, rfl, isDigit_of_mem_toDigits (n := n) (by simp [h])⟩

theorem numeral_toString (n : Nat) (rest : List Char) :
    numeral ((toString n).toList ++ rest) = unsigned false ((toString n).toList ++ rest) := by
  obtain ⟨c, s, hs, hc⟩ := toString_head n
  rw [hs]
  exact numeral_of_digit hc _

theorem numeral_whole (n : Int) {rest : List Char} (h : Ends rest) :
    numeral ((toString n).toList ++ rest) = some (.ofInt n, rest) := by
  rw [Int.toString_eq_repr, Int.repr_eq_if]
  split
  · next hle =>
      have hneg : ¬ n < 0 := by omega
      rw [← Nat.toString_eq_repr, numeral_toString, unsigned_toString false _ h, Numeral.ofInt]
      simp [hneg, show n.toNat = n.natAbs by omega]
  · next hlt =>
      have hneg : n < 0 := by omega
      have hsign : numeral (("-" ++ (-n).toNat.repr).toList ++ rest) =
          unsigned true ((toString (-n).toNat).toList ++ rest) := by
        rw [String.toList_append]
        rfl
      rw [hsign, unsigned_toString true _ h, Numeral.ofInt]
      simp [hneg, show (-n).toNat = n.natAbs by omega]

/-- A whole number as a JSON value. -/
def Number.ofInt (n : Int) : Number :=
  if 0 ≤ n then .natural (UInt64.ofNat n.toNat) else .negative (Int64.ofInt n)

/-- The value of a whole number that fits 64 bits is that number. -/
theorem value_ofInt {n : Int} (hlow : Int64.minValue.toInt ≤ n) (hhigh : n ≤ Int64.maxValue.toInt) :
    (Numeral.ofInt n).value = some (.ofInt n) := by
  rw [Int64.toInt_minValue] at hlow
  rw [Int64.toInt_maxValue] at hhigh
  have hsize : UInt64.size = 18446744073709551616 := rfl
  rw [Numeral.value, Number.ofInt]
  simp only [Numeral.isWhole, Numeral.ofInt, natOf_decimals]
  by_cases hneg : n < 0
  · have hpos : 0 < n.natAbs := by omega
    have hbound : n.natAbs ≤ UInt64.size / 2 := by omega
    have habs : -(n.natAbs : Int) = n := by omega
    rw [if_neg (by simp [hneg]), if_pos (by simp [hneg, hpos, hbound]), habs, if_neg (by omega)]
  · have hbound : n.natAbs < UInt64.size := by omega
    have habs : n.natAbs = n.toNat := by omega
    rw [if_pos (by simp [hneg, hbound]), habs, if_pos (by omega)]

/-! ## Decimals -/

theorem toList_toString_of_lt {n : Nat} (h : n < 10) : (toString n).toList = [n.digitChar] := by
  rw [Nat.toString_eq_repr, Nat.toList_repr, Nat.toDigits_of_lt_base h]

/-- The three digits behind the point of a count of thousandths. -/
def thousandthDigits (n : Nat) : List Nat := [n / 100 % 10, n / 10 % 10, n % 10]

theorem digits_threeDigits (n : Nat) {rest : List Char}
    (hrest : ∀ c, rest.head? = some c → isDigit c = false) :
    digits1 ((Decimal.threeDigits n).toList ++ rest) = some (thousandthDigits n, rest) := by
  have hdigit : ∀ k, k % 10 < 10 := fun k => Nat.mod_lt _ (by omega)
  have hchars : (Decimal.threeDigits n).toList =
      [(n / 100 % 10).digitChar, (n / 10 % 10).digitChar, (n % 10).digitChar] := by
    simp only [Decimal.threeDigits, String.toList_append, toList_toString_of_lt (hdigit _)]
    rfl
  rw [digits1, hchars, digits_append ?_ hrest]
  · simp [thousandthDigits, Nat.toNat_digitChar_of_lt_ten (hdigit _)]
  · intro c hc
    rw [isDigit_eq]
    simp only [List.mem_cons, List.not_mem_nil, or_false] at hc
    rcases hc with rfl | rfl | rfl
    all_goals simp [Nat.isDigit_digitChar, hdigit]

/-- A count of thousandths under a sign, as a numeral. -/
def Numeral.ofThousandths (negative : Bool) (n : Nat) : Numeral where
  negative := negative
  whole := decimals (n / 1000)
  fraction := some (thousandthDigits (n % 1000))
  exponent := none

theorem unsigned_ofThousandths (negative : Bool) (n : Nat) {rest : List Char} (h : Ends rest) :
    unsigned negative ((Decimal.ofThousandths n).toList ++ rest) =
      some (.ofThousandths negative n, rest) := by
  have hpoint : ∀ s : List Char, ∀ c, ('.' :: s).head? = some c → isDigit c = false := by
    intro s c hc
    cases hc
    decide
  have htext : (Decimal.ofThousandths n).toList ++ rest =
      (toString (n / 1000)).toList ++ '.' :: ((Decimal.threeDigits (n % 1000)).toList ++ rest) := by
    simp [Decimal.ofThousandths]
  rw [htext, unsigned, wholePart_toString _ (hpoint _)]
  simp [fractionPart, digits_threeDigits _ fun c hc => (h c hc).1, exponentPart_ends h,
    Numeral.ofThousandths]

/-- A 32-bit float with three decimals, as a numeral; infinities have none. -/
def Numeral.ofFloat? (x : Float32) : Option Numeral :=
  match Decimal.Parts.ofBits x.toBits with
  | .notANumber | .infinite _ => none
  | .finite negative mantissa exponent =>
      some (.ofThousandths negative (Decimal.thousandths mantissa exponent))

theorem ofThousandths_head (n : Nat) :
    ∃ c s, (Decimal.ofThousandths n).toList = c :: s ∧ isDigit c := by
  obtain ⟨c, s, hs, hc⟩ := toString_head (n / 1000)
  refine ⟨c, s ++ '.' :: (Decimal.threeDigits (n % 1000)).toList, ?_, hc⟩
  simp only [Decimal.ofThousandths, String.toList_append, hs, List.cons_append, List.append_assoc]
  rfl

/-- A float is read as it is written, and one that is no number is not read. -/
theorem numeral_decimal (x : Float32) {rest : List Char} (h : Ends rest) :
    numeral ((Decimal.ofFloat x).toList ++ rest) = (Numeral.ofFloat? x).map (·, rest) := by
  unfold Decimal.ofFloat Numeral.ofFloat?
  generalize Decimal.Parts.ofBits x.toBits = parts
  cases parts with
  | notANumber => rfl
  | infinite negative => cases negative <;> rfl
  | finite negative mantissa exponent =>
      have hread := unsigned_ofThousandths negative (Decimal.thousandths mantissa exponent) h
      cases negative with
      | true => simpa [numeral] using hread
      | false =>
          obtain ⟨c, s, hs, hc⟩ := ofThousandths_head (Decimal.thousandths mantissa exponent)
          rw [hs] at hread
          simp only [Bool.false_eq_true, if_false, String.empty_append, hs]
          exact (numeral_of_digit hc _).trans hread

end Telemetry.Json
