import Telemetry.Proofs.Numerals

/-!
# A 32-bit float read back

The decimals of a 32-bit float may be more than the significand of a reader can
hold, and what is left over becomes a power of ten. The float that is made of
them must not overflow, or the number would have no value.

The bounds here are crude on purpose. A float is `Tame` below an exponent if it
is finite and its own exponent is not larger; rounding raises the exponent by
little more than the bits of the mantissa, so products of what occurs here stay
hundreds of bits below infinity.
-/

namespace Telemetry.Json

open Float.Model Float.Model.UnpackedFloat

/-! ## Rounding -/

/-- Neither infinite nor the result of no operation, with an exponent that is bounded. -/
def Tame (bound : Int) : UnpackedFloat → Prop
  | .zero _ => True
  | .finite _ _ e _ => e ≤ bound
  | _ => False

theorem Tame.mono {low high : Int} {x : UnpackedFloat} (h : Tame low x) (hle : low ≤ high) :
    Tame high x := by
  cases x with
  | zero s => trivial
  | finite s m e hm => exact Int.le_trans h hle
  | infinity s => exact h
  | notANumber => exact h

theorem holds_dite {P : UnpackedFloat → Prop} {p : Prop} [Decidable p] {x : p → UnpackedFloat}
    {y : ¬ p → UnpackedFloat} (hx : ∀ h, P (x h)) (hy : ∀ h, P (y h)) : P (dite p x y) := by
  by_cases h : p
  · rw [dif_pos h]
    exact hx h
  · rw [dif_neg h]
    exact hy h

theorem Tame.not_isInf {bound : Int} {x : UnpackedFloat} (h : Tame bound x) : x.isInf = false := by
  cases x with
  | infinity s => exact h.elim
  | notANumber => rfl
  | zero s => rfl
  | finite s m e hm => rfl

instance (bound : Int) (x : UnpackedFloat) : Decidable (Tame bound x) :=
  match x with
  | .zero _ => .isTrue trivial
  | .finite _ _ e _ => inferInstanceAs (Decidable (e ≤ bound))
  | .infinity _ | .notANumber => .isFalse id

theorem mantissa_shift_le (em : ExtendedMantissa) (k : Nat) :
    (em >>> k).mantissa ≤ em.mantissa := by
  induction k with
  | zero => exact Nat.le_refl _
  | succ k ih =>
      change (em >>> k).mantissa / 2 ≤ em.mantissa
      omega

theorem roundedMantissa_le (em : ExtendedMantissa) : em.roundedMantissa ≤ em.mantissa + 1 := by
  obtain ⟨m, round, sticky⟩ := em
  cases round <;> cases sticky <;>
    simp [ExtendedMantissa.roundedMantissa, ExtendedMantissa.accuracy, Accuracy.roundToNearestEven]
  omega

theorem log2_le_of_le_succ {m r : Nat} (h : r ≤ m + 1) : r.log2 ≤ m.log2 + 1 := by
  by_cases hr : r = 0
  · simp [hr]
  · have hm := Nat.lt_log2_self (n := m)
    have hlt : r.log2 < m.log2 + 2 := by
      rw [Nat.log2_lt hr, Nat.pow_succ]
      omega
    omega

theorem targetExponent_binary64 (n : Int) :
    Format.binary64.targetExponent n = max (n - 53) (-1074) := rfl

/-- The exponent after a shift. -/
theorem shift_exponent (m : Nat) (e : Int) (a : Accuracy) :
    (shiftToTargetExponent Format.binary64 m e a).2 = max e (max (m.log2 + e - 52) (-1074)) := by
  simp only [shiftToTargetExponent, shiftToExponent, targetExponent_binary64, totalExponent]
  omega

theorem shift_mantissa_le (m : Nat) (e : Int) :
    (shiftToTargetExponent Format.binary64 m e .exact).1.mantissa ≤ m :=
  mantissa_shift_le _ _

/-- Rounding raises the exponent by the bits of the mantissa, at most twice. -/
theorem tame_round (s : Sign) {m b : Nat} (hm : m.log2 ≤ b) (e : Int) :
    Tame (max e (-1074) + 2 * b + 1) (roundWithAccuracy Format.binary64 s m e .exact) := by
  have hmantissa := shift_mantissa_le m e
  have hexponent := shift_exponent m e .exact
  rw [roundWithAccuracy]
  generalize shiftToTargetExponent Format.binary64 m e .exact = first at *
  obtain ⟨em, e₁⟩ := first
  have hround := log2_le_of_le_succ (Nat.le_trans (roundedMantissa_le em) (Nat.succ_le_succ hmantissa))
  have hexponent' := shift_exponent em.roundedMantissa e₁ .exact
  dsimp only at hexponent ⊢
  generalize shiftToTargetExponent Format.binary64 em.roundedMantissa e₁ .exact = second at *
  obtain ⟨em', e₂⟩ := second
  dsimp only at hexponent'
  refine holds_dite (fun _ => trivial) fun _ => ?_
  change e₂ ≤ _
  omega

/-! ## Packing -/

/-- The mantissa has at most 53 bits. -/
def Narrow : UnpackedFloat → Prop
  | .finite _ m _ _ => m.log2 ≤ 52
  | _ => True

theorem log2_le_of_lt {m b : Nat} (hb : m < Nat.pow 2 (b + 1)) : m.log2 ≤ b := by
  by_cases hm : m = 0
  · simp [hm]
  · have hlt := (Nat.log2_lt hm).mpr hb
    omega

theorem narrow_unpack (x : BitVec 64) : Narrow (unpack Format.binary64 x) := by
  unfold UnpackedFloat.unpack
  refine iteInduction (fun _ => iteInduction (fun _ => trivial) fun _ => trivial) fun _ =>
    iteInduction (fun _ => holds_dite (fun _ => trivial) fun _ => ?_) fun _ => ?_
  · refine log2_le_of_lt (Nat.lt_of_lt_of_le (BitVec.isLt _) ?_)
    exact Nat.pow_le_pow_right (by omega) (show 52 ≤ 53 by omega)
  · exact log2_le_of_lt (BitVec.isLt _)

/-- The exponent field says how large a float can be. -/
theorem tame_components (s : Sign) {e : BitVec 11} (m : BitVec 52) (h : e ≠ -1#11) :
    Tame (max (e.toNat - 1075) (-1074))
      (unpack Format.binary64 (packComponents Format.binary64 s e m)) := by
  have hexponent : unpackExponent (packComponents Format.binary64 s e m) = e :=
    unpackExponent_packComponents
  unfold UnpackedFloat.unpack
  refine iteInduction (fun hall => absurd (hexponent.symm.trans hall) h) fun _ =>
    iteInduction (fun hzero => holds_dite (fun _ => trivial) fun _ => ?_) fun _ => ?_
  · have hnat : e.toNat = 0 := by
      rw [hexponent] at hzero
      simp [hzero]
    change ((unpackExponent (packComponents Format.binary64 s e m)).toNat : Int) - (1023 + 52) + 1 ≤ _
    rw [hexponent]
    omega
  · change ((unpackExponent (packComponents Format.binary64 s e m)).toNat : Int) - (1023 + 52) ≤ _
    rw [hexponent]
    omega

theorem pack_finite (s : Sign) {m : Nat} (e : Int) (hm : 0 < m) :
    pack Format.binary64 (.finite s m e hm) =
      if 2048 ≤ (e + 1023 + 52).toNat + 1 then packedInfinity Format.binary64 s
      else if m.log2 + 1 = 53 then
        packComponents Format.binary64 s (BitVec.ofNat 11 (e + 1023 + 52).toNat) (BitVec.ofNat 52 m)
      else packComponents Format.binary64 s 0 (BitVec.ofNat 52 m) := rfl

/-- A float that fits the format is unpacked as one that is no larger. -/
theorem unpack_pack_tame {x : UnpackedFloat} {bound : Int} (h : Tame bound x)
    (hlow : -1074 ≤ bound) (hhigh : bound ≤ 971) :
    Tame bound (unpack Format.binary64 (pack Format.binary64 x)) := by
  cases x with
  | infinity s => exact h.elim
  | notANumber => exact h.elim
  | zero s =>
      have hfield := tame_components s 0#52 (show (0#11) ≠ -1#11 by decide)
      exact hfield.mono (by simp; omega)
  | finite s m e hm =>
      have he : e ≤ bound := h
      rw [pack_finite, if_neg (by omega)]
      split
      · generalize hfield : Int.toNat _ = n
        have hn : n < 2047 := by omega
        have hnat : (BitVec.ofNat 11 n).toNat = n := by
          rw [BitVec.toNat_ofNat, Nat.mod_eq_of_lt (by omega)]
        refine (tame_components s _ ?_).mono ?_
        · intro heq
          have hall := congrArg BitVec.toNat heq
          rw [hnat] at hall
          simp at hall
          omega
        · rw [hnat]
          omega
      · exact (tame_components s _ (by decide)).mono (by simp; omega)

/-! ## Products -/

theorem log2_mul_le (m n : Nat) : (m * n).log2 ≤ m.log2 + n.log2 + 1 := by
  by_cases h : m * n = 0
  · simp [h]
  · have hm := Nat.lt_log2_self (n := m)
    have hn := Nat.lt_log2_self (n := n)
    have hprod := Nat.mul_lt_mul'' hm hn
    rw [← Nat.pow_add] at hprod
    have hlt := (Nat.log2_lt h).mpr hprod
    omega

/-- The product of two packed floats. -/
theorem tame_mul {x y : BitVec 64} {a b : Int} (hx : Tame a (unpack Format.binary64 x))
    (hy : Tame b (unpack Format.binary64 y)) :
    Tame (max (a + b) (-1074) + 211)
      (mul Format.binary64 (unpack Format.binary64 x) (unpack Format.binary64 y)) := by
  have hmx := narrow_unpack x
  have hmy := narrow_unpack y
  generalize unpack Format.binary64 x = u at *
  generalize unpack Format.binary64 y = v at *
  cases u with
  | infinity s => exact hx.elim
  | notANumber => exact hx.elim
  | zero s =>
      cases v with
      | infinity s => exact hy.elim
      | notANumber => exact hy.elim
      | zero s => trivial
      | finite s m e hm => trivial
  | finite s m e hm =>
      cases v with
      | infinity s => exact hy.elim
      | notANumber => exact hy.elim
      | zero s => trivial
      | finite s' m' e' hm' =>
          have hbits : (m * m').log2 ≤ 105 := by
            have hbound := log2_mul_le m m'
            have hfirst : m.log2 ≤ 52 := hmx
            have hsecond : m'.log2 ≤ 52 := hmy
            omega
          have he : e ≤ a := hx
          have he' : e' ≤ b := hy
          exact (tame_round _ hbits (e + e')).mono (by omega)

/-- A word as a float. -/
theorem tame_ofUInt64 (n : UInt64) : Tame 233 (UnpackedFloat.ofUInt64 Format.binary64 n) := by
  have hn := n.toNat_lt
  change Tame 233 (UnpackedFloat.normalize Format.binary64 (n.toNat : Int) 0 .positive)
  generalize n.toNat = m at *
  unfold UnpackedFloat.normalize
  split
  · next h => exact absurd (Int.compare_eq_lt.mp h) (by omega)
  · trivial
  · rw [Int.toNat_natCast, UnpackedFloat.round, decreaseExponent]
    simp only [targetExponent_binary64, totalExponent]
    generalize hk : Int.toNat _ = k
    have hk : k ≤ 52 := by omega
    have hbits : (m <<< k).log2 ≤ 116 := by
      have hm : m.log2 ≤ 63 := log2_le_of_lt hn
      rw [Nat.shiftLeft_eq]
      have hbound := log2_mul_le m (Nat.pow 2 k)
      have hpow : (Nat.pow 2 k).log2 = k := Nat.log2_two_pow
      exact Nat.le_trans hbound (by omega)
    exact (tame_round _ hbits _).mono (by omega)

/-- A float of a word, and a power of ten that a 32-bit float may need. -/
theorem raise_isSome (s : UInt64) {k : Nat} (hk : k < 40) : (raise s.toFloat k).isSome := by
  have hpowers : ∀ j : Fin 40, Tame 100
      (unpack Format.binary64 (powerOfTen j.val).toModel.toBits.toBitVec) := by
    decide +kernel
  have hword : Tame 233 (unpack Format.binary64 s.toFloat.toModel.toBits.toBitVec) :=
    unpack_pack_tame (tame_ofUInt64 s) (by omega) (by omega)
  have hproduct := unpack_pack_tame (tame_mul hword (hpowers ⟨k, hk⟩)) (by omega) (by omega)
  have hfinite : (s.toFloat * powerOfTen k).isInf = false := hproduct.not_isInf
  rw [raise, if_pos (by simp only [topPower]; omega)]
  simp [hfinite]

/-! ## Decimals -/

theorem gather_length (significand : Nat) (digits : List Nat) :
    (gather significand digits).2.length ≤ digits.length := by
  induction digits generalizing significand with
  | nil => exact Nat.le_refl _
  | cons d rest ih =>
      rw [gather]
      split
      · exact Nat.le_succ_of_le (ih _)
      · exact Nat.le_refl _

/-- A number with a point and fewer than forty digits before it has a value. -/
theorem float_isSome {n : Numeral} {fraction : List Nat} (hfraction : n.fraction = some fraction)
    (hexponent : n.exponent = none) (hwhole : n.whole.length < 40) : n.float.isSome := by
  have hextra := gather_length 0 n.whole
  rw [Numeral.float, hfraction, hexponent]
  generalize gather 0 n.whole = taken at *
  obtain ⟨whole, extra⟩ := taken
  simp only at hextra ⊢
  generalize gather whole fraction = all
  obtain ⟨significand, rest⟩ := all
  simp only [Option.isSome_map, withExponent, scale]
  split
  · next power k hpower =>
      rw [Int.ofNat_eq_natCast] at hpower
      exact raise_isSome _ (by omega)
  · rfl

theorem decimals_length {n : Nat} (h : n < Nat.pow 10 39) : (decimals n).length < 40 := by
  rw [decimals, List.length_map]
  have hle := (Nat.length_toDigits_le_iff (b := 10) (n := n) (k := 39) (by omega) (by omega)).mpr h
  omega

theorem roundDiv_le (num den : Nat) : Decimal.roundDiv num den ≤ num + 1 := by
  have hdiv := Nat.div_le_self num den
  unfold Decimal.roundDiv
  dsimp only
  split
  · omega
  · split <;> omega

/-- The digits of a 32-bit float before its point. -/
theorem thousandths_lt {mantissa : Nat} {exponent : Int} (hm : mantissa < 16777216)
    (he : exponent ≤ 104) : Decimal.thousandths mantissa exponent / 1000 < Nat.pow 10 39 := by
  have hlarge : 16777216 * Nat.pow 2 104 < Nat.pow 10 39 := by decide +kernel
  unfold Decimal.thousandths
  split
  · next up =>
      rw [Int.ofNat_eq_natCast] at he
      have hup : up ≤ 104 := by omega
      have hpow : Nat.pow 2 up ≤ Nat.pow 2 104 := Nat.pow_le_pow_right (by omega) hup
      have hscaled : (mantissa * 1000) <<< up / 1000 = mantissa * Nat.pow 2 up := by
        rw [Nat.shiftLeft_eq, Nat.mul_right_comm, Nat.mul_div_cancel _ (by omega)]
        rfl
      rw [hscaled]
      calc mantissa * Nat.pow 2 up ≤ 16777216 * Nat.pow 2 104 :=
            Nat.mul_le_mul (Nat.le_of_lt hm) hpow
        _ < Nat.pow 10 39 := hlarge
  · next down =>
      have hround := roundDiv_le (mantissa * 1000) (1 <<< (down + 1))
      have hsmall : 16777217 < Nat.pow 10 39 := by decide +kernel
      clear hlarge
      exact Nat.lt_of_le_of_lt (by omega) hsmall

theorem parts_bounds {bits : UInt32} {negative : Bool} {mantissa : Nat} {exponent : Int}
    (h : Decimal.Parts.ofBits bits = .finite negative mantissa exponent) :
    mantissa < 16777216 ∧ exponent ≤ 104 := by
  unfold Decimal.Parts.ofBits at h
  simp only [] at h
  split at h
  · split at h <;> cases h
  · split at h
    · cases h
      omega
    · cases h
      omega

/-- The decimals of a float have a value. -/
theorem value_ofFloat {x : Float32} {n : Numeral} (h : Numeral.ofFloat? x = some n) :
    n.value.isSome := by
  unfold Numeral.ofFloat? at h
  split at h
  · cases h
  · cases h
  · next negative mantissa exponent hparts =>
      cases h
      obtain ⟨hm, he⟩ := parts_bounds hparts
      have hfloat := float_isSome (n := .ofThousandths negative (Decimal.thousandths mantissa exponent))
        rfl rfl (decimals_length (thousandths_lt hm he))
      rw [Numeral.value]
      simp only [Numeral.isWhole, Numeral.ofThousandths, Option.isNone_some, Bool.false_and,
        Bool.false_eq_true, if_false, Option.isSome_map]
      exact hfloat

end Telemetry.Json
