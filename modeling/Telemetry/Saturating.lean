/-!
# Arithmetic that stops at its ends

Times and counters are machine words. Where a difference may not go below zero
or a sum past the last word, these functions say so; the plain operators wrap.
Each comes with its meaning in the natural numbers.
-/

namespace Telemetry.Saturating

/-- The difference of two times, zero if the second is the later one. -/
def sub (a b : UInt64) : UInt64 := if b ≤ a then a - b else 0

/-- The sum of two times, the last word if it does not fit. -/
def add (a b : UInt64) : UInt64 := if a + b < a then 0xffffffffffffffff else a + b

/-- A time cut to 32 bits: the largest such word if it does not fit. -/
def narrow (a : UInt64) : UInt32 := if a ≤ 0xffffffff then a.toUInt32 else 0xffffffff

/-- The next reading of a counter, which stays at the last word. -/
def succ (n : UInt32) : UInt32 := if n = 0xffffffff then n else n + 1

/-- The next reading of a short counter, which stays at the last word. -/
def succ16 (n : UInt16) : UInt16 := if n = 0xffff then n else n + 1

theorem toNat_sub (a b : UInt64) : (sub a b).toNat = a.toNat - b.toNat := by
  unfold sub
  split
  · next h => exact UInt64.toNat_sub_of_le a b h
  · next h =>
      have : ¬ b.toNat ≤ a.toNat := fun h' => h (UInt64.le_iff_toNat_le.mpr h')
      simp only [UInt64.toNat_zero]
      omega

theorem toNat_add (a b : UInt64) : (add a b).toNat = min (a.toNat + b.toNat) (UInt64.size - 1) := by
  unfold add UInt64.size
  have ha := a.toNat_lt
  have hb := b.toNat_lt
  split
  · next h =>
      have := UInt64.lt_iff_toNat_lt.mp h
      rw [UInt64.toNat_add] at this
      simp only [UInt64.reduceToNat]
      omega
  · next h =>
      have : ¬ (a + b).toNat < a.toNat := fun h' => h (UInt64.lt_iff_toNat_lt.mpr h')
      rw [UInt64.toNat_add] at this ⊢
      omega

theorem toNat_narrow (a : UInt64) : (narrow a).toNat = min a.toNat (UInt32.size - 1) := by
  unfold narrow UInt32.size
  split
  · next h =>
      have := UInt64.le_iff_toNat_le.mp h
      simp only [UInt64.reduceToNat] at this
      rw [UInt64.toNat_toUInt32, Nat.mod_eq_of_lt (by omega)]
      omega
  · next h =>
      have : ¬ a.toNat ≤ 4294967295 := fun h' => h (UInt64.le_iff_toNat_le.mpr h')
      simp only [UInt32.reduceToNat]
      omega

theorem toNat_succ (n : UInt32) : (succ n).toNat = min (n.toNat + 1) (UInt32.size - 1) := by
  unfold succ UInt32.size
  have hn := n.toNat_lt
  split
  · next h => subst h; rfl
  · next h =>
      have : n.toNat ≠ 4294967295 := fun h' => h (UInt32.toNat_inj.mp h')
      rw [UInt32.toNat_add, UInt32.toNat_one, Nat.mod_eq_of_lt (by omega)]
      omega

theorem toNat_succ16 (n : UInt16) : (succ16 n).toNat = min (n.toNat + 1) (UInt16.size - 1) := by
  unfold succ16 UInt16.size
  have hn := n.toNat_lt
  split
  · next h => subst h; rfl
  · next h =>
      have : n.toNat ≠ 65535 := fun h' => h (UInt16.toNat_inj.mp h')
      rw [UInt16.toNat_add, UInt16.toNat_one, Nat.mod_eq_of_lt (by omega)]
      omega

end Telemetry.Saturating
