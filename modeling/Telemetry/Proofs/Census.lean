import Mathlib.Data.List.Nodup
import Mathlib.Data.List.Perm.Basic
import Telemetry.Proofs.Reloading

/-!
# A table holds fewer measurements than there are words

Names are kept apart, and a kept name has one to four bytes. Written as four
digits, with a digit for "no byte" that no encoding of a character uses, every
name is a number of 32 bits, and two names are two numbers. So a counter of 32
bits is wide enough for the measurements of any table, whatever its size.
-/

namespace Telemetry

namespace Name

/-- The bytes of a name, as numbers. -/
def bytes (name : String) : List Nat :=
  (name.toList.flatMap String.utf8EncodeChar).map UInt8.toNat

theorem toByteArray_eq (name : String) :
    name.toByteArray = (name.toList.flatMap String.utf8EncodeChar).toByteArray := by
  rw [← String.utf8Encode_toList]
  rfl

theorem length_bytes (name : String) : (bytes name).length = name.utf8ByteSize := by
  rw [bytes, List.length_map, String.utf8ByteSize, toByteArray_eq, List.size_toByteArray]

theorem bytes_inj {name name' : String} (h : bytes name = bytes name') : name = name' := by
  have hsame : name.toList.flatMap String.utf8EncodeChar =
      name'.toList.flatMap String.utf8EncodeChar :=
    (List.map_inj_right fun _ _ => UInt8.toNat_inj.mp).mp h
  rw [← String.toByteArray_inj, toByteArray_eq, toByteArray_eq, hsame]

/-- The byte of all ones is not used. -/
theorem lt_of_mem_bytes {name : String} {b : Nat} (h : b ∈ bytes name) : b < 255 := by
  obtain ⟨x, hx, rfl⟩ := List.mem_map.mp h
  obtain ⟨c, -, hc⟩ := List.mem_flatMap.mp hx
  simp only [String.utf8EncodeChar] at hc
  split at hc
  · simp only [List.mem_singleton] at hc
    rw [hc, UInt8.toNat_ofNat']
    omega
  · split at hc
    · simp only [List.mem_cons, List.not_mem_nil, or_false] at hc
      rcases hc with rfl | rfl <;> rw [UInt8.toNat_ofNat'] <;> omega
    · split at hc
      · simp only [List.mem_cons, List.not_mem_nil, or_false] at hc
        rcases hc with rfl | rfl | rfl <;> rw [UInt8.toNat_ofNat'] <;> omega
      · simp only [List.mem_cons, List.not_mem_nil, or_false] at hc
        rcases hc with rfl | rfl | rfl | rfl <;> rw [UInt8.toNat_ofNat'] <;> omega

/-- The digit at a place of a name: its byte, or 255 behind its end. -/
def digit (name : String) (i : Nat) : Nat := ((bytes name)[i]?).getD 255

def word (name : String) : Nat :=
  digit name 0 + 256 * digit name 1 + 65536 * digit name 2 + 16777216 * digit name 3

theorem digit_cases (name : String) (i : Nat) :
    ((bytes name)[i]? = none ∧ digit name i = 255) ∨
      ∃ b, (bytes name)[i]? = some b ∧ digit name i = b ∧ b < 255 := by
  unfold digit
  cases h : (bytes name)[i]? with
  | none => exact .inl ⟨rfl, rfl⟩
  | some b => exact .inr ⟨b, rfl, rfl, lt_of_mem_bytes (List.mem_of_getElem? h)⟩

theorem digit_le (name : String) (i : Nat) : digit name i ≤ 255 := by
  rcases digit_cases name i with ⟨-, h⟩ | ⟨b, -, h, hlt⟩ <;> omega

theorem getElem?_of_digit {name name' : String} {i : Nat} (h : digit name i = digit name' i) :
    (bytes name)[i]? = (bytes name')[i]? := by
  rcases digit_cases name i with ⟨hnone, hend⟩ | ⟨b, hsome, heq, hlt⟩
  · rcases digit_cases name' i with ⟨hnone', -⟩ | ⟨b', -, heq', hlt'⟩
    · rw [hnone, hnone']
    · omega
  · rcases digit_cases name' i with ⟨-, hend'⟩ | ⟨b', hsome', heq', hlt'⟩
    · omega
    · rw [hsome, hsome', ← heq, ← heq', h]

namespace Kept

variable {name name' : String}

theorem length_le (h : Kept name) : (bytes name).length ≤ 4 := by
  rw [length_bytes]
  exact h.short

/-- Two names are two numbers. -/
theorem word_inj (h : Kept name) (h' : Kept name') (heq : word name = word name') :
    name = name' := by
  have hdigits : digit name 0 = digit name' 0 ∧ digit name 1 = digit name' 1 ∧
      digit name 2 = digit name' 2 ∧ digit name 3 = digit name' 3 := by
    have h0 := digit_le name 0
    have h1 := digit_le name 1
    have h2 := digit_le name 2
    have h0' := digit_le name' 0
    have h1' := digit_le name' 1
    have h2' := digit_le name' 2
    unfold word at heq
    omega
  obtain ⟨hzero, hone, htwo, hthree⟩ := hdigits
  refine bytes_inj (List.ext_getElem? fun i => ?_)
  match i with
  | 0 => exact getElem?_of_digit hzero
  | 1 => exact getElem?_of_digit hone
  | 2 => exact getElem?_of_digit htwo
  | 3 => exact getElem?_of_digit hthree
  | i + 4 =>
      have hlength := h.length_le
      have hlength' := h'.length_le
      rw [List.getElem?_eq_none (by omega), List.getElem?_eq_none (by omega)]

/-- Not all digits of a name lie behind its end. -/
theorem word_lt (h : Kept name) : word name < UInt32.size - 1 := by
  have hfirst : digit name 0 < 255 := by
    rcases digit_cases name 0 with ⟨hnone, -⟩ | ⟨b, -, heq, hlt⟩
    · have hnil : bytes name = bytes "" :=
        List.length_eq_zero_iff.mp (Nat.le_zero.mp (List.getElem?_eq_none_iff.mp hnone))
      exact absurd (bytes_inj hnil) h.nonempty
    · omega
  have h1 := digit_le name 1
  have h2 := digit_le name 2
  have h3 := digit_le name 3
  unfold word UInt32.size
  omega

end Kept

end Name

theorem length_le_of_apart {numbers : List Nat} {bound : Nat} (hapart : numbers.Nodup)
    (hlt : ∀ n ∈ numbers, n < bound) : numbers.length ≤ bound := by
  have hsubset : numbers ⊆ List.range bound := fun n hn => List.mem_range.mpr (hlt n hn)
  simpa using (List.subperm_of_subset hapart hsubset).length_le

namespace Table

theorem length_listing (t : Table) : t.listing.length = t.size := by
  rw [listing, List.length_map, entries, List.length_filterMap_eq_countP, size]
  rfl

theorem WellNamed.size_lt {t : Table} (ht : t.WellNamed) : t.size < UInt32.size := by
  have hapart : ((t.listing.map Definition.name).map Name.word).Nodup := by
    refine List.Nodup.map_on ?_ ht.listing_apart
    intro name hname name' hname' heq
    obtain ⟨m, hm, rfl⟩ := List.mem_map.mp hname
    obtain ⟨m', hm', rfl⟩ := List.mem_map.mp hname'
    exact (ht.listing_kept m hm).word_inj (ht.listing_kept m' hm') heq
  have hlt : ∀ n ∈ (t.listing.map Definition.name).map Name.word, n < UInt32.size - 1 := by
    intro n hn
    obtain ⟨name, hname, rfl⟩ := List.mem_map.mp hn
    obtain ⟨m, hm, rfl⟩ := List.mem_map.mp hname
    exact (ht.listing_kept m hm).word_lt
  have hle := length_le_of_apart hapart hlt
  rw [List.length_map, List.length_map, length_listing] at hle
  unfold UInt32.size at hle ⊢
  omega

end Table

end Telemetry
