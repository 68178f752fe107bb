import Telemetry.Frame.Encode
import Telemetry.Json.Tree

/-!
# What stands between quotes

A text is escaped character by character, and a name stands between its quotes
as it is. Reading gives both back: the escapes of a text because each of them
names its character, and a name as long as none of its characters would have
needed an escape.
-/

namespace Telemetry.Json

open Telemetry.Frame (escape)

/-- Whether a character may stand between quotes as it is. -/
def Plain (c : Char) : Prop := c ≠ '"' ∧ c ≠ '\\' ∧ 0x20 ≤ c.toNat

instance (c : Char) : Decidable (Plain c) := inferInstanceAs (Decidable (_ ∧ _ ∧ _))

/-- The characters of a known text can be tried one by one. -/
theorem plain_of_all {s : String} (h : s.toList.all fun c => decide (Plain c)) :
    ∀ c ∈ s.toList, Plain c := by
  simpa using h

/-- The piece that is read for a character of a text. -/
def pieceOf (c : Char) : Piece := if c.toNat < 0x20 then .code c.toNat else .char c

theorem pieces_cons {c : Char} (h : Plain c) (s : List Char) :
    pieces (c :: s) = (pieces s).map fun r => (.char c :: r.1, r.2) := by
  obtain ⟨hquote, hslash, hcontrol⟩ := h
  rw [pieces.eq_def]
  split
  · next heq => cases heq
  · next heq => exact absurd (List.cons.inj heq).1 hquote
  · next heq => exact absurd (List.cons.inj heq).1 hslash
  · next heq => exact absurd (List.cons.inj heq).1 hslash
  · next heq =>
      cases heq
      rw [if_neg (by simp [hslash]; omega)]
      cases pieces s <;> rfl

/-- Four digits name every control character. -/
theorem toNat?_digits {n : Nat} (h : n < 0x20) : Hex.toNat? (Hex.digits n 4) = some n := by
  have hdigits : ∀ m : Fin 0x20, Hex.toNat? (Hex.digits m.val 4) = some m.val := by decide
  exact hdigits ⟨n, h⟩

theorem pieces_code {n : Nat} (h : n < 0x20) (s : List Char) :
    pieces ('\\' :: 'u' :: (Hex.digits n 4 ++ s)) =
      (pieces s).map fun r => (.code n :: r.1, r.2) := by
  have hread := toNat?_digits h
  simp only [Hex.digits, List.nil_append, List.cons_append] at hread ⊢
  rw [pieces, hread]
  cases pieces s <;> rfl

/-- An escape of two characters. -/
theorem pieces_short {c e : Char} (h : shortEscape e = some c) (hu : e ≠ 'u') (s : List Char) :
    pieces ('\\' :: e :: s) = (pieces s).map fun r => (.char c :: r.1, r.2) := by
  rw [pieces, h]
  · cases pieces s <;> rfl
  · intro _ _ _ _ _ heq
    exact absurd heq hu

theorem pieces_escape (c : Char) (s : List Char) :
    pieces ((escape c).toList ++ s) = (pieces s).map fun r => (pieceOf c :: r.1, r.2) := by
  unfold escape
  split
  · next h =>
      subst h
      exact pieces_short rfl (by decide) s
  · next hquote =>
      split
      · next h =>
          subst h
          exact pieces_short rfl (by decide) s
      · next hslash =>
          split
          · next hcontrol =>
              have hread := pieces_code hcontrol s
              simpa [pieceOf, hcontrol, Hex.ofNat] using hread
          · next hcontrol =>
              have hread := pieces_cons ⟨hquote, hslash, by omega⟩ s
              simpa [pieceOf, hcontrol] using hread

/-- The characters between the quotes of an escaped text. -/
def escapes (chars : List Char) : List Char := chars.flatMap fun c => (escape c).toList

theorem pieces_quote (rest : List Char) : pieces ('"' :: rest) = some ([], rest) := rfl

theorem pieces_plain {chars : List Char} (h : ∀ c ∈ chars, Plain c) (rest : List Char) :
    pieces (chars ++ '"' :: rest) = some (chars.map .char, rest) := by
  induction chars with
  | nil => exact pieces_quote rest
  | cons c chars ih =>
      rw [List.cons_append, pieces_cons (h c (by simp)), ih fun c hc => h c (by simp [hc])]
      rfl

theorem pieces_escapes (chars rest : List Char) :
    pieces (escapes chars ++ '"' :: rest) = some (chars.map pieceOf, rest) := by
  induction chars with
  | nil => exact pieces_quote rest
  | cons c chars ih =>
      rw [escapes, List.flatMap_cons, List.append_assoc, pieces_escape, ← escapes, ih]
      rfl

theorem assemble_chars (chars : List Char) : assemble (chars.map .char) = some chars := by
  induction chars with
  | nil => rfl
  | cons c chars ih => simp [assemble, ih]

theorem assemble_pieces (chars : List Char) : assemble (chars.map pieceOf) = some chars := by
  induction chars with
  | nil => rfl
  | cons c chars ih =>
      rw [List.map_cons, pieceOf]
      split
      · next hcontrol =>
          rw [assemble.eq_def]
          simp only []
          rw [if_pos (by omega), ih, Char.ofNat_toNat]
          rfl
      · rw [assemble, ih]
        rfl

/-- A name of plain characters is read as it stands. -/
theorem quoted_plain {name : String} (h : ∀ c ∈ name.toList, Plain c) (rest : List Char) :
    quoted (name.toList ++ '"' :: rest) = some (some name, rest) := by
  simp [quoted, pieces_plain h, assemble_chars]

/-- An escaped text is read as the text it was. -/
theorem quoted_escapes (text : String) (rest : List Char) :
    quoted (escapes text.toList ++ '"' :: rest) = some (some text, rest) := by
  simp [quoted, pieces_escapes, assemble_pieces]

/-! ## What is no string -/

theorem pieces_control {c : Char} (h : c.toNat < 0x20) (s : List Char) : pieces (c :: s) = none := by
  rw [pieces.eq_def]
  split
  · rfl
  · next heq => rw [(List.cons.inj heq).1] at h; exact absurd h (by decide)
  · next heq => rw [(List.cons.inj heq).1] at h; exact absurd h (by decide)
  · next heq => rw [(List.cons.inj heq).1] at h; exact absurd h (by decide)
  · next heq =>
      cases heq
      rw [if_pos (by simp [h])]

/-- A text without a quote is no string, and a backslash at most hides what follows. -/
theorem pieces_eq_none {s : List Char} (hquote : '"' ∉ s) (hslash : '\\' ∉ s) : pieces s = none := by
  induction s with
  | nil => rfl
  | cons c s ih =>
      simp only [List.mem_cons, not_or] at hquote hslash
      by_cases hcontrol : c.toNat < 0x20
      · exact pieces_control hcontrol s
      · rw [pieces_cons ⟨Ne.symm hquote.1, Ne.symm hslash.1, by omega⟩, ih hquote.2 hslash.2]
        rfl

end Telemetry.Json
