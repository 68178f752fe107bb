import Mathlib.Algebra.Group.Nat.Defs
import Telemetry.Proofs.Decoding
import Telemetry.Proofs.Gathering

/-!
# Means between their bounds

Whole numbers are summed in a word that wraps, their bounds are widened one
reading at a time, and of several samples a frame carries the quotient of the
sum by their number, cut towards zero. As long as the sum has not wrapped, that
quotient lies between the bounds: the sum lies between so many times the least
and so many times the greatest, and cutting towards zero keeps the order.

The quotient is taken by a machine that stops at a divisor of zero and at the
one quotient that does not fit. `Draft.appendTrapping` divides on that machine,
and it never stops, whatever a tally holds: the divisor is a number of samples
above one.
-/

namespace Telemetry

/-! ## Folding readings of one kind -/

namespace Tally

variable {W : Type}

theorem observe_taking (log : Logger W) (t : Tally) (r : Reading) (w : W) :
    ((t.observe log r).run w).1.1 = t.taking r := by
  unfold observe taking
  cases t.fold r with
  | error refusal => rfl
  | ok t' => cases hnotice : t'.summary.notice <;> simp [hnotice]

/-- A list of readings of the kind is shown as it is. -/
theorem Shows.observeAll {t : Tally} {readings : List Reading} (h : t.Shows readings)
    (log : Logger W) {more : List Reading} (hkind : ∀ r ∈ more, r.kind = t.kind) (w : W) :
    ((t.observeAll log more).run w).1.kind = t.kind ∧
      ((t.observeAll log more).run w).1.Shows (readings ++ more) := by
  induction more generalizing t readings w with
  | nil => exact ⟨rfl, by rwa [List.append_nil]⟩
  | cons r rest ih =>
      obtain ⟨hsame, hshows⟩ := h.taking (r := r)
      rw [if_pos (hkind r List.mem_cons_self)] at hshows
      have hrest : ∀ r' ∈ rest, r'.kind = (t.taking r).kind := fun r' hr' => by
        rw [hsame]
        exact hkind r' (List.mem_cons_of_mem r hr')
      simp only [Tally.observeAll, Action.run_bind, observe_taking]
      obtain ⟨hsame', hshows'⟩ := ih hshows hrest ((t.observe log r).run w).2
      rw [List.append_assoc, List.singleton_append] at hshows'
      exact ⟨hsame'.trans hsame, hshows'⟩

end Tally

theorem Reading.integers_map (values : List Int64) :
    Reading.integers (values.map .integer) = values := by
  unfold Reading.integers
  rw [List.filterMap_map]
  exact List.filterMap_some

/-! ## Sums and quotients -/

instance lawfulMaxInt64 : Std.LawfulOrderLeftLeaningMax Int64 where
  max_eq_left a b h := by
    show (if a ≤ b then b else a) = a
    split
    · next hle => exact Int64.le_antisymm h hle
    · rfl
  max_eq_right a b h := if_pos (Int64.le_of_lt (Int64.not_le.mp h))

theorem Summary.ofIntegers_bounds {values : List Int64} (h : values ≠ []) :
    ∃ least greatest,
      Summary.ofIntegers values =
        .integer (Int64.ofInt (values.map Int64.toInt).sum) least greatest ∧
      (least ∈ values ∧ ∀ v ∈ values, least ≤ v) ∧
      (greatest ∈ values ∧ ∀ v ∈ values, v ≤ greatest) := by
  cases values with
  | nil => exact absurd rfl h
  | cons v rest =>
      refine ⟨rest.foldl min v, rest.foldl max v, rfl, ?_, ?_⟩
      · exact List.min?_eq_some_iff.mp List.min?_cons'
      · exact List.max?_eq_some_iff.mp List.max?_cons'

/-- A sum lies between so many times the least and so many times the greatest. -/
theorem sum_between {values : List Int64} {least greatest : Int64}
    (hleast : ∀ v ∈ values, least ≤ v) (hgreatest : ∀ v ∈ values, v ≤ greatest) :
    least.toInt * values.length ≤ (values.map Int64.toInt).sum ∧
      (values.map Int64.toInt).sum ≤ greatest.toInt * values.length := by
  induction values with
  | nil => simp
  | cons v rest ih =>
      obtain ⟨hlow, hhigh⟩ := ih (fun v' hv' => hleast v' (List.mem_cons_of_mem v hv'))
        fun v' hv' => hgreatest v' (List.mem_cons_of_mem v hv')
      have hv := Int64.le_iff_toInt_le.mp (hleast v List.mem_cons_self)
      have hv' := Int64.le_iff_toInt_le.mp (hgreatest v List.mem_cons_self)
      simp only [List.map_cons, List.sum_cons, List.length_cons, Int.natCast_add, Int.natCast_one,
        Int.mul_add, Int.mul_one]
      omega

/-- Cutting towards zero does not leave the bounds. -/
theorem tdiv_between {n exact least greatest : Int} (hn : 0 < n) (hlow : least * n ≤ exact)
    (hhigh : exact ≤ greatest * n) : least ≤ exact.tdiv n ∧ exact.tdiv n ≤ greatest := by
  have hbelow := Int.tdiv_le_tdiv hn hlow
  have habove := Int.tdiv_le_tdiv hn hhigh
  rw [Int.mul_tdiv_cancel _ (by omega)] at hbelow habove
  exact ⟨hbelow, habove⟩

/-! ## A division that may stop -/

namespace Frame

/-- The quotient of two words on a machine that stops at a divisor of zero and
at a quotient that does not fit. -/
def quotient? (a b : Int64) : Option Int64 :=
  if b = 0 ∨ (a = Int64.minValue ∧ b = -1) then none else some (a / b)

/-- Writes what a measurement's readings amount to on that machine. The outer
value is missing if it stops. -/
def Draft.appendTrapping (f : Draft) (name : String) (t : Tally) : Option (Option Draft) :=
  match t.summary with
  | .integer sum least greatest =>
      if t.samples ≤ 1 then some (f.append name t)
      else (quotient? sum t.samples.toUInt64.toInt64).map fun mean =>
        f.meanFields name (toString mean.toInt) (toString least.toInt) (toString greatest.toInt)
  | _ => some (f.append name t)

/-- A number of samples above one is a good divisor. -/
theorem quotient?_samples {n : UInt32} (h : ¬ n ≤ 1) (sum : Int64) :
    quotient? sum n.toUInt64.toInt64 = some (sum / n.toUInt64.toInt64) := by
  have hn : 1 < n.toNat := by
    simpa [UInt32.lt_iff_toNat_lt] using UInt32.not_le.mp h
  have hsamples := toInt_samples n
  have hzero : n.toUInt64.toInt64 ≠ 0 := fun heq => by
    rw [heq, Int64.toInt_zero] at hsamples
    omega
  have hminus : n.toUInt64.toInt64 ≠ -1 := fun heq => by
    rw [heq, show (-1 : Int64).toInt = -1 by decide] at hsamples
    omega
  simp [quotient?, hzero, hminus]

theorem appendTrapping_eq (f : Draft) (name : String) (t : Tally) :
    f.appendTrapping name t = some (f.append name t) := by
  unfold Draft.appendTrapping
  split
  · next sum least greatest hsummary =>
      by_cases hone : t.samples ≤ 1
      · rw [if_pos hone]
      · rw [if_neg hone, quotient?_samples hone, Draft.append, hsummary]
        simp only [Option.map_some, if_neg hone]
  · rfl

/-! ## What a frame says of whole numbers -/

/-- A fresh tally into which whole numbers were folded, two at least and fewer
than a counter can tell, has counted them all, holds their least and their
greatest and their sum cut to a word. If the sum fits, what a frame says of
them is their mean, cut towards zero, between the two. No tally at all makes
the division stop. -/
theorem integer_mean_bracketed {W : Type} (log : Logger W) (leadTime : UInt32)
    (values : List Int64) (w : W) (htwo : 2 ≤ values.length)
    (hcounted : values.length < UInt32.size) :
    let t := (((Tally.fresh .integer leadTime).observeAll log (values.map .integer)).run w).1
    let exact := (values.map Int64.toInt).sum
    t.samples.toNat = values.length ∧
    (∃ sum least greatest, t.summary = .integer sum least greatest ∧
      sum.toInt = exact.bmod (2 ^ 64) ∧
      (least ∈ values ∧ ∀ v ∈ values, least ≤ v) ∧
      (greatest ∈ values ∧ ∀ v ∈ values, v ≤ greatest) ∧
      (-2 ^ 63 ≤ exact ∧ exact < 2 ^ 63 →
        (∀ (f : Draft) (name : String), f.append name t =
          f.meanFields name (toString (exact.tdiv values.length)) (toString least.toInt)
            (toString greatest.toInt)) ∧
        least.toInt ≤ exact.tdiv values.length ∧ exact.tdiv values.length ≤ greatest.toInt)) ∧
    ∀ (f : Draft) (name : String) (any : Tally),
      f.appendTrapping name any = some (f.append name any) := by
  intro t exact
  have hnonempty : values ≠ [] := fun h => by simp [h] at htwo
  have hkinds : ∀ r ∈ values.map Reading.integer, r.kind = .integer := fun r hr => by
    obtain ⟨v, _, rfl⟩ := List.mem_map.mp hr
    rfl
  obtain ⟨hkind, hshows⟩ :=
    (Tally.shows_nil (t := Tally.fresh .integer leadTime) rfl rfl).observeAll log hkinds w
  have hinteger : t.kind = .integer := hkind
  have hsamples : t.samples.toNat = values.length := by
    have h := hshows.samples
    rw [hkind, if_neg ValueKind.noConfusion, List.nil_append, List.length_map] at h
    rw [h]
    omega
  obtain ⟨least, greatest, hof, hleast, hgreatest⟩ := Summary.ofIntegers_bounds hnonempty
  have hsummary : t.summary = .integer (Int64.ofInt exact) least greatest := by
    rw [← hof, hshows.summary, hkind, List.nil_append]
    exact congrArg Summary.ofIntegers (Reading.integers_map values)
  refine ⟨hsamples, ⟨_, least, greatest, hsummary, Int64.toInt_ofInt, hleast, hgreatest, ?_⟩,
    appendTrapping_eq⟩
  intro hfits
  have hmany : ¬ t.samples ≤ 1 := fun h => by
    have := UInt32.le_iff_toNat_le.mp h
    simp only [UInt32.toNat_one] at this
    omega
  refine ⟨fun f name => ?_, ?_⟩
  · rw [Draft.append, hsummary]
    simp only [if_neg hmany]
    rw [toInt_mean hmany, Int64.toInt_ofInt, hsamples,
      Int.bmod_eq_of_le (by simp [Int64.size]; omega) (by simp [Int64.size]; omega)]
  · obtain ⟨hlow, hhigh⟩ := sum_between hleast.2 hgreatest.2
    exact tdiv_between (by omega) hlow hhigh

/-- Of `-7` and `2` the mean is `-2`, not `-3`. -/
theorem integer_mean_of_two :
    let values : List Int64 := [-7, 2]
    let t := (((Tally.fresh .integer 0).observeAll (fun _ _ => pure () : Logger Unit)
      (values.map .integer)).run ()).1
    2 ≤ values.length ∧ values.length < UInt32.size ∧
      ∀ (f : Draft) (name : String), f.append name t =
        f.meanFields name (toString (-2 : Int)) (toString (-7 : Int)) (toString (2 : Int)) := by
  intro values t
  refine ⟨by decide, by decide, fun f name => ?_⟩
  obtain ⟨-, ⟨sum, least, greatest, hsummary, -, -, -, hfits⟩, -⟩ :=
    integer_mean_bracketed (fun _ _ => pure () : Logger Unit) 0 values () (by decide) (by decide)
  have hfolded : t.summary = .integer (-5) (-7) 2 := rfl
  obtain ⟨-, rfl, rfl⟩ := Summary.integer.inj (hfolded.symm.trans hsummary)
  have hmean : (values.map Int64.toInt).sum.tdiv values.length = -2 := by decide
  have hleast : (-7 : Int64).toInt = -7 := by decide
  have hgreatest : (2 : Int64).toInt = 2 := by decide
  have happend := (hfits (by decide)).1 f name
  rwa [hmean, hleast, hgreatest] at happend

end Frame

end Telemetry
