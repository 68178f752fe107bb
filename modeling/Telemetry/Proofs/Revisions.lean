import Mathlib.Data.String.Basic
import Telemetry.Proofs.Stays

/-!
# A table in its owner's hands

The owner of a table adds, removes and changes measurements, and loads lists of
them, in any order and with names as they come. Whatever the devices answer in
between, the table keeps its names apart and in the form that `Name.normalise`
gives them, new measurements fill the lowest holes, and a request touches the
measurement it names and no other.

`Edit.Comes` lists the ways an edit may go, with its answer and its calls. Every
edit goes one of them (`Edit.attempt_speaks`), the rest is read off that list,
and loading is a chain of additions.
-/

namespace Telemetry

variable {W : Type} {v : Voice}

theorem Action.Speaks.map {α β : Type} {a' : Action (W × List Note) α} {a : Action W α}
    {fit : β → List Call → Prop} (f : α → β)
    (ha : Action.Speaks v a' a fun x calls => fit (f x) calls) :
    Action.Speaks v (f <$> a') (f <$> a) fit := by
  intro w notes
  obtain ⟨new, hrun, hfit⟩ := ha w notes
  refine ⟨new, ?_, hfit⟩
  rw [run_map, run_map, hrun]

/-! ## Names -/

namespace Name

/-- The form in which a table keeps a name. -/
structure Kept (name : String) : Prop where
  nonempty : name ≠ ""
  short : name.utf8ByteSize ≤ Limits.nameBytes
  spaceless : ' ' ∉ name.toList

theorem bridge_ne_space (c : Char) : bridge c ≠ ' ' := by
  unfold bridge
  split
  · decide
  · assumption

theorem utf8Size_bridge (c : Char) : (bridge c).utf8Size = c.utf8Size := by
  unfold bridge
  split
  · next h => rw [h]; rfl
  · rfl

theorem utf8Len_map_bridge (chars : List Char) :
    String.utf8Len (chars.map bridge) = String.utf8Len chars := by
  induction chars with
  | nil => rfl
  | cons c rest ih => simp [utf8Size_bridge, ih]

theorem kept_of_normalise {raw name : String} (h : normalise raw = .ok name) : Kept name := by
  simp only [normalise] at h
  split at h
  · cases h
  · next hgood =>
      simp only [Bool.or_eq_true, String.isEmpty_iff, decide_eq_true_eq, not_or, not_lt,
        String.utf8ByteSize_ofList] at hgood
      obtain ⟨hnonempty, hshort⟩ := hgood
      rw [← Except.ok.inj h]
      refine ⟨?_, ?_, ?_⟩
      · intro hempty
        exact hnonempty (by simpa using hempty)
      · rwa [String.utf8ByteSize_ofList, String.toList_ofList, utf8Len_map_bridge]
      · simp [bridge_ne_space]

end Name

namespace Table

/-! ## What is kept -/

/-- No two measurements share a name, and every name is in its kept form. -/
structure WellNamed (t : Table) : Prop where
  distinct : t.Distinct
  kept : ∀ i e, t.get? i = some e → Name.Kept e.name

theorem wellNamed_empty (capacity : Nat) (fallback : UInt32) :
    (empty capacity fallback).WellNamed := by
  refine ⟨distinct_empty capacity fallback, fun i e h => ?_⟩
  rw [get?_empty] at h
  cases h

theorem WellNamed.put {t : Table} (ht : t.WellNamed) {i : Nat} (hlt : i < t.slots.length)
    {e : Entry} (hkept : Name.Kept e.name)
    (hname : ∀ j e', j ≠ i → t.get? j = some e' → e'.name ≠ e.name) :
    (t.put i (some e)).WellNamed := by
  refine ⟨ht.distinct.put hlt hname, fun j e' hj => ?_⟩
  by_cases hij : i = j
  · subst hij
    rw [get?_put_self hlt] at hj
    cases hj
    exact hkept
  · rw [get?_put_ne hij] at hj
    exact ht.kept j e' hj

theorem WellNamed.vacate {t : Table} (ht : t.WellNamed) {i : Nat} {e : Entry}
    (h : t.slots[i]? = some (some e)) : (t.put i none).WellNamed := by
  refine ⟨(Edits.removed h).distinct ht.distinct, fun j e' hj => ?_⟩
  by_cases hij : i = j
  · subst hij
    rw [get?_put_self (lt_of_get? (get?_eq_some.mpr h))] at hj
    cases hj
  · rw [get?_put_ne hij] at hj
    exact ht.kept j e' hj

/-- The slot that is found for a name holds it. -/
theorem name_of_locate {t : Table} {name : String} {i : Nat} {e : Entry}
    (h : t.locate name = some (i, e)) : e.name = name := by
  have hslot := slot_of_locate h
  unfold locate at h
  obtain ⟨j, hj, hmap⟩ := Option.bind_eq_some_iff.mp h
  obtain ⟨e', -, hpair⟩ := Option.map_eq_some_iff.mp hmap
  cases hpair
  obtain ⟨hlt, hholds, -⟩ := List.findIdx?_eq_some_iff_getElem.mp hj
  rw [List.getElem?_eq_getElem hlt, Option.some_inj] at hslot
  simpa [hslot, Slot.holds] using hholds

theorem get?_of_locate {t : Table} {name : String} {i : Nat} {e : Entry}
    (h : t.locate name = some (i, e)) : t.get? i = some e :=
  get?_eq_some.mpr (slot_of_locate h)

/-- Every slot below the first free one is taken. -/
theorem taken_of_lt_firstFree {t : Table} {i j : Nat} (h : t.firstFree = some i) (hji : j < i) :
    (t.get? j).isSome := by
  obtain ⟨hlt, -, hbelow⟩ := List.findIdx?_eq_some_iff_getElem.mp h
  rw [get?, List.getElem?_eq_getElem (by omega), Option.join_some]
  simpa [Option.isSome_iff_ne_none] using hbelow j hji

/-! ## The ways an edit may go -/

/-- A new measurement in the lowest hole, under a kept name that was not there. -/
inductive Gains (t : Table) : Nat → Table → Prop where
  | mk {i : Nat} {e : Entry} (hkept : Name.Kept e.name) (hnew : t.indexOf e.name = none)
      (hfree : t.firstFree = some i) : Gains t i (t.put i (some e))

end Table

namespace Edit

/-- The name of the measurement an edit is about; an addition is about none that is there. -/
def subject : Edit → Option String
  | .add _ => none
  | .remove name | .rename name _ | .setPeriod name _ | .setSampleCount name _
  | .setImmediate name _ | .request name => some name

/-- The table after an edit, and the answer to its owner: an addition is told its slot. -/
def attempt (d : Devices W) (t : Table) : Edit → Action W (Table × Except SetupError (Option Nat))
  | .add m => (fun x => (x.1, x.2.map some)) <$> t.add d m
  | .remove name => (fun x => (x.1, x.2.map fun _ => none)) <$> t.remove d name
  | .rename old new => (fun x => (x.1, x.2.map fun _ => none)) <$> t.rename d old new
  | .setPeriod name period => (fun x => (x.1, x.2.map fun _ => none)) <$> t.setPeriod d name period
  | .setSampleCount name sampleCount =>
      (fun x => (x.1, x.2.map fun _ => none)) <$> t.setSampleCount d name sampleCount
  | .setImmediate name immediate =>
      (fun x => (x.1, x.2.map fun _ => none)) <$> t.setImmediate name immediate
  | .request name => (fun x => (x.1, x.2.map fun _ => none)) <$> t.request name

/-- A node makes the same edits, and passes the answer by. -/
theorem apply_eq_attempt (d : Devices W) (t : Table) (e : Edit) :
    e.apply d t = Prod.fst <$> e.attempt d t := by
  cases e <;> simp only [apply, attempt, Functor.map_map]

/-- How an edit of a table may go: its outcome, and the calls made for it. -/
inductive Comes (t : Table) (e : Edit) :
    Table × Except SetupError (Option Nat) → List Call → Prop where
  | refused (cause : SetupError) {calls : List Call} (hquiet : ∀ m on, .power m on ∉ calls) :
      Comes t e (t, .error cause) calls
  | added {i : Nat} {t' : Table} (h : t.Gains i t') (calls : List Call) :
      Comes t e (t', .ok (some i)) calls
  | removed {name : String} {i : Nat} {x : Entry} (habout : e.subject = some name)
      (h : t.locate name = some (i, x)) (calls : List Call) : Comes t e (t.put i none, .ok none) calls
  | changed {name : String} {i : Nat} {x : Entry} (habout : e.subject = some name)
      (h : t.locate name = some (i, x)) {x' : Entry}
      (hname : x'.name = x.name ∨ Name.Kept x'.name ∧ t.indexOf x'.name = none)
      (calls : List Call) : Comes t e (t.put i (some x'), .ok none) calls

section

variable {t : Table}

theorem Comes.refusal {e : Edit} (cause : SetupError) : Comes t e (t, .error cause) [] :=
  .refused cause fun _ _ => List.not_mem_nil

theorem Comes.of_amend {e : Edit} {name : String} {change : Entry → Entry}
    (habout : e.subject = some name)
    (hname : ∀ x, (change x).name = x.name ∨
      Name.Kept (change x).name ∧ t.indexOf (change x).name = none) :
    Comes t e ((t.amend name change).1, (t.amend name change).2.map fun _ => none) [] := by
  unfold Table.amend
  split
  · next i x h => exact .changed habout h (hname x) []
  · exact .refusal _

theorem add_comes (d : Devices W) (t : Table) (m : Definition) :
    Action.Speaks v (t.add (d.voiced v) m) (t.add d m)
      fun x calls => Comes t (.add m) (x.1, x.2.map some) calls := by
  unfold Table.add
  split
  · exact .pure (.refusal _)
  · next name hname =>
      simp only []
      split
      · exact .after (d.log_speaks _ _) fun _ => .pure (.refusal _)
      · next hnew =>
          have hnone : t.indexOf name = none := by simpa using hnew
          split
          · exact .after (d.log_speaks _ _) fun _ => .pure (.refusal _)
          · next i hfree =>
              refine .after (d.valueKind_speaks _) fun kind => ?_
              cases kind with
              | none => exact .after (d.log_speaks _ _) fun _ => .pure (.refusal _)
              | some kind =>
                  refine (d.leadTime_speaks _ _).bind ?_
                  intro leadTime _ _
                  refine (d.power_speaks _ _).bind ?_
                  intro _ _ _
                  exact .pure (.added ⟨Name.kept_of_normalise hname, hnone, hfree⟩ _)

theorem remove_comes (d : Devices W) (t : Table) (name : String) :
    Action.Speaks v (t.remove (d.voiced v) name) (t.remove d name)
      fun x calls => Comes t (.remove name) (x.1, x.2.map fun _ => none) calls := by
  unfold Table.remove
  split
  · exact .pure (.refusal _)
  · next i x h =>
      refine (d.power_speaks _ _).bind ?_
      intro _ _ _
      exact .pure (.removed rfl h _)

theorem setPeriod_comes (d : Devices W) (t : Table) (name : String) (period : UInt8) :
    Action.Speaks v (t.setPeriod (d.voiced v) name period) (t.setPeriod d name period)
      fun x calls => Comes t (.setPeriod name period) (x.1, x.2.map fun _ => none) calls := by
  unfold Table.setPeriod
  split
  · exact .pure (.refusal _)
  · next i x h =>
      have hcomes (calls : List Call) : Comes t (.setPeriod name period)
          (t.put i (some { x with definition := { x.definition with period } }), .ok none) calls := by
        refine .changed rfl h ?_ calls
        exact .inl rfl
      simp only []
      split
      · refine (d.power_speaks _ _).bind ?_
        intro _ _ _
        exact .pure (hcomes _)
      · exact .pure (hcomes [])

theorem rename_comes (d : Devices W) (t : Table) (old new : String) :
    Action.Speaks v (t.rename (d.voiced v) old new) (t.rename d old new)
      fun x calls => Comes t (.rename old new) (x.1, x.2.map fun _ => none) calls := by
  unfold Table.rename
  split
  · exact .pure (.refusal _)
  · next name hname =>
      split
      · exact .after (d.log_speaks _ _) fun _ => .pure (.refusal _)
      · next hnew =>
          have hnone : t.indexOf name = none := by simpa using hnew
          exact .pure (.of_amend rfl fun _ => .inr ⟨Name.kept_of_normalise hname, hnone⟩)

theorem setSampleCount_comes (d : Devices W) (t : Table) (name : String) (sampleCount : UInt8) :
    Action.Speaks v (t.setSampleCount (d.voiced v) name sampleCount)
      (t.setSampleCount d name sampleCount)
      fun x calls => Comes t (.setSampleCount name sampleCount)
        (x.1, x.2.map fun _ => none) calls := by
  unfold Table.setSampleCount
  split
  · exact .after (d.log_speaks _ _) fun _ => .pure (.refusal _)
  · exact .pure (.of_amend rfl fun _ => .inl rfl)

theorem setImmediate_comes (t : Table) (name : String) (immediate : Bool) :
    Action.Speaks v (t.setImmediate name immediate) (t.setImmediate (W := W) name immediate)
      fun x calls => Comes t (.setImmediate name immediate) (x.1, x.2.map fun _ => none) calls :=
  .pure (.of_amend rfl fun _ => .inl rfl)

theorem request_comes (t : Table) (name : String) :
    Action.Speaks v (t.request name) (t.request (W := W) name)
      fun x calls => Comes t (.request name) (x.1, x.2.map fun _ => none) calls :=
  .pure (.of_amend rfl fun _ => .inl rfl)

/-- Every edit goes one of the ways, whatever the devices answer. -/
theorem attempt_speaks (d : Devices W) (t : Table) (e : Edit) :
    Action.Speaks v (e.attempt (d.voiced v) t) (e.attempt d t) (e.Comes t) := by
  cases e with
  | add m => exact (add_comes d t m).map _
  | remove name => exact (remove_comes d t name).map _
  | rename old new => exact (rename_comes d t old new).map _
  | setPeriod name period => exact (setPeriod_comes d t name period).map _
  | setSampleCount name sampleCount => exact (setSampleCount_comes d t name sampleCount).map _
  | setImmediate name immediate => exact (setImmediate_comes t name immediate).map _
  | request name => exact (request_comes t name).map _

end

end Edit

/-! ## What an edit leaves alone -/

namespace Table

/-- A measurement took the lowest hole there was, and nothing else changed. -/
structure TookLowest (t t' : Table) (i : Nat) : Prop where
  hole : t.get? i = none
  taken : (t'.get? i).isSome
  below : ∀ j < i, (t.get? j).isSome
  elsewhere : ∀ j, j ≠ i → t'.get? j = t.get? j

theorem Gains.tookLowest {t t' : Table} {i : Nat} (h : t.Gains i t') : t.TookLowest t' i := by
  cases h with
  | mk hkept hnew hfree =>
      obtain ⟨hlt, hnone⟩ := lt_of_firstFree hfree
      refine ⟨hnone, ?_, fun j hj => taken_of_lt_firstFree hfree hj, fun j hj => ?_⟩
      · rw [get?_put_self hlt]
        rfl
      · exact get?_put_ne (Ne.symm hj) _

theorem Gains.wellNamed {t t' : Table} {i : Nat} (h : t.Gains i t') (ht : t.WellNamed) :
    t'.WellNamed := by
  cases h with
  | mk hkept hnew hfree =>
      exact ht.put (lt_of_firstFree hfree).1 hkept fun _ _ _ hj => name_ne_of_indexOf hnew hj

/-- Additions in a row. -/
def Grows : Table → Table → Prop := Relation.ReflTransGen fun t t' => ∃ i, t.Gains i t'

section

variable {t t' : Table}

theorem Grows.capacity_eq (h : t.Grows t') : t'.capacity = t.capacity := by
  induction h with
  | refl => rfl
  | tail _ hlast ih =>
      obtain ⟨i, hgains⟩ := hlast
      cases hgains with
      | mk hkept hnew hfree => exact (capacity_put _ _ _).trans ih

theorem Grows.wellNamed (h : t.Grows t') (ht : t.WellNamed) : t'.WellNamed := by
  induction h with
  | refl => exact ht
  | tail _ hlast ih =>
      obtain ⟨i, hgains⟩ := hlast
      exact hgains.wellNamed ih

/-- What is there stays where and as it is. -/
theorem Grows.get?_eq (h : t.Grows t') {j : Nat} {e : Entry} (hj : t.get? j = some e) :
    t'.get? j = some e := by
  induction h with
  | refl => exact hj
  | tail _ hlast ih =>
      obtain ⟨i, hgains⟩ := hlast
      have hlow := hgains.tookLowest
      rw [hlow.elsewhere j ?_, ih]
      intro heq
      rw [heq, hlow.hole] at ih
      cases ih

/-- Holes are filled from below. -/
theorem Grows.filled (h : t.Grows t') {i : Nat} (hnone : t.get? i = none)
    (hsome : (t'.get? i).isSome) : ∀ j < i, (t'.get? j).isSome := by
  induction h with
  | refl =>
      rw [hnone] at hsome
      cases hsome
  | @tail b c _ hlast ih =>
      obtain ⟨k, hgains⟩ := hlast
      have hlow := hgains.tookLowest
      have hbelow : ∀ j < i, (b.get? j).isSome := by
        by_cases hik : i = k
        · exact hik ▸ hlow.below
        · exact ih (hlow.elsewhere i hik ▸ hsome)
      intro j hj
      obtain ⟨e, he⟩ := Option.isSome_iff_exists.mp (hbelow j hj)
      rw [Grows.get?_eq (.single ⟨k, hgains⟩) he]
      rfl

end

/-- What a request may do to a table, given its answer and the calls made for it:
a request about one measurement spares all others, new measurements take the
lowest holes, and one that is refused has done nothing. -/
structure Spared (t : Table) (subject : Option String)
    (x : Table × Except SetupError (Option Nat)) (calls : List Call) : Prop where
  capacity_eq : x.1.capacity = t.capacity
  others : ∀ i e, t.get? i = some e → subject ≠ some e.name → x.1.get? i = some e
  added : ∀ i, x.2 = .ok (some i) → t.TookLowest x.1 i
  filled : ∀ i, t.get? i = none → (x.1.get? i).isSome → ∀ j < i, (x.1.get? j).isSome
  refused : ∀ cause, x.2 = .error cause → x.1 = t ∧ ∀ m on, .power m on ∉ calls

end Table

namespace Edit

variable {t : Table} {e : Edit} {x : Table × Except SetupError (Option Nat)} {calls : List Call}

theorem Comes.wellNamed (h : Comes t e x calls) (ht : t.WellNamed) : x.1.WellNamed := by
  cases h with
  | refused cause hquiet => exact ht
  | added h calls => exact h.wellNamed ht
  | removed habout h calls => exact ht.vacate (Table.slot_of_locate h)
  | @changed name i y habout h y' hname calls =>
      have hi := Table.get?_of_locate h
      refine ht.put (Table.lt_of_get? hi) ?_ fun j e' hne hj heq => ?_
      · rcases hname with hsame | ⟨hkept, -⟩
        · exact hsame ▸ ht.kept i y hi
        · exact hkept
      · rcases hname with hsame | ⟨-, hnew⟩
        · exact hne (ht.distinct j i e' y hj hi (heq.trans hsame))
        · exact Table.name_ne_of_indexOf hnew hj heq

/-- With another content of the slot an edit is about, all others are spared. -/
theorem spared_put {name : String} {i : Nat} {y : Entry} (habout : e.subject = some name)
    (h : t.locate name = some (i, y)) (slot : Slot) (calls : List Call) :
    t.Spared e.subject (t.put i slot, .ok none) calls := by
  have hi := Table.get?_of_locate h
  have hother : ∀ j, t.get? j ≠ some y → (t.put i slot).get? j = t.get? j := by
    intro j hj
    refine Table.get?_put_ne (fun heq => hj ?_) slot
    rw [← heq, hi]
  refine ⟨Table.capacity_put _ _ _, fun j e' hj hne => ?_, fun j h => (by cases h),
    fun j hnone hsome => ?_, fun cause h => (by cases h)⟩
  · rw [hother j, hj]
    intro heq
    rw [hj, Option.some_inj] at heq
    rw [heq, Table.name_of_locate h] at hne
    exact hne habout
  · rw [hother j (by rw [hnone]; exact (Option.some_ne_none y).symm), hnone] at hsome
    cases hsome

theorem Comes.spared (h : Comes t e x calls) : t.Spared e.subject x calls := by
  cases h with
  | refused cause hquiet =>
      refine ⟨rfl, fun _ _ hi _ => hi, fun i h => (by cases h), fun i hnone hsome => ?_,
        fun _ _ => ⟨rfl, hquiet⟩⟩
      rw [hnone] at hsome
      cases hsome
  | @added i t' h calls =>
      have hgrows : t.Grows t' := .single ⟨i, h⟩
      refine ⟨hgrows.capacity_eq, fun j e' hj _ => hgrows.get?_eq hj, fun j heq => ?_,
        fun j => hgrows.filled, fun cause h => (by cases h)⟩
      cases heq
      exact h.tookLowest
  | removed habout h calls => exact spared_put habout h none calls
  | changed habout h hname calls => exact spared_put habout h _ calls

end Edit

/-! ## Requests in a row -/

namespace Table

/-- Adding many measurements is a chain of single additions; refused ones leave no trace. -/
theorem addAll_grows (d : Devices W) (t : Table) (ms : List Definition) :
    Action.Speaks v (t.addAll (d.voiced v) ms) (t.addAll d ms) fun t' _ => t.Grows t' := by
  induction ms generalizing t with
  | nil => exact .pure .refl
  | cons m rest ih =>
      unfold addAll
      split
      · exact ih t
      · refine (Edit.add_comes d t m).bind ?_
        intro r calls h
        obtain ⟨t₁, outcome⟩ := r
        cases outcome with
        | ok i =>
            cases h with
            | added h calls => exact (ih t₁).imp fun _ _ hrest => .head ⟨i, h⟩ hrest
        | error cause =>
            cases h with
            | refused cause hquiet => exact .after (d.log_speaks _ _) fun _ => ih _

theorem load_grows (d : Devices W) (t : Table) (persisted defaults : List Definition) :
    Action.Speaks v (t.load (d.voiced v) persisted defaults) (t.load d persisted defaults)
      fun x _ => t.Grows x.1 := by
  unfold load
  split
  all_goals
    refine .after (d.log_speaks _ _) fun _ => ?_
    refine (t.addAll_grows d _).bind ?_
    intro t' _ h
    exact .pure h

end Table

/-- What the owner of a table may ask of it. -/
inductive Request where
  | edit (e : Edit)
  | load (persisted defaults : List Definition)

namespace Request

/-- The name of the measurement a request is about. -/
def subject : Request → Option String
  | .edit e => e.subject
  | .load _ _ => none

/-- The table after a request, and the answer to its owner; loading skips what it cannot add. -/
def apply (d : Devices W) (t : Table) :
    Request → Action W (Table × Except SetupError (Option Nat))
  | .edit e => e.attempt d t
  | .load persisted defaults => (fun x => (x.1, .ok none)) <$> t.load d persisted defaults

theorem apply_speaks (d : Devices W) (t : Table) (r : Request) :
    Action.Speaks v (r.apply (d.voiced v) t) (r.apply d t)
      fun x calls => (t.WellNamed → x.1.WellNamed) ∧ t.Spared r.subject x calls := by
  cases r with
  | edit e => exact (e.attempt_speaks d t).imp fun _ _ h => ⟨h.wellNamed, h.spared⟩
  | load persisted defaults =>
      refine Action.Speaks.map _ ((t.load_grows d persisted defaults).imp fun x calls h => ?_)
      exact ⟨h.wellNamed, h.capacity_eq, fun j e' hj _ => h.get?_eq hj,
        fun i heq => (by cases heq), fun i => h.filled, fun cause heq => (by cases heq)⟩

end Request

namespace Table

/-- Lets a table answer requests, one after another. -/
def revise (d : Devices W) : List Request → Table → Action W Table
  | [], t => pure t
  | r :: rest, t => do
      let (t, _) ← r.apply d t
      revise d rest t

theorem revise_keeps (d : Devices W) (past : List Request) {t : Table} (ht : t.WellNamed) (w : W) :
    ((revise d past t).run w).1.capacity = t.capacity ∧
      ((revise d past t).run w).1.WellNamed := by
  induction past generalizing t w with
  | nil => exact ⟨rfl, ht⟩
  | cons r rest ih =>
      obtain ⟨_, -, calls, -, hnamed, hspared⟩ := r.apply_speaks (v := .aside) d t w []
      have hrest := ih (hnamed ht) ((r.apply d t).run w).2
      exact ⟨hrest.1.trans hspared.capacity_eq, hrest.2⟩

/-- A table that began without measurements keeps its names apart and in their
form through all requests, and every further request, whatever the devices
answer to it, spares all measurements but the one it is about, adds in the
lowest hole, and does nothing and switches nothing if it is refused. -/
theorem revise_sound (d : Devices W) (capacity : Nat) (fallback : UInt32) (past : List Request)
    (w : W) :
    let t := ((revise d past (empty capacity fallback)).run w).1
    t.capacity = capacity ∧ t.WellNamed ∧ ∀ r : Request,
      Action.Speaks .aside (r.apply (d.voiced .aside) t) (r.apply d t) (t.Spared r.subject) := by
  intro t
  obtain ⟨hcapacity, hnamed⟩ := revise_keeps d past (wellNamed_empty capacity fallback) w
  refine ⟨hcapacity.trans (capacity_empty capacity fallback), hnamed, fun r => ?_⟩
  exact (r.apply_speaks d t).imp fun _ _ h => h.2

end Table

end Telemetry
