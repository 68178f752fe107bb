import Mathlib.Logic.Function.Basic
import Telemetry.Proofs.Apart

/-!
# A measurement in company is a measurement alone

When the sensors keep their measurements apart, a sampler may have any others
beside one: what it does with the one, and what the others make of the wait, is
known from what it would do with each of them alone.

A sweep is looked at first, at the slot of the measurement (`sweep_at`) and at
the moments it collects (`sweep_nearest`). Then two samplers work side by side,
in two worlds, with one measurement in common. What they have in common is
`Mirrors`; a beat keeps it (`Mirrors.after_beat`), and so does any work
(`Mirrors.after_work`). A table with the measurement alone is one such mirror.
-/

namespace Telemetry

variable {W V σ α : Type} {look : Definition → W → V}

/-! ## Sweeps -/

/-- Visits to measurements that take no notice of what they are handed, and none
of which is seen at measurements of other names. -/
structure Slot.Solitary (look : Definition → W → V)
    (visit : Entry → σ → Action W (Entry × σ)) : Prop where
  keeps : ∀ e s w, ((visit e s).run w).1.1.definition = e.definition
  own : ∀ e s s', (visit e s).Alike (look e.definition) (fun x y => x.1 = y.1) (visit e s')
  others : ∀ (m : Definition) e s, m.name ≠ e.name → (visit e s).Within (.unseen (look m))

namespace Slot

/-- No two of the slots hold measurements of one name. -/
def Apart (slots : List Slot) : Prop :=
  slots.Pairwise fun slot slot' => ∀ e e', slot = some e → slot' = some e' → e.name ≠ e'.name

theorem Apart.tail {slot : Slot} {rest : List Slot} (h : Apart (slot :: rest)) : Apart rest :=
  (List.pairwise_cons.mp h).2

theorem Apart.head {e : Entry} {rest : List Slot} (h : Apart (some e :: rest)) :
    ∀ e', some e' ∈ rest → e.name ≠ e'.name :=
  fun e' he' => (List.pairwise_cons.mp h).1 _ he' e e' rfl rfl

/-- The measurements in some slots that have turns. -/
def active (slots : List Slot) : List Entry :=
  slots.filterMap (·.filter (·.definition.active))

theorem active_cons (e : Entry) (rest : List Slot) :
    active (some e :: rest) = if e.definition.active then e :: active rest else active rest := by
  rw [active, List.filterMap_cons, Option.filter_some]
  cases e.definition.active <;> rfl

variable {visit : Entry → σ → Action W (Entry × σ)} (hvisit : Solitary look visit)
  {slots : List Slot}
include hvisit

theorem sweep_unseen {m : Definition} (hothers : ∀ e, some e ∈ slots → m.name ≠ e.name) (s : σ) :
    (sweep visit slots s).Within (.unseen (look m)) := by
  induction slots generalizing s with
  | nil => exact .pure _
  | cons slot rest ih =>
      have hrest := ih fun e he => hothers e (List.mem_cons_of_mem _ he)
      cases slot with
      | none => exact (hrest s).bind fun _ => .pure _
      | some e =>
          exact (hvisit.others m e s (hothers e List.mem_cons_self)).bind fun _ =>
            (hrest _).bind fun _ => .pure _

/-- At the slot of a measurement a sweep comes to what a visit to it alone comes
to, whatever that is handed, in a world where the same is seen of it. -/
theorem sweep_at (hapart : Apart slots) {i : Nat} {e : Entry} (hi : slots[i]? = some (some e))
    (s s₀ : σ) {w w₀ : W} (hsame : look e.definition w = look e.definition w₀) :
    ((sweep visit slots s).run w).1.1[i]? = some (some ((visit e s₀).run w₀).1.1) ∧
      look e.definition ((sweep visit slots s).run w).2 =
        look e.definition ((visit e s₀).run w₀).2 := by
  induction slots generalizing i s w with
  | nil => cases hi
  | cons slot rest ih =>
      cases slot with
      | none =>
          cases i with
          | zero => cases hi
          | succ i => exact ih hapart.tail hi s hsame
      | some e₀ =>
          cases i with
          | zero =>
              -- The visit itself; nothing is seen of those behind it.
              cases hi
              obtain ⟨hentry, hseen⟩ := hvisit.own e s s₀ w w₀ hsame
              have hrest := sweep_unseen hvisit (m := e.definition) hapart.head
              exact ⟨congrArg (some ∘ some) hentry, (hrest _ _).trans hseen⟩
          | succ i =>
              -- A visit before it: another state is handed on, and nothing is seen.
              have hne : e.name ≠ e₀.name := (hapart.head e (List.mem_of_getElem? hi)).symm
              have hunseen := hvisit.others e.definition e₀ s hne w
              exact ih hapart.tail hi _ (hunseen.trans hsame)

/-- Two sweeps come to the same at a measurement that they have in common. -/
theorem sweep_same {slots' : List Slot} (hapart : Apart slots) (hapart' : Apart slots')
    {i j : Nat} {e : Entry} (hi : slots[i]? = some (some e)) (hj : slots'[j]? = some (some e))
    (s s' : σ) {w w' : W} (hsame : look e.definition w = look e.definition w') :
    ∃ e', e'.definition = e.definition ∧
      ((sweep visit slots s).run w).1.1[i]? = some (some e') ∧
      ((sweep visit slots' s').run w').1.1[j]? = some (some e') ∧
      look e.definition ((sweep visit slots s).run w).2 =
        look e.definition ((sweep visit slots' s').run w').2 := by
  obtain ⟨hat, hseen⟩ := sweep_at hvisit hapart hi s s' hsame
  obtain ⟨hat', hseen'⟩ := sweep_at hvisit hapart' hj s' s' rfl
  exact ⟨_, hvisit.keeps e s' w', hat, hat', hseen.trans hseen'.symm⟩

end Slot

namespace Table

/-- A table with one measurement. -/
def alone (e : Entry) : Table := { slots := [some e] }

/-- The measurements that have turns. -/
def active (t : Table) : List Entry := Slot.active t.slots

theorem Distinct.apart {t : Table} (ht : t.Distinct) : Slot.Apart t.slots := by
  refine List.pairwise_iff_getElem.mpr fun i j hi hj hlt e e' he he' hname => ?_
  have hat : ∀ {k : Nat} (hk : k < t.slots.length) {e : Entry}, t.slots[k] = some e →
      t.get? k = some e := fun hk _ he =>
    get?_eq_some.mpr (by rw [List.getElem?_eq_getElem hk, he])
  exact Nat.ne_of_lt hlt (ht i j e e' (hat hi he) (hat hj he') hname)

theorem distinct_alone (e : Entry) : (alone e).Distinct := by
  intro i j e₁ e₂ hi hj _
  have hi := lt_of_get? hi
  have hj := lt_of_get? hj
  simp only [alone, List.length_singleton] at hi hj
  omega

theorem eq_alone {t : Table} {e : Entry} (hcapacity : t.capacity = 1) (h : t.get? 0 = some e) :
    t.slots = [some e] := by
  obtain ⟨slot, hslots⟩ := List.length_eq_one_iff.mp hcapacity
  have h := get?_eq_some.mp h
  rw [hslots] at h ⊢
  cases h
  rfl

/-- Tables of the same definitions have the same active measurements, and they
have the same values if they have them slot by slot. -/
theorem map_active_eq {t t' : Table} {f g : Entry → α} (hcapacity : t'.capacity = t.capacity)
    (hhole : ∀ i, t.get? i = none → t'.get? i = none)
    (hentry : ∀ i e, t.get? i = some e → ∃ e', t'.get? i = some e' ∧
      e'.definition = e.definition ∧ (e.definition.active → g e' = f e)) :
    t'.active.map g = t.active.map f := by
  have hslots : (t'.slots.map fun slot => (slot.filter (·.definition.active)).map g) =
      t.slots.map fun slot => (slot.filter (·.definition.active)).map f := by
    refine List.ext_getElem ?_ fun i hi' hi => ?_
    · rw [List.length_map, List.length_map]
      exact hcapacity
    simp only [List.length_map] at hi hi'
    rw [List.getElem_map, List.getElem_map]
    have hat : ∀ {t : Table} (hi : i < t.slots.length), t.get? i = t.slots[i] := fun hi => by
      rw [get?, List.getElem?_eq_getElem hi, Option.join_some]
    cases he : t.slots[i] with
    | none => rw [← hat hi', hhole i ((hat hi).trans he)]; rfl
    | some e =>
        obtain ⟨e', hi₁, hm, hvalue⟩ := hentry i e ((hat hi).trans he)
        rw [← hat hi', hi₁, Option.filter_some, Option.filter_some, hm]
        split
        · next hactive => rw [Option.map_some, Option.map_some, hvalue hactive]
        · rfl
  have hvalues := congrArg (List.filterMap id) hslots
  rw [List.filterMap_map, List.filterMap_map] at hvalues
  rw [active, active, Slot.active, Slot.active, List.map_filterMap, List.map_filterMap]
  exact hvalues

end Table

/-! ## Turns and polls -/

namespace Sampler

variable {d : Devices W} (hd : d.Apart look)

theorem visit_definition (guard fallback : UInt32) (clock : TransmitClock) (now : Timestamp)
    (e : Entry) (s : SamplerStats × Option UInt64) (w : W) :
    ((visit d guard fallback clock now e s).run w).1.1.definition = e.definition := by
  unfold visit
  rw [Action.run_ite]
  split <;> rfl

theorem pollOne_definition (e : Entry) (s : SamplerStats × UInt32) (w : W) :
    ((pollOne d e s).run w).1.1.definition = e.definition := by
  unfold pollOne
  rw [Action.run_ite]
  split
  · rw [Action.run_bind]
    cases ((d.sensors.poll e.definition).run w).1 <;> rfl
  · rfl

section

include hd

theorem visit_solitary (guard fallback : UInt32) (clock : TransmitClock) (now : Timestamp) :
    Slot.Solitary look (visit d guard fallback clock now) where
  keeps := visit_definition guard fallback clock now
  own e s s' := visit_alike hd guard fallback clock now e s s'
  others _ _ s hne := visit_others hd hne guard fallback clock now s

theorem pollOne_solitary : Slot.Solitary look (pollOne d) where
  keeps := pollOne_definition
  own e s s' := pollOne_alike hd e s s'
  others _ _ s hne := pollOne_others hd hne s

end

/-- How long the sampler might wait after a turn if a measurement had it alone. -/
def ownWait (d : Devices W) (s : Sampler) (clock : TransmitClock) (now : Timestamp) (w : W)
    (e : Entry) : UInt64 :=
  ((s.turn d (.alone e) clock now).run w).1.1.wait

theorem ownWait_eq {s : Sampler} {e : Entry} (hactive : e.definition.active = true)
    (clock : TransmitClock) (now : Timestamp) (w : W) :
    ownWait d s clock now w e =
      ((attend d s.fallback (.of e.definition s.guard clock now) e.definition e.tally s.stats).run
        w).1.2.2 := by
  simp only [ownWait, turn, Table.alone, Slot.sweep, visit, hactive, if_true, Action.run_bind,
    Action.run_pure, nearer, Option.getD_some]

include hd in
/-- What a measurement's turn alone comes to depends on what is seen of it, and
on how the sampler is set. -/
theorem ownWait_eq_of_seen {s s' : Sampler} (hguard : s'.guard = s.guard)
    (hfallback : s'.fallback = s.fallback) {e : Entry} (hactive : e.definition.active = true)
    (clock : TransmitClock) (now : Timestamp) {w w' : W}
    (hsame : look e.definition w' = look e.definition w) :
    ownWait d s' clock now w' e = ownWait d s clock now w e := by
  rw [ownWait_eq hactive, ownWait_eq hactive, hguard, hfallback]
  exact (attend_alike hd s.fallback _ e.definition e.tally _ _ w' w hsame).1.2

include hd in
/-- The nearest moment of a sweep, among the moment it knows of and those of the
measurements it visits. -/
theorem sweep_nearest (s : Sampler) (clock : TransmitClock) (now : Timestamp) {slots : List Slot}
    (hapart : Slot.Apart slots) (x : SamplerStats × Option UInt64) {w w₀ : W}
    (hsame : ∀ e, some e ∈ slots → look e.definition w = look e.definition w₀) :
    ((Slot.sweep (visit d s.guard s.fallback clock now) slots x).run w).1.2.2 =
      ((Slot.active slots).map (ownWait d s clock now w₀)).foldl nearer x.2 := by
  induction slots generalizing x w with
  | nil => rfl
  | cons slot rest ih =>
      cases slot with
      | none => exact ih hapart.tail x fun e he => hsame e (List.mem_cons_of_mem _ he)
      | some e =>
          have hvisit := visit_solitary hd s.guard s.fallback clock now
          have hrest := ih hapart.tail ((visit d s.guard s.fallback clock now e x).run w).1.2
            fun e' he' => (hvisit.others e'.definition e x (hapart.head e' he').symm w).trans
              (hsame e' (List.mem_cons_of_mem _ he'))
          refine hrest.trans ?_
          rw [Slot.active_cons]
          cases hactive : e.definition.active with
          | false =>
              simp only [visit, hactive]
              rfl
          | true =>
              have hwait := (attend_alike hd s.fallback (.of e.definition s.guard clock now)
                e.definition e.tally x.1 s.stats w w₀ (hsame e List.mem_cons_self)).1.2
              rw [if_pos rfl, List.map_cons, List.foldl_cons, ownWait_eq hactive, ← hwait]
              simp only [visit, hactive, if_true, Action.run_bind, Action.run_pure]

theorem foldl_nearer (waits : List UInt64) : waits.foldl nearer none = waits.min? := by
  cases waits with
  | nil => rfl
  | cons a rest =>
      rw [List.foldl_cons, List.min?_cons']
      show rest.foldl nearer (some a) = some (rest.foldl min a)
      induction rest generalizing a with
      | nil => rfl
      | cons b rest ih => exact ih (min a b)

include hd in
/-- The wait after a turn is the least of what the active measurements would
make of it alone, and zero without any. -/
theorem turn_wait {t : Table} (ht : t.Distinct) (s : Sampler) (clock : TransmitClock)
    (now : Timestamp) (w : W) :
    ((s.turn d t clock now).run w).1.1.wait =
      ((t.active.map (ownWait d s clock now w)).min?).getD 0 := by
  rw [← foldl_nearer]
  exact congrArg (Option.getD · 0)
    (sweep_nearest hd s clock now ht.apart (s.stats, none) fun _ _ => rfl)

/-! ## Work -/

/-- What a sampler is asked to do, and what happens meanwhile. -/
inductive Beat (W : Type) where
  | turn (clock : TransmitClock) (now : Timestamp)
  | poll
  /-- The world goes on, without a request. -/
  | pass (change : W → W)

/-- However the world goes on, what is seen of a definition goes on from what
was seen of it. -/
def Beat.Fair (look : Definition → W → V) : Beat W → Prop
  | .pass change => ∀ m w w', look m w = look m w' → look m (change w) = look m (change w')
  | _ => True

def beat (d : Devices W) (x : Sampler × Table) : Beat W → Action W (Sampler × Table)
  | .turn clock now => x.1.turn d x.2 clock now
  | .poll => do
      let (s, t, _) ← x.1.pollOpen d x.2
      pure (s, t)
  | .pass change => do
      Action.change change
      pure x

/-- Beat after beat. -/
def work (d : Devices W) : List (Beat W) → Sampler × Table → Action W (Sampler × Table)
  | [], x => pure x
  | b :: rest, x => do
      let x ← beat d x b
      work d rest x

theorem work_append (d : Devices W) (beats more : List (Beat W)) (x : Sampler × Table) (w : W) :
    (work d (beats ++ more) x).run w =
      (work d more ((work d beats x).run w).1).run ((work d beats x).run w).2 := by
  induction beats generalizing x w with
  | nil => rfl
  | cons b rest ih => exact ih _ _

theorem beat_passes (d : Devices W) (x : Sampler × Table) (b : Beat W) (w : W) :
    ∃ calls, x.2.Passes (fun e _ e' => e'.definition = e.definition)
      ((beat d x b).run w).1.2 calls := by
  cases b with
  | turn clock now =>
      obtain ⟨_, _, calls, _, h⟩ := turn_speaks (v := .schedule) d x.1 x.2 clock now w []
      exact ⟨calls, h.passes.imp fun _ _ _ hdeal => hdeal.definition_eq⟩
  | poll =>
      obtain ⟨_, _, calls, _, h⟩ := pollOpen_speaks (v := .schedule) d x.1 x.2 w []
      exact ⟨calls, h.passes.imp fun _ _ _ hdeal => hdeal.definition_eq⟩
  | pass change => exact ⟨[], .same (fun _ => rfl) fun _ hc => absurd hc List.not_mem_nil⟩

theorem work_passes (d : Devices W) (beats : List (Beat W)) (x : Sampler × Table) (w : W) :
    ∃ calls, x.2.Passes (fun e _ e' => e'.definition = e.definition)
      ((work d beats x).run w).1.2 calls := by
  induction beats generalizing x w with
  | nil => exact ⟨[], .same (fun _ => rfl) fun _ hc => absurd hc List.not_mem_nil⟩
  | cons b rest ih =>
      obtain ⟨calls, h⟩ := beat_passes d x b w
      obtain ⟨more, hrest⟩ := ih ((beat d x b).run w).1 ((beat d x b).run w).2
      exact ⟨calls ++ more, h.trans (fun _ _ _ h => h) hrest fun _ _ _ _ _ h h' => h'.trans h⟩

/-- A beat leaves the settings of a sampler. -/
theorem beat_settings (d : Devices W) (x : Sampler × Table) (b : Beat W) (w : W) :
    ((beat d x b).run w).1.1.guard = x.1.guard ∧
      ((beat d x b).run w).1.1.fallback = x.1.fallback := by
  cases b <;> exact ⟨rfl, rfl⟩

/-- Two samplers, set in the same way, in two worlds; the measurement in a slot of
the one is the measurement in a slot of the other, and the same is seen of it. -/
structure Mirrors (look : Definition → W → V) (i j : Nat) (e : Entry)
    (x y : (Sampler × Table) × W) : Prop where
  guard : x.1.1.guard = y.1.1.guard
  fallback : x.1.1.fallback = y.1.1.fallback
  distinct : x.1.2.Distinct
  distinct' : y.1.2.Distinct
  here : x.1.2.get? i = some e
  there : y.1.2.get? j = some e
  seen : look e.definition x.2 = look e.definition y.2

variable {i j : Nat} {e : Entry} {x y : (Sampler × Table) × W}

include hd in
/-- A beat does the same to the measurement on both sides. -/
theorem Mirrors.after_beat (h : Mirrors look i j e x y) {b : Beat W} (hb : b.Fair look) :
    ∃ e', e'.definition = e.definition ∧
      Mirrors look i j e' ((beat d x.1 b).run x.2) ((beat d y.1 b).run y.2) := by
  obtain ⟨hguard, hfallback⟩ := beat_settings d x.1 b x.2
  obtain ⟨hguard', hfallback'⟩ := beat_settings d y.1 b y.2
  obtain ⟨calls, hpasses⟩ := beat_passes d x.1 b x.2
  obtain ⟨calls', hpasses'⟩ := beat_passes d y.1 b y.2
  suffices hsame : ∃ e' : Entry, e'.definition = e.definition ∧
      ((beat d x.1 b).run x.2).1.2.get? i = some e' ∧
      ((beat d y.1 b).run y.2).1.2.get? j = some e' ∧
      look e.definition ((beat d x.1 b).run x.2).2 =
        look e.definition ((beat d y.1 b).run y.2).2 by
    obtain ⟨e', hm, here, there, seen⟩ := hsame
    exact ⟨e', hm, {
      guard := hguard.trans (h.guard.trans hguard'.symm)
      fallback := hfallback.trans (h.fallback.trans hfallback'.symm)
      distinct := hpasses.distinct (fun _ _ _ h => h) h.distinct
      distinct' := hpasses'.distinct (fun _ _ _ h => h) h.distinct'
      here, there
      seen := hm ▸ seen }⟩
  have here := Table.get?_eq_some.mp h.here
  have there := Table.get?_eq_some.mp h.there
  cases b with
  | turn clock now =>
      have hvisit := visit_solitary hd x.1.1.guard x.1.1.fallback clock now
      obtain ⟨e', hm, hi, hj, seen⟩ := Slot.sweep_same hvisit h.distinct.apart h.distinct'.apart
        here there (x.1.1.stats, none) (y.1.1.stats, none) h.seen
      have hset : visit d x.1.1.guard x.1.1.fallback clock now =
          visit d y.1.1.guard y.1.1.fallback clock now := by
        rw [h.guard, h.fallback]
      rw [hset] at hj
      refine ⟨e', hm, Table.get?_eq_some.mpr hi, Table.get?_eq_some.mpr hj, seen.trans ?_⟩
      rw [hset]
      rfl
  | poll =>
      obtain ⟨e', hm, hi, hj, seen⟩ := Slot.sweep_same (pollOne_solitary hd) h.distinct.apart
        h.distinct'.apart here there (x.1.1.stats, 0) (y.1.1.stats, 0) h.seen
      exact ⟨e', hm, Table.get?_eq_some.mpr hi, Table.get?_eq_some.mpr hj, seen⟩
  | pass change => exact ⟨e, rfl, h.here, h.there, hb e.definition _ _ h.seen⟩

include hd in
theorem Mirrors.after_work (h : Mirrors look i j e x y) {beats : List (Beat W)}
    (hbeats : ∀ b ∈ beats, b.Fair look) :
    ∃ e', e'.definition = e.definition ∧
      Mirrors look i j e' ((work d beats x.1).run x.2) ((work d beats y.1).run y.2) := by
  induction beats generalizing e x y with
  | nil => exact ⟨e, rfl, h⟩
  | cons b rest ih =>
      obtain ⟨e', hm, hbeat⟩ := h.after_beat hd (hbeats b List.mem_cons_self)
      obtain ⟨e'', hm', hwork⟩ := ih hbeat fun b hb => hbeats b (List.mem_cons_of_mem _ hb)
      exact ⟨e'', hm'.trans hm, hwork⟩

/-! ## What is called -/

/-- The beat in a world with notes, which stay as they are while the world goes on. -/
def Beat.noted : Beat W → Beat (W × List Note)
  | .turn clock now => .turn clock now
  | .poll => .poll
  | .pass change => .pass fun w => (change w.1, w.2)

/-- What is seen of a definition, with the notes that concern it. -/
def lookNoted (look : Definition → W → V) (m : Definition) (w : W × List Note) : V × List Note :=
  (look m w.1, w.2.filter (·.concerns m.name))

theorem Beat.Fair.noted {b : Beat W} (hb : b.Fair look) : b.noted.Fair (lookNoted look) := by
  cases b with
  | turn clock now => trivial
  | poll => trivial
  | pass change =>
      intro m w w' hsame
      obtain ⟨hseen, hnotes⟩ := Prod.mk.inj hsame
      exact Prod.ext (hb m _ _ hseen) hnotes

end Sampler

/-- A private request that is noted for its measurement is private still. -/
theorem Action.Private.noting {m : Definition} {a : Action W α} (ha : a.Private look m)
    {call : α → Call} (hsubject : ∀ x, (call x).subject = some m.name) :
    ((Part.first.run a).noting Voice.schedule.write call).Private (Sampler.lookNoted look) m where
  own w w' hsame := by
    obtain ⟨hseen, hnotes⟩ := Prod.mk.inj hsame
    obtain ⟨hanswer, hafter⟩ := ha.own w.1 w'.1 hseen
    refine ⟨hanswer, Prod.ext hafter ?_⟩
    show (w.2 ++ Voice.schedule.notes [call (a.run w.1).1]).filter _ =
      (w'.2 ++ Voice.schedule.notes [call (a.run w'.1).1]).filter _
    rw [List.filter_append, List.filter_append, hnotes, hanswer]
  others m' hne w := by
    refine Prod.ext (ha.others m' hne w.1) ?_
    show (w.2 ++ Voice.schedule.notes [call (a.run w.1).1]).filter _ = w.2.filter _
    rw [List.filter_append, filter_schedule, filter_about_eq_nil, Voice.notes_nil, List.append_nil]
    intro c hc heq
    rw [List.mem_singleton.mp hc, hsubject] at heq
    exact hne (Option.some_inj.mp heq).symm

theorem Devices.Apart.voiced {d : Devices W} (hd : d.Apart look) :
    (d.voiced .schedule).Apart (Sampler.lookNoted look) where
  collectionTime m := (hd.collectionTime m).noting fun _ => rfl
  start m alone := (hd.start m alone).noting fun _ => rfl
  poll m := (hd.poll m).noting fun _ => rfl
  collect m := (hd.collect m).noting fun _ => rfl
  log severity text m w := Prod.ext (hd.log severity text m w.1) rfl

namespace Sampler

variable {d : Devices W}

/-- The wait after some work and one more turn, for each active measurement as it
was at first, alone. -/
theorem work_wait (hd : d.Apart look) {beats : List (Beat W)}
    (hbeats : ∀ b ∈ beats, b.Fair look) (s : Sampler) {t : Table} (ht : t.Distinct) (w : W)
    (clock : TransmitClock) (now : Timestamp) :
    ((work d (beats ++ [.turn clock now]) (s, t)).run w).1.1.wait =
      ((t.active.map fun e =>
        ((work d (beats ++ [.turn clock now]) (s, .alone e)).run w).1.1.wait).min?).getD 0 := by
  obtain ⟨_, hpasses⟩ := work_passes d beats (s, t) w
  have hdistinct := hpasses.distinct (fun _ _ _ h => h) ht
  rw [work_append]
  refine (turn_wait hd hdistinct _ clock now _).trans ?_
  refine congrArg (fun waits => (List.min? waits).getD 0) (Table.map_active_eq hpasses.capacity
    hpasses.hole fun i e hi => ?_)
  -- What stands in slot `i` after the beats is what the table alone holds by then.
  have hmirrors : Mirrors look i 0 e ((s, t), w) ((s, .alone e), w) :=
    ⟨rfl, rfl, ht, Table.distinct_alone e, hi, rfl, rfl⟩
  obtain ⟨e', hm, h⟩ := hmirrors.after_work hd hbeats
  refine ⟨e', h.here, hm, fun hactive => ?_⟩
  have hactive' : e'.definition.active = true := hm ▸ hactive
  obtain ⟨_, hpasses'⟩ := work_passes d beats (s, .alone e) w
  have hslots := Table.eq_alone hpasses'.capacity h.there
  rw [work_append]
  refine Eq.trans ?_ (turn_wait hd h.distinct' _ clock now _).symm
  rw [Table.active, hslots, Slot.active_cons, if_pos hactive']
  exact ownWait_eq_of_seen hd h.guard h.fallback hactive' clock now h.seen

/-- With sensors that keep their measurements apart, it makes no difference to a
measurement what stands in the table beside it, in which slot it stands, or what
the sensors of the others do: after any work it is the same, and the same calls
have been made for it. And the wait after every turn is the least of the waits
that the active measurements would have got alone. -/
theorem schedules_apart (hd : d.Apart look) {beats : List (Beat W)}
    (hbeats : ∀ b ∈ beats, b.Fair look) :
    (∀ (i j : Nat) (e : Entry) (x y : (Sampler × Table) × W), Mirrors look i j e x y →
      let r := (work (d.voiced .schedule) (beats.map .noted) x.1).run (x.2, [])
      let r' := (work (d.voiced .schedule) (beats.map .noted) y.1).run (y.2, [])
      (∃ e', r.1.2.get? i = some e' ∧ r'.1.2.get? j = some e') ∧
        r.2.2.filter (·.concerns e.name) = r'.2.2.filter (·.concerns e.name)) ∧
    ∀ (s : Sampler) (t : Table) (w : W) (clock : TransmitClock) (now : Timestamp), t.Distinct →
      ((work d (beats ++ [.turn clock now]) (s, t)).run w).1.1.wait =
        ((t.active.map fun e =>
          ((work d (beats ++ [.turn clock now]) (s, .alone e)).run w).1.1.wait).min?).getD 0 := by
  refine ⟨fun i j e x y h => ?_, fun s t w clock now ht =>
    work_wait hd hbeats s ht w clock now⟩
  -- With the notes as a part of what is seen, calls are covered by the same induction.
  have hnoted : Mirrors (lookNoted look) i j e (x.1, x.2, []) (y.1, y.2, []) :=
    { h with seen := Prod.ext h.seen rfl }
  have hfair : ∀ b ∈ beats.map Beat.noted, b.Fair (lookNoted look) := by
    intro b hb
    obtain ⟨plain, hplain, rfl⟩ := List.mem_map.mp hb
    exact (hbeats plain hplain).noted
  obtain ⟨e', hm, hwork⟩ := hnoted.after_work hd.voiced hfair
  have hnotes := (Prod.mk.inj hwork.seen).2
  rw [hm] at hnotes
  exact ⟨⟨e', hwork.here, hwork.there⟩, hnotes⟩

end Sampler

/-- Devices whose sensors are busy as many times as the world says for a name. -/
def Devices.patient : Devices (String → Nat) :=
  let rest := (Devices.obliging 0).through ⟨fun _ => 0, fun _ w => w⟩
  { rest with sensors := { rest.sensors with
      start := fun m _ => .step fun w =>
        if w m.name = 0 then (.done (), w) else (.busy, Function.update w m.name (w m.name - 1)) } }

theorem Devices.patient_apart : patient.Apart fun m w => w m.name where
  collectionTime _ := ⟨fun _ _ hsame => ⟨rfl, hsame⟩, fun _ _ _ => rfl⟩
  poll _ := ⟨fun _ _ hsame => ⟨rfl, hsame⟩, fun _ _ _ => rfl⟩
  collect _ := ⟨fun _ _ hsame => ⟨rfl, hsame⟩, fun _ _ _ => rfl⟩
  log _ _ _ _ := rfl
  start m _ := {
    own := fun w w' hsame => by
      simp only [patient, Action.run_step, hsame]
      split
      · exact ⟨rfl, hsame⟩
      · exact ⟨rfl, by simp only [Function.update_self]⟩
    others := fun m' hne w => by
      simp only [patient, Action.run_step]
      split
      · rfl
      · exact Function.update_of_ne hne .. }

/-- A table with a measurement B, a hole and a measurement A. -/
def Table.pair : Table :=
  let entry (name : String) : Entry := ⟨⟨name, .custom0, 1, 1, false⟩, .fresh .integer 0⟩
  { slots := [some (entry "B"), none, some (entry "A")] }

theorem Table.distinct_pair : pair.Distinct := by
  intro i j e e' hi hj
  match i, j with
  | 0, 0 => exact fun _ => rfl
  | 2, 2 => exact fun _ => rfl
  | 0, 2 =>
      cases hi
      cases hj
      exact fun h => absurd h (by decide)
  | 2, 0 =>
      cases hi
      cases hj
      exact fun h => absurd h (by decide)
  | 1, _ => cases hi
  | _, 1 => cases hj
  | i + 3, _ => cases hi
  | _, j + 3 => cases hj

/-- The sensor of B is busy, and A, behind it and beyond a hole, is what it would
be alone; but the next turn comes at once. -/
theorem Sampler.schedules_apart_patient :
    let a : Entry := ⟨⟨"A", .custom0, 1, 1, false⟩, .fresh .integer 0⟩
    let clock : TransmitClock := { interval := 1000, began := 0 }
    let beats : List (Beat (String → Nat)) := [.turn clock 600, .poll]
    let stuck : String → Nat := fun name => if name = "B" then 5 else 0
    let r := (work (Devices.patient.voiced .schedule) (beats.map .noted) ({}, .pair)).run (stuck, [])
    let r' := (work (Devices.patient.voiced .schedule) (beats.map .noted) ({}, .alone a)).run
      (fun _ => 0, [])
    ((∃ e', r.1.2.get? 2 = some e' ∧ r'.1.2.get? 0 = some e') ∧
      r.2.2.filter (·.concerns a.name) = r'.2.2.filter (·.concerns a.name)) ∧
    (Table.pair.active.map fun e =>
      ((work .patient (beats ++ [.turn clock 700]) ({}, .alone e)).run stuck).1.1.wait) =
        [0, 800] ∧
    ((work .patient (beats ++ [.turn clock 700]) ({}, .pair)).run stuck).1.1.wait = 0 := by
  intro a clock beats stuck
  have hfair : ∀ b ∈ beats, b.Fair fun m (w : String → Nat) => w m.name := by
    intro b hb
    simp only [beats, List.mem_cons, List.not_mem_nil, or_false] at hb
    rcases hb with rfl | rfl <;> trivial
  have hmirrors : Mirrors (fun m (w : String → Nat) => w m.name) 2 0 a (({}, .pair), stuck)
      (({}, .alone a), fun _ => 0) :=
    ⟨rfl, rfl, Table.distinct_pair, Table.distinct_alone _, rfl, rfl, by decide⟩
  have hwaits : (Table.pair.active.map fun e =>
      ((work .patient (beats ++ [.turn clock 700]) ({}, .alone e)).run stuck).1.1.wait) =
        [0, 800] := by
    decide +kernel
  obtain ⟨hmirror, hwait⟩ := schedules_apart Devices.patient_apart hfair
  have hwait := hwait {} .pair stuck clock 700 Table.distinct_pair
  rw [hwaits] at hwait
  have hmirror := hmirror 2 0 a _ _ hmirrors
  dsimp only at hmirror ⊢
  exact ⟨hmirror, hwaits, hwait⟩

end Telemetry
