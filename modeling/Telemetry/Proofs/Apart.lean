import Telemetry.Proofs.Stays
import Telemetry.Proofs.Worlds

/-!
# Measurements keep apart

A sampler visits its measurements one after another, and every visit hands on
its statistics, the nearest moment so far and a world that the sensors have been
asked in. A measurement takes no notice of any of it. Its sensor is asked about
it alone, so what can be seen of it in the world is what its own requests have
made of it; the statistics are counted on and not read; the nearest moment is
compared with and not read either.

Two judgments say so. `Within (.unseen see)` is for an action that concerns
others: what is seen stays as it is. `Action.Alike` is for the same action in two
worlds, with different statistics: where the same is seen, the same is answered,
and the same is seen afterwards. A visit to a measurement is judged in both ways
here, once for itself (`visit_alike`) and once for the others (`visit_others`).
-/

namespace Telemetry

variable {W V α β γ δ : Type}

/-! ## Worlds in which the same is seen -/

/-- Nothing that is seen changes. -/
def Drift.unseen (see : W → V) : Drift W where
  leads w w' := see w' = see w
  refl _ := rfl
  trans h h' := h'.trans h

/-- In two worlds in which the same is seen, two actions give answers that go
together, and the same is seen afterwards. -/
def Action.Alike (see : W → V) (together : α → β → Prop) (a : Action W α) (b : Action W β) : Prop :=
  ∀ w w', see w = see w' →
    together (a.run w).1 (b.run w').1 ∧ see (a.run w).2 = see (b.run w').2

namespace Action.Alike

variable {see : W → V} {a : Action W α} {b : Action W β}

protected theorem pure {together : α → β → Prop} {x : α} {y : β} (h : together x y) :
    (pure x : Action W α).Alike see together (pure y) := fun _ _ hsame => ⟨h, hsame⟩

protected theorem bind {mid : α → β → Prop} {together : γ → δ → Prop} {f : α → Action W γ}
    {g : β → Action W δ} (ha : a.Alike see mid b)
    (hf : ∀ x y, mid x y → (f x).Alike see together (g y)) :
    (a >>= f).Alike see together (b >>= g) := by
  intro w w' hsame
  obtain ⟨hmid, hsame'⟩ := ha w w' hsame
  exact hf _ _ hmid _ _ hsame'

/-- After an action that answers the same in both worlds. -/
theorem next {a b : Action W α} {together : γ → δ → Prop} {f : α → Action W γ}
    {g : α → Action W δ} (ha : a.Alike see Eq b) (hf : ∀ x, (f x).Alike see together (g x)) :
    (a >>= f).Alike see together (b >>= g) :=
  ha.bind fun x y heq => by subst heq; exact hf x

/-- After something that is not seen and answers nothing. -/
theorem skip {a b : Action W Unit} {together : γ → δ → Prop} {f : Unit → Action W γ}
    {g : Unit → Action W δ} (ha : a.Within (.unseen see)) (hb : b.Within (.unseen see))
    (hf : (f ()).Alike see together (g ())) : (a >>= f).Alike see together (b >>= g) := by
  intro w w' hsame
  exact hf _ _ ((ha w).trans (hsame.trans (hb w').symm))

end Action.Alike

/-- A request that concerns a measurement is answered from what is seen of it,
and nothing is seen of the request at measurements of other names. -/
structure Action.Private (look : Definition → W → V) (m : Definition) (a : Action W α) : Prop where
  own : a.Alike (look m) Eq a
  others : ∀ m' : Definition, m'.name ≠ m.name → a.Within (.unseen (look m'))

/-- Sensors whose answers for a definition depend only on the calls made for it:
something can be seen of every definition in the world, and a request for one is
answered from that and is not seen at others. Nothing is seen of the log. -/
structure Devices.Apart (look : Definition → W → V) (d : Devices W) : Prop where
  collectionTime : ∀ m, (d.sensors.collectionTime m).Private look m
  start : ∀ m alone, (d.sensors.start m alone).Private look m
  poll : ∀ m, (d.sensors.poll m).Private look m
  collect : ∀ m, (d.sensors.collect m).Private look m
  log : ∀ severity text m, (d.log severity text).Within (.unseen (look m))

/-! ## One measurement, in two worlds -/

section

variable {look : Definition → W → V} {d : Devices W} (hd : d.Apart look)
include hd

theorem Devices.leadTime_alike (m : Definition) (fallback : UInt32) :
    (d.leadTime m fallback).Alike (look m) Eq (d.leadTime m fallback) := by
  refine (hd.collectionTime m).own.next fun answer => ?_
  cases answer with
  | none => exact .pure rfl
  | some reply =>
      cases reply with
      | done ms => exact .pure rfl
      | busy => exact .skip (hd.log _ _ m) (hd.log _ _ m) (.pure rfl)
      | failed cause => exact .skip (hd.log _ _ m) (hd.log _ _ m) (.pure rfl)

theorem Tally.observe_alike (m : Definition) (t : Tally) (r : Reading) :
    (t.observe d.log r).Alike (look m) Eq (t.observe d.log r) := by
  unfold observe
  cases t.fold r with
  | error refusal => exact .skip (hd.log _ _ m) (hd.log _ _ m) (.pure rfl)
  | ok t' =>
      simp only []
      cases t'.summary.notice with
      | none => exact .pure rfl
      | some text => exact .skip (hd.log _ _ m) (hd.log _ _ m) (.pure rfl)

namespace Sampler

/-- Answers that differ in the statistics only. -/
def SameBut (x y : α × SamplerStats × β) : Prop := x.1 = y.1 ∧ x.2.2 = y.2.2

theorem start_alike (m : Definition) (t : Tally) (s s' : SamplerStats) :
    (start d m t s).Alike (look m) SameBut (start d m t s') := by
  unfold start
  split
  · exact .skip (hd.log _ _ m) (hd.log _ _ m) (.pure ⟨rfl, rfl⟩)
  · refine (hd.start m false).own.next fun answer => ?_
    cases answer with
    | done => exact .skip (hd.log _ _ m) (hd.log _ _ m) (.pure ⟨rfl, rfl⟩)
    | busy => exact .pure ⟨rfl, rfl⟩
    | failed cause => exact .skip (hd.log _ _ m) (hd.log _ _ m) (.pure ⟨rfl, rfl⟩)

theorem collect_alike (fallback : UInt32) (m : Definition) (t : Tally) (s s' : SamplerStats) :
    (collect d fallback m t s).Alike (look m) SameBut (collect d fallback m t s') := by
  unfold collect
  refine (hd.collect m).own.next fun answer => ?_
  cases answer with
  | done r =>
      refine .skip (hd.log _ _ m) (hd.log _ _ m) ((Tally.observe_alike hd m _ r).next fun x => ?_)
      exact (d.leadTime_alike hd m fallback).next fun _ => .pure ⟨rfl, rfl⟩
  | busy => exact .pure ⟨rfl, rfl⟩
  | failed cause => exact .skip (hd.log _ _ m) (hd.log _ _ m) (.pure ⟨rfl, rfl⟩)

theorem giveUp_alike (m : Definition) (t : Tally) :
    (giveUp d m t).Alike (look m) Eq (giveUp d m t) := by
  unfold giveUp
  split
  · exact .skip (hd.log _ _ m) (hd.log _ _ m) (.pure rfl)
  · exact .pure rfl

theorem startTurn_alike (p : Plan) (m : Definition) (t : Tally) (s s' : SamplerStats) :
    (startTurn d p m t s).Alike (look m) SameBut (startTurn d p m t s') := by
  unfold startTurn
  simp only []
  split
  · refine (giveUp_alike hd m t).next fun t' => (start_alike hd m t' s s').bind ?_
    rintro ⟨t₁, s₁, busy⟩ ⟨t₂, s₂, busy'⟩ ⟨rfl, rfl⟩
    exact .pure ⟨rfl, rfl⟩
  · exact .pure ⟨rfl, rfl⟩

theorem collectTurn_alike (fallback : UInt32) (p : Plan) (m : Definition) (collectAt : UInt64)
    (t : Tally) (s s' : SamplerStats) :
    (collectTurn d fallback p m collectAt t s).Alike (look m) SameBut
      (collectTurn d fallback p m collectAt t s') := by
  unfold collectTurn
  split
  · exact .pure ⟨rfl, rfl⟩
  · split
    · split
      · refine (collect_alike hd fallback m t s s').bind ?_
        rintro ⟨t₁, s₁, busy⟩ ⟨t₂, s₂, busy'⟩ ⟨rfl, rfl⟩
        exact .pure ⟨rfl, rfl⟩
      · exact .pure ⟨rfl, rfl⟩
    · exact .skip (hd.log _ _ m) (hd.log _ _ m) (.pure ⟨rfl, rfl⟩)

theorem attend_alike (fallback : UInt32) (p : Plan) (m : Definition) (t : Tally)
    (s s' : SamplerStats) :
    (attend d fallback p m t s).Alike (look m) SameBut (attend d fallback p m t s') := by
  unfold attend
  simp only []
  refine (startTurn_alike hd p m _ s s').bind ?_
  rintro ⟨t₁, s₁, startWait⟩ ⟨t₂, s₂, startWait'⟩ ⟨rfl, rfl⟩
  refine (collectTurn_alike hd fallback p m _ t₁ s₁ s₂).bind ?_
  rintro ⟨t₃, s₃, collectWait⟩ ⟨t₄, s₄, collectWait'⟩ ⟨rfl, rfl⟩
  exact .pure ⟨rfl, rfl⟩

theorem visit_alike (guard fallback : UInt32) (clock : TransmitClock) (now : Timestamp) (e : Entry)
    (s s' : SamplerStats × Option UInt64) :
    (visit d guard fallback clock now e s).Alike (look e.definition) (fun x y => x.1 = y.1)
      (visit d guard fallback clock now e s') := by
  unfold visit
  split
  · refine (attend_alike hd fallback _ e.definition e.tally s.1 s'.1).bind ?_
    rintro ⟨t₁, s₁, wait⟩ ⟨t₂, s₂, wait'⟩ ⟨rfl, rfl⟩
    exact .pure rfl
  · exact .pure rfl

theorem pollOne_alike (e : Entry) (s s' : SamplerStats × UInt32) :
    (pollOne d e s).Alike (look e.definition) (fun x y => x.1 = y.1) (pollOne d e s') := by
  unfold pollOne
  split
  · refine (hd.poll e.definition).own.next fun answer => ?_
    cases answer with
    | done => exact .pure rfl
    | busy => exact .pure rfl
    | failed cause =>
        exact .skip (hd.log _ _ e.definition) (hd.log _ _ e.definition) (.pure rfl)
  · exact .pure rfl

end Sampler

end

/-! ## Other measurements -/

/-- Devices that take every request for a request for one definition, and answer
nothing but what its turns and polls ask. -/
def Devices.only (m : Definition) (d : Devices W) : Devices W where
  sensors := {
    valueKind := fun _ => pure none
    collectionTime := fun _ => d.sensors.collectionTime m
    start := fun _ alone => d.sensors.start m alone
    poll := fun _ => d.sensors.poll m
    collect := fun _ => d.sensors.collect m }
  radio := {
    openFrame := pure (.ok ())
    append := fun _ _ => pure (.ok ())
    appendReading := fun _ _ => pure (.ok ())
    send := pure (.ok ())
    ready := pure true
    connected := pure true }
  board := {}
  now := pure 0
  log := d.log

theorem Devices.Apart.only {look : Definition → W → V} {d : Devices W} (hd : d.Apart look)
    {m m' : Definition} (hne : m'.name ≠ m.name) : (d.only m).Within (.unseen (look m')) where
  valueKind _ := .pure _
  collectionTime _ := (hd.collectionTime m).others m' hne
  start _ alone := (hd.start m alone).others m' hne
  poll _ := (hd.poll m).others m' hne
  collect _ := (hd.collect m).others m' hne
  power _ _ := .pure _
  powered _ := .pure _
  delivered _ := .pure _
  openFrame := .pure _
  append _ _ := .pure _
  appendReading _ _ := .pure _
  send := .pure _
  ready := .pure _
  allowed := .pure _
  connected := .pure _
  reset := .pure _
  onBattery := .pure _
  sleepFor _ := .pure _
  spin := .pure _
  now := .pure _
  log severity text := hd.log severity text m'

namespace Sampler

variable {look : Definition → W → V} {d : Devices W} (hd : d.Apart look) {e : Entry}
  {m : Definition}
include hd

theorem visit_others (hne : m.name ≠ e.name) (guard fallback : UInt32) (clock : TransmitClock)
    (now : Timestamp) (s : SamplerStats × Option UInt64) :
    (visit d guard fallback clock now e s).Within (.unseen (look m)) :=
  visit_within (hd.only hne) guard fallback clock now e s

theorem pollOne_others (hne : m.name ≠ e.name) (s : SamplerStats × UInt32) :
    (pollOne d e s).Within (.unseen (look m)) :=
  pollOne_within (hd.only hne) e s

end Sampler

end Telemetry
