import Telemetry.Proofs.Adrift
import Telemetry.Proofs.Counters
import Telemetry.Proofs.Gathering
import Telemetry.Proofs.Reliable

/-!
# Where a measurement stands in its period

A period has run so far (`positionAt`), and each of its samples belongs to a
moment of it (`targetAt`). This file follows one measurement through the parts
of a turn of the loop, on reliable devices and in plain numbers.

The sampler waits as long as the nearest of all measurements allows, and its
next turn comes when the wait is over, not when it is reached. So a sample may
be taken a millisecond late, and never later, which is what `Sampler.Awaits`
keeps. A sample that has to be taken within the period is taken in it, as the
last target lies before its end. It is the lead, which has to be long enough for
what is lost in rounding the slices, that keeps the sample after the last from
being taken in the same period (`lt_targetAt`).
-/

namespace Telemetry

variable {W : Type}

/-! ## Plans in numbers -/

namespace Definition

/-- How far the period has run, as a number. -/
def positionAt (m : Definition) (clock : TransmitClock) (now : Timestamp) : Nat :=
  now.toNat - clock.began.toNat + clock.count.toNat % m.period.toNat * clock.interval.toNat

/-- The moment in the period that the sample of a number belongs to, as a number. -/
def targetAt (m : Definition) (interval guard : UInt32) (k : Nat) : Nat :=
  k * (Plan.spacingOf m interval).toNat + (Plan.leadOf m interval guard).toNat

/-- A measurement that is sampled, with a lead that makes up for the rounding of
its slices and for samples that are taken late. -/
structure Roomy (m : Definition) (interval guard : UInt32) : Prop where
  active : m.active = true
  lead : m.sampleCount.toNat + 2 ≤ (Plan.leadOf m interval guard).toNat

theorem pos_of_active {m : Definition} (h : m.active = true) :
    0 < m.period.toNat ∧ 0 < m.sampleCount.toNat := by
  simp only [active, Bool.and_eq_true, decide_eq_true_eq] at h
  exact ⟨UInt8.lt_iff_toNat_lt.mp h.1.1, UInt8.lt_iff_toNat_lt.mp h.1.2⟩

/-- The ticks of the period that are over take no more than 40 bits. -/
theorem ticks_le {m : Definition} (hactive : m.active = true) (clock : TransmitClock) :
    clock.count.toNat % m.period.toNat * clock.interval.toNat ≤ 255 * 4294967295 := by
  have hlt := Nat.mod_lt clock.count.toNat (pos_of_active hactive).1
  have hbyte := m.period.toNat_lt
  have hinterval := clock.interval.toNat_lt
  exact Nat.mul_le_mul (by omega) (by omega)

theorem positionAt_lt {m : Definition} {clock : TransmitClock} {now : Timestamp}
    (hnow : now.toNat < 0x8000000000000000) (hactive : m.active = true) :
    m.positionAt clock now < 0x8000000000000000 + 0x10000000000 := by
  have hticks := ticks_le hactive clock
  unfold positionAt
  omega

end Definition

namespace Plan

variable (m : Definition) (interval guard : UInt32)

theorem toNat_spacingOf :
    (spacingOf m interval).toNat =
      m.period.toNat * interval.toNat / m.sampleCount.toNat := by
  have hperiod := m.period.toNat_lt
  have hinterval := interval.toNat_lt
  have hle : m.period.toNat * interval.toNat ≤ 255 * 4294967295 :=
    Nat.mul_le_mul (by omega) (by omega)
  rw [spacingOf, UInt64.toNat_div, UInt64.toNat_mul, UInt8.toNat_toUInt64, UInt32.toNat_toUInt64,
    UInt8.toNat_toUInt64, Nat.mod_eq_of_lt (by omega)]

theorem spacingOf_lt : (spacingOf m interval).toNat ≤ 255 * 4294967295 := by
  rw [toNat_spacingOf]
  refine Nat.le_trans (Nat.div_le_self _ _) (Nat.mul_le_mul ?_ ?_)
  · have := m.period.toNat_lt
    omega
  · have := interval.toNat_lt
    omega

theorem leadOf_le : (leadOf m interval guard).toNat ≤ (spacingOf m interval).toNat := by
  unfold leadOf
  split
  · rw [Saturating.toNat_sub]
    omega
  · rw [UInt64.toNat_div]
    exact Nat.div_le_self _ _

theorem toNat_target_of_lt (clock : TransmitClock) (now : Timestamp) {k : UInt32}
    (hk : m.targetAt clock.interval guard k.toNat < UInt64.size) :
    ((Plan.of m guard clock now).target k).toNat = m.targetAt clock.interval guard k.toNat := by
  unfold Definition.targetAt UInt64.size at hk
  show (k.toUInt64 * spacingOf m clock.interval + leadOf m clock.interval guard).toNat = _
  rw [Definition.targetAt, UInt64.toNat_add, UInt64.toNat_mul, UInt32.toNat_toUInt64,
    Nat.mod_eq_of_lt (a := k.toNat * _) (by omega), Nat.mod_eq_of_lt (by omega)]

theorem toNat_target (clock : TransmitClock) (now : Timestamp) {k : UInt32} (hk : k.toNat ≤ 255) :
    ((Plan.of m guard clock now).target k).toNat = m.targetAt clock.interval guard k.toNat := by
  have hspacing := spacingOf_lt m clock.interval
  have hlead := leadOf_le m clock.interval guard
  have hmul : k.toNat * (spacingOf m clock.interval).toNat ≤ 255 * (255 * 4294967295) :=
    Nat.mul_le_mul hk hspacing
  refine toNat_target_of_lt m guard clock now ?_
  unfold Definition.targetAt UInt64.size
  omega

variable {m} in
theorem toNat_position_of_lt (clock : TransmitClock) {now : Timestamp} (hactive : m.active = true)
    (hposition : m.positionAt clock now < UInt64.size) :
    (Plan.of m guard clock now).position.toNat = m.positionAt clock now := by
  have hmod : (clock.count % m.period.toUInt32).toNat = clock.count.toNat % m.period.toNat := by
    rw [UInt32.toNat_mod, UInt8.toNat_toUInt32]
  have hticks := Definition.ticks_le hactive clock
  unfold Definition.positionAt UInt64.size at hposition
  show (elapsed clock.began now +
    (clock.count % m.period.toUInt32).toUInt64 * clock.interval.toUInt64).toNat = _
  rw [Definition.positionAt, UInt64.toNat_add, UInt64.toNat_mul, UInt32.toNat_toUInt64, hmod,
    UInt32.toNat_toUInt64, Telemetry.elapsed, Saturating.toNat_sub,
    Nat.mod_eq_of_lt (a := _ % _ * _) (by omega), Nat.mod_eq_of_lt (by omega)]

variable {m} in
theorem toNat_position (clock : TransmitClock) {now : Timestamp} (hnow : now.toNat < 0x8000000000000000)
    (hactive : m.active = true) :
    (Plan.of m guard clock now).position.toNat = m.positionAt clock now := by
  refine toNat_position_of_lt guard clock hactive ?_
  have hlt : m.positionAt clock now < 0x8000000000000000 + 0x10000000000 :=
    Definition.positionAt_lt hnow hactive
  unfold UInt64.size
  omega

end Plan

namespace Definition

variable {m : Definition} {interval guard : UInt32} {clock : TransmitClock} {now : Timestamp}
  {k : Nat}

variable (m interval) in
theorem slices_le :
    m.sampleCount.toNat * (Plan.spacingOf m interval).toNat ≤
      m.period.toNat * interval.toNat := by
  rw [Plan.toNat_spacingOf]
  exact Nat.mul_div_le _ _

variable (interval guard) in
/-- The samples of a period belong into it. -/
theorem targetAt_le (hk : k < m.sampleCount.toNat) :
    m.targetAt interval guard k ≤ m.period.toNat * interval.toNat := by
  have hlead := Plan.leadOf_le m interval guard
  have hslices := m.slices_le interval
  have hmul : (k + 1) * (Plan.spacingOf m interval).toNat ≤
      m.sampleCount.toNat * (Plan.spacingOf m interval).toNat := Nat.mul_le_mul_right _ hk
  rw [Nat.add_mul, Nat.one_mul] at hmul
  rw [targetAt]
  omega

variable (m interval guard) in
/-- The sample after the last is not later in its own period than the first. -/
theorem targetAt_last_le :
    m.targetAt interval guard m.sampleCount.toNat ≤
      m.period.toNat * interval.toNat + m.targetAt interval guard 0 := by
  have hslices := m.slices_le interval
  rw [targetAt, targetAt]
  omega

/-- The sample after the last belongs to the next period, and is not taken in
the millisecond by which this one ends too late. -/
theorem lt_targetAt (hm : m.Roomy interval guard) :
    m.period.toNat * interval.toNat + 1 < m.targetAt interval guard m.sampleCount.toNat := by
  have hlt := Nat.lt_mul_div_succ (m.period.toNat * interval.toNat) (pos_of_active hm.active).2
  rw [← Plan.toNat_spacingOf, Nat.mul_add, Nat.mul_one] at hlt
  have hlead := hm.lead
  rw [targetAt]
  omega

theorem targetAt_succ (hm : m.Roomy interval guard) :
    m.targetAt interval guard k < m.targetAt interval guard (k + 1) := by
  have hlead := hm.lead
  have hle := Plan.leadOf_le m interval guard
  rw [targetAt, targetAt, Nat.add_mul, Nat.one_mul]
  omega

/-- A tick ends a millisecond after its interval, and so does a period. -/
theorem positionAt_le (hactive : m.active = true)
    (hover : now.toNat ≤ clock.began.toNat + clock.interval.toNat + 1) :
    m.positionAt clock now ≤ m.period.toNat * clock.interval.toNat + 1 := by
  have hlt := Nat.mod_lt clock.count.toNat (pos_of_active hactive).1
  have hmul : (clock.count.toNat % m.period.toNat + 1) * clock.interval.toNat ≤
      m.period.toNat * clock.interval.toNat := Nat.mul_le_mul_right _ hlt
  rw [Nat.add_mul, Nat.one_mul] at hmul
  rw [positionAt]
  omega

theorem due_iff (hactive : m.active = true) (count : UInt32) :
    m.due count = true ↔ count.toNat % m.period.toNat = 0 := by
  rw [due, hactive, Bool.true_and, beq_iff_eq, ← UInt32.toNat_inj, UInt32.toNat_mod,
    UInt8.toNat_toUInt32, UInt32.toNat_zero]

/-- At the end of a tick the millisecond is taken back; at the end of the last
tick of a period the next one begins. -/
theorem positionAt_advance (hactive : m.active = true)
    (hfew : clock.count.toNat + 1 < UInt32.size)
    (hover : now.toNat = clock.began.toNat + clock.interval.toNat + 1) :
    if m.due clock.advance.count then
      m.positionAt clock now = m.period.toNat * clock.interval.toNat + 1 ∧
        m.positionAt (clock.advance.restart now) now = 0
    else m.positionAt clock now = m.positionAt (clock.advance.restart now) now + 1 := by
  have hpos := (pos_of_active hactive).1
  have hlt := Nat.mod_lt clock.count.toNat hpos
  have hcount : clock.advance.count.toNat = clock.count.toNat + 1 := Tally.toNat_succ hfew
  have hmod : (clock.count.toNat + 1) % m.period.toNat =
      (clock.count.toNat % m.period.toNat + 1) % m.period.toNat := (Nat.mod_add_mod _ _ _).symm
  have hafter : m.positionAt (clock.advance.restart now) now =
      (clock.count.toNat + 1) % m.period.toNat * clock.interval.toNat := by
    rw [← hcount, positionAt, TransmitClock.restart_count]
    show now.toNat - now.toNat + _ = _
    rw [Nat.sub_self, Nat.zero_add]
    rfl
  have hbefore : m.positionAt clock now =
      (clock.count.toNat % m.period.toNat + 1) * clock.interval.toNat + 1 := by
    rw [positionAt, Nat.add_mul, Nat.one_mul]
    omega
  rw [hafter, hbefore]
  split
  · next hdue =>
      have hzero := (due_iff hactive _).mp hdue
      rw [hcount] at hzero
      rw [hzero]
      rw [hmod] at hzero
      have hlast : clock.count.toNat % m.period.toNat + 1 = m.period.toNat := by
        refine Nat.le_antisymm hlt (Nat.not_lt.mp fun hless => ?_)
        rw [Nat.mod_eq_of_lt hless] at hzero
        omega
      rw [hlast, Nat.zero_mul]
      exact ⟨rfl, rfl⟩
  · next hidle =>
      have hne : (clock.count.toNat + 1) % m.period.toNat ≠ 0 := by
        rw [← hcount]
        exact fun h => hidle ((due_iff hactive _).mpr h)
      have hless : clock.count.toNat % m.period.toNat + 1 < m.period.toNat := by
        refine Nat.lt_of_le_of_ne hlt fun heq => hne ?_
        rw [hmod, heq, Nat.mod_self]
      rw [hmod, Nat.mod_eq_of_lt hless]

/-- As long as the tick runs, the period runs with it. -/
theorem positionAt_succ (hbegan : clock.began ≤ now) {next : Timestamp}
    (hnext : next.toNat = now.toNat + 1) :
    m.positionAt clock next = m.positionAt clock now + 1 := by
  have hle := UInt64.le_iff_toNat_le.mp hbegan
  rw [positionAt, positionAt]
  omega

end Definition

/-! ## One measurement's turn -/

/-- The tally of a sensor of numbers that takes no time, after some acquisitions
in this period: all are over, each with a reading. -/
structure Tally.Even (t : Tally) (kind : ValueKind) (k : Nat) : Prop where
  kind : t.kind = kind
  started : t.started.toNat = k
  finished : t.finished = t.started
  idle : t.acquiring = false
  leadTime : t.leadTime = 0
  readings : ∃ readings : List Reading, readings.length = k ∧ t.Shows readings

namespace Tally.Even

variable {t : Tally} {kind : ValueKind} {k : Nat}

theorem fresh (kind : ValueKind) : (Tally.fresh kind 0).Even kind 0 :=
  ⟨rfl, rfl, rfl, rfl, rfl, [], rfl, shows_nil rfl rfl⟩

theorem inFlight (h : t.Even kind k) : t.inFlight = false := by
  rw [Tally.inFlight, h.finished, decide_eq_false_iff_not, UInt32.lt_iff_toNat_lt]
  omega

/-- Of numbers every reading is a sample. -/
theorem samples (h : t.Even kind k) (hkind : kind ≠ .text) (hk : k < UInt32.size) :
    t.samples.toNat = k := by
  obtain ⟨readings, hlen, hshows⟩ := h.readings
  have hsamples := hshows.samples
  rw [h.kind, if_neg hkind, hlen] at hsamples
  omega

/-- A period begins anew. -/
theorem reset (h : t.Even kind k) (awaitsAck : Bool) :
    ({ t.reset with awaitsAck } : Tally).Even kind 0 :=
  ⟨h.kind, rfl, rfl, h.idle, h.leadTime, [], rfl, shows_nil rfl rfl⟩

/-- What an even tally is is a matter of some of its fields. -/
theorem congr (h : t.Even kind k) (awaitsAck : Bool) : ({ t with awaitsAck } : Tally).Even kind k := by
  obtain ⟨readings, hlen, hshows⟩ := h.readings
  exact ⟨h.kind, h.started, h.finished, h.idle, h.leadTime, readings, hlen,
    hshows.congr rfl rfl rfl⟩

/-- One more acquisition, with a reading of the kind. -/
theorem sampled (h : t.Even kind k) (hk : k + 1 < UInt32.size) {r : Reading} (hr : r.kind = kind) :
    ({ t.opened.closed.taking r with leadTime := 0 } : Tally).Even kind (k + 1) := by
  obtain ⟨readings, hlen, hshows⟩ := h.readings
  have hclosed : t.opened.closed.Shows readings := hshows.congr rfl rfl rfl
  obtain ⟨hkind, htaken⟩ := hclosed.taking (r := r)
  rw [if_pos (show r.kind = t.opened.closed.kind from hr.trans h.kind.symm)] at htaken
  obtain ⟨summary, samples, heq⟩ := t.opened.closed.taking_eq r
  have hstarted : (t.opened.closed.taking r).started = t.started + 1 := by rw [heq]; rfl
  have hfinished : (t.opened.closed.taking r).finished = t.finished + 1 := by rw [heq]; rfl
  have hidle : (t.opened.closed.taking r).acquiring = false := by rw [heq]; rfl
  refine ⟨hkind.trans h.kind, ?_, ?_, hidle, rfl, readings ++ [r], ?_, htaken.congr rfl rfl rfl⟩
  · show (t.opened.closed.taking r).started.toNat = k + 1
    rw [hstarted, Tally.toNat_succ (h.started ▸ hk), h.started]
  · show (t.opened.closed.taking r).finished = (t.opened.closed.taking r).started
    rw [hstarted, hfinished, h.finished]
  · rw [List.length_append, List.length_singleton, hlen]

end Tally.Even

namespace Sampler

variable {kind : Definition → ValueKind} {p : Plan} {m : Definition} {t t' : Tally}
  {s s' : SamplerStats} {k : Nat} {calls : List Call}

theorem Starts.fine {busy : Bool} (h : Starts m t s (t', s', busy) calls)
    (hfine : ∀ c ∈ calls, c.Fine kind) (hidle : t.acquiring = false) :
    t' = t.opened ∧ busy = false := by
  cases h with
  | refused h => exact absurd (h.symm.trans hidle) Bool.noConfusion
  | opened h => exact ⟨rfl, rfl⟩
  | failed h cause => cases hfine _ List.mem_cons_self
  | busy h => cases hfine _ List.mem_cons_self

theorem Collects.fine {busy : Bool} (h : Collects m t s (t', s', busy) calls)
    (hfine : ∀ c ∈ calls, c.Fine kind) :
    ∃ r : Reading, r.kind = kind m ∧ t' = { t.closed.taking r with leadTime := 0 } := by
  cases h with
  | done r leadTime answer hlead =>
      obtain ⟨r', heq, hr⟩ := hfine _ List.mem_cons_self
      cases heq
      have hnone : answer = none := hfine (.collectionTime m answer) (by simp)
      rw [hlead hnone]
      exact ⟨r, hr, rfl⟩
  | failed cause =>
      obtain ⟨r, heq, -⟩ := hfine _ List.mem_cons_self
      cases heq
  | busy =>
      obtain ⟨r, heq, -⟩ := hfine _ List.mem_cons_self
      cases heq

/-- A turn in which the next sample is due takes it and asks for another turn at
once; any other turn waits for the target. -/
theorem Attends.even {wait : UInt64} (h : Attends p m t s (t', s', wait) calls)
    (hfine : ∀ c ∈ calls, c.Fine kind) (ht : t.Even (kind m) k) (hk : k + 1 < UInt32.size) :
    if p.target t.started ≤ p.position then t'.Even (kind m) (k + 1) ∧ wait = 0
    else t'.Even (kind m) k ∧ wait = p.target t.started - p.position := by
  have hcap : capLead p t = t := by
    unfold capLead
    rw [ht.leadTime, if_neg (by simp)]
  have hgiven : t.givenUp = t := by
    rw [Tally.givenUp, ht.inFlight]
    rfl
  have hlead : p.target t.started - t.leadTime.toUInt64 = p.target t.started := by
    rw [ht.leadTime]
    exact UInt64.sub_zero _
  have hsucc : t.started + 1 ≠ t.started := Tally.succ_ne t.started
  cases h with
  | @turn t₁ t₂ s₁ s₂ startWait collectWait calls more hstart hcollect =>
      rw [hcap] at hstart hcollect
      rw [ht.finished] at hcollect
      have hmore : ∀ c ∈ more, c.Fine kind := fun c hc => hfine c (List.mem_append_right _ hc)
      cases hstart with
      | early hearly =>
          rw [hlead] at hearly
          rw [if_neg hearly]
          cases hcollect with
          | idle h => exact ⟨ht, by rw [hlead]; rfl⟩
          | early hopen h | due hopen h hdone =>
              rw [ht.finished] at hopen
              exact absurd hopen hsucc
          | astray hne hopen => exact absurd ht.finished hne
      | @due _ _ busy _ hdue hstarts =>
          rw [hlead] at hdue
          rw [hgiven] at hstarts
          rw [if_pos hdue]
          obtain ⟨rfl, rfl⟩ := hstarts.fine (fun c hc => hfine c (List.mem_append_left _ hc)) ht.idle
          have hnone : Saturating.sub (p.target t.started) p.position = 0 := by
            have hle := UInt64.le_iff_toNat_le.mp hdue
            apply UInt64.toNat_inj.mp
            rw [Saturating.toNat_sub, UInt64.toNat_zero]
            omega
          cases hcollect with
          | idle h => exact absurd (ht.finished.symm.trans h).symm hsucc
          | early hopen h => exact absurd hdue h
          | due hopen h hdone =>
              obtain ⟨r, hr, rfl⟩ := hdone.fine hmore
              refine ⟨ht.sampled hk hr, ?_⟩
              simp only [Bool.false_eq_true, if_false, hnone, Option.elim_some]
              exact UInt64.le_antisymm Std.min_le_left UInt64.zero_le
          | astray hne hopen => exact absurd (congrArg (· + 1) ht.finished) hopen

/-! ## Waiting for the next sample -/

/-- The sampler's next turn comes in time for the sample of a number: when the
wait is over the period has run up to its target, or a millisecond further if the
wait is exceeded. The period has not run further than that yet, up to `late`. -/
structure Awaits (s : Sampler) (m : Definition) (clock : TransmitClock) (now : Timestamp)
    (late k : Nat) : Prop where
  turn : s.lastTurn.toNat + s.wait.toNat + m.positionAt clock now ≤
    now.toNat + m.targetAt clock.interval s.guard k
  target : m.positionAt clock now ≤ m.targetAt clock.interval s.guard k + late

/-- In its turn the sampler is not late, if it waits no longer than up to the target. -/
theorem Awaits.of_turn {s : Sampler} {m : Definition} {clock : TransmitClock} {now : Timestamp}
    {k : Nat} (hlast : s.lastTurn = now)
    (hwait : s.wait.toNat + m.positionAt clock now ≤ m.targetAt clock.interval s.guard k) :
    s.Awaits m clock now 0 k where
  turn := by
    rw [hlast]
    omega
  target := by omega

end Sampler

/-- A measurement has all its samples so far, and the next is awaited. -/
def Entry.InTime (kind : Definition → ValueKind) (s : Sampler) (clock : TransmitClock)
    (now : Timestamp) (late : Nat) (e : Entry) : Prop :=
  ∃ k, k ≤ e.definition.sampleCount.toNat ∧ e.tally.Even (kind e.definition) k ∧
    s.Awaits e.definition clock now late k

namespace Sampler

variable {s s' : Sampler} {t t' : Table} {clock : TransmitClock} {now : Timestamp}

theorem due_iff (s : Sampler) (now : Timestamp) :
    s.due now = true ↔ s.wait.toNat < now.toNat - s.lastTurn.toNat := by
  rw [due, decide_eq_true_eq, UInt64.lt_iff_toNat_lt, elapsed, Saturating.toNat_sub]

theorem nearer_le {a : Option UInt64} {b : UInt64} : ∃ c, nearer a b = some c ∧ c ≤ b := by
  cases a with
  | none => exact ⟨b, rfl, UInt64.le_refl b⟩
  | some a => exact ⟨min a b, rfl, Std.min_le_right⟩

/-- In a turn every active measurement has its own turn, and the sampler waits no
longer than that allows. -/
theorem Turns.attends (h : s.Turns t clock now (s', t') calls) {i : Nat} {e : Entry}
    (hi : t.get? i = some e) (hactive : e.definition.active = true) :
    ∃ tally' stats stats' wait own, t'.get? i = some (e.withTally tally') ∧
      Attends (Plan.of e.definition s.guard clock now) e.definition e.tally stats
        (tally', stats', wait) own ∧ s'.wait ≤ wait ∧ ∀ c ∈ own, c ∈ calls := by
  cases h with
  | @turn slots stats nearest _ h =>
      -- the nearest moment only comes nearer
      have hlater := h.at_visit
        (fun s s' => ∀ wait ∈ s.2, ∃ wait' ∈ s'.2, wait' ≤ wait)
        (fun s wait hw => ⟨wait, hw, UInt64.le_refl wait⟩)
        (fun s s' s'' h h' wait hw => by
          obtain ⟨wait', hw', hle⟩ := h wait hw
          obtain ⟨wait'', hw'', hle'⟩ := h' wait' hw'
          exact ⟨wait'', hw'', UInt64.le_trans hle' hle⟩)
        (fun e s e' s' stop own hv => by
          cases hv.2 with
          | idle h => exact fun wait hw => ⟨wait, hw, UInt64.le_refl wait⟩
          | active h hturn =>
              intro wait hw
              rw [Option.mem_def.mp hw]
              exact ⟨_, rfl, Std.min_le_left⟩) rfl
      obtain ⟨e', s₁, s₂, own, hi', hv, hnearest, hown⟩ := hlater.2 i e (Table.get?_eq_some.mp hi)
      cases hv.2 with
      | idle h => exact absurd (h.symm.trans hactive) Bool.noConfusion
      | @active tally stats' wait _ h hturn =>
          obtain ⟨c, hc, hle⟩ := nearer_le (a := s₁.2) (b := wait)
          obtain ⟨c', hc', hle'⟩ := hnearest c hc
          refine ⟨tally, _, _, wait, own, Table.get?_eq_some.mpr hi', hturn, ?_, hown⟩
          show nearest.getD 0 ≤ wait
          rw [show nearest = some c' from hc']
          exact UInt64.le_trans hle' hle

end Sampler

/-! ## The parts of a turn of the loop -/

namespace Entry.InTime

variable {kind : Definition → ValueKind} {s s' : Sampler} {clock : TransmitClock}
  {now : Timestamp} {e : Entry}

/-- A sampler whose wait is not over is not late. -/
theorem waits (h : e.InTime kind s clock now 1) (hdue : s.due now = false) :
    e.InTime kind s clock now 0 := by
  obtain ⟨k, hk, heven, hawaits⟩ := h
  have hwait : ¬ s.wait.toNat < now.toNat - s.lastTurn.toNat := by
    rw [← s.due_iff, hdue]
    exact Bool.false_ne_true
  have hturn := hawaits.turn
  exact ⟨k, hk, heven, hturn, by omega⟩

/-- In a turn the sampler takes the sample whose target is reached. -/
theorem turned {t t' : Table} {calls : List Call} {i : Nat}
    (h : s.Turns t clock now (s', t') calls) (hfine : ∀ c ∈ calls, c.Fine kind)
    (hi : t.get? i = some e) (hroomy : e.definition.Roomy clock.interval s.guard)
    (hnow : now.toNat < 0x8000000000000000)
    (hover : now.toNat ≤ clock.began.toNat + clock.interval.toNat + 1)
    (he : e.InTime kind s clock now 1) :
    ∃ tally', t'.get? i = some (e.withTally tally') ∧
      (e.withTally tally').InTime kind s' clock now 0 := by
  obtain ⟨k, hk, heven, hawaits⟩ := he
  obtain ⟨tally', stats, stats', wait, own, hi', hturn, hwait, hown⟩ := h.attends hi hroomy.active
  obtain ⟨hguard, hlast⟩ : s'.guard = s.guard ∧ s'.lastTurn = now := by
    cases h with
    | turn h => exact ⟨rfl, rfl⟩
  have hbyte := e.definition.sampleCount.toNat_lt
  have hstep := hturn.even (fun c hc => hfine c (hown c hc)) heven (by
    rw [UInt32.size]
    omega)
  have hposition := Plan.toNat_position s.guard clock hnow hroomy.active
  have htarget := Plan.toNat_target e.definition s.guard clock now (k := e.tally.started)
    (by rw [heven.started]; omega)
  rw [heven.started] at htarget
  have hlate := hawaits.target
  have hend := Definition.positionAt_le hroomy.active hover
  have hafter := Definition.lt_targetAt hroomy
  have hsucc := Definition.targetAt_succ (k := k) hroomy
  have hle := UInt64.le_iff_toNat_le.mp hwait
  refine ⟨tally', hi', ?_⟩
  split at hstep
  · next hdue =>
      obtain ⟨heven', rfl⟩ := hstep
      have hreached := UInt64.le_iff_toNat_le.mp hdue
      rw [htarget, hposition] at hreached
      -- the sample after the last is not due before the period ends
      have hmore : k ≠ e.definition.sampleCount.toNat := by
        intro hall
        rw [hall] at hreached
        omega
      rw [UInt64.toNat_zero] at hle
      refine ⟨k + 1, by show k + 1 ≤ e.definition.sampleCount.toNat; omega, heven',
        .of_turn hlast ?_⟩
      show _ + e.definition.positionAt clock now ≤ e.definition.targetAt _ _ _
      rw [hguard]
      omega
  · next hdue =>
      obtain ⟨heven', rfl⟩ := hstep
      rw [UInt64.le_iff_toNat_le, htarget, hposition] at hdue
      rw [UInt64.toNat_sub_of_le _ _ (by rw [UInt64.le_iff_toNat_le]; omega), htarget,
        hposition] at hle
      refine ⟨k, hk, heven', .of_turn hlast ?_⟩
      show _ + e.definition.positionAt clock now ≤ e.definition.targetAt _ _ _
      rw [hguard]
      omega

/-- At the end of a tick a measurement that is due has all the samples of its
period, and the period begins anew; for another the period goes on. -/
theorem ends (he : e.InTime kind s clock now 0)
    (hroomy : e.definition.Roomy clock.interval s.guard)
    (hnumeric : kind e.definition ≠ .text) (hfew : clock.count.toNat + 1 < UInt32.size)
    (hover : now.toNat = clock.began.toNat + clock.interval.toNat + 1) :
    (e.passed clock.advance.count).InTime kind s (clock.advance.restart now) now 0 ∧
      e.ready clock.advance.count = e.definition.due clock.advance.count ∧
      (e.ready clock.advance.count = true →
        e.tally.samples = e.definition.sampleCount.toUInt32) := by
  obtain ⟨k, hk, heven, hawaits⟩ := he
  have hphase := Definition.positionAt_advance hroomy.active hfew hover
  have hturn := hawaits.turn
  have htarget := hawaits.target
  have hbyte := e.definition.sampleCount.toNat_lt
  by_cases hdue : e.definition.due clock.advance.count = true
  · rw [if_pos hdue] at hphase
    -- a sample less would have been due before the period ended
    have hall : k = e.definition.sampleCount.toNat := by
      refine Nat.le_antisymm hk (Nat.not_lt.mp fun hless => ?_)
      have hbefore := Definition.targetAt_le clock.interval s.guard hless
      omega
    subst hall
    have hsamples := heven.samples hnumeric (by rw [UInt32.size]; omega)
    have hne : e.tally.samples ≠ 0 := by
      intro hzero
      rw [hzero, UInt32.toNat_zero] at hsamples
      have := (Definition.pos_of_active hroomy.active).2
      omega
    have hready := Entry.ready_of_due hdue hne
    refine ⟨?_, hready.trans hdue.symm, fun _ => ?_⟩
    · rw [Entry.passed, if_pos hready]
      refine ⟨0, Nat.zero_le _, heven.reset true, ?_, ?_⟩
      · show _ + _ + e.definition.positionAt _ now ≤ _ + e.definition.targetAt _ _ _
        have hfirst := e.definition.targetAt_last_le clock.interval s.guard
        rw [hphase.2]
        show _ ≤ now.toNat + e.definition.targetAt clock.interval s.guard 0
        omega
      · show e.definition.positionAt _ now ≤ _
        rw [hphase.2]
        exact Nat.zero_le _
    · rw [← UInt32.toNat_inj, hsamples, UInt8.toNat_toUInt32]
  · rw [if_neg hdue] at hphase
    have hidle : e.ready clock.advance.count = false :=
      Entry.not_ready_of_idle (Bool.eq_false_iff.mpr hdue)
    refine ⟨?_, hidle.trans (Bool.eq_false_iff.mpr hdue).symm, fun h => ?_⟩
    · rw [Entry.passed, if_neg (Bool.eq_false_iff.mp hidle), if_neg hdue]
      refine ⟨k, hk, heven, ?_, ?_⟩
      · show _ + _ + e.definition.positionAt _ now ≤ _ + e.definition.targetAt clock.interval _ _
        omega
      · show e.definition.positionAt _ now ≤ e.definition.targetAt clock.interval _ _ + 0
        omega
    · exact absurd (h.symm.trans hidle) Bool.noConfusion

/-- A millisecond passes. -/
theorem next (he : e.InTime kind s clock now 0) (hbegan : clock.began ≤ now)
    {later : Timestamp} (hlater : later.toNat = now.toNat + 1) : e.InTime kind s clock later 1 := by
  obtain ⟨k, hk, heven, hawaits⟩ := he
  have hturn := hawaits.turn
  have htarget := hawaits.target
  have hsucc := e.definition.positionAt_succ hbegan hlater
  exact ⟨k, hk, heven, by omega, by omega⟩

end Entry.InTime

end Telemetry
