import Telemetry.Proofs.Phases

/-!
# How long a turn of the sampler allows to wait

A measurement has at most two moments to wait for: the one at which its next
acquisition has to begin, and, if one is open, the one at which that has to be
collected. The wait a turn ends with reaches no further than any of these
moments, as the turn leaves them, and if the turn found nothing to do it reaches
exactly to the nearest. A busy sensor makes it zero.

That is no matter of course. Both halves of a measurement's turn name a time to
wait, and they name it while the turn is still changing what is waited for: the
start half may give an acquisition up and begin the next, and the collect half
may come by a new lead time. The first half is right about the next collect,
whichever acquisition that will be, and it is right about the next start as long
as the sensor takes no longer than a slice. The second half is right about the
next start if the first has done nothing. `Attends.wait_le_untilCollect` and
`Attends.wait_le_untilStart` take the halves together, `Attends.waits` gives the
exact wait of a measurement with nothing to do, and `turn_waits` is the turn as
a whole.

Moments are plain numbers here, and differences end at zero.
-/

namespace Telemetry

variable {W : Type}

namespace Entry

variable (guard : UInt32) (clock : TransmitClock) (now : Timestamp)

/-- The time until the next acquisition has to begin. -/
def untilStart (e : Entry) : Nat :=
  e.definition.targetAt clock.interval guard e.tally.started.toNat - e.tally.leadTime.toNat -
    e.definition.positionAt clock now

/-- The time until the open acquisition has to be collected. -/
def untilCollect (e : Entry) : Nat :=
  e.definition.targetAt clock.interval guard e.tally.finished.toNat -
    e.definition.positionAt clock now

/-- The times that are waited for on behalf of a measurement. -/
def waits (e : Entry) : List Nat :=
  if e.definition.active then
    e.untilStart guard clock now ::
      if e.tally.inFlight then [e.untilCollect guard clock now] else []
  else []

variable {guard clock now} {e : Entry}

theorem waits_idle (h : e.definition.active = false) : e.waits guard clock now = [] := by
  rw [waits, h, if_neg Bool.false_ne_true]

theorem waits_over (h : e.definition.active = true) (hover : e.tally.inFlight = false) :
    e.waits guard clock now = [e.untilStart guard clock now] := by
  rw [waits, h, hover, if_pos rfl, if_neg Bool.false_ne_true]

theorem waits_open (h : e.definition.active = true) (hopen : e.tally.inFlight = true) :
    e.waits guard clock now =
      [e.untilStart guard clock now, e.untilCollect guard clock now] := by
  rw [waits, h, hopen, if_pos rfl, if_pos rfl]

variable (guard clock now)

/-- The measurement has neither to be started nor to be collected yet. -/
structure Waiting (e : Entry) : Prop where
  start : e.definition.positionAt clock now <
    e.definition.targetAt clock.interval guard e.tally.started.toNat - e.tally.leadTime.toNat
  collect : e.tally.inFlight = true → e.definition.positionAt clock now <
    e.definition.targetAt clock.interval guard e.tally.finished.toNat

/-- How far the period has run, and the next target, are numbers of 64 bits. -/
structure Fits (e : Entry) : Prop where
  position : e.definition.positionAt clock now < UInt64.size
  target : e.definition.targetAt clock.interval guard e.tally.started.toNat < UInt64.size

end Entry

/-- Whether a sensor was busy when it was to be started or collected. -/
def Call.busy : Call → Bool
  | .start _ _ .busy | .collect _ .busy => true
  | _ => false

/-- The times that are waited for on behalf of the measurements of a table. -/
def Table.waits (t : Table) (guard : UInt32) (clock : TransmitClock) (now : Timestamp) : List Nat :=
  t.entries.flatMap (Entry.waits guard clock now)

namespace Sampler

variable {m : Definition} {guard : UInt32} {clock : TransmitClock} {now : Timestamp}
  {t t' : Tally} {s s' : SamplerStats} {calls : List Call}

variable (m guard) in
theorem targetAt_add_spacing (interval : UInt32) (k : Nat) :
    m.targetAt interval guard (k + 1) =
      m.targetAt interval guard k + (Plan.spacingOf m interval).toNat := by
  rw [Definition.targetAt, Definition.targetAt, Nat.add_mul, Nat.one_mul]
  omega

variable (m guard) in
theorem targetAt_mono (interval : UInt32) {k l : Nat} (h : k ≤ l) :
    m.targetAt interval guard k ≤ m.targetAt interval guard l := by
  have hmul := Nat.mul_le_mul_right (Plan.spacingOf m interval).toNat h
  unfold Definition.targetAt
  omega

/-! ## The half-turns -/

theorem toNat_capLead (p : Plan) (t : Tally) :
    (capLead p t).leadTime.toNat = min t.leadTime.toNat (p.target t.started).toNat := by
  have hlead := t.leadTime.toNat_lt
  unfold capLead
  split
  · next h =>
      rw [UInt64.lt_iff_toNat_lt, UInt32.toNat_toUInt64] at h
      rw [UInt64.toNat_toUInt32, Nat.mod_eq_of_lt (by omega), Nat.min_eq_right (Nat.le_of_lt h)]
  · next h =>
      rw [UInt64.lt_iff_toNat_lt, UInt32.toNat_toUInt64] at h
      exact (Nat.min_eq_left (Nat.not_lt.mp h)).symm

theorem capLead_inStep (p : Plan) (ht : t.InStep) : (capLead p t).InStep := by
  rw [Tally.InStep, (capLead_counters p t).1, (capLead_counters p t).2]
  exact ht

/-- After the cap a sensor never has to be started before its period begins. -/
theorem capLead_le (p : Plan) (t : Tally) :
    (capLead p t).leadTime.toNat ≤ (p.target (capLead p t).started).toNat := by
  rw [(capLead_counters p t).1, toNat_capLead]
  exact Nat.min_le_right _ _

theorem toNat_startAt {p : Plan} (hcap : t.leadTime.toNat ≤ (p.target t.started).toNat) :
    (p.target t.started - t.leadTime.toUInt64).toNat =
      (p.target t.started).toNat - t.leadTime.toNat := by
  rw [UInt64.toNat_sub_of_le, UInt32.toNat_toUInt64]
  rwa [UInt64.le_iff_toNat_le, UInt32.toNat_toUInt64]

/-- Nobody waits, or the measurement is left alone and waits for its start point, or that has come
and it is started and waits for the target that it was started for. -/
theorem StartTurns.waits {p : Plan} {wait : UInt64}
    (h : StartTurns p m t s (t', s', wait) calls) (ht : t.InStep)
    (hcap : t.leadTime.toNat ≤ (p.target t.started).toNat) :
    wait = 0 ∧ t'.started = t.started ∨
    t' = t ∧ p.position.toNat + wait.toNat = (p.target t.started).toNat - t.leadTime.toNat ∨
    (p.target t.started).toNat - t.leadTime.toNat ≤ p.position.toNat ∧
      t'.started = t.started + 1 ∧ (t'.finished = t.started ∨ t'.finished = t'.started) ∧
      wait.toNat = (p.target t.started).toNat - p.position.toNat := by
  have hsub := toNat_startAt hcap
  cases h with
  | early h =>
      have hlate := UInt64.lt_iff_toNat_lt.mp (UInt64.not_le.mp h)
      refine .inr (.inl ⟨rfl, ?_⟩)
      rw [UInt64.toNat_sub_of_le _ _ (UInt64.le_of_lt (UInt64.not_le.mp h)), hsub]
      omega
  | due h hstart =>
      obtain ⟨hstarted, hfinished⟩ := ht.givenUp
      have hwait := Saturating.toNat_sub (p.target t.started) p.position
      have hnext : t.givenUp.started + 1 = t.started + 1 := by rw [hstarted]
      have hcome := UInt64.le_iff_toNat_le.mp h
      rw [hsub] at hcome
      cases hstart with
      | busy h => exact .inl ⟨rfl, hstarted⟩
      | opened h => exact .inr (.inr ⟨hcome, hnext, .inl hfinished, hwait⟩)
      | refused h | failed h cause =>
          have hover : t.givenUp.missed.finished = t.givenUp.missed.started := by
            simp [Tally.missed, hstarted, hfinished]
          exact .inr (.inr ⟨hcome, hnext, .inr hover, hwait⟩)

/-- An acquisition that is still open after the collect half is not due yet, or its sensor is busy. -/
theorem CollectTurns.open_after {p : Plan} {collectAt : UInt64} {wait : Option UInt64}
    (h : CollectTurns p m collectAt t s (t', s', wait) calls) (hopen : t'.inFlight = true) :
    wait = some 0 ∨
      t' = t ∧ t.finished ≠ t.started ∧ ∃ w ∈ wait, w.toNat = collectAt.toNat - p.position.toNat := by
  rw [Tally.inFlight, decide_eq_true_eq] at hopen
  cases h with
  | idle h => exact absurd (h ▸ hopen) (UInt32.lt_irrefl _)
  | early hnext h =>
      refine .inr ⟨rfl, fun heq => ?_, _, rfl, ?_⟩
      · exact Tally.succ_ne _ (hnext.trans heq.symm)
      · exact UInt64.toNat_sub_of_le _ _ (UInt64.le_of_lt (UInt64.not_le.mp h))
  | astray hne hnext => exact absurd hopen (UInt32.lt_irrefl _)
  | due hnext h hcollect =>
      have hclosed : ¬ t.closed.finished < t.closed.started := by
        rw [Tally.closed, hnext]
        exact UInt32.lt_irrefl _
      cases hcollect with
      | busy => exact .inl rfl
      | failed cause => exact absurd hopen hclosed
      | done r leadTime answer hlead =>
          obtain ⟨summary, samples, heq⟩ := t.closed.taking_eq r
          rw [heq] at hopen
          exact absurd hopen hclosed

/-- A collect leaves the lead time, or takes a new one and waits for the start point under it. -/
theorem CollectTurns.waits {p : Plan} {collectAt : UInt64} {wait : Option UInt64}
    (h : CollectTurns p m collectAt t s (t', s', wait) calls) :
    t'.started = t.started ∧
      (t'.leadTime = t.leadTime ∨ t.finished + 1 = t.started ∧ (∃ r, .collect m (.done r) ∈ calls) ∧
        wait = some (Saturating.sub (collectAt + p.spacing)
          (t'.leadTime.toUInt64 + p.position))) := by
  cases h with
  | idle h => exact ⟨rfl, .inl rfl⟩
  | early hopen h => exact ⟨rfl, .inl rfl⟩
  | astray hne hopen => exact ⟨rfl, .inl rfl⟩
  | due hopen h hcollect =>
      cases hcollect with
      | failed cause => exact ⟨rfl, .inl rfl⟩
      | busy => exact ⟨rfl, .inl rfl⟩
      | done r leadTime answer hlead =>
          obtain ⟨summary, samples, heq⟩ := t.closed.taking_eq r
          refine ⟨?_, .inr ⟨hopen, ⟨r, List.mem_cons_self⟩, rfl⟩⟩
          rw [heq]
          rfl

theorem toNat_started (ht : t.InStep) (hopen : t.finished + 1 = t.started) :
    t.started.toNat = t.finished.toNat + 1 := by
  have hne : t.finished.toNat ≠ t.started.toNat := fun heq =>
    Tally.succ_ne _ (hopen.trans (UInt32.toNat_inj.mp heq).symm)
  have hbelow := ht.1
  have hstep := ht.2
  omega

theorem inFlight_of_open (ht : t.InStep) (hopen : t.finished + 1 = t.started) : t.inFlight = true := by
  rw [Tally.inFlight, decide_eq_true_eq, UInt32.lt_iff_toNat_lt, toNat_started ht hopen]
  exact Nat.lt_succ_self _

variable (guard) in
/-- The wait after a reading ends at the next start point under the new lead time. -/
theorem toNat_collectWait {lead : UInt32} (ht : t.InStep) (hopen : t.finished + 1 = t.started)
    (hactive : m.active = true) (hroom : lead.toNat + m.positionAt clock now < UInt64.size)
    (htarget : m.targetAt clock.interval guard t.started.toNat < UInt64.size) :
    (Saturating.sub ((Plan.of m guard clock now).target t.finished + Plan.spacingOf m clock.interval)
      (lead.toUInt64 + (Plan.of m guard clock now).position)).toNat =
      m.targetAt clock.interval guard t.started.toNat - lead.toNat - m.positionAt clock now := by
  rw [toNat_started ht hopen, targetAt_add_spacing] at htarget ⊢
  have hfinished := Plan.toNat_target_of_lt m guard clock now
    (Nat.lt_of_le_of_lt (Nat.le_add_right _ _) htarget)
  have hposition := Plan.toNat_position_of_lt guard clock hactive
    (Nat.lt_of_le_of_lt (Nat.le_add_left _ _) hroom)
  unfold UInt64.size at htarget hroom
  rw [Saturating.toNat_sub, UInt64.toNat_add, UInt64.toNat_add, hfinished, UInt32.toNat_toUInt64,
    hposition, Nat.mod_eq_of_lt htarget, Nat.mod_eq_of_lt hroom, Nat.sub_sub]

/-! ## A turn of one measurement -/

/-- The wait of a measurement's turn is that of its start half or less, and that of its collect
half or less. -/
theorem wait_le (startWait : UInt64) (collectWait : Option UInt64) :
    (collectWait.elim startWait (min startWait)).toNat ≤ startWait.toNat ∧
      ∀ w ∈ collectWait, (collectWait.elim startWait (min startWait)).toNat ≤ w.toNat := by
  simp only [← UInt64.le_iff_toNat_le]
  cases collectWait with
  | none => exact ⟨UInt64.le_refl _, fun w hw => by cases hw⟩
  | some other =>
      refine ⟨Std.min_le_left, fun w hw => ?_⟩
      cases hw
      exact Std.min_le_right

section

variable {e : Entry} {wait : UInt64}
  (h : Attends (Plan.of e.definition guard clock now) e.definition e.tally s (t', s', wait) calls)
  (ht : e.tally.InStep) (hactive : e.definition.active = true)
  (hfits : e.Fits guard clock now)
include h ht hactive hfits

/-- Nobody waits beyond the moment at which what is open has to be collected. -/
theorem Attends.wait_le_untilCollect (hopen : t'.inFlight = true) :
    wait.toNat ≤ (e.withTally t').untilCollect guard clock now := by
  have hposition := Plan.toNat_position_of_lt guard clock hactive hfits.position
  have htarget := Plan.toNat_target_of_lt e.definition guard clock now hfits.target
  show _ ≤ e.definition.targetAt clock.interval guard t'.finished.toNat -
    e.definition.positionAt clock now
  cases h with
  | @turn t₁ t₂ s₁ s₂ startWait collectWait calls more hstart hcollect =>
      obtain ⟨hcs, hcf⟩ := capLead_counters (Plan.of e.definition guard clock now) e.tally
      obtain ⟨hstartWait, hcollectWait⟩ := wait_le startWait collectWait
      rcases hcollect.open_after hopen with rfl | ⟨rfl, hne, w, hw, hexact⟩
      · have hzero := hcollectWait 0 rfl
        rw [UInt64.toNat_zero] at hzero
        omega
      rcases hstart.waits (capLead_inStep _ ht) (capLead_le _ e.tally) with
        ⟨rfl, -⟩ | ⟨rfl, -⟩ | ⟨-, hstarted, hfinished, hsub⟩
      · rw [UInt64.toNat_zero] at hstartWait
        omega
      · -- nothing was begun, and what is open was open before
        have hle : e.definition.targetAt clock.interval guard e.tally.finished.toNat < UInt64.size :=
          Nat.lt_of_le_of_lt (targetAt_mono _ _ _ ht.1) hfits.target
        rw [hcf, Plan.toNat_target_of_lt _ _ _ _ hle, hposition] at hexact
        rw [hcf, ← hexact]
        exact hcollectWait w hw
      · -- what is open is what was begun in this turn
        rcases hfinished with heq | heq
        · rw [hcs, htarget, hposition] at hsub
          rw [heq, hcs, ← hsub]
          exact hstartWait
        · exact absurd heq hne

/-- Nobody waits beyond the moment at which the next acquisition has to begin, if the sensor takes
no longer than a slice, and if one more can be counted or it is not time for it. -/
theorem Attends.wait_le_untilStart
    (hroom : ∀ r, .collect e.definition (.done r) ∈ calls →
      t'.leadTime.toNat + e.definition.positionAt clock now < UInt64.size)
    (hlead : t'.leadTime.toNat ≤ (Plan.spacingOf e.definition clock.interval).toNat)
    (hfew : e.tally.started.toNat + 1 < UInt32.size ∨ 0 < e.untilStart guard clock now) :
    wait.toNat ≤ (e.withTally t').untilStart guard clock now := by
  have hposition := Plan.toNat_position_of_lt guard clock hactive hfits.position
  have htarget := Plan.toNat_target_of_lt e.definition guard clock now hfits.target
  show _ ≤ e.definition.targetAt clock.interval guard t'.started.toNat - t'.leadTime.toNat -
    e.definition.positionAt clock now
  cases h with
  | @turn t₁ t₂ s₁ s₂ startWait collectWait calls more hstart hcollect =>
      have hin := capLead_inStep (Plan.of e.definition guard clock now) ht
      obtain ⟨hcs, hcf⟩ := capLead_counters (Plan.of e.definition guard clock now) e.tally
      obtain ⟨hstartWait, hcollectWait⟩ := wait_le startWait collectWait
      obtain ⟨hstarted, hnext⟩ := hcollect.waits
      rcases hstart.waits hin (capLead_le _ e.tally) with
        ⟨rfl, -⟩ | ⟨rfl, hexact⟩ | ⟨hcome, hsucc, -, hsub⟩
      · rw [UInt64.toNat_zero] at hstartWait
        omega
      · -- nothing was begun: the start point is exact, unless a reading has changed the lead time
        rw [hcs, htarget, hposition] at hexact
        rw [hstarted, hcs]
        rcases hnext with hsame | ⟨hopen, ⟨r, hr⟩, rfl⟩
        · rw [hsame]
          omega
        · have hnew := toNat_collectWait guard hin hopen hactive
            (hroom r (List.mem_append_right _ hr)) (hcs ▸ hfits.target)
          rw [hcs] at hnew
          exact Nat.le_trans (hcollectWait _ rfl) (Nat.le_of_eq hnew)
      · -- begun: the next target is a slice later, and the lead time is no longer than that
        rw [hcs, toNat_capLead, htarget, hposition] at hcome
        have hnumber : e.tally.started.toNat + 1 < UInt32.size := by
          refine hfew.resolve_right fun hearly => ?_
          unfold Entry.untilStart at hearly
          omega
        have hword : t'.started.toNat = e.tally.started.toNat + 1 := by
          rw [hstarted, hsucc, hcs, Tally.toNat_succ hnumber]
        rw [hcs, htarget, hposition] at hsub
        rw [hword, targetAt_add_spacing]
        omega

end

/-- A measurement that has nothing to do yet waits for the nearer of its moments, and no less. -/
theorem Attends.waits {e : Entry} {wait : UInt64}
    (h : Attends (Plan.of e.definition guard clock now) e.definition e.tally s (t', s', wait) calls)
    (ht : e.tally.InStep) (hactive : e.definition.active = true)
    (hfits : e.Fits guard clock now) (hwaiting : e.Waiting guard clock now) :
    ((e.withTally t').waits guard clock now).min? = some wait.toNat := by
  have hposition := Plan.toNat_position_of_lt guard clock hactive hfits.position
  have htarget := Plan.toNat_target_of_lt e.definition guard clock now hfits.target
  have hearly := hwaiting.start
  have hcap : capLead (Plan.of e.definition guard clock now) e.tally = e.tally := by
    refine if_neg fun hlt => ?_
    rw [UInt64.lt_iff_toNat_lt, UInt32.toNat_toUInt64, htarget] at hlt
    omega
  have hstartAt := toNat_startAt (t := e.tally) (p := Plan.of e.definition guard clock now)
    (by omega)
  cases h with
  | @turn t₁ t₂ s₁ s₂ startWait collectWait calls more hstart hcollect =>
      rw [hcap] at hstart hcollect
      cases hstart with
      | due h hstart =>
          rw [UInt64.le_iff_toNat_le, hstartAt, hposition, htarget] at h
          omega
      | early h =>
          have hstartWait : e.untilStart guard clock now =
              ((Plan.of e.definition guard clock now).target e.tally.started -
                e.tally.leadTime.toUInt64 - (Plan.of e.definition guard clock now).position).toNat := by
            rw [UInt64.toNat_sub_of_le _ _ (UInt64.le_of_lt (UInt64.not_le.mp h)), hstartAt,
              hposition, htarget]
            rfl
          have hsame : e.withTally e.tally = e := rfl
          cases hcollect with
          | idle hover =>
              have hnone : e.tally.inFlight = false := by
                rw [Tally.inFlight, hover]
                exact decide_eq_false (UInt32.lt_irrefl _)
              rw [hsame, Entry.waits_over hactive hnone, List.min?_singleton, hstartWait]
              rfl
          | early hopen h =>
              have hinFlight := inFlight_of_open ht hopen
              have hfinished := Plan.toNat_target_of_lt e.definition guard clock now
                (Nat.lt_of_le_of_lt (targetAt_mono _ _ _ ht.1) hfits.target)
              have hcollectWait : e.untilCollect guard clock now =
                  ((Plan.of e.definition guard clock now).target e.tally.finished -
                    (Plan.of e.definition guard clock now).position).toNat := by
                rw [UInt64.toNat_sub_of_le _ _ (UInt64.le_of_lt (UInt64.not_le.mp h)), hposition,
                  hfinished]
                rfl
              rw [hsame, Entry.waits_open hactive hinFlight, List.min?_cons, List.min?_singleton,
                hstartWait, hcollectWait]
              exact congrArg some (UInt64.toNat_min _ _).symm
          | due hopen h hcollect =>
              have hlate := hwaiting.collect (inFlight_of_open ht hopen)
              rw [UInt64.le_iff_toNat_le, hposition, Plan.toNat_target_of_lt e.definition guard clock
                now (Nat.lt_of_le_of_lt (targetAt_mono _ _ _ ht.1) hfits.target)] at h
              omega
          | astray hne hopen =>
              rcases ht.open_or_over with hover | hopen'
              · exact absurd hover hne
              · exact absurd hopen' hopen

/-- Of a sensor that is busy nobody knows when it is not. -/
theorem Attends.wait_of_busy {p : Plan} {wait : UInt64}
    (h : Attends p m t s (t', s', wait) calls) {c : Call} (hc : c ∈ calls) (hbusy : c.busy = true) :
    wait = 0 := by
  cases h with
  | @turn t₁ t₂ s₁ s₂ startWait collectWait calls more hstart hcollect =>
      obtain ⟨hstartWait, hcollectWait⟩ := wait_le startWait collectWait
      refine UInt64.toNat_inj.mp ?_
      rw [UInt64.toNat_zero]
      rcases List.mem_append.mp hc with hc | hc
      · cases hstart with
        | early h => cases hc
        | due h hstart =>
            cases hstart with
            | busy h => exact Nat.le_zero.mp hstartWait
            | refused h => cases hc
            | opened h => cases List.mem_singleton.mp hc; cases hbusy
            | failed h cause => cases List.mem_singleton.mp hc; cases hbusy
      · cases hcollect with
        | idle h => cases hc
        | early hopen h => cases hc
        | astray hne hopen => cases hc
        | due hopen h hcollect =>
            cases hcollect with
            | busy => exact Nat.le_zero.mp (hcollectWait 0 rfl)
            | failed cause => cases List.mem_singleton.mp hc; cases hbusy
            | done r leadTime answer hlead =>
                rcases List.mem_pair.mp hc with rfl | rfl
                · cases hbusy
                · cases hbusy

/-! ## Turns of the sampler -/

theorem min?_append (xs ys : List Nat) :
    (xs ++ ys).min? = xs.min?.elim ys.min? fun a => some (ys.min?.elim a (min a)) := by
  induction xs with
  | nil => rfl
  | cons x xs ih =>
      rw [List.cons_append, List.min?_cons, List.min?_cons, ih]
      cases xs.min? with
      | none => rfl
      | some a => cases ys.min? <;> simp [Nat.min_assoc]

theorem min?_nearer (near : Option UInt64) (wait : UInt64) {waits : List Nat}
    (h : waits.min? = some wait.toNat) (rest : List Nat) :
    ((nearer near wait).toList.map UInt64.toNat ++ rest).min? =
      (near.toList.map UInt64.toNat ++ (waits ++ rest)).min? := by
  rw [← List.append_assoc, min?_append, min?_append (_ ++ _), min?_append _ waits, h]
  cases near with
  | none => rfl
  | some a => simp [nearer, UInt64.toNat_min]

theorem nearer_eq_zero {near : Option UInt64} {wait : UInt64} (h : near = some 0 ∨ wait = 0) :
    nearer near wait = some 0 := by
  have hmin : ∀ a b : UInt64, a = 0 ∨ b = 0 → min a b = 0 := by
    intro a b hab
    rw [← UInt64.toNat_inj, UInt64.toNat_min, UInt64.toNat_zero]
    rcases hab with rfl | rfl <;> simp
  rcases h with rfl | rfl
  · exact congrArg some (hmin _ _ (.inl rfl))
  · cases near with
    | none => rfl
    | some a => exact congrArg some (hmin _ _ (.inr rfl))

section

variable {slots : List Slot} {s : SamplerStats × Option UInt64}
  {x : List Slot × (SamplerStats × Option UInt64) × Option Nat}
  (h : Slot.Swept (Slot.Through (Visits guard clock now)) slots s x calls)
include h

theorem nearest_of_busy (hzero : s.2 = some 0 ∨ ∃ c ∈ calls, c.busy = true) :
    x.2.1.2 = some 0 := by
  induction h with
  | nil s => exact hzero.resolve_right (by simp)
  | hole h ih => exact ih hzero
  | stop h => cases h.1
  | @next e e' rest rest' s s' s'' stop calls more h hrest ih =>
      refine ih ?_
      cases h.2 with
      | idle hidle => exact hzero
      | active hactive hturn =>
          rcases hzero with hzero | ⟨c, hc, hbusy⟩
          · exact .inl (nearer_eq_zero (.inl hzero))
          · rcases List.mem_append.mp hc with hc | hc
            · exact .inl (nearer_eq_zero (.inr (hturn.wait_of_busy hc hbusy)))
            · exact .inr ⟨c, hc, hbusy⟩

/-- If there is nothing to do, the sweep comes to the nearest of all moments. -/
theorem nearest_eq (hsteps : ∀ e, some e ∈ slots → e.tally.InStep)
    (hquiet : ∀ e, some e ∈ slots → e.definition.active = true →
      e.Fits guard clock now ∧ e.Waiting guard clock now) :
    x.2.1.2.map UInt64.toNat =
      (s.2.toList.map UInt64.toNat ++ (x.1.filterMap id).flatMap (Entry.waits guard clock now)).min? := by
  induction h with
  | nil s => cases s.2 <;> rfl
  | hole h ih =>
      exact ih (fun e he => hsteps e (List.mem_cons_of_mem _ he))
        fun e he => hquiet e (List.mem_cons_of_mem _ he)
  | stop h => cases h.1
  | @next e e' rest rest' s s' s'' stop calls more h hrest ih =>
      have hlater := ih (fun e he => hsteps e (List.mem_cons_of_mem _ he))
        fun e he => hquiet e (List.mem_cons_of_mem _ he)
      show _ = (_ ++ (e' :: rest'.filterMap id).flatMap _).min?
      rw [hlater, List.flatMap_cons]
      cases h.2 with
      | idle hidle => rw [Entry.waits_idle hidle, List.nil_append]
      | active hactive hturn =>
          obtain ⟨hfits, hwaiting⟩ := hquiet e List.mem_cons_self hactive
          have hwaits := hturn.waits (hsteps e List.mem_cons_self) hactive hfits hwaiting
          exact min?_nearer _ _ hwaits _

end

/-- Whatever the devices answer, a turn of the sampler allows no longer a wait than every
measurement can bear as the turn leaves it: until what is open has to be collected, and, if the
sensor takes no longer than a slice, until the next acquisition has to begin. It allows none if a
sensor was busy, and if the turn had nothing to do, the wait ends at the nearest of these moments.

The words have to be wide enough. The position and the next target of a measurement are numbers of
64 bits (`Fits`), the position with the lead time that a collect brings is one as well, and of the
acquisitions begun, which are counted with 32 bits, one more can be counted, unless the turn comes
before it is time for it. -/
theorem turn_waits (d : Devices W) (s : Sampler) (t : Table) (clock : TransmitClock)
    (now : Timestamp) (ht : ∀ i e, t.get? i = some e → e.tally.InStep) {v : Voice} :
    Action.Speaks v (s.turn (d.voiced v) t clock now) (s.turn d t clock now) fun x calls =>
      (∀ i e e', t.get? i = some e → x.2.get? i = some e' → e.definition.active = true →
        e.Fits s.guard clock now →
        (e'.tally.inFlight = true → x.1.wait.toNat ≤ e'.untilCollect s.guard clock now) ∧
        (e'.tally.leadTime.toNat ≤ (Plan.spacingOf e.definition clock.interval).toNat →
          (∀ r, .collect e.definition (.done r) ∈ calls →
            e'.tally.leadTime.toNat + e.definition.positionAt clock now < UInt64.size) →
          e.tally.started.toNat + 1 < UInt32.size ∨ 0 < e.untilStart s.guard clock now →
          x.1.wait.toNat ≤ e'.untilStart s.guard clock now)) ∧
      ((∃ c ∈ calls, c.busy = true) → x.1.wait = 0) ∧
      ((∀ i e, t.get? i = some e → e.definition.active = true →
          e.Fits s.guard clock now ∧ e.Waiting s.guard clock now) →
        x.1.wait.toNat = (x.2.waits s.guard clock now).min?.getD 0) := by
  refine (turn_speaks d s t clock now).imp ?_
  rintro ⟨s', t'⟩ calls h
  refine ⟨fun i e e' hi hi' hactive hfits => ?_, fun hbusy => ?_, fun hquiet => ?_⟩
  · obtain ⟨tally, stats, stats', wait, own, hi₁, hattends, hle, hown⟩ := h.attends hi hactive
    have hwait := UInt64.le_iff_toNat_le.mp hle
    cases hi'.symm.trans hi₁
    refine ⟨fun hopen => ?_, fun hlead hroom hfew => ?_⟩
    · exact Nat.le_trans hwait (hattends.wait_le_untilCollect (ht i e hi) hactive hfits hopen)
    · exact Nat.le_trans hwait (hattends.wait_le_untilStart (ht i e hi) hactive hfits
        (fun r hr => hroom r (hown _ hr)) hlead hfew)
  · cases h with
    | @turn slots stats nearest _ h =>
        have hzero : nearest = some 0 := nearest_of_busy h (.inr hbusy)
        show nearest.getD 0 = 0
        rw [hzero, Option.getD_some]
  · cases h with
    | @turn slots stats nearest _ h =>
        have hat : ∀ e, some e ∈ t.slots → ∃ i, t.get? i = some e := by
          intro e he
          obtain ⟨i, hi⟩ := List.mem_iff_getElem?.mp he
          exact ⟨i, Table.get?_eq_some.mpr hi⟩
        have hnearest : nearest.map UInt64.toNat =
            (Table.waits { t with slots } s.guard clock now).min? :=
          nearest_eq h (fun e he => by obtain ⟨i, hi⟩ := hat e he; exact ht i e hi)
            fun e he => by obtain ⟨i, hi⟩ := hat e he; exact hquiet i e hi
        show (nearest.getD 0).toNat = (Table.waits { t with slots } s.guard clock now).min?.getD 0
        rw [← hnearest]
        cases nearest <;> rfl

/-- A sensor that takes longer than half a slice is started at once; until its reading is there the
sampler waits for that, and not for the next start, which is further away. -/
theorem turn_waits_ticking :
    let n := (Life.ticking 600 1000 [1]).node
    let x := ((n.sampler.turn (.obliging 600) n.table n.clock 200).run 200).1
    x.2.waits n.sampler.guard n.clock 200 = [800, 300] ∧ x.1.wait.toNat = 300 ∧
      ∀ e', x.2.get? 0 = some e' →
        x.1.wait.toNat ≤ e'.untilCollect n.sampler.guard n.clock 200 ∧
        x.1.wait.toNat ≤ e'.untilStart n.sampler.guard n.clock 200 := by
  intro n x
  have honly : ∀ i e, n.table.get? i = some e → some e = n.table.get? 0 := by
    rintro (_ | i) e hi
    · exact hi.symm
    · cases hi
  have hsteps : ∀ i e, n.table.get? i = some e → e.tally.InStep := by
    intro i e hi
    cases honly i e hi
    exact ⟨by decide, by decide⟩
  have hquiet : ∀ i e, n.table.get? i = some e → e.definition.active = true →
      e.Fits n.sampler.guard n.clock 200 ∧ e.Waiting n.sampler.guard n.clock 200 := by
    intro i e hi _
    cases honly i e hi
    exact ⟨⟨by decide, by decide⟩, ⟨by decide, fun _ => by decide⟩⟩
  obtain ⟨new, -, calls, -, hbounds, -, hexact⟩ :=
    turn_waits (v := .schedule) (.obliging 600) n.sampler n.table n.clock 200 hsteps 200 []
  have hwaits : x.2.waits n.sampler.guard n.clock 200 = [800, 300] := by decide +kernel
  refine ⟨hwaits, ?_, fun e' he' => ?_⟩
  · rw [hexact hquiet, hwaits]
    rfl
  · obtain ⟨e, he⟩ : ∃ e, n.table.get? 0 = some e := Option.isSome_iff_exists.mp rfl
    have hactive : e.definition.active = true := by cases he; rfl
    obtain ⟨hcollect, hstart⟩ := hbounds 0 e e' he he' hactive (hquiet 0 e he hactive).1
    have hopen : e'.tally.inFlight = true := by cases he'; decide +kernel
    refine ⟨hcollect hopen, hstart ?_ (fun r hr => ?_) (.inl ?_)⟩
    · cases he; cases he'; decide +kernel
    · cases he; cases he'; decide +kernel
    · cases he; decide +kernel

end Sampler

end Telemetry
