import Telemetry.Proofs.Careful
import Telemetry.Proofs.Census
import Telemetry.Proofs.Waits

/-!
# No operation slips

The targets of a period are products of a counter and a spacing, and the
spacing may grow by nine orders of magnitude while the counter stays: the owner
edits the interval, the period and the number of samples as they like. What
keeps the products in their words is a bound on the counters, `Life.paced`: an
acquisition starts only in a turn of the sampler, so fewer than `2^23` turns
make counters of 23 bits. With a spacing of 40 bits that makes targets of 63,
and a clock below `2^63` leaves room for all sums.

The differences rest on the cap: a lead time that is longer than the way to the
next target is cut to it, right before the two are subtracted. The number of
open acquisitions fits in its counter because there are fewer measurements than
words.
-/

namespace Telemetry

variable {W α β : Type}

/-! ## Plans of moderate size -/

/-- Slices of 40 bits, and a position that a clock of 63 bits can reach. -/
structure Plan.Moderate (p : Plan) : Prop where
  spacing : p.spacing.toNat < 0x10000000000
  lead : p.lead.toNat < 0x10000000000
  position : p.position.toNat < 0x8000000000000000 + 0x10000000000

namespace Plan

variable {m : Definition} {p : Plan}

theorem moderate_of (guard : UInt32) (clock : TransmitClock) {now : Timestamp}
    (hactive : m.active = true) (hnow : now.toNat < 0x8000000000000000) :
    (Plan.of m guard clock now).Moderate where
  spacing := by
    have := spacingOf_lt m clock.interval
    show (spacingOf m clock.interval).toNat < _
    omega
  lead := by
    have hspacing := spacingOf_lt m clock.interval
    have hlead := leadOf_le m clock.interval guard
    show (leadOf m clock.interval guard).toNat < _
    omega
  position := by
    rw [toNat_position guard clock hnow hactive]
    exact Definition.positionAt_lt hnow hactive

/-- What a counter of 23 bits makes of the slices. -/
theorem Moderate.begins_le (hp : p.Moderate) {n : UInt32} (hn : n.toNat < 0x800000) :
    n.toNat * p.spacing.toNat ≤ 0x7fffff * 0xffffffffff :=
  Nat.mul_le_mul (by omega) (by have := hp.spacing; omega)

theorem Moderate.target_lt (hp : p.Moderate) {n : UInt32} (hn : n.toNat < 0x800000) :
    (p.target n).toNat < 0x8000000000000000 := by
  have hbegins := hp.begins_le hn
  have hlead := hp.lead
  rw [target, UInt64.toNat_add, UInt64.toNat_mul, UInt32.toNat_toUInt64]
  omega

end Plan

namespace Careful

open Sampler (capLead_le capLead_counters capLead_paced)

variable {m : Definition} {p : Plan} {t : Tally} {s : SamplerStats}

/-! ## Numbers -/

theorem planOf_sure (guard : UInt32) (clock : TransmitClock) {now : Timestamp}
    (hactive : m.active = true) (hnow : now.toNat < 0x8000000000000000) :
    (planOf m guard clock now).Sure (pure (Plan.of m guard clock now) : Action W Plan) := by
  obtain ⟨hperiod, hsamples⟩ := Definition.pos_of_active hactive
  have hwhole : m.period.toNat * clock.interval.toNat ≤ 255 * 4294967295 := by
    have hbyte := m.period.toNat_lt
    have hinterval := clock.interval.toNat_lt
    exact Nat.mul_le_mul (by omega) (by omega)
  have hticks := Definition.ticks_le hactive clock
  have helapsed : (clock.elapsed now).toNat < 0x8000000000000000 := by
    rw [TransmitClock.elapsed, elapsed, Saturating.toNat_sub]
    omega
  have hover : (clock.count % m.period.toUInt32).toUInt64.toNat * clock.interval.toUInt64.toNat ≤
      255 * 4294967295 := by
    simpa using hticks
  unfold planOf
  refine .step (mul_sure ?_) ?_
  · simp only [UInt8.toNat_toUInt64, UInt32.toNat_toUInt64, UInt64.size]
    omega
  refine .step (div_sure (by simpa using hsamples)) ?_
  refine .step (rem_sure (by simpa using hperiod)) ?_
  refine .step (mul_sure (by unfold UInt64.size; omega)) ?_
  refine .step (add_sure ?_) ?_
  · rw [UInt64.toNat_mul]
    unfold UInt64.size
    omega
  split
  · next hlate =>
      simp only [Plan.of, Plan.leadOf, if_pos hlate]
      exact .pure _
  · next hearly =>
      refine .step (div_sure (by decide)) ?_
      simp only [Plan.of, Plan.leadOf, if_neg hearly]
      exact .pure _

theorem target_sure (hp : p.Moderate) {n : UInt32} (hn : n.toNat < 0x800000) :
    (target p n).Sure (pure (p.target n) : Action W UInt64) := by
  have hbegins := hp.begins_le hn
  have hlead := hp.lead
  refine .step (mul_sure ?_) (add_sure ?_)
  · rw [UInt32.toNat_toUInt64]
    unfold UInt64.size
    omega
  · rw [UInt64.toNat_mul, UInt32.toNat_toUInt64]
    unfold UInt64.size
    omega

theorem capLead_sure (hp : p.Moderate) (ht : t.started.toNat < 0x800000) :
    (capLead p t).Sure (pure (Sampler.capLead p t) : Action W Tally) := by
  unfold capLead Sampler.capLead
  refine .step (target_sure hp ht) ?_
  split
  · next hlt =>
      have hlead := t.leadTime.toNat_lt
      rw [UInt64.lt_iff_toNat_lt, UInt32.toNat_toUInt64] at hlt
      refine .step (cut_sure ?_) (.pure _)
      unfold UInt32.size
      omega
  · exact .pure _

theorem missed_sure (hs : t.started.toNat + 1 < UInt32.size)
    (hf : t.finished.toNat + 1 < UInt32.size) :
    (missed t).Sure (pure t.missed : Action W Tally) :=
  .step (next_sure hs) (.step (next_sure hf) (.pure _))

theorem opened_sure (hs : t.started.toNat + 1 < UInt32.size) :
    (opened t).Sure (pure t.opened : Action W Tally) := .step (next_sure hs) (.pure _)

theorem closed_sure (hf : t.finished.toNat + 1 < UInt32.size) :
    (closed t).Sure (pure t.closed : Action W Tally) := .step (next_sure hf) (.pure _)

/-! ## A measurement's turn -/

variable (d : Devices W)

theorem leadTime_sure (m : Definition) (fallback : UInt32) :
    (d.minded.leadTime m fallback).Sure (d.leadTime m fallback) := by
  refine .bind (.part _) fun reply => ?_
  cases reply with
  | none => exact .pure _
  | some reply =>
      cases reply with
      | done ms => exact .pure _
      | busy => exact .bind (.part _) fun _ => .pure _
      | failed cause => exact .bind (.part _) fun _ => .pure _

theorem observe_sure (t : Tally) (r : Reading) :
    (t.observe d.minded.log r).Sure (t.observe d.log r) := by
  unfold Tally.observe
  cases t.fold r with
  | error refusal => exact .bind (.part _) fun _ => .pure _
  | ok t' =>
      simp only []
      cases t'.summary.notice with
      | none => exact .pure _
      | some text => exact .bind (.part _) fun _ => .pure _

theorem start_sure (m : Definition) (s : SamplerStats) (hs : t.started.toNat + 1 < UInt32.size)
    (hf : t.finished.toNat + 1 < UInt32.size) :
    (start d.minded m t s).Sure (Sampler.start d m t s) := by
  unfold start Sampler.start
  split
  · exact .bind (.part _) fun _ => .step (missed_sure hs hf) (.pure _)
  · refine .bind (.part _) fun reply => ?_
    cases reply with
    | done => exact .bind (.part _) fun _ => .step (opened_sure hs) (.pure _)
    | failed cause => exact .bind (.part _) fun _ => .step (missed_sure hs hf) (.pure _)
    | busy => exact .pure _

theorem collect_sure (fallback : UInt32) (m : Definition) (s : SamplerStats)
    (hf : t.finished.toNat + 1 < UInt32.size) :
    (collect d.minded fallback m t s).Sure (Sampler.collect d fallback m t s) := by
  unfold collect Sampler.collect
  refine .bind (.part _) fun reply => ?_
  cases reply with
  | done r =>
      refine .bind (.part _) fun _ => .step (closed_sure hf) ?_
      exact .bind (observe_sure d _ r) fun _ => .bind (leadTime_sure d m fallback) fun _ => .pure _
  | failed cause => exact .bind (.part _) fun _ => .step (closed_sure hf) (.pure _)
  | busy => exact .pure _

theorem giveUp_sure (m : Definition) (hf : t.finished.toNat + 1 < UInt32.size) :
    (giveUp d.minded m t).Sure (Sampler.giveUp d m t) := by
  unfold giveUp Sampler.giveUp
  split
  · exact .bind (.part _) fun _ => closed_sure hf
  · exact .pure _

theorem startTurn_sure (hp : p.Moderate) (m : Definition) (s : SamplerStats)
    (ht : t.InStep) (hs : t.started.toNat < 0x800000)
    (hlead : t.leadTime.toNat ≤ (p.target t.started).toNat) :
    (startTurn d.minded p m t s).Sure (Sampler.startTurn d p m t s) := by
  have hf := ht.1
  have hstartAt : t.leadTime.toUInt64.toNat ≤ (p.target t.started).toNat := by
    rwa [UInt32.toNat_toUInt64]
  unfold startTurn Sampler.startTurn
  refine .step (target_sure hp hs) (.step (sub_sure hstartAt) ?_)
  simp only []
  split
  · have hgiven : ∀ w, ((Sampler.giveUp d m t).run w).1 = t.givenUp := fun w => by
      obtain ⟨_, -, calls, -, heq, -⟩ := Sampler.giveUp_speaks (v := .schedule) d m t w []
      exact heq
    refine .bind_of (· = t.givenUp) (giveUp_sure d m (by unfold UInt32.size; omega)) hgiven ?_
    rintro t' rfl
    obtain ⟨hstarted, hfinished⟩ := ht.givenUp
    refine .bind (start_sure d m s ?_ ?_) fun r => .pure _
    · rw [hstarted]
      unfold UInt32.size
      omega
    · rw [hfinished]
      unfold UInt32.size
      omega
  · next hearly =>
      rw [UInt64.le_iff_toNat_le] at hearly
      exact .step (sub_sure (by omega)) (.pure _)

theorem collectTurn_sure (hp : p.Moderate) (fallback : UInt32) (m : Definition)
    {collectAt : UInt64} (hcollectAt : collectAt.toNat < 0x8000000000000000) (s : SamplerStats)
    (hf : t.finished.toNat + 1 < UInt32.size) :
    (collectTurn d.minded fallback p m collectAt t s).Sure
      (Sampler.collectTurn d fallback p m collectAt t s) := by
  have hspacing := hp.spacing
  have hposition := hp.position
  unfold collectTurn Sampler.collectTurn
  split
  · exact .pure _
  · refine .step (next_sure hf) ?_
    split
    · split
      · refine .bind (collect_sure d fallback m s hf) fun r => ?_
        obtain ⟨t', s', busy⟩ := r
        cases busy with
        | true => exact .pure _
        | false =>
            have hlead := t'.leadTime.toNat_lt
            refine .step (add_sure ?_) (.step (add_sure ?_) (.pure _))
            · unfold UInt64.size
              omega
            · rw [UInt32.toNat_toUInt64]
              unfold UInt64.size
              omega
      · next hearly =>
          rw [UInt64.le_iff_toNat_le] at hearly
          exact .step (sub_sure (by omega)) (.pure _)
    · exact .bind (.part _) fun _ => .pure _

theorem attend_sure (hp : p.Moderate) (fallback : UInt32) (m : Definition) (s : SamplerStats)
    {k : Nat} (ht : t.Paced k) (hk : k < 0x800000) :
    (attend d.minded fallback p m t s).Sure (Sampler.attend d fallback p m t s) := by
  have hcap := capLead_paced p ht
  have hstarted := hcap.2
  have hfinished := hcap.1.1
  unfold attend Sampler.attend
  refine .step (capLead_sure hp (Nat.lt_of_le_of_lt ht.2 hk)) ?_
  refine .step (target_sure hp (by omega)) ?_
  refine .bind_of (fun r => r.1.Paced (k + 1))
    (startTurn_sure d hp m s hcap.1 (by omega) (capLead_le p t)) (fun w => ?_) ?_
  · obtain ⟨_, -, calls, -, hstart⟩ :=
      Sampler.startTurn_speaks (v := .schedule) d p m (Sampler.capLead p t) s w []
    exact hstart.paced hcap (by unfold UInt32.size; omega)
  · rintro ⟨t', s', startWait⟩ ht'
    have hstarted' := ht'.2
    have hfinished' := ht'.1.1
    simp only at hstarted' hfinished'
    refine .bind (collectTurn_sure d hp fallback m (hp.target_lt (by omega)) s' ?_) fun r => .pure _
    unfold UInt32.size
    omega

/-! ## Sweeps -/

/-- A sweep slips in no visit, given what holds of its state with so many
measurements still to visit. -/
theorem sweep_sure {σ : Type} {visit' : Entry → σ → Action (W × List Slip) (Entry × σ)}
    {visit : Entry → σ → Action W (Entry × σ)} (left : Nat → σ → Prop) {slots : List Slot}
    (hvisit : ∀ e s k, some e ∈ slots → left (k + 1) s →
      (visit' e s).Sure (visit e s) ∧ ∀ w, left k ((visit e s).run w).1.2)
    {s : σ} (hs : left (slots.countP Option.isSome) s) :
    (Slot.sweep visit' slots s).Sure (Slot.sweep visit slots s) := by
  induction slots generalizing s with
  | nil => exact .pure _
  | cons slot rest ih =>
      have hrest := fun e s k he => hvisit e s k (List.mem_cons_of_mem slot he)
      cases slot with
      | none => exact .bind (ih hrest hs) fun _ => .pure _
      | some e =>
          rw [List.countP_cons_of_pos (by rfl)] at hs
          obtain ⟨hsure, hleft⟩ := hvisit e s _ List.mem_cons_self hs
          refine .bind_of (fun r => left (rest.countP Option.isSome) r.2) hsure hleft ?_
          intro r hr
          exact .bind (ih hrest hr) fun _ => .pure _

theorem sweepUntil_sure {σ : Type}
    {visit' : Entry → σ → Action (W × List Slip) (Entry × σ × Bool)}
    {visit : Entry → σ → Action W (Entry × σ × Bool)}
    (hvisit : ∀ e s, (visit' e s).Sure (visit e s)) (slots : List Slot) (s : σ) :
    (Slot.sweepUntil visit' slots s).Sure (Slot.sweepUntil visit slots s) := by
  induction slots generalizing s with
  | nil => exact .pure _
  | cons slot rest ih =>
      cases slot with
      | none => exact .bind (ih s) fun _ => .pure _
      | some e =>
          refine .bind (hvisit e s) fun r => ?_
          obtain ⟨e', s', enough⟩ := r
          cases enough with
          | true => exact .pure _
          | false => exact .bind (ih s') fun _ => .pure _

theorem turn_sure (s : Sampler) (table : Table) (clock : TransmitClock) {now : Timestamp} {k : Nat}
    (htallies : ∀ i e, table.get? i = some e → e.tally.Paced k) (hk : k < 0x800000)
    (hnow : now.toNat < 0x8000000000000000) :
    (turn d.minded s table clock now).Sure (s.turn d table clock now) := by
  refine .bind (sweep_sure (fun _ _ => True) ?_ trivial) fun _ => .pure _
  intro e x j he _
  obtain ⟨i, hi⟩ := List.mem_iff_getElem?.mp he
  refine ⟨?_, fun _ => trivial⟩
  unfold visit Sampler.visit
  split
  · next hactive =>
      have hp := Plan.moderate_of s.guard clock hactive hnow
      refine .step (planOf_sure s.guard clock hactive hnow) ?_
      refine .bind (attend_sure d hp s.fallback e.definition x.1 ?_ hk) fun _ => .pure _
      exact htallies i e (Table.get?_eq_some.mpr hi)
  · exact .pure _

theorem pollOpen_sure (s : Sampler) (table : Table) (hfew : table.size < UInt32.size) :
    (pollOpen d.minded s table).Sure (s.pollOpen d table) := by
  refine .bind (sweep_sure (fun k x => x.2.toNat + k < UInt32.size) ?_ ?_) fun _ => .pure _
  · intro e x k _ hx
    have hnext : x.2.toNat + 1 < UInt32.size := by omega
    have hcount : (x.2 + 1).toNat + k < UInt32.size := by
      rw [Tally.toNat_succ hnext]
      omega
    unfold pollOne Sampler.pollOne
    split
    · refine ⟨.step (next_sure hnext) (.bind (.part _) fun reply => ?_), fun w => ?_⟩
      · cases reply with
        | done => exact .pure _
        | busy => exact .pure _
        | failed cause => exact .bind (.part _) fun _ => .pure _
      · simp only [Action.run_bind]
        cases ((d.sensors.poll e.definition).run w).1 <;> exact hcount
    · exact ⟨.pure _, fun w => by show x.2.toNat + k < _; omega⟩
  · show (0 : UInt32).toNat + table.size < UInt32.size
    rw [UInt32.toNat_zero]
    omega

/-! ## Sends and naps -/

theorem due_sure (m : Definition) (count : UInt32) :
    (due m count).Sure (pure (m.due count) : Action W Bool) := by
  unfold due Definition.due
  cases hactive : m.active with
  | false => exact .pure _
  | true =>
      refine .step (rem_sure ?_) (.pure _)
      simpa using (Definition.pos_of_active hactive).1

theorem reset_sure (o : Outgoing) : (o.reset d.minded).Sure (o.reset d) :=
  .bind (.part _) fun _ => .bind (.part _) fun _ => .pure _

theorem handOver_sure (o : Outgoing) (queued : UInt16) (complete : Bool) :
    (o.handOver d.minded queued complete).Sure (o.handOver d queued complete) := by
  unfold Outgoing.handOver
  refine .bind (.part _) fun answer => ?_
  cases answer with
  | error cause => exact .bind (.part _) fun _ => .bind (reset_sure d _) fun _ => .pure _
  | ok =>
      cases complete with
      | true => exact .bind (.part _) fun _ => .pure _
      | false => exact .bind (.part _) fun _ => .pure _

theorem appendOne_sure (count : UInt32) (e : Entry) (s : UInt16 × UplinkStats) :
    (appendOne d.minded count e s).Sure (Outgoing.appendOne d count e s) := by
  refine .step (due_sure e.definition count) ?_
  unfold Outgoing.appendOne
  split
  · exact .pure _
  · split
    · exact .bind (.part _) fun _ => .pure _
    · refine .bind (.part _) fun answer => ?_
      cases answer with
      | error cause => exact .bind (.part _) fun _ => .pure _
      | ok => exact .pure _

theorem fill_sure (o : Outgoing) : (fill d.minded o).Sure (o.fill d) := by
  unfold fill Outgoing.fill
  have hsweep := sweepUntil_sure (appendOne_sure d o.clock.count)
    (o.table.window o.uplink.start o.uplink.capacity) (0, o.uplink.stats)
  simp only []
  split
  · exact .bind (.part _) fun _ => .bind hsweep fun _ => .pure _
  · exact .bind hsweep fun _ => .pure _

theorem sendFrame_sure (o : Outgoing) (now : Timestamp) :
    (sendFrame d.minded o now).Sure (o.sendFrame d now) := by
  refine .bind (fill_sure d o) fun r => ?_
  obtain ⟨o', queued, complete⟩ := r
  simp only []
  split
  · exact .pure _
  · exact handOver_sure d _ queued complete

theorem awaitRadio_sure (o : Outgoing) (now : Timestamp) :
    (awaitRadio d.minded o now).Sure (o.awaitRadio d now) := by
  unfold awaitRadio Outgoing.awaitRadio
  refine .bind (.part _) fun allowed => ?_
  split
  · exact .bind (.part _) fun _ => .pure _
  · split
    · refine .step (share_sure (by decide)) ?_
      split
      · exact .bind (.part _) fun _ => .bind (reset_sure d _) fun _ => .pure _
      · exact .pure _
    · exact .pure _

theorem send_sure (o : Outgoing) (now : Timestamp) :
    (send d.minded o now).Sure (o.send d now) := by
  unfold send Outgoing.send
  refine .bind (.part _) fun connected => ?_
  split
  · unfold Outgoing.loseLink
    split
    · exact .pure _
    · exact .bind (.part _) fun _ => .pure _
  · refine .bind (.part _) fun ready => ?_
    split
    · exact awaitRadio_sure d _ now
    · refine .bind (.part _) fun answer => ?_
      cases answer with
      | error cause => exact .bind (.part _) fun _ => .pure _
      | ok => exact sendFrame_sure d _ now

/-- Cut to the largest short word first, a word loses no bits in the cast. -/
theorem toUInt32_min (a : UInt64) : (min a 0xffffffff).toUInt32 = Saturating.narrow a := by
  show (if a ≤ 0xffffffff then a else 0xffffffff).toUInt32 = _
  unfold Saturating.narrow
  split <;> rfl

theorem nap_sure (s : Sleeper) (sampler : Sampler) (clock : TransmitClock) (now : Timestamp) :
    (nap s sampler clock now).Sure
      (pure (s.nap sampler clock now) : Action W (Except SleepDecision UInt32)) := by
  unfold nap Sleeper.nap
  split
  · exact .pure _
  · split
    · exact .pure _
    · simp only []
      split
      · exact .pure _
      · next henough =>
          rw [UInt64.lt_iff_toNat_lt] at henough
          refine .step (sub_sure (by omega)) (.step (cut_sure ?_) ?_)
          · show (if _ ≤ (0xffffffff : UInt64) then _ else (0xffffffff : UInt64)).toNat < UInt32.size
            split
            · next hle => exact Nat.lt_succ_of_le (UInt64.le_iff_toNat_le.mp hle)
            · decide
          · rw [toUInt32_min]
            exact .pure _

end Careful

/-! ## Through a life -/

/-- In no state that a node can come to, between operations or within one, does
a plain operation on words slip, whatever the devices answer: not in a turn of
the sampler, as long as there have been fewer than `2^23` turns and the clock
reads less than `2^63`; and not in looking after the open acquisitions, in a
send, or in the length of a nap. A lead time that is cut fits in its word and is
no longer than the way to the target. -/
theorem Life.nothing_slips (l : Life W) {n : Node} {notes : List Note}
    (h : Node.Path l.node notes n) {V : Type} (d : Devices V) :
    (∀ now : Timestamp, Node.turnsOf l.past + turns notes + 1 < 2 ^ 23 → now.toNat < 2 ^ 63 →
      (Careful.turn d.minded n.sampler n.table n.clock now).Sure
        (n.sampler.turn d n.table n.clock now) ∧
      ∀ i e, n.table.get? i = some e → e.definition.active →
        let p := Plan.of e.definition n.sampler.guard n.clock now
        let t := Sampler.capLead p e.tally
        t.leadTime.toNat = min e.tally.leadTime.toNat (p.target e.tally.started).toNat ∧
        t.leadTime.toNat ≤ (p.target t.started).toNat) ∧
    (Careful.pollOpen d.minded n.sampler n.table).Sure (n.sampler.pollOpen d n.table) ∧
    (∀ (o : Outgoing) (now : Timestamp), (Careful.send d.minded o now).Sure (o.send d now)) ∧
    ∀ now : Timestamp, (Careful.nap n.sleeper n.sampler n.clock now).Sure
      (pure (n.sleeper.nap n.sampler n.clock now) : Action V _) := by
  refine ⟨fun now hfew hnow => ⟨?_, fun i e _ _ => ?_⟩, ?_, Careful.send_sure d,
    Careful.nap_sure n.sleeper n.sampler n.clock⟩
  · obtain ⟨hdistinct, hpaced⟩ := l.paced
    have htallies := (h.paced hdistinct (hpaced (by unfold UInt32.size; omega))
      (by unfold UInt32.size; omega)).tallies
    exact Careful.turn_sure d n.sampler n.table n.clock htallies (by omega) hnow
  · exact ⟨Sampler.toNat_capLead _ _, Sampler.capLead_le _ _⟩
  · exact Careful.pollOpen_sure d n.sampler n.table (h.wellNamed l.wellNamed).size_lt

/-- One turn in, and about to take the next. -/
theorem Life.nothing_slips_ticking :
    let l := Life.ticking 600 1000 [1]
    Node.turnsOf l.past = 1 ∧
      (Careful.turn (Devices.obliging 600).minded l.node.sampler l.node.table l.node.clock 500).Sure
        (l.node.sampler.turn (.obliging 600) l.node.table l.node.clock 500) := by
  intro l
  have hone : Node.turnsOf l.past = 1 := by decide +kernel
  refine ⟨hone, ?_⟩
  refine ((Life.nothing_slips l (.nil l.node) (.obliging 600)).1 500 ?_ (by decide)).1
  rw [hone]
  decide

end Telemetry
