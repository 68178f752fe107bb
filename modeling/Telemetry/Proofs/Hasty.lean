import Telemetry.Proofs.Openings
import Telemetry.Proofs.Waits

/-!
# Collects before their time

The sampler looks up the moment of the next collect before it looks at the next
start, and a start may give an acquisition up. The moment then belongs to an
acquisition that is gone, and the one that was just begun is collected by it.

A collect is never early by more than the sensor needs, since that is how early
it was started; so with a sensor that needs no time there is nothing to see. And
there is no other way to collect too early: what a sensor is asked for is what
was open when the turn began, or it was begun in its place.
-/

namespace Telemetry

variable {W : Type}

/-- The number of the acquisition that a sensor was asked for, by its answer and the tally after
it: a busy sensor leaves the acquisition open. -/
def Tally.askedFor (t : Tally) : Reply Reading → UInt32
  | .busy => t.finished
  | _ => t.finished - 1

namespace Sampler

variable {m m' : Definition} {guard : UInt32} {clock : TransmitClock} {now : Timestamp} {p : Plan}
  {t t' : Tally} {s s' : SamplerStats} {calls : List Call} {answer : Reply Reading}

/-- Only an open acquisition is collected, and only after the moment that was looked up. -/
theorem CollectTurns.of_collect {collectAt : UInt64} {wait : Option UInt64}
    (h : CollectTurns p m collectAt t s (t', s', wait) calls) (hc : .collect m' answer ∈ calls) :
    m' = m ∧ t.finished + 1 = t.started ∧ collectAt ≤ p.position ∧
      t'.askedFor answer = t.finished := by
  have hnumber : t.finished + 1 - 1 = t.finished := UInt32.add_sub_cancel _ _
  cases h with
  | idle h => cases hc
  | early hopen h => cases hc
  | astray hne hopen => cases hc
  | due hopen h hcollect =>
      cases hcollect with
      | busy =>
          cases List.mem_singleton.mp hc
          exact ⟨rfl, hopen, h, rfl⟩
      | failed cause =>
          cases List.mem_singleton.mp hc
          exact ⟨rfl, hopen, h, hnumber⟩
      | done r leadTime asked hlead =>
          rcases List.mem_pair.mp hc with heq | heq
          · cases heq
            obtain ⟨summary, samples, htaken⟩ := t.closed.taking_eq r
            refine ⟨rfl, hopen, h, ?_⟩
            rw [Tally.askedFor, htaken]
            · exact hnumber
            · exact nofun
          · cases heq

/-- What is open after the start half of a turn was open before it, or it was begun in the place of
what was. -/
theorem StartTurns.replaces {wait : UInt64} (h : StartTurns p m t s (t', s', wait) calls)
    (ht : t.InStep) (hopen : t'.finished + 1 = t'.started) :
    t'.finished = t.finished ∧ ¬(t.inFlight = true ∧ .start m false (.done ()) ∈ calls) ∨
    t'.finished = t.started ∧ (t.inFlight = true ∧ .start m false (.done ()) ∈ calls) ∧
      p.target t.started - t.leadTime.toUInt64 ≤ p.position := by
  cases h with
  | early h => exact .inl ⟨rfl, fun hstart => by cases hstart.2⟩
  | due h hstart =>
      obtain ⟨hstarted, hfinished⟩ := ht.givenUp
      have hover : t.givenUp.finished = t.givenUp.started := hfinished.trans hstarted.symm
      cases hstart with
      | refused h => exact absurd (hopen.trans (congrArg (· + 1) hover.symm)) (Tally.succ_ne _)
      | failed h cause => exact absurd (hopen.trans (congrArg (· + 1) hover.symm)) (Tally.succ_ne _)
      | busy h => exact absurd (hopen.trans hover.symm) (Tally.succ_ne _)
      | opened hfree =>
          cases hwas : t.inFlight with
          | true => exact .inr ⟨hfinished, ⟨rfl, List.mem_cons_self⟩, h⟩
          | false =>
              refine .inl ⟨?_, fun hstart => by cases hstart.1⟩
              rw [Tally.opened, Tally.givenUp, hwas, if_neg Bool.false_ne_true]

/-- A collect is no earlier than the lead time allows, and it is early if and only if it is for an
acquisition that was begun in place of another. -/
theorem Attends.of_collect {wait : UInt64} (h : Attends p m t s (t', s', wait) calls)
    (ht : t.InStep) (hc : .collect m answer ∈ calls) :
    p.target t.finished ≤ p.position ∧
      (p.target (t'.askedFor answer)).toNat ≤ p.position.toNat + t.leadTime.toNat ∧
      (p.position < p.target (t'.askedFor answer) ↔
        (t.inFlight = true ∧ .start m false (.done ()) ∈ calls) ∧
          p.position < p.target t.started) := by
  cases h with
  | @turn t₁ t₂ s₁ s₂ startWait collectWait calls more hstart hcollect =>
      obtain ⟨hcs, hcf⟩ := capLead_counters p t
      have hcollected : .collect m answer ∈ more := by
        refine (List.mem_append.mp hc).resolve_left fun hc => ?_
        obtain ⟨_, heq⟩ := hstart.asks _ hc
        cases heq
      obtain ⟨-, hopen, hdue, hnumber⟩ := hcollect.of_collect hcollected
      have honly : .start m false (.done ()) ∈ calls ++ more ↔ .start m false (.done ()) ∈ calls := by
        refine List.mem_append.trans (or_iff_left fun hc => ?_)
        rcases hcollect.asks _ hc with ⟨_, heq⟩ | ⟨_, heq⟩ <;> cases heq
      have hflight : (capLead p t).inFlight = t.inFlight := by
        rw [Tally.inFlight, hcs, hcf, Tally.inFlight]
      have hcap := capLead_le p t
      have hreplaces := hstart.replaces (capLead_inStep p ht) hopen
      rw [hcf] at hdue
      rw [hflight, hcs, hcf] at hreplaces
      rw [hnumber, honly]
      refine ⟨hdue, ?_⟩
      rcases hreplaces with ⟨heq, hnot⟩ | ⟨heq, hboth, hat⟩
      · rw [heq]
        refine ⟨Nat.le_add_right_of_le (UInt64.le_iff_toNat_le.mp hdue), ?_⟩
        exact iff_of_false (UInt64.not_lt.mpr hdue) fun hearly => hnot hearly.1
      · rw [heq]
        have hlead := toNat_capLead p t
        rw [UInt64.le_iff_toNat_le, ← hcs, toNat_startAt hcap, hcs] at hat
        refine ⟨by omega, (and_iff_right hboth).symm⟩

/-! ## Turns of the sampler -/

/-- What is collected is collected for a measurement of the table, which has a turn of its own. -/
theorem Turns.of_collect {x : Sampler × Table} {sampler : Sampler} {table : Table}
    (h : sampler.Turns table clock now x calls) (hnames : table.Distinct)
    (hc : .collect m answer ∈ calls) :
    ∃ i e tally stats stats' wait, table.get? i = some e ∧ e.definition = m ∧
      x.2.get? i = some (e.withTally tally) ∧
      Attends (Plan.of m sampler.guard clock now) m e.tally stats (tally, stats', wait)
        (calls.filter (·.about m.name)) := by
  obtain ⟨i, e, hi, rfl⟩ : ∃ i e, table.get? i = some e ∧ e.definition = m := by
    cases h with
    | turn h =>
        obtain ⟨i, e, s₁, ⟨e', s₂, stop⟩, cs, hi, hv, hmem⟩ := h.calls_of _ hc
        refine ⟨i, e, Table.get?_eq_some.mpr hi, ?_⟩
        cases hv.2.samples _ hmem
        rfl
  obtain ⟨e', own, hi', hdeal, hown⟩ := h.passes.entry i e hi
  have hmem : .collect e.definition answer ∈ own := by
    rw [← hown hnames, List.mem_filter]
    exact ⟨hc, beq_self_eq_true _⟩
  rcases hdeal with ⟨-, rfl⟩ | ⟨s₁, s₂, hv⟩
  · cases hmem
  · cases hv with
    | idle h => cases hmem
    | active h hturn =>
        have hsame := hown hnames
        rw [← hsame] at hturn
        exact ⟨i, e, _, _, _, _, hi, rfl, hi', hturn⟩

end Sampler

/-- Wherever a node is in its life, and whatever the devices answer, a turn of the sampler collects
nothing before the target of the acquisition that was next to collect when the turn began, and
nothing by more than the lead time before its own target. It collects an acquisition before its own
target if and only if it has begun that acquisition in place of one that was still open, with its
target still ahead. -/
theorem Life.early_collects (l : Life W) {notes : List Note} {n : Node}
    (hpath : Node.Path l.node notes n)
    (hlimit : Node.turnsOf l.past + turns notes < UInt32.size)
    (d : Devices W) (now : Timestamp) {v : Voice} :
    Action.Speaks v (n.sampler.turn (d.voiced v) n.table n.clock now)
      (n.sampler.turn d n.table n.clock now) fun x calls =>
        ∀ m answer, .collect m answer ∈ calls →
          ∃ i e e', n.table.get? i = some e ∧ e.definition = m ∧ x.2.get? i = some e' ∧
            let p := Plan.of m n.sampler.guard n.clock now
            let number := e'.tally.askedFor answer
            p.target e.tally.finished ≤ p.position ∧
            (p.target number).toNat ≤ p.position.toNat + e.tally.leadTime.toNat ∧
            (p.position < p.target number ↔
              (e.tally.inFlight = true ∧ .start m false (.done ()) ∈ calls) ∧
                p.position < p.target e.tally.started) := by
  have hnames : n.table.Distinct := hpath.distinct l.paced.1
  have hpaced := hpath.paced l.paced.1 (l.paced.2 (by omega)) hlimit
  refine (Sampler.turn_speaks d n.sampler n.table n.clock now).imp ?_
  intro x calls h m answer hc
  obtain ⟨i, e, tally, stats, stats', wait, hi, rfl, hi', hturn⟩ := h.of_collect hnames hc
  have hown : ∀ c : Call, c.subject = some e.name →
      (c ∈ calls.filter (·.about e.definition.name) ↔ c ∈ calls) := by
    intro c hsubject
    rw [List.mem_filter, and_iff_left]
    exact beq_iff_eq.mpr hsubject
  have hcollect := hturn.of_collect (hpaced.tallies i e hi).1 ((hown _ rfl).mpr hc)
  rw [hown _ rfl] at hcollect
  exact ⟨i, e, _, hi, rfl, hi', hcollect⟩

/-- A sensor that takes half a slice, and a turn that comes half a slice late: the second
acquisition is begun in place of the first and collected in the same turn, half a slice before its
target. -/
theorem Life.early_collects_ticking :
    let n := (Life.ticking 600 1000 [1]).node
    let m : Definition := ⟨"A", .custom0, 1, 1, false⟩
    let p := Plan.of m n.sampler.guard n.clock 1000
    let r := (n.sampler.turn ((Devices.obliging 600).voiced .schedule) n.table n.clock 1000).run
      (1000, [])
    p.position = 1000 ∧ ∃ calls answer e', r.2.2 = Voice.schedule.notes calls ∧
      .collect m answer ∈ calls ∧ r.1.2.get? 0 = some e' ∧
      p.target (e'.tally.askedFor answer) = 1500 ∧ .start m false (.done ()) ∈ calls := by
  intro n m p r
  have honly : ∀ i e, n.table.get? i = some e → i = 0 ∧ e.definition = m := by
    rintro (_ | i) e hi
    · cases hi
      exact ⟨rfl, rfl⟩
    · cases hi
  have hreads : (r.2.2.filter Note.reads).length = 1 := by decide +kernel
  have hfinished : (r.1.2.get? 0).map (·.tally.finished) = some 2 := by decide +kernel
  have hposition : p.position = 1000 := by decide +kernel
  have htarget : p.target 1 = 1500 := by decide +kernel
  obtain ⟨_, hrun, calls, rfl, hcollects⟩ := Life.early_collects (Life.ticking 600 1000 [1])
    (.nil n) (by decide +kernel) (.obliging 600) 1000 (v := .schedule) 1000 []
  have hnotes : r.2.2 = Voice.schedule.notes calls := congrArg (·.2.2) hrun
  have hafter : r.1 = _ := congrArg Prod.fst hrun
  -- the reading that was taken
  obtain ⟨note, hone⟩ := List.length_eq_one_iff.mp hreads
  obtain ⟨hnote, hread⟩ := List.mem_filter.mp (hone ▸ List.mem_singleton_self note)
  rw [hnotes] at hnote
  obtain ⟨c, hc, rfl⟩ := List.mem_map.mp hnote
  unfold Note.reads at hread
  split at hread
  · next m' reading heq =>
      cases heq
      obtain ⟨i, e, e', hi, rfl, hi', -, -, hearly⟩ := hcollects _ _ hc
      obtain ⟨rfl, hm⟩ := honly i e hi
      rw [← hafter] at hi'
      rw [hi', Option.map_some, Option.some_inj] at hfinished
      have hnumber : e'.tally.askedFor (.done reading) = 1 := by
        rw [Tally.askedFor, hfinished]
        · rfl
        · exact nofun
      rw [hm] at hc hearly
      refine ⟨hposition, calls, _, e', hnotes, hc, hi', ?_, (hearly.mp ?_).1.2⟩
      · rw [hnumber, htarget]
      · rw [hnumber, htarget, hposition]
        decide
  · cases hread

end Telemetry
