import Telemetry.Proofs.Phases
import Telemetry.Proofs.WholeFrames

/-!
# A schedule that is kept

With devices that never fail and a turn of the loop at every millisecond, a
measurement that has room in its period is sent at every tick that it is due at,
with all its samples, and at no other time (`Life.sent_in_rhythm`).

One invariant carries the run. Between two turns a node is in step
(`Node.InStep`): no cycle is under way, nothing is asked for outside the
schedule, and every measurement with room in its period is in time
(`Entry.InTime`), by a millisecond late before a turn and not late after it. The
parts of a turn keep it one after the other. The sampler takes the samples whose
targets are reached (`Samples.inStep`). The end of a tick comes in the
millisecond after its interval, as no turn is left out; by then what is due has
all its samples, and one frame has room for everything (`Transmits.inStep`). To
settle changes nothing (`Rests.inStep`). An answer finds no cycle to go on with
(`Performs.answered_inStep`).

From the moment of its birth a node is in step, and it stays so while measurements
are added to it and answers come (`Node.Stocked`).
-/

namespace Telemetry

variable {W : Type}

/-! ## Nodes in step -/

/-- A node between two turns of the loop, after some ticks: no cycle is under
way, and every measurement with room in its period is in time. -/
structure Node.InStep (s : Settings) (kind : Definition → ValueKind) (ticks : Nat)
    (now : Timestamp) (late : Nat) (n : Node) : Prop where
  enabled : n.enabled = true
  online : n.offline = false
  plugged : n.sleeper.mode = .plugged
  guard : n.sampler.guard = s.immediateGuard
  interval : n.clock.interval = s.interval
  began : n.clock.began ≤ now
  ticks : n.clock.count.toNat = ticks
  idle : n.outgoing.Idle
  table : n.table.Plain n.uplink.capacity
  inTime : ∀ i e, n.table.get? i = some e → e.definition.Roomy s.interval s.immediateGuard →
    e.InTime kind n.sampler n.clock now late

/-- Whether the count of the transmit clock has moved. -/
def Node.Episode.ticks (ep : Episode) : Bool := ep.after.clock.count != ep.before.clock.count

/-- A measurement with room in its period stays where it is, and is sent when the
count moves to a multiple of its period, once and with all its samples, and at no
other time. -/
structure Node.Episode.Rhythmic (s : Settings) (ep : Episode) : Prop where
  keeps : ∀ i e, ep.before.table.get? i = some e →
    ∃ e', ep.after.table.get? i = some e' ∧ e'.definition = e.definition
  sends : ∀ i e, ep.before.table.get? i = some e →
    e.definition.Roomy s.interval s.immediateGuard →
    (framed (ep.notes.filter (·.concerns e.name))).map Tally.samples =
      if ep.ticks = true ∧ e.definition.due ep.after.clock.count = true then
        [e.definition.sampleCount.toUInt32]
      else []

/-- What is neither a tick nor the send of a frame. -/
structure Node.Episode.Idle (ep : Episode) : Prop where
  clock : ep.after.clock = ep.before.clock
  keeps : ∀ i e, ep.before.table.get? i = some e →
    ∃ e', ep.after.table.get? i = some e' ∧ e'.definition = e.definition
  quiet : ∀ name, framed (ep.notes.filter (·.concerns name)) = []

namespace Node

variable {s : Settings} {n n₁ n' : Node} {notes more : List Note}

theorem Episode.Idle.ticks {ep : Episode} (h : ep.Idle) : ep.ticks = false := by
  rw [Episode.ticks, h.clock, bne_self_eq_false]

theorem Episode.Idle.rhythmic {ep : Episode} (h : ep.Idle) : ep.Rhythmic s where
  keeps := h.keeps
  sends i e _ _ := by
    rw [h.quiet, h.ticks, if_neg fun h => Bool.false_ne_true h.1]
    rfl

theorem Episode.Idle.refl (n : Node) : Episode.Idle ⟨n, [], n⟩ where
  clock := rfl
  keeps _ e hi := ⟨e, hi, rfl⟩
  quiet _ := rfl

theorem Episode.Idle.of_passes {deal : Entry → List Call → Entry → Prop} {calls : List Call}
    (hclock : n'.clock = n.clock) (h : n.table.Passes deal n'.table calls)
    (hdeal : ∀ e own e', deal e own e' → e'.definition = e.definition)
    (hquiet : notes.filterMap Note.takes = []) : Episode.Idle ⟨n, notes, n'⟩ where
  clock := hclock
  keeps i e hi := by
    obtain ⟨e', own, hi', hd, -⟩ := h.entry i e hi
    exact ⟨e', hi', hdeal _ _ _ hd⟩
  quiet := framed_of_quiet hquiet

/-- Before a send nothing is sent. -/
theorem Episode.Rhythmic.after_idle (h : Episode.Idle ⟨n, notes, n₁⟩)
    (hrest : Episode.Rhythmic s ⟨n₁, more, n'⟩) : Episode.Rhythmic s ⟨n, notes ++ more, n'⟩ where
  keeps i e hi := by
    obtain ⟨e₁, hi₁, hm⟩ := h.keeps i e hi
    obtain ⟨e', hi', hm'⟩ := hrest.keeps i e₁ hi₁
    exact ⟨e', hi', hm'.trans hm⟩
  sends i e hi hroomy := by
    obtain ⟨e₁, hi₁, hm⟩ := h.keeps i e hi
    have hsends := hrest.sends i e₁ hi₁ (hm ▸ hroomy)
    have hclock : n₁.clock = n.clock := h.clock
    rw [Entry.name, hm] at hsends
    rw [Episode.ticks] at hsends ⊢
    rw [List.filter_append, framed_append, h.quiet, List.nil_append]
    rwa [hclock] at hsends

/-- After a send nothing else is sent. -/
theorem Episode.Rhythmic.then_idle (h : Episode.Rhythmic s ⟨n, notes, n₁⟩)
    (hrest : Episode.Idle ⟨n₁, more, n'⟩) : Episode.Rhythmic s ⟨n, notes ++ more, n'⟩ where
  keeps i e hi := by
    obtain ⟨e₁, hi₁, hm⟩ := h.keeps i e hi
    obtain ⟨e', hi', hm'⟩ := hrest.keeps i e₁ hi₁
    exact ⟨e', hi', hm'.trans hm⟩
  sends i e hi hroomy := by
    have hsends := h.sends i e hi hroomy
    have hclock : n'.clock = n₁.clock := hrest.clock
    rw [Episode.ticks] at hsends ⊢
    rw [List.filter_append, framed_append, hrest.quiet, List.append_nil]
    rwa [← hclock] at hsends

/-! ## The parts of a turn of the loop -/

variable {kind : Definition → ValueKind} {ticks : Nat} {now : Timestamp}

/-- The sampler's part takes the samples that are due. -/
theorem Samples.inStep (h : Samples (· = now) n notes n') (hn : n.InStep s kind ticks now 1)
    (hfine : ∀ v c, .call v c ∈ notes → c.Fine kind) (hnow : now.toNat < 0x8000000000000000)
    (hover : now.toNat ≤ n.clock.began.toNat + n.clock.interval.toNat + 1) :
    n'.InStep s kind ticks now 0 ∧ Episode.Idle ⟨n, notes, n'⟩ := by
  cases h with
  | waits hreads hdue =>
      subst hreads
      exact ⟨{ hn with inTime := fun i e hi hroomy => (hn.inTime i e hi hroomy).waits hdue },
        .refl n⟩
  | @turns _ sampler table calls hreads hdue h =>
      subst hreads
      have hcalls : ∀ c ∈ calls, c.Fine kind := fun c hc =>
        hfine .schedule c (List.mem_cons_of_mem _ (List.mem_map_of_mem hc))
      have hguard : sampler.guard = n.sampler.guard := by
        cases h with
        | turn h => rfl
      have hquiet := h.quiet
      refine ⟨{ hn with
        guard := hguard.trans hn.guard
        idle := ⟨hn.idle.pending, hn.idle.start⟩
        table := hn.table.passes h.passes fun _ _ _ hd =>
          ⟨hd.definition_eq, congrArg Prod.snd hd.marks_eq⟩
        inTime := fun i e' hi' hroomy => ?_ }, .of_passes rfl h.passes (fun _ _ _ hd =>
          hd.definition_eq) hquiet⟩
      obtain ⟨e, own, hi, hd⟩ := h.passes.origin hi'
      rw [hd.definition_eq] at hroomy
      have hin := hn.inTime i e hi hroomy
      rw [← hn.interval, ← hn.guard] at hroomy
      obtain ⟨tally', hi'', hturned⟩ := Entry.InTime.turned h hcalls hi hroomy hnow hover hin
      have heq : e' = e.withTally tally' := Option.some_inj.mp (hi'.symm.trans hi'')
      rw [heq]
      exact hturned

/-- What is due at the end of a tick is ready, with all its samples. -/
theorem InStep.ends (hn : n.InStep s kind ticks now 0) (hnumeric : ∀ m, kind m ≠ .text)
    (hfew : ticks + 1 < UInt32.size)
    (hlate : now.toNat = n.clock.began.toNat + n.clock.interval.toNat + 1) {i : Nat} {e : Entry}
    (hi : n.table.get? i = some e) (hroomy : e.definition.Roomy s.interval s.immediateGuard) :
    (e.passed n.clock.advance.count).InTime kind n.sampler (n.clock.advance.restart now) now 0 ∧
      e.ready n.clock.advance.count = e.definition.due n.clock.advance.count ∧
      (e.ready n.clock.advance.count = true →
        e.tally.samples = e.definition.sampleCount.toUInt32) := by
  have hin := hn.inTime i e hi hroomy
  rw [← hn.interval, ← hn.guard] at hroomy
  exact hin.ends hroomy (hnumeric _) (by rw [hn.ticks]; exact hfew) hlate

/-- A frame with all that was ready begins a tick in which the node is in step. -/
theorem InStep.tick {o : Outgoing} (hn : n.InStep s kind ticks now 0)
    (hnumeric : ∀ m, kind m ≠ .text) (hfew : ticks + 1 < UInt32.size)
    (hlate : now.toNat = n.clock.began.toNat + n.clock.interval.toNat + 1) (hidle : o.Idle)
    (hplain : o.table.Plain o.uplink.capacity) (hclock : o.clock = n.clock.advance.restart now)
    (hpassed : ∀ i e', o.table.get? i = some e' →
      ∃ e, n.table.get? i = some e ∧ e' = e.passed n.clock.advance.count) :
    (n.withOutgoing o).InStep s kind (ticks + 1) now 0 := by
  obtain ⟨uplink, table, clock⟩ := o
  obtain rfl : clock = n.clock.advance.restart now := hclock
  refine ⟨hn.enabled, hn.online, hn.plugged, hn.guard, hn.interval, UInt64.le_refl now, ?_, hidle,
    hplain, fun i e' hi' hroomy => ?_⟩
  · show (n.clock.count + 1).toNat = _
    rw [Tally.toNat_succ (hn.ticks ▸ hfew), hn.ticks]
  · obtain ⟨e, hi, rfl⟩ := hpassed i e' hi'
    rw [e.passed_definition] at hroomy
    exact (hn.ends hnumeric hfew hlate hi hroomy).1

/-- The end of a tick sends what is due, and nothing if the tick is not over. -/
theorem Transmits.inStep {send : Option SendOutcome} (h : Transmits (· = now) n send notes n')
    (hn : n.InStep s kind ticks now 0) (hfine : ∀ v c, .call v c ∈ notes → c.Fine kind)
    (hsteady : ∀ outcome ∈ send, ∃ o, Outgoing.Steadily (o, outcome))
    (hnumeric : ∀ m, kind m ≠ .text)
    (hfew : (ticks + if Episode.ticks ⟨n, notes, n'⟩ then 1 else 0) < UInt32.size)
    (hover : now.toNat ≤ n.clock.began.toNat + n.clock.interval.toNat + 1) :
    n'.InStep s kind (ticks + if Episode.ticks ⟨n, notes, n'⟩ then 1 else 0) now 0 ∧
      n'.clock.due now = false ∧ Episode.Rhythmic s ⟨n, notes, n'⟩ := by
  cases h with
  | early hreads hdue =>
      subst hreads
      have hidle := Episode.Idle.refl n
      rw [hidle.ticks]
      exact ⟨hn, hdue, hidle.rhythmic⟩
  | @ended now₁ o outcome calls hreads hdue h =>
      obtain rfl : now = now₁ := Eq.symm hreads
      have hcalls : ∀ c ∈ calls, c.Fine kind := fun c hc =>
        hfine .schedule c (List.mem_append_left _ (List.mem_map_of_mem hc))
      obtain ⟨hidle, hplain, hclock, htaken⟩ :=
        h.all (hsteady _ rfl) hcalls ⟨hn.idle.pending, hn.idle.start⟩ hn.table
      have hlate : now.toNat = n.clock.began.toNat + n.clock.interval.toNat + 1 := by
        have hpast := (n.clock.due_iff now).mp hdue
        omega
      have hticks : Episode.ticks ⟨n, Voice.schedule.notes calls ++ [.sent n.table o.table],
          n.withOutgoing o⟩ = true := by
        rw [Episode.ticks, bne_iff_ne]
        show o.clock.count ≠ n.clock.count
        rw [hclock]
        exact Tally.succ_ne n.clock.count
      rw [hticks, if_pos rfl] at hfew
      rw [hticks]
      refine ⟨hn.tick hnumeric hfew hlate hidle hplain hclock fun i e' hi' => ?_, ?_,
        fun i e hi => ?_, fun i e hi hroomy => ?_⟩
      · obtain ⟨e, own, hi, -⟩ := h.passes.origin hi'
        exact ⟨e, hi, Option.some_inj.mp (hi'.symm.trans (htaken i e hi).1)⟩
      · show o.clock.due now = false
        rw [hclock, Bool.eq_false_iff, ne_eq, TransmitClock.due_iff]
        show ¬ _ < now.toNat - now.toNat
        omega
      · exact ⟨_, (htaken i e hi).1, e.passed_definition _⟩
      · obtain ⟨-, hready, hsamples⟩ := hn.ends hnumeric hfew hlate hi hroomy
        have hsent : framed ([Note.sent n.table o.table].filter (·.concerns e.name)) = [] := rfl
        have hframed := (htaken i e hi).2
        rw [List.filter_append, framed_append, hsent, List.append_nil, hframed, hticks]
        show _ = if true = true ∧ e.definition.due o.clock.count = true then _ else _
        rw [hclock, TransmitClock.restart_count]
        show List.map _ (if e.ready n.clock.advance.count = true then _ else _) =
          if true = true ∧ e.definition.due n.clock.advance.count = true then _ else _
        rw [hready]
        by_cases hdue : e.definition.due n.clock.advance.count = true
        · rw [if_pos hdue, if_pos ⟨rfl, hdue⟩, List.map_singleton, hsamples (hready.trans hdue)]
        · rw [if_neg hdue, if_neg fun h => hdue h.2]
          rfl

/-- Between two turns of the sampler there is nothing to poll. -/
theorem Rests.inStep {late : Nat} {sleep : Option SleepDecision} (h : Rests n sleep notes n')
    (hn : n.InStep s kind ticks now late) :
    n'.InStep s kind ticks now late ∧ Episode.Idle ⟨n, notes, n'⟩ := by
  have hquiet := h.quiet
  cases h with
  | @rested sampler table polled calls more sleep h slept hnap hsleep =>
      have hsampler : sampler = { n.sampler with stats := sampler.stats } := by
        cases h with
        | polled h => rfl
      refine ⟨{ hn with
        guard := by rw [← hn.guard, hsampler]
        idle := ⟨hn.idle.pending, hn.idle.start⟩
        table := hn.table.passes h.passes fun _ _ _ hd =>
          ⟨hd.definition_eq, congrArg Prod.snd hd.marks_eq⟩
        inTime := fun i e' hi' hroomy => ?_ },
        .of_passes rfl h.passes (fun _ _ _ hd => hd.definition_eq) hquiet⟩
      obtain ⟨e, own, hi, hd⟩ := h.passes.origin hi'
      rw [hd.definition_eq] at hroomy
      obtain ⟨k, hk, heven, hawaits⟩ := hn.inTime i e hi hroomy
      have heq : e' = e := by
        rcases hd with ⟨rfl, -⟩ | ⟨_, _, hpolls⟩
        · rfl
        · cases hpolls with
          | idle h => rfl
          | failed h cause => exact absurd (h.symm.trans heven.inFlight) Bool.noConfusion
          | asked h answer hanswer => rfl
      rw [heq]
      refine ⟨k, hk, heven, ?_, ?_⟩
      · show sampler.lastTurn.toNat + sampler.wait.toNat + _ ≤ _ + e.definition.targetAt _ sampler.guard k
        rw [hsampler]
        exact hawaits.turn
      · show _ ≤ e.definition.targetAt _ sampler.guard k + late
        rw [hsampler]
        exact hawaits.target

/-- A turn of the loop that runs through. -/
theorem Loops.inStep {send : Option SendOutcome} {sleep : Option SleepDecision}
    (h : Loops (· = now) n (.ran send sleep) notes n') (hn : n.InStep s kind ticks now 1)
    (hfine : ∀ v c, .call v c ∈ notes → c.Fine kind)
    (hsteady : ∀ outcome ∈ send, ∃ o, Outgoing.Steadily (o, outcome))
    (hnumeric : ∀ m, kind m ≠ .text) (hnow : now.toNat < 0x8000000000000000)
    (hfew : (ticks + if Episode.ticks ⟨n, notes, n'⟩ then 1 else 0) < UInt32.size)
    (hover : now.toNat ≤ n.clock.began.toNat + n.clock.interval.toNat + 1) :
    n'.InStep s kind (ticks + if Episode.ticks ⟨n, notes, n'⟩ then 1 else 0) now 0 ∧
      n'.clock.due now = false ∧ Episode.Rhythmic s ⟨n, notes, n'⟩ := by
  cases h with
  | @ran table n₁ n₂ _ _ _ calls sampled sent settled henabled hoffline haside hidle hsamples hsends
      hrests =>
      have hsame : table = n.table := hidle hn.table.hasRequests
      subst hsame
      have hasides : Episode.Idle ⟨n, Voice.aside.notes calls, n⟩ :=
        { Episode.Idle.refl n with quiet := fun name => by rw [filter_aside]; rfl }
      obtain ⟨hn₁, hidle₁⟩ := hsamples.inStep hn
        (fun v c hc => hfine v c (by simp only [List.mem_append]; tauto)) hnow hover
      have hclock₁ : n₁.clock = n.clock := hidle₁.clock
      have hclock₃ : n'.clock = n₂.clock := hrests.kept.2
      have hticks : Episode.ticks ⟨n, Voice.aside.notes calls ++ (sampled ++ (sent ++ settled)), n'⟩ =
          Episode.ticks ⟨n₁, sent, n₂⟩ := by
        rw [Episode.ticks, Episode.ticks]
        show (n'.clock.count != n.clock.count) = (n₂.clock.count != n₁.clock.count)
        rw [hclock₁, hclock₃]
      rw [hticks] at hfew ⊢
      rw [← hclock₁] at hover
      obtain ⟨hn₂, hdue, hrhythmic⟩ := hsends.inStep hn₁
        (fun v c hc => hfine v c (by simp only [List.mem_append]; tauto)) hsteady hnumeric hfew hover
      obtain ⟨hn₃, hidle₃⟩ := hrests.inStep hn₂
      rw [hclock₃]
      exact ⟨hn₃, hdue, .after_idle hasides (.after_idle hidle₁ (hrhythmic.then_idle hidle₃))⟩

/-- If no cycle is under way an answer, good or bad, only settles measurements. -/
theorem settles_of_answers {o o' : Outgoing} {good : Bool} {outcome : Option SendOutcome}
    {calls : List Call} (h : o.Answers now good (o', outcome) calls) (hidle : o.Idle) :
    o.table.Passes (fun e _ e' => e' = e ∨ e' = e.settled) o'.table calls ∧
      (Voice.schedule.notes calls).filterMap Note.takes = [] ∧ o'.Idle ∧
      o'.uplink.capacity = o.uplink.capacity ∧ o'.table.capacity = o.table.capacity ∧
      o'.clock = o.clock := by
  cases h with
  | bad =>
      refine ⟨.cleared (fun e => .inr rfl) fun c hc => absurd hc List.not_mem_nil, rfl,
        ⟨rfl, ?_⟩, rfl, o.table.capacity_clearAcks, rfl⟩
      exact ite_self 0
  | last h hpending =>
      refine ⟨?_, ?_, ⟨hpending, ?_⟩, rfl, Table.capacity_withWindow h.length_eq, rfl⟩
      · refine .of_swept h (fun e s x own hv => hv.2.subject) (fun e => .inl rfl) ?_
        intro e s e' s' stop own hv
        cases hv.2 with
        | idle h => exact .inl rfl
        | settled h hwaits => exact .inr rfl
      · refine takes_eq_nil fun c hc => ?_
        obtain ⟨j, e, s, x, own, -, hv, hmem⟩ := h.calls_of c hc
        exact hv.2.quiet c hmem
      · exact ite_self 0
  | next h hpending hsend => exact absurd (hpending.symm.trans hidle.pending) Bool.noConfusion

theorem Performs.answered_inStep {reads : Timestamp → Prop} {good : Bool} {late : Nat}
    (h : Performs reads n (.answer good) notes n') (hn : n.InStep s kind ticks now late) :
    n'.InStep s kind ticks now late ∧ Episode.Idle ⟨n, notes, n'⟩ := by
  cases h with
  | @answered _ _ o outcome calls h =>
      obtain ⟨hpasses, hquiet, hidle, hcapacity, -, hclock⟩ := settles_of_answers h hn.idle
      have hsame : ∀ (e : Entry) (own : List Call) (e' : Entry), e' = e ∨ e' = e.settled →
          e'.definition = e.definition ∧
            e'.tally.instantRequested = e.tally.instantRequested := by
        rintro e own e' (rfl | rfl)
        · exact ⟨rfl, rfl⟩
        · exact ⟨rfl, rfl⟩
      have hplain := hn.table.passes hpasses hsame
      obtain ⟨uplink, table, clock⟩ := o
      obtain rfl : n.clock = clock := hclock.symm
      refine ⟨{ hn with
        idle := hidle
        table := ?_
        inTime := fun i e' hi' hroomy => ?_ }, .of_passes rfl hpasses
          (fun e own e' hd => (hsame e own e' hd).1) ?_⟩
      · rw [show (n.withOutgoing { uplink, table, clock := n.clock }).uplink.capacity =
          n.uplink.capacity from hcapacity]
        exact hplain
      · obtain ⟨e, own, hi, hd⟩ := hpasses.origin hi'
        rw [(hsame e own e' hd).1] at hroomy
        obtain ⟨k, hk, heven, hawaits⟩ := hn.inTime i e hi hroomy
        rcases hd with rfl | rfl
        · exact ⟨k, hk, heven, hawaits⟩
        · exact ⟨k, hk, heven.congr false, hawaits⟩
      · rw [List.filterMap_append, hquiet]
        rfl

/-- A millisecond passes between two turns of the loop. -/
theorem InStep.next (hn : n.InStep s kind ticks now 0) {later : Timestamp}
    (hlater : later.toNat = now.toNat + 1) : n.InStep s kind ticks later 1 :=
  { hn with
    began := by
      have hle := UInt64.le_iff_toNat_le.mp hn.began
      rw [UInt64.le_iff_toNat_le]
      omega
    inTime := fun i e hi hroomy => (hn.inTime i e hi hroomy).next hn.began hlater }

end Node

/-! ## Runs -/

theorem Timestamp.toNat_next {now : Timestamp} (h : now.toNat < 0x8000000000000000) :
    (now + 1).toNat = now.toNat + 1 := by
  rw [UInt64.toNat_add, UInt64.toNat_one, Nat.mod_eq_of_lt (by omega)]

/-- A run in which the loop takes a turn at every millisecond from a time on,
with answers between the turns. The clock shows less than half its range. -/
inductive Ticking (time : W → Timestamp) : Timestamp → List (Move W) → Prop where
  | nil (now : Timestamp) : Ticking time now []
  | turn {now : Timestamp} {m : Move W} {rest : List (Move W)} (hop : m.op = .iterate)
      (htime : ∀ w, time (m.meanwhile w) = now) (hnow : now.toNat < 0x8000000000000000)
      (hrest : Ticking time (now + 1) rest) : Ticking time now (m :: rest)
  | answer {now : Timestamp} {m : Move W} {rest : List (Move W)} {good : Bool}
      (hop : m.op = .answer good) (hrest : Ticking time now rest) : Ticking time now (m :: rest)

namespace Node

theorem answer_inStep (d : Devices W) {s : Settings} {kind : Definition → ValueKind} {n : Node}
    {ticks late : Nat} {now : Timestamp} (hn : n.InStep s kind ticks now late) (good : Bool)
    (w : W) :
    let r := (n.performBy (.full d) (.answer good)).run (w, [])
    r.1.InStep s kind ticks now late ∧ Episode.Idle ⟨n, r.2.2, r.1⟩ :=
  (performs_any d n w (.answer good)).1.answered_inStep hn

variable {d : Devices W} {time : W → Timestamp} {kind : Definition → ValueKind}
  (hd : d.Reliable time kind)
include hd

/-- One turn of the loop in a history. -/
theorem iterate_inStep {s : Settings} {n : Node} {ticks : Nat} {now : Timestamp} {w : W}
    (hn : n.InStep s kind ticks now 1) (hw : time w = now) (hnow : now.toNat < 0x8000000000000000)
    (hover : now.toNat ≤ n.clock.began.toNat + n.clock.interval.toNat + 1) :
    let r := (n.performBy (.full d) .iterate).run (w, [])
    let ep : Episode := ⟨n, r.2.2, r.1⟩
    (ticks + if ep.ticks then 1 else 0) < UInt32.size →
    r.1.InStep s kind (ticks + if ep.ticks then 1 else 0) now 0 ∧
      r.1.clock.due now = false ∧ ep.Rhythmic s := by
  have hboard : n.performBy (.full d) .iterate = n.performBy (.full d.boardless) .iterate := by
    rw [performBy, performBy, iterateBy_boardless d hn.plugged hn.table.hasRequests]
  intro r ep hfew
  have hreads : ∀ w, time w = now → (d.boardless.now.run w).1 = now :=
    fun w hw => (hd.now w).trans hw
  let r' := (n.performBy (.full d.boardless) .iterate).run (w, [])
  have hloops : Loops (· = now) n ((n.iterate d.boardless).run w).1.2 r'.2.2 r'.1 :=
    loops_run (hd.within now) n hreads hw
  have hfine := notes_fine hd.boardless n .iterate w
  obtain ⟨send, sleep, hran, hsteady⟩ := iterate_ran hd.boardless n hn.enabled hn.online w
  have hsame : r = r' := by
    show (n.performBy (.full d) .iterate).run (w, []) = _
    rw [hboard]
  rw [hran, ← hsame] at hloops
  rw [← hboard] at hfine
  exact Loops.inStep hloops hn hfine hsteady hd.numeric hnow hfew hover

/-- Every turn of the loop and every answer in such a run is rhythmic. -/
theorem history_rhythmic {s : Settings} {moves : List (Move W)} {now : Timestamp}
    (hticking : Ticking time now moves) {n : Node} {ticks : Nat} {w : W}
    (hn : n.InStep s kind ticks now 1)
    (hover : now.toNat ≤ n.clock.began.toNat + n.clock.interval.toNat + 1)
    (hfew : ticks + ((history d moves n w).filter Episode.ticks).length < UInt32.size) :
    ∀ ep ∈ history d moves n w, ep.Rhythmic s := by
  induction hticking generalizing n ticks w with
  | nil now => exact fun ep hep => absurd hep List.not_mem_nil
  | @turn now m rest hop htime hnow hrest ih =>
      rw [history, hop, List.filter_cons] at hfew
      rw [history, hop]
      have hstep := iterate_inStep hd hn (htime w) hnow hover
      generalize (n.performBy (.full d) .iterate).run (m.meanwhile w, []) = r at hstep hfew ⊢
      simp only [] at hstep hfew ⊢
      have hcount : (ticks + if Episode.ticks ⟨n, r.2.2, r.1⟩ then 1 else 0) +
          ((history d rest r.1 r.2.1).filter Episode.ticks).length < UInt32.size := by
        refine Nat.lt_of_le_of_lt (Nat.le_of_eq ?_) hfew
        split
        · rw [List.length_cons]
          omega
        · rfl
      obtain ⟨hn', hdue, hrhythmic⟩ := hstep (by omega)
      have hnext := Timestamp.toNat_next hnow
      have hover' : (now + 1).toNat ≤ r.1.clock.began.toNat + r.1.clock.interval.toNat + 1 := by
        have hruns : ¬ r.1.clock.interval.toNat < now.toNat - r.1.clock.began.toNat := by
          rw [← r.1.clock.due_iff, hdue]
          exact Bool.false_ne_true
        omega
      intro ep hep
      rcases List.mem_cons.mp hep with rfl | hep
      · exact hrhythmic
      · exact ih (hn'.next hnext) hover' hcount ep hep
  | @answer now m rest good hop hrest ih =>
      rw [history, hop, List.filter_cons] at hfew
      rw [history, hop]
      have hstep := answer_inStep d hn good (m.meanwhile w)
      generalize (n.performBy (.full d) (.answer good)).run (m.meanwhile w, []) = r
        at hstep hfew ⊢
      simp only [] at hstep hfew ⊢
      obtain ⟨hn', hidle⟩ := hstep
      have hclock : r.1.clock = n.clock := hidle.clock
      rw [hidle.ticks, if_neg Bool.false_ne_true] at hfew
      intro ep hep
      rcases List.mem_cons.mp hep with rfl | hep
      · exact hidle.rhythmic
      · exact ih hn' (by rwa [hclock]) hfew ep hep

omit hd

/-- A node before its first turn of the loop. Measurements have been added and
answers have come, and nothing else was done. -/
structure Stocked (l : Life W) (kind : Definition → ValueKind) (n : Node) : Prop where
  inStep : n.InStep l.settings kind 0 l.began 1
  clock : n.clock = l.birth.clock
  sampler : n.sampler = l.birth.sampler
  room : n.table.capacity ≤ n.uplink.capacity

namespace Stocked

variable {l : Life W} {n n' : Node} {notes : List Note}

theorem birth (hpower : l.settings.power = .plugged) : Stocked l kind l.birth where
  inStep := by
    have hempty : ∀ i e, l.birth.table.get? i ≠ some e := by
      intro i e hi
      rw [Life.birth, create, Table.get?_empty] at hi
      cases hi
    exact ⟨rfl, rfl, hpower, rfl, rfl, UInt64.le_refl _, rfl, ⟨rfl, ite_self 0⟩,
      ⟨Table.distinct_empty l.capacity l.settings.collectionTime,
        fun i e hi => absurd hi (hempty i e), fun i e hi => absurd hi (hempty i e)⟩,
      fun i e hi => absurd hi (hempty i e)⟩
  clock := rfl
  sampler := rfl
  room := by
    show (List.replicate l.capacity none).length ≤ l.capacity
    rw [List.length_replicate]

/-- At the moment of the birth a fresh measurement is in time. -/
theorem inTime_fresh (hn : Stocked l kind n) (m : Definition) :
    Entry.InTime kind n.sampler n.clock l.began 1
      { definition := m, tally := Tally.fresh (kind m) 0 } := by
  rw [hn.clock, hn.sampler]
  have hzero : m.positionAt l.birth.clock l.began = 0 := by
    show l.began.toNat - l.began.toNat + 0 % _ * _ = 0
    rw [Nat.sub_self, Nat.zero_mod, Nat.zero_mul]
  refine ⟨0, Nat.zero_le _, .fresh _, ?_, ?_⟩
  · show 0 + 0 + m.positionAt l.birth.clock l.began ≤ _
    rw [hzero]
    exact Nat.zero_le _
  · show m.positionAt l.birth.clock l.began ≤ _
    rw [hzero]
    exact Nat.zero_le _

/-- A fresh measurement in a free slot leaves the others as they are. -/
theorem put (hn : Stocked l kind n) {i : Nat} (hfree : n.table.firstFree = some i) (m : Definition)
    {t : Table} (ht : t = n.table.put i (some { definition := m, tally := Tally.fresh (kind m) 0 }))
    (hdistinct : t.Distinct) : Stocked l kind { n with table := t } := by
  obtain ⟨hlt, -⟩ := Table.lt_of_firstFree hfree
  have hentry : ∀ j e, t.get? j = some e →
      (j = i ∧ e = { definition := m, tally := Tally.fresh (kind m) 0 }) ∨
        n.table.get? j = some e := by
    intro j e hj
    rw [ht] at hj
    by_cases hij : i = j
    · subst hij
      rw [Table.get?_put_self hlt] at hj
      exact .inl ⟨rfl, (Option.some_inj.mp hj).symm⟩
    · rw [Table.get?_put_ne hij] at hj
      exact .inr hj
  refine ⟨{ hn.inStep with
    idle := ⟨hn.inStep.idle.pending, hn.inStep.idle.start⟩
    table := ⟨hdistinct, fun j e hj => ?_, fun j e hj => ?_⟩
    inTime := fun j e hj hroomy => ?_ }, hn.clock, hn.sampler, ?_⟩
  · rcases hentry j e hj with ⟨rfl, -⟩ | hj
    · exact Nat.lt_of_lt_of_le hlt hn.room
    · exact hn.inStep.table.within j e hj
  · rcases hentry j e hj with ⟨-, rfl⟩ | hj
    · rfl
    · exact hn.inStep.table.unasked j e hj
  · rcases hentry j e hj with ⟨-, rfl⟩ | hj
    · exact hn.inTime_fresh m
    · exact hn.inStep.inTime j e hj hroomy
  · show t.capacity ≤ n.uplink.capacity
    rw [ht, Table.capacity_put]
    exact hn.room

theorem answered {reads : Timestamp → Prop} {good : Bool} (hn : Stocked l kind n)
    (h : Performs reads n (.answer good) notes n') : Stocked l kind n' := by
  obtain ⟨hinStep, hidle⟩ := h.answered_inStep hn.inStep
  cases h with
  | @answered _ _ o outcome calls h =>
      obtain ⟨-, -, -, huplink, htable, -⟩ := settles_of_answers h hn.inStep.idle
      refine ⟨hinStep, hidle.clock.trans hn.clock, hn.sampler, ?_⟩
      show o.table.capacity ≤ o.uplink.capacity
      rw [htable, huplink]
      exact hn.room

end Stocked

include hd

/-- An addition sends nothing. -/
theorem add_stocked {l : Life W} {n : Node} (hn : Stocked l kind n) (m : Definition) (w : W) :
    let r := (n.performBy (.full d) (.edit (.add m))).run (w, [])
    Stocked l kind r.1 ∧ Episode.Idle ⟨n, r.2.2, r.1⟩ := by
  have hperformed := performs_any d n w (.edit (.add m))
  have hadded : ((n.performBy (.blind d) (.edit (.add m))).run w).1 =
      { n with table := ((n.table.add d m).run w).1.1 } := by
    rw [performBy, Action.run_map, Edit.apply, Action.run_map]
    rfl
  generalize (n.performBy (.full d) (.edit (.add m))).run (w, []) = r at hperformed ⊢
  obtain ⟨n', w', notes⟩ := r
  simp only [] at hperformed ⊢
  obtain ⟨hperforms, hplain⟩ := hperformed
  rw [hplain] at hadded
  have hnew := Table.add_reliable hd n.table m w
  generalize ((n.table.add d m).run w).1.1 = t at hadded hnew
  subst hadded
  cases hperforms with
  | @edited table _ calls he h =>
      have hquiet := framed_of_quiet (takes_aside calls)
      rcases hnew with rfl | ⟨i, m', hfree, ht⟩
      · exact ⟨hn, { Episode.Idle.refl n with quiet := hquiet }⟩
      · refine ⟨hn.put hfree m' ht (h.distinct hn.inStep.table.distinct), rfl, fun j e hj => ?_,
          hquiet⟩
        obtain ⟨-, hnone⟩ := Table.lt_of_firstFree hfree
        have hij : i ≠ j := by
          intro heq
          rw [← heq, hnone] at hj
          cases hj
        refine ⟨e, ?_, rfl⟩
        show t.get? j = some e
        rw [ht, Table.get?_put_ne hij, hj]

/-- Before the first turn of the loop nothing is sent, whatever the answers are. -/
theorem history_stocked {l : Life W} {first : List (Move W)}
    (hfirst : ∀ m ∈ first, (∃ x, m.op = .edit (.add x)) ∨ ∃ good, m.op = .answer good) {n : Node}
    (hn : Stocked l kind n) (w : W) :
    (∀ ep ∈ history d first n w, ep.Idle) ∧ Stocked l kind ((run d first n).run w).1 := by
  induction first generalizing n w with
  | nil => exact ⟨fun ep hep => absurd hep List.not_mem_nil, hn⟩
  | cons m rest ih =>
      obtain ⟨hperforms, hplain⟩ := performs_any d n (m.meanwhile w) m.op
      have hrun : (run d (m :: rest) n).run w =
          (run d rest ((n.performBy (.blind d) m.op).run (m.meanwhile w)).1).run
            ((n.performBy (.blind d) m.op).run (m.meanwhile w)).2 := rfl
      rw [hrun, hplain, history]
      have hstep : Stocked l kind ((n.performBy (.full d) m.op).run (m.meanwhile w, [])).1 ∧
          Episode.Idle ⟨n, ((n.performBy (.full d) m.op).run (m.meanwhile w, [])).2.2,
            ((n.performBy (.full d) m.op).run (m.meanwhile w, [])).1⟩ := by
        rcases hfirst m List.mem_cons_self with ⟨x, hop⟩ | ⟨good, hop⟩
        · rw [hop]
          exact add_stocked hd hn x (m.meanwhile w)
        · rw [hop] at hperforms ⊢
          exact ⟨hn.answered hperforms, (hperforms.answered_inStep hn.inStep).2⟩
      obtain ⟨hepisodes, hstocked⟩ :=
        ih (fun m hm => hfirst m (List.mem_cons_of_mem _ hm)) hstep.1
          ((n.performBy (.full d) m.op).run (m.meanwhile w, [])).2.1
      refine ⟨fun ep hep => ?_, hstocked⟩
      rcases List.mem_cons.mp hep with rfl | hep
      · exact hstep.2
      · exact hepisodes ep hep

end Node

/-- A plugged node with sensors that never fail and a radio that takes all, whose
loop takes a turn at every millisecond, sends every measurement that it can keep
up with at the ticks whose count is a multiple of its period, once and with all
its samples, and at no other time. -/
theorem Life.sent_in_rhythm {l : Life W} {time : W → Timestamp} {kind : Definition → ValueKind}
    (hd : l.devices.Reliable time kind) (hpower : l.settings.power = .plugged)
    {first turns : List (Move W)} (hmoves : l.moves = first ++ turns)
    (hfirst : ∀ m ∈ first, (∃ x, m.op = .edit (.add x)) ∨ ∃ good, m.op = .answer good)
    (hturns : Ticking time l.began turns)
    (hfew : (l.past.filter Node.Episode.ticks).length < UInt32.size) :
    ∀ ep ∈ l.past, ∀ i e, ep.before.table.get? i = some e →
      (∃ e', ep.after.table.get? i = some e' ∧ e'.definition = e.definition) ∧
      (e.definition.active = true →
        e.definition.sampleCount.toNat + 2 ≤
          (Plan.leadOf e.definition l.settings.interval l.settings.immediateGuard).toNat →
        (framed (ep.notes.filter (·.concerns e.name))).map Tally.samples =
          if ep.ticks = true ∧ ep.after.clock.count % e.definition.period.toUInt32 = 0 then
            [e.definition.sampleCount.toUInt32]
          else []) := by
  have hrhythmic : ∀ ep ∈ l.past, ep.Rhythmic l.settings := by
    have hpast := Node.history_append l.devices l.birth first turns l.world
    rw [← hmoves] at hpast
    obtain ⟨hepisodes, hstocked⟩ := Node.history_stocked hd hfirst (.birth hpower) l.world
    rw [past, hpast, List.filter_append, List.length_append] at hfew
    rw [past, hpast]
    intro ep hep
    rcases List.mem_append.mp hep with hep | hep
    · exact (hepisodes ep hep).rhythmic
    · refine Node.history_rhythmic hd hturns hstocked.inStep ?_ (by omega) ep hep
      rw [hstocked.clock]
      exact Nat.le_trans (Nat.le_add_right _ _) (Nat.le_add_right _ _)
  intro ep hep i e hi
  refine ⟨(hrhythmic ep hep).keeps i e hi, fun hactive hlead => ?_⟩
  rw [(hrhythmic ep hep).sends i e hi ⟨hactive, hlead⟩]
  simp only [Definition.due, hactive, Bool.true_and, beq_iff_eq]

/-- One turn of the loop at every millisecond, from a time on. -/
def Move.eachMillisecond (now : Timestamp) : Nat → List (Move Timestamp)
  | 0 => []
  | turns + 1 => ⟨fun _ => now, .iterate⟩ :: eachMillisecond (now + 1) turns

theorem Move.ticking_eachMillisecond {now : Timestamp} {turns : Nat}
    (h : now.toNat + turns ≤ 0x8000000000000000) : Ticking id now (eachMillisecond now turns) := by
  induction turns generalizing now with
  | zero => exact .nil now
  | succ turns ih =>
      have hnow : now.toNat < 0x8000000000000000 := by omega
      have hnext := Timestamp.toNat_next hnow
      exact .turn rfl (fun _ => rfl) hnow (ih (by omega))

/-- Devices in a world that is a clock, whose sensors know nothing of their time. -/
def Devices.prompt : Devices Timestamp :=
  { obliging 0 with
    sensors := { (obliging 0).sensors with collectionTime := fun _ => pure none } }

theorem Devices.prompt_reliable : prompt.Reliable id fun _ => .integer where
  within _ := { obliging_within 0 _ with collectionTime := fun _ => .pure _ }
  now _ := rfl
  numeric _ := ValueKind.noConfusion
  valueKind _ _ _ hk := (Option.some_inj.mp hk).symm
  collectionTime _ _ := rfl
  start _ _ _ := rfl
  collect _ _ := ⟨_, rfl, rfl⟩
  connected _ := rfl
  ready _ := rfl
  opens _ := rfl
  appends _ _ _ := rfl
  sends _ := rfl

/-- Two ticks of ten milliseconds, and one measurement that is sent at every other. -/
def Life.metronome : Life Timestamp where
  devices := .prompt
  settings := { interval := 10, power := .plugged }
  capacity := 1
  began := 0
  world := 0
  moves := ⟨id, .edit (.add ⟨"A", .custom0, 2, 2, false⟩)⟩ :: Move.eachMillisecond 0 23

/-- The second tick sends both samples of its measurement. -/
theorem Life.sent_in_rhythm_metronome :
    ∃ ep ∈ metronome.past,
      (ep.ticks = true ∧ ep.after.clock.count = 2 ∧
        (ep.before.table.get? 0).map Entry.definition = some ⟨"A", .custom0, 2, 2, false⟩) ∧
      (framed (ep.notes.filter (·.concerns "A"))).map Tally.samples = [2] := by
  have hfacts : (metronome.past.filter Node.Episode.ticks).length = 2 ∧
      ∃ ep ∈ metronome.past, ep.ticks = true ∧ ep.after.clock.count = 2 ∧
        (ep.before.table.get? 0).map Entry.definition =
          some ⟨"A", .custom0, 2, 2, false⟩ := by decide +kernel
  have hmoves : metronome.moves =
      [⟨id, .edit (.add ⟨"A", .custom0, 2, 2, false⟩)⟩] ++ Move.eachMillisecond 0 23 := rfl
  obtain ⟨hfew, ep, hep, hticks, hcount, hfirst⟩ := hfacts
  obtain ⟨e, hi, hm⟩ := Option.map_eq_some_iff.mp hfirst
  refine ⟨ep, hep, ⟨hticks, hcount, hfirst⟩, ?_⟩
  obtain ⟨-, hsends⟩ := sent_in_rhythm Devices.prompt_reliable rfl hmoves
    (fun m hm => .inl ⟨_, congrArg Move.op (List.mem_singleton.mp hm)⟩)
    (Move.ticking_eachMillisecond (by decide)) (by rw [hfew]; decide) ep hep 0 e hi
  rw [Entry.name, hm, hticks, hcount] at hsends
  exact hsends rfl (by decide)

end Telemetry
