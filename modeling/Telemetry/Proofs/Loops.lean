import Telemetry.Proofs.Steps
import Telemetry.Proofs.Worlds

/-!
# What a turn of the loop comes to

A turn of the loop is more than a chain of steps: its parts come in one order,
and what one part comes to decides on the next. `Node.Loops` keeps that. It says
what a whole turn may come to, part by part and with the iteration that it
answers, and again no device is in sight.

The one thing that is kept of the devices is what the clock reads. The judgment
is made in worlds of some kind that no request leads out of, and every reading
of the clock in such a world satisfies `reads`; with all worlds and no demand on
the readings that is no restriction.
-/

namespace Telemetry

variable {W α β : Type}

/-! ## Tracing in some worlds -/

/-- `Traced` in the worlds with a property, which they keep. -/
def Action.TracedIn (inv : W → Prop) (watched : Action (W × List Note) α) (plain : Action W α)
    (fit : α → List Note → Prop) : Prop :=
  ∀ w notes, inv w → ∃ new,
    watched.run (w, notes) = ((plain.run w).1, (plain.run w).2, notes ++ new) ∧
      inv (plain.run w).2 ∧ fit (plain.run w).1 new

namespace Action.TracedIn

variable {inv : W → Prop} {a' : Action (W × List Note) α} {a : Action W α}
  {f' : α → Action (W × List Note) β} {f : α → Action W β} {v : Voice}

protected theorem pure {fit : α → List Note → Prop} {x : α} (h : fit x []) :
    TracedIn inv (pure x : Action (W × List Note) α) (pure x) fit := by
  intro w notes hw
  exact ⟨[], by simp only [run_pure, List.append_nil], hw, h⟩

protected theorem bind {fit : β → List Note → Prop} {mid : α → List Note → Prop}
    (ha : TracedIn inv a' a mid)
    (hf : ∀ x new, mid x new → TracedIn inv (f' x) (f x) fun y more => fit y (new ++ more)) :
    TracedIn inv (a' >>= f') (a >>= f) fit := by
  intro w notes hw
  obtain ⟨new, hrun, hinv, hmid⟩ := ha w notes hw
  obtain ⟨more, hrun', hinv', hfit⟩ := hf _ _ hmid (a.run w).2 (notes ++ new) hinv
  refine ⟨new ++ more, ?_, hinv', hfit⟩
  rw [run_bind, run_bind, hrun, hrun', List.append_assoc]

theorem of_traced {fit : α → List Note → Prop} (h : a'.Traced a fit)
    (hkeeps : a.Within (.keeping inv)) : TracedIn inv a' a fit := by
  intro w notes hw
  obtain ⟨new, hrun, hfit⟩ := h w notes
  exact ⟨new, hrun, hkeeps w hw, hfit⟩

/-- After an action without calls the rest is judged as if it stood alone. -/
theorem after {fit : β → List Note → Prop}
    (ha : Speaks v a' a fun _ calls => calls = []) (hkeeps : a.Within (.keeping inv))
    (hf : ∀ x, TracedIn inv (f' x) (f x) fit) : TracedIn inv (a' >>= f') (a >>= f) fit := by
  refine (of_traced ha hkeeps).bind ?_
  intro x _ hr
  obtain ⟨calls, rfl, rfl⟩ := hr
  exact hf x

end Action.TracedIn

namespace Node

/-! ## The parts of a turn -/

/-- What the sampler's part may come to. -/
inductive Samples (reads : Timestamp → Prop) (n : Node) : List Note → Node → Prop where
  | waits {now : Timestamp} (hreads : reads now) (h : n.sampler.due now = false) :
      Samples reads n [] n
  | turns {now : Timestamp} {sampler : Sampler} {table : Table} {calls : List Call}
      (hreads : reads now) (hdue : n.sampler.due now = true)
      (h : n.sampler.Turns n.table n.clock now (sampler, table) calls) :
      Samples reads n (.turn now :: Voice.schedule.notes calls) { n with sampler, table }

/-- What the end of a tick may come to, if it is one. -/
inductive Transmits (reads : Timestamp → Prop) (n : Node) :
    Option SendOutcome → List Note → Node → Prop where
  | early {now : Timestamp} (hreads : reads now) (h : n.clock.due now = false) :
      Transmits reads n none [] n
  | ended {now : Timestamp} {o : Outgoing} {outcome : SendOutcome} {calls : List Call}
      (hreads : reads now) (hdue : n.clock.due now = true)
      (h : Outgoing.Sends { n.outgoing with clock := n.clock.advance } now (o, outcome) calls) :
      Transmits reads n (some outcome) (Voice.schedule.notes calls ++ [.sent n.table o.table])
        (n.withOutgoing o)

/-- What polling and sleeping may come to. -/
inductive Rests (n : Node) : Option SleepDecision → List Note → Node → Prop where
  | rested {sampler : Sampler} {table : Table} {polled : UInt32} {calls more : List Call}
      {sleep : Option SleepDecision}
      (h : n.sampler.PollsOpen n.table (sampler, table, polled) calls) (slept : Bool)
      (hnap : ∀ c ∈ more, c.ToBoard) (hsleep : sleep = none ↔ polled ≠ 0) :
      Rests n sleep (Voice.schedule.notes (calls ++ more))
        { n with sampler, table, sleeper := { n.sleeper with slept } }

/-- What a turn of the loop may come to, with the iteration it answers. -/
inductive Loops (reads : Timestamp → Prop) (n : Node) : Iteration → List Note → Node → Prop where
  | disabled (h : n.enabled = false) : Loops reads n .disabled [] n
  | disconnected {n' : Node} {sampler : Sampler} {table : Table} {polled : UInt32}
      {calls : List Call} (henabled : n.enabled = true)
      (hdropped : n' = if n.offline then n
        else { n with offline := true, uplink := n.uplink.resetCursors })
      (h : n'.sampler.PollsOpen n'.table (sampler, table, polled) calls) :
      Loops reads n .disconnected (Voice.schedule.notes calls) { n' with sampler, table }
  | reconnected {now : Timestamp} (henabled : n.enabled = true) (hoffline : n.offline = true)
      (hreads : reads now) :
      Loops reads n .reconnected [] { n with offline := false, clock := n.clock.restart now }
  | ran {table : Table} {n₁ n₂ n₃ : Node} {send : Option SendOutcome} (sleep : Option SleepDecision)
      (calls : List Call) {sampled sent settled : List Note} (henabled : n.enabled = true)
      (hoffline : n.offline = false)
      (haside : Relation.ReflTransGen Table.Touches n.table table)
      (hidle : n.table.hasRequests = false → table = n.table)
      (hsamples : Samples reads { n with table } sampled n₁) (hsends : Transmits reads n₁ send sent n₂)
      (hrests : Rests n₂ sleep settled n₃) :
      Loops reads n (.ran send sleep) (Voice.aside.notes calls ++ (sampled ++ (sent ++ settled))) n₃

/-! What the parts leave alone. -/

theorem table_of_dropped {n n' : Node}
    (h : n' = if n.offline then n
      else { n with offline := true, uplink := n.uplink.resetCursors }) : n'.table = n.table := by
  rw [h]
  split <;> rfl

theorem Samples.kept {reads : Timestamp → Prop} {n n' : Node} {notes : List Note}
    (h : Samples reads n notes n') : n'.uplink = n.uplink ∧ n'.clock = n.clock := by
  cases h <;> exact ⟨rfl, rfl⟩

theorem Rests.kept {sleep : Option SleepDecision} {n n' : Node} {notes : List Note}
    (h : Rests n sleep notes n') : n'.uplink = n.uplink ∧ n'.clock = n.clock := by
  cases h
  exact ⟨rfl, rfl⟩

/-! ## The loop does what it says -/

variable {inv : W → Prop} {reads : Timestamp → Prop} {d : Devices W}
  (hd : d.Within (.keeping inv)) (n : Node)

include hd

theorem poll_polls :
    Action.TracedIn inv (n.poll (d.voiced .schedule)) (n.poll d) fun x new =>
      ∃ calls sampler table, new = Voice.schedule.notes calls ∧
        x.1 = { n with sampler, table } ∧
        n.sampler.PollsOpen n.table (sampler, table, x.2) calls := by
  unfold poll
  refine (Action.TracedIn.of_traced (Sampler.pollOpen_speaks d n.sampler n.table)
    (Sampler.pollOpen_within hd _ _)).bind ?_
  intro x _ hr
  obtain ⟨sampler, table, polled⟩ := x
  obtain ⟨calls, rfl, h⟩ := hr
  exact .pure ⟨calls, sampler, table, List.append_nil _, rfl, h⟩

theorem settle_rests :
    Action.TracedIn inv (n.settle (d.voiced .schedule)) (n.settle d)
      fun x new => Rests n x.2 new x.1 := by
  unfold settle
  refine (poll_polls hd n).bind ?_
  intro x _ hr
  obtain ⟨n', polled⟩ := x
  obtain ⟨calls, sampler, table, rfl, hn', h⟩ := hr
  simp only at hn' h ⊢
  subst hn'
  split
  · next hnone =>
      refine .after d.now_speaks hd.now fun now => ?_
      refine (Action.TracedIn.of_traced (Sleeper.rest_speaks d _ _ _ now)
        (Sleeper.rest_within hd _ _ _ now)).bind ?_
      intro x _ hr
      obtain ⟨sleeper, decision⟩ := x
      obtain ⟨more, rfl, ⟨slept, hslept⟩, hnap⟩ := hr
      simp only at hslept
      subst hslept
      refine .pure ?_
      rw [List.append_nil, ← Voice.notes_append]
      exact .rested h slept hnap (iff_of_false (Option.some_ne_none _) fun hne => hne hnone)
  · next hsome =>
      have hrests : Rests n none (Voice.schedule.notes (calls ++ [])) { n with sampler, table } :=
        .rested h n.sleeper.slept (fun _ hc => absurd hc List.not_mem_nil) (iff_of_true rfl hsome)
      rw [List.append_nil] at hrests
      exact .pure (by rwa [List.append_nil])

theorem iterateOffline_loops (henabled : n.enabled = true) :
    Action.TracedIn inv (n.iterateOffline (d.voiced .schedule)) (n.iterateOffline d)
      fun x new => Loops reads n x.2 new x.1 := by
  unfold iterateOffline
  have hdrop : Action.TracedIn inv
      (if n.offline then pure n else do
        (d.voiced .schedule).log.debug "Not connected, dropping cycle state."
        pure { n with offline := true, uplink := n.uplink.resetCursors })
      (if n.offline then pure n else do
        d.log.debug "Not connected, dropping cycle state."
        pure { n with offline := true, uplink := n.uplink.resetCursors })
      fun n' new => new = [] ∧ n' = if n.offline then n
        else { n with offline := true, uplink := n.uplink.resetCursors } := by
    split
    · exact .pure ⟨rfl, rfl⟩
    · exact .after (d.log_speaks _ _) (hd.log _ _) fun _ => .pure ⟨rfl, rfl⟩
  refine hdrop.bind ?_
  intro n' _ hr
  obtain ⟨rfl, hdropped⟩ := hr
  refine (poll_polls hd n').bind ?_
  intro x _ hr
  obtain ⟨n'', polled⟩ := x
  obtain ⟨calls, sampler, table, rfl, hn'', h⟩ := hr
  simp only at hn'' h ⊢
  subst hn''
  refine .pure ?_
  rw [List.append_nil, List.nil_append]
  exact .disconnected henabled hdropped h

theorem sendRequested_touches :
    Action.TracedIn inv (n.sendRequested (d.voiced .aside)) (n.sendRequested d)
      fun n' new => ∃ calls table, new = Voice.aside.notes calls ∧ n' = { n with table } ∧
        Relation.ReflTransGen Table.Touches n.table table ∧
        (n.table.hasRequests = false → table = n.table) := by
  have hidle : ∀ w, n.table.hasRequests = false → ((InstantSend.run d n.settings.instantGuard
      n.uplink n.clock n.table).run w).1.1 = n.table := by
    intro w hnone
    rw [InstantSend.run, hnone]
    rfl
  have hrun : Action.Speaks .aside
      (InstantSend.run (d.voiced .aside) n.settings.instantGuard n.uplink n.clock n.table)
      (InstantSend.run d n.settings.instantGuard n.uplink n.clock n.table) fun x _ =>
        (n.table.hasRequests = false → x.1 = n.table) ∧
          Relation.ReflTransGen Table.Touches n.table x.1 :=
    (InstantSend.run_speaks d n.settings.instantGuard n.uplink n.clock n.table).also hidle
  unfold sendRequested
  refine (Action.TracedIn.of_traced hrun (InstantSend.run_within hd _ _ _ _)).bind ?_
  intro x _ hr
  obtain ⟨table, outcome⟩ := x
  obtain ⟨calls, rfl, hsame, htouches⟩ := hr
  have hdone : ∃ calls' table', Voice.aside.notes calls ++ [] = Voice.aside.notes calls' ∧
      { n with table } = { n with table := table' } ∧
      Relation.ReflTransGen Table.Touches n.table table' ∧
      (n.table.hasRequests = false → table' = n.table) :=
    ⟨calls, table, List.append_nil _, rfl, htouches, hsame⟩
  cases outcome with
  | ok sent =>
      simp only []
      split
      · exact .after (d.log_speaks _ _) (hd.log _ _) fun _ => .pure hdone
      · exact .pure hdone
  | error cause => exact .after (d.log_speaks _ _) (hd.log _ _) fun _ => .pure hdone

variable (hreads : ∀ w, inv w → reads (d.now.run w).1)
include hreads

theorem now_reads (v : Voice) :
    Action.TracedIn inv (d.voiced v).now d.now fun now new => new = [] ∧ reads now := by
  intro w notes hw
  obtain ⟨_, hrun, calls, rfl, rfl⟩ := d.now_speaks (v := v) w notes
  exact ⟨[], hrun, hd.now w hw, rfl, hreads w hw⟩

theorem sampleBy_samples :
    Action.TracedIn inv (n.sampleBy (.full d)) (n.sampleBy (.blind d))
      fun n' new => Samples reads n new n' := by
  unfold sampleBy
  refine (now_reads hd hreads .schedule).bind ?_
  intro now _ hr
  obtain ⟨rfl, hnow⟩ := hr
  split
  · next hdue =>
      refine (Action.TracedIn.of_traced (Watch.mark_traced d (.turn now)) fun _ h => h).bind ?_
      intro _ _ heq
      subst heq
      refine (Action.TracedIn.of_traced (Sampler.turn_speaks d n.sampler n.table n.clock now)
        (Sampler.turn_within hd _ _ _ _)).bind ?_
      intro x _ hr
      obtain ⟨sampler, table⟩ := x
      obtain ⟨calls, rfl, h⟩ := hr
      refine .pure ?_
      rw [List.append_nil]
      exact .turns hnow hdue h
  · next hdue => exact .pure (.waits hnow (Bool.eq_false_iff.mpr hdue))

theorem transmitBy_transmits :
    Action.TracedIn inv (n.transmitBy (.full d)) (n.transmitBy (.blind d))
      fun x new => Transmits reads n x.2 new x.1 := by
  unfold transmitBy
  refine (now_reads hd hreads .schedule).bind ?_
  intro now _ hr
  obtain ⟨rfl, hnow⟩ := hr
  split
  · next hdue =>
      refine .after (d.log_speaks _ _) (hd.log _ _) fun _ => ?_
      refine (Action.TracedIn.of_traced (Outgoing.send_speaks d _ now)
        (Outgoing.send_within hd _ now)).bind ?_
      intro x _ hr
      obtain ⟨o, outcome⟩ := x
      obtain ⟨calls, rfl, h⟩ := hr
      refine (Action.TracedIn.of_traced (Watch.mark_traced d _) fun _ h => h).bind ?_
      intro _ _ heq
      subst heq
      refine .pure ?_
      rw [List.append_nil]
      exact .ended hnow hdue h
  · next hdue => exact .pure (.early hnow (Bool.eq_false_iff.mpr hdue))

theorem iterateOnlineBy_loops (henabled : n.enabled = true) (hoffline : n.offline = false) :
    Action.TracedIn inv (n.iterateOnlineBy (.full d)) (n.iterateOnlineBy (.blind d))
      fun x new => Loops reads n x.2 new x.1 := by
  unfold iterateOnlineBy
  have hrequested : Action.TracedIn inv
      (do if ← (d.voiced .aside).radio.ready then n.sendRequested (d.voiced .aside) else pure n)
      (do if ← d.radio.ready then n.sendRequested d else pure n)
      fun n' new => ∃ calls table, new = Voice.aside.notes calls ∧ n' = { n with table } ∧
        Relation.ReflTransGen Table.Touches n.table table ∧
        (n.table.hasRequests = false → table = n.table) := by
    refine .after d.ready_speaks hd.ready fun ready => ?_
    split
    · exact sendRequested_touches hd n
    · exact .pure ⟨[], n.table, rfl, rfl, .refl, fun _ => rfl⟩
  refine hrequested.bind ?_
  intro n' _ hr
  obtain ⟨calls, table, rfl, rfl, haside, hidle⟩ := hr
  refine (sampleBy_samples hd _ hreads).bind ?_
  intro n₁ sampled hsamples
  refine (transmitBy_transmits hd n₁ hreads).bind ?_
  intro x sent hsends
  obtain ⟨n₂, send⟩ := x
  refine (settle_rests hd n₂).bind ?_
  intro x settled hrests
  obtain ⟨n₃, sleep⟩ := x
  refine .pure ?_
  rw [List.append_nil]
  exact .ran sleep calls henabled hoffline haside hidle hsamples hsends hrests

/-- Every turn of the loop is of one of four kinds. -/
theorem iterateBy_loops :
    Action.TracedIn inv (n.iterateBy (.full d)) (n.iterateBy (.blind d))
      fun x new => Loops reads n x.2 new x.1 := by
  unfold iterateBy
  split
  · next h => exact .pure (.disabled (by simpa only [Bool.not_eq_true'] using h))
  · next h =>
      have henabled : n.enabled = true := by simpa using h
      refine .after d.connected_speaks hd.connected fun connected => ?_
      split
      · exact iterateOffline_loops hd n henabled
      · split
        · next hoffline =>
            refine .after (d.log_speaks _ _) (hd.log _ _) fun _ => ?_
            refine (now_reads hd hreads .schedule).bind ?_
            intro now _ hr
            obtain ⟨rfl, hnow⟩ := hr
            exact .pure (.reconnected henabled hoffline hnow)
        · next hoffline =>
            exact iterateOnlineBy_loops hd n hreads henabled (Bool.eq_false_iff.mpr hoffline)

end Node

/-! ## Operations -/

namespace Node

/-- What an operation may come to, each in its own way. -/
inductive Performs (reads : Timestamp → Prop) (n : Node) : Op → List Note → Node → Prop where
  | iterated {iteration : Iteration} {notes : List Note} {n' : Node}
      (h : Loops reads n iteration notes n') : Performs reads n .iterate notes n'
  | answered {now : Timestamp} {good : Bool} {o : Outgoing} {outcome : Option SendOutcome}
      {calls : List Call} (h : n.outgoing.Answers now good (o, outcome) calls) :
      Performs reads n (.answer good) (Voice.schedule.notes calls ++ [.sent n.table o.table])
        (n.withOutgoing o)
  | switched (enabled : Bool) : Performs reads n (.setEnabled enabled) [] { n with enabled }
  | woken (now : Timestamp) (h : n.enabled = false) :
      Performs reads n (.setEnabled true) [] { n with
        enabled := true
        clock := n.clock.restart now
        sampler := n.sampler.restart now }
  | powered (mode : PowerMode) : Performs reads n (.setPower mode) [] (n.setPower mode)
  | set {n' : Node} (interval : UInt32) (h : n.setInterval interval = .ok n') :
      Performs reads n (.setInterval interval) [] n'
  | refused (interval : UInt32) : Performs reads n (.setInterval interval) [] n
  | requested (name : String) :
      Performs reads n (.edit (.request name)) []
        { n with table := (n.table.amend name fun e =>
          e.withTally { e.tally with instantRequested := true }).1 }
  | edited {table : Table} (e : Edit) (calls : List Call) (he : ∀ name, e ≠ .request name)
      (h : n.table.Edits table) :
      Performs reads n (.edit e) (Voice.aside.notes calls) { n with table }
  | loaded {table : Table} (persisted defaults : List Definition) (calls : List Call)
      (h : n.table.Edits table) :
      Performs reads n (.load persisted defaults) (Voice.aside.notes calls) { n with table }
  | read {table : Table} (name : String) (timeout : Option UInt32) (calls : List Call)
      (h : Relation.ReflTransGen Table.Touches n.table table) :
      Performs reads n (.read name timeout) (Voice.aside.notes calls) { n with table }
  | asked (name : String) (calls : List Call) :
      Performs reads n (.collectionTimeout name) (Voice.aside.notes calls) n
  | tested {table : Table} (name : String) (calls : List Call)
      (h : Relation.ReflTransGen Table.Touches n.table table) :
      Performs reads n (.sendTest name) (Voice.aside.notes calls) { n with table }

variable {inv : W → Prop} {reads : Timestamp → Prop} {d : Devices W}
  (hd : d.Within (.keeping inv)) (n : Node)

theorem read_touches (d : Devices W) (name : String) (timeout : Option UInt32) :
    Action.Speaks .aside (n.read (d.voiced .aside) name timeout) (n.read d name timeout)
      fun x _ => ∃ table, x.1 = { n with table } ∧
        Relation.ReflTransGen Table.Touches n.table table := by
  unfold read
  refine (n.table.read_speaks d name timeout).bind ?_
  intro x _ h
  exact .pure ⟨x.1, rfl, h⟩

theorem sendTest_touches (d : Devices W) (name : String) :
    Action.Speaks .aside (n.sendTest (d.voiced .aside) name) (n.sendTest d name)
      fun x _ => ∃ table, x.1 = { n with table } ∧
        Relation.ReflTransGen Table.Touches n.table table := by
  have hsame : ∃ table, n = { n with table } ∧
      Relation.ReflTransGen Table.Touches n.table table := ⟨n.table, rfl, .refl⟩
  unfold sendTest
  refine .after d.connected_speaks fun connected => ?_
  split
  · exact .after (d.log_speaks _ _) fun _ => .pure hsame
  · refine .after d.ready_speaks fun ready => ?_
    split
    · exact .after (d.log_speaks _ _) fun _ => .pure hsame
    · refine d.openFrame_speaks.bind ?_
      intro answer _ _
      cases answer with
      | error cause => exact .pure hsame
      | ok _ =>
          refine (read_touches n d name none).bind ?_
          intro x _ hread
          obtain ⟨n', result⟩ := x
          cases result with
          | error cause => exact .pure hread
          | ok r =>
              simp only []
              cases n'.table.find? name with
              | none => exact .pure hread
              | some e =>
                  refine (sendReading_speaks d e.definition name r).bind ?_
                  intro outcome _ _
                  exact .pure hread

include hd

variable (reads) in
theorem answerBy_performs (good : Bool) :
    Action.TracedIn inv (n.answerBy (.full d) good) (n.answerBy (.blind d) good)
      fun x new => Performs reads n (.answer good) new x.1 := by
  unfold answerBy
  refine .after d.now_speaks hd.now fun now => ?_
  refine (Action.TracedIn.of_traced (Outgoing.answer_speaks d n.outgoing good now)
    (Outgoing.answer_within hd _ good now)).bind ?_
  intro x _ hr
  obtain ⟨o, outcome⟩ := x
  obtain ⟨calls, rfl, h⟩ := hr
  refine (Action.TracedIn.of_traced (Watch.mark_traced d _) fun _ h => h).bind ?_
  intro _ _ heq
  subst heq
  refine .pure ?_
  rw [List.append_nil]
  exact .answered h

theorem setEnabled_performs (enabled : Bool) :
    Action.TracedIn inv (n.setEnabled (d.voiced .aside) enabled) (n.setEnabled d enabled)
      fun n' new => Performs reads n (.setEnabled enabled) new n' := by
  unfold setEnabled
  split
  · next h =>
      obtain ⟨rfl, hoff⟩ := Bool.and_eq_true_iff.mp h
      refine .after d.now_speaks hd.now fun now => .pure (.woken now ?_)
      simpa only [Bool.not_eq_true'] using hoff
  · exact .pure (.switched enabled)

theorem edit_performs (e : Edit) :
    Action.TracedIn inv (n.performBy (.full d) (.edit e)) (n.performBy (.blind d) (.edit e))
      fun n' new => Performs reads n (.edit e) new n' := by
  have hedited : (∀ name, e ≠ .request name) →
      Action.TracedIn inv (n.performBy (.full d) (.edit e)) (n.performBy (.blind d) (.edit e))
        fun n' new => Performs reads n (.edit e) new n' := by
    intro he
    refine (Action.TracedIn.of_traced (apply_edits d e n.table)
      (Edit.apply_within hd n.table e)).bind ?_
    intro table _ hr
    obtain ⟨calls, rfl, h⟩ := hr
    refine .pure ?_
    rw [List.append_nil]
    exact .edited e calls he h
  cases e with
  | request name =>
      intro w notes hw
      exact ⟨[], by rw [List.append_nil]; rfl, hw, Performs.requested name⟩
  | add m => exact hedited nofun
  | remove name => exact hedited nofun
  | rename old new => exact hedited nofun
  | setPeriod name period => exact hedited nofun
  | setSampleCount name sampleCount => exact hedited nofun
  | setImmediate name immediate => exact hedited nofun

/-- Every operation is of one of these kinds. -/
theorem performBy_performs (hreads : ∀ w, inv w → reads (d.now.run w).1) (op : Op) :
    Action.TracedIn inv (n.performBy (.full d) op) (n.performBy (.blind d) op)
      fun n' new => Performs reads n op new n' := by
  cases op with
  | iterate =>
      refine (iterateBy_loops hd n hreads).bind ?_
      intro x new h
      refine .pure ?_
      rw [List.append_nil]
      exact .iterated h
  | answer good =>
      refine (answerBy_performs reads hd n good).bind ?_
      intro x new h
      refine .pure ?_
      rwa [List.append_nil]
  | setEnabled enabled => exact setEnabled_performs hd n enabled
  | setPower power => exact .pure (.powered power)
  | setInterval interval =>
      refine .pure ?_
      cases h : n.setInterval interval with
      | error cause => exact .refused interval
      | ok n' => exact .set interval h
  | edit e => exact edit_performs hd n e
  | load persisted defaults =>
      have hload : Action.TracedIn inv
          (n.table.load (d.voiced .aside) persisted defaults >>= fun x => pure { n with table := x.1 })
          (n.table.load d persisted defaults >>= fun x => pure { n with table := x.1 })
          fun n' new => Performs reads n (.load persisted defaults) new n' := by
        refine (Action.TracedIn.of_traced (n.table.load_speaks d persisted defaults)
          (Table.load_within hd n.table persisted defaults)).bind ?_
        intro x _ hr
        obtain ⟨calls, rfl, h⟩ := hr
        refine .pure ?_
        rw [List.append_nil]
        exact .loaded persisted defaults calls h
      exact hload
  | read name timeout =>
      refine (Action.TracedIn.of_traced (read_touches n d name timeout)
        (read_within hd n name timeout)).bind ?_
      intro x _ hr
      obtain ⟨calls, rfl, table, htable, h⟩ := hr
      refine .pure ?_
      rw [List.append_nil, htable]
      exact .read name timeout calls h
  | collectionTimeout name =>
      refine (Action.TracedIn.of_traced (collectionTimeout_speaks d n name)
        (collectionTimeout_within hd n name)).bind ?_
      intro x _ hr
      obtain ⟨calls, rfl, -⟩ := hr
      refine .pure ?_
      rw [List.append_nil]
      exact .asked name calls
  | sendTest name =>
      refine (Action.TracedIn.of_traced (sendTest_touches n d name)
        (sendTest_within hd n name)).bind ?_
      intro x _ hr
      obtain ⟨calls, rfl, table, htable, h⟩ := hr
      refine .pure ?_
      rw [List.append_nil, htable]
      exact .tested name calls h

variable (hreads : ∀ w, inv w → reads (d.now.run w).1) {w : W} (hw : inv w)
include hreads hw

/-- One operation in a history, by what it comes to. -/
theorem performs_run (op : Op) :
    let r := (n.performBy (.full d) op).run (w, [])
    Performs reads n op r.2.2 r.1 ∧ inv r.2.1 ∧
      (n.performBy (.blind d) op).run w = (r.1, r.2.1) := by
  obtain ⟨notes, hrun, hinv, hperforms⟩ := performBy_performs hd n hreads op w [] hw
  rw [List.nil_append] at hrun
  rw [hrun]
  exact ⟨hperforms, hinv, rfl⟩

/-- A turn of the loop, with the iteration that the plain node answers. -/
theorem loops_run :
    let r := (n.performBy (.full d) .iterate).run (w, [])
    Loops reads n ((n.iterate d).run w).1.2 r.2.2 r.1 := by
  obtain ⟨notes, hrun, -, hloops⟩ := iterateBy_loops hd n hreads w [] hw
  have hperformed : (n.performBy (.full d) .iterate).run (w, []) =
      (((n.iterateBy (.full d)).run (w, [])).1.1, ((n.iterateBy (.full d)).run (w, [])).2) := rfl
  rw [hperformed, hrun, List.nil_append]
  exact hloops

omit hd hreads hw

variable (d w)

/-- In a world of which nothing is known an operation still is of its kind. -/
theorem performs_any (op : Op) :
    let r := (n.performBy (.full d) op).run (w, [])
    Performs (fun _ => True) n op r.2.2 r.1 ∧ (n.performBy (.blind d) op).run w = (r.1, r.2.1) := by
  intro r
  have hwithin : d.Within (.keeping fun _ => True) := d.within_of_leads fun _ _ _ => trivial
  have hrun : Performs (fun _ => True) n op r.2.2 r.1 ∧ True ∧
      (n.performBy (.blind d) op).run w = (r.1, r.2.1) :=
    performs_run hwithin n (fun _ _ => trivial) trivial op
  exact ⟨hrun.1, hrun.2.2⟩

/-- And so does a turn of the loop, with notes that a watch would have made. -/
theorem loops_any :
    ∃ notes, Loops (fun _ => True) n ((n.iterate d).run w).1.2 notes ((n.iterate d).run w).1.1 := by
  have hwithin : d.Within (.keeping fun _ => True) := d.within_of_leads fun _ _ _ => trivial
  have htraced : Action.TracedIn (fun _ => True) (n.iterateBy (.full d)) (n.iterateBy (.blind d))
      fun x new => Loops (fun _ => True) n x.2 new x.1 :=
    iterateBy_loops hwithin n fun _ _ => trivial
  obtain ⟨notes, -, -, hloops⟩ := htraced w [] trivial
  rw [iterateBy_blind] at hloops
  exact ⟨notes, hloops⟩

end Node

end Telemetry
