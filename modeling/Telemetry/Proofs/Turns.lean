import Telemetry.Proofs.Visits
import Telemetry.Sampling.Sampler

/-!
# What a turn of the sampler comes to

The sampler's functions ask devices whose answers nobody knows. Each of them is
met here by a relation that says all it may come to: the tally, the statistics,
the wait and the calls, one constructor for each way through. The relations
mention no device; a statement proved by cases on them holds for all devices.

The judgment `turn_speaks` at the end ties the relations to the program.
-/

namespace Telemetry

variable {W : Type} {v : Voice}

namespace Tally

/-- The tally once an open acquisition, if there is one, is given up. -/
def givenUp (t : Tally) : Tally := if t.inFlight then t.closed else t

/-- The tally with a reading, which is left out if it is of another kind. -/
def taking (t : Tally) (r : Reading) : Tally :=
  match t.fold r with
  | .ok t' => t'
  | .error _ => t

/-- A reading changes what is summed up, and nothing else. -/
theorem taking_eq (t : Tally) (r : Reading) :
    ∃ summary samples, t.taking r = { t with summary, samples } := by
  unfold taking
  cases hfold : t.fold r with
  | error refusal => exact ⟨t.summary, t.samples, rfl⟩
  | ok t' =>
      unfold fold at hfold
      split at hfold
      · cases hfold
      · split at hfold
        · cases hfold
        · cases hfold
          exact ⟨_, _, rfl⟩

theorem observe_speaks (d : Devices W) (t : Tally) (r : Reading) :
    Action.Speaks v (t.observe (d.voiced v).log r) (t.observe d.log r)
      fun x calls => x.1 = t.taking r ∧ calls = [] := by
  unfold observe taking
  cases t.fold r with
  | error refusal => exact .after (d.log_speaks _ _) fun _ => .pure ⟨rfl, rfl⟩
  | ok t' =>
      simp only []
      cases t'.summary.notice with
      | none => exact .pure ⟨rfl, rfl⟩
      | some text => exact .after (d.log_speaks _ _) fun _ => .pure ⟨rfl, rfl⟩

end Tally

/-- The lead time that a sensor's answer stands for: nothing if it cannot tell, and a fallback
if it could but does not. -/
def Reply.leadTime (fallback : UInt32) : Option (Reply UInt32) → UInt32
  | none => 0
  | some (.done ms) => ms
  | some _ => fallback

theorem Devices.leadTime_speaks (d : Devices W) (m : Definition) (fallback : UInt32) :
    Action.Speaks v ((d.voiced v).leadTime m fallback) (d.leadTime m fallback)
      fun ms calls => ∃ answer, calls = [.collectionTime m answer] ∧
        ms = Reply.leadTime fallback answer := by
  refine (d.collectionTime_speaks m).bind ?_
  intro answer _ heq
  subst heq
  cases answer with
  | none => exact .pure ⟨_, rfl, rfl⟩
  | some reply =>
      cases reply with
      | done ms => exact .pure ⟨_, rfl, rfl⟩
      | busy => exact .after (d.log_speaks _ _) fun _ => .pure ⟨_, rfl, rfl⟩
      | failed cause => exact .after (d.log_speaks _ _) fun _ => .pure ⟨_, rfl, rfl⟩

namespace Sampler

/-! ## Starts and collects -/

inductive Starts (m : Definition) (t : Tally) (s : SamplerStats) :
    Tally × SamplerStats × Bool → List Call → Prop where
  | refused (h : t.acquiring = true) : Starts m t s (t.missed, s.addError, false) []
  | opened (h : t.acquiring = false) :
      Starts m t s (t.opened, s.addStart, false) [.start m false (.done ())]
  | failed (h : t.acquiring = false) (cause : SensorError) :
      Starts m t s (t.missed, s.addError, false) [.start m false (.failed cause)]
  | busy (h : t.acquiring = false) :
      Starts m t s (t, s.addBusy, true) [.start m false .busy]

inductive Collects (m : Definition) (t : Tally) (s : SamplerStats) :
    Tally × SamplerStats × Bool → List Call → Prop where
  | done (r : Reading) (leadTime : UInt32) (answer : Option (Reply UInt32))
      (hlead : answer = none → leadTime = 0) :
      Collects m t s ({ t.closed.taking r with leadTime }, s.addCollect, false)
        [.collect m (.done r), .collectionTime m answer]
  | failed (cause : SensorError) :
      Collects m t s (t.closed, s.addError, false) [.collect m (.failed cause)]
  | busy : Collects m t s ({ t with acquiring := false }, s.addBusy, true) [.collect m .busy]

theorem start_speaks (d : Devices W) (m : Definition) (t : Tally) (s : SamplerStats) :
    Action.Speaks v (start (d.voiced v) m t s) (start d m t s) (Starts m t s) := by
  unfold start
  split
  · next h => exact .after (d.log_speaks _ _) fun _ => .pure (.refused h)
  · next h =>
      have hfree : t.acquiring = false := Bool.eq_false_iff.mpr h
      refine (d.start_speaks m false).bind ?_
      intro answer _ heq
      subst heq
      cases answer with
      | done _ => exact .after (d.log_speaks _ _) fun _ => .pure (.opened hfree)
      | busy => exact .pure (.busy hfree)
      | failed cause =>
          exact .after (d.log_speaks _ _) fun _ => .pure (.failed hfree cause)

theorem collect_speaks (d : Devices W) (fallback : UInt32) (m : Definition) (t : Tally)
    (s : SamplerStats) :
    Action.Speaks v (collect (d.voiced v) fallback m t s) (collect d fallback m t s)
      (Collects m t s) := by
  unfold collect
  refine (d.collect_speaks m).bind ?_
  intro answer _ heq
  subst heq
  cases answer with
  | done r =>
      refine .after (d.log_speaks _ _) fun _ => ?_
      refine (t.closed.observe_speaks d r).bind ?_
      intro r _ hr
      obtain ⟨t', taken⟩ := r
      obtain ⟨rfl, rfl⟩ := hr
      refine (d.leadTime_speaks m fallback).bind ?_
      intro leadTime _ hr
      obtain ⟨time, rfl, rfl⟩ := hr
      refine .pure (.done r _ time fun hnone => ?_)
      rw [hnone, Reply.leadTime]
  | busy => exact .pure .busy
  | failed cause => exact .after (d.log_speaks _ _) fun _ => .pure (.failed cause)

/-! ## One measurement's turn -/

/-- What the first half of a measurement's turn may come to. -/
inductive StartTurns (p : Plan) (m : Definition) (t : Tally) (s : SamplerStats) :
    Tally × SamplerStats × UInt64 → List Call → Prop where
  | early (h : ¬ p.target t.started - t.leadTime.toUInt64 ≤ p.position) :
      StartTurns p m t s (t, s, p.target t.started - t.leadTime.toUInt64 - p.position) []
  | due {t' : Tally} {s' : SamplerStats} {busy : Bool} {calls : List Call}
      (h : p.target t.started - t.leadTime.toUInt64 ≤ p.position)
      (hstart : Starts m t.givenUp s (t', s', busy) calls) :
      StartTurns p m t s
        (t', s', if busy then 0 else Saturating.sub (p.target t.started) p.position) calls

/-- What the second half of a measurement's turn may come to. -/
inductive CollectTurns (p : Plan) (m : Definition) (collectAt : UInt64) (t : Tally)
    (s : SamplerStats) : Tally × SamplerStats × Option UInt64 → List Call → Prop where
  | idle (h : t.finished = t.started) : CollectTurns p m collectAt t s (t, s, none) []
  | early (hopen : t.finished + 1 = t.started) (h : ¬ collectAt ≤ p.position) :
      CollectTurns p m collectAt t s (t, s, some (collectAt - p.position)) []
  | due {t' : Tally} {s' : SamplerStats} {busy : Bool} {calls : List Call}
      (hopen : t.finished + 1 = t.started) (h : collectAt ≤ p.position)
      (hcollect : Collects m t s (t', s', busy) calls) :
      CollectTurns p m collectAt t s (t', s', some (if busy then 0
        else Saturating.sub (collectAt + p.spacing) (t'.leadTime.toUInt64 + p.position))) calls
  | astray (hne : t.finished ≠ t.started) (hopen : t.finished + 1 ≠ t.started) :
      CollectTurns p m collectAt t s (t.abandoned, s.addDesync, none) []

inductive Attends (p : Plan) (m : Definition) (t : Tally) (s : SamplerStats) :
    Tally × SamplerStats × UInt64 → List Call → Prop where
  | turn {t₁ t₂ : Tally} {s₁ s₂ : SamplerStats} {startWait : UInt64}
      {collectWait : Option UInt64} {calls more : List Call}
      (hstart : StartTurns p m (capLead p t) s (t₁, s₁, startWait) calls)
      (hcollect : CollectTurns p m (p.target (capLead p t).finished) t₁ s₁
        (t₂, s₂, collectWait) more) :
      Attends p m t s (t₂, s₂, collectWait.elim startWait (min startWait)) (calls ++ more)

theorem giveUp_speaks (d : Devices W) (m : Definition) (t : Tally) :
    Action.Speaks v (giveUp (d.voiced v) m t) (giveUp d m t)
      fun x calls => x = t.givenUp ∧ calls = [] := by
  unfold giveUp Tally.givenUp
  split
  · exact .after (d.log_speaks _ _) fun _ => .pure ⟨rfl, rfl⟩
  · exact .pure ⟨rfl, rfl⟩

theorem startTurn_speaks (d : Devices W) (p : Plan) (m : Definition) (t : Tally)
    (s : SamplerStats) :
    Action.Speaks v (startTurn (d.voiced v) p m t s) (startTurn d p m t s)
      (StartTurns p m t s) := by
  unfold startTurn
  simp only []
  split
  · next h =>
      refine (giveUp_speaks d m t).bind ?_
      intro _ _ hr
      obtain ⟨rfl, rfl⟩ := hr
      refine (start_speaks d m _ s).bind ?_
      intro r calls hstart
      obtain ⟨t', s', busy⟩ := r
      refine .pure ?_
      rw [List.append_nil]
      exact .due h hstart
  · next h => exact .pure (.early h)

theorem collectTurn_speaks (d : Devices W) (fallback : UInt32) (p : Plan) (m : Definition)
    (collectAt : UInt64) (t : Tally) (s : SamplerStats) :
    Action.Speaks v (collectTurn (d.voiced v) fallback p m collectAt t s)
      (collectTurn d fallback p m collectAt t s) (CollectTurns p m collectAt t s) := by
  unfold collectTurn
  split
  · next h => exact .pure (.idle h)
  · next hne =>
      split
      · next hopen =>
          split
          · next h =>
              refine (collect_speaks d fallback m t s).bind ?_
              intro r calls hcollect
              obtain ⟨t', s', busy⟩ := r
              refine .pure ?_
              rw [List.append_nil]
              exact .due hopen h hcollect
          · next h => exact .pure (.early hopen h)
      · next hopen => exact .after (d.log_speaks _ _) fun _ => .pure (.astray hne hopen)

theorem attend_speaks (d : Devices W) (fallback : UInt32) (p : Plan) (m : Definition) (t : Tally)
    (s : SamplerStats) :
    Action.Speaks v (attend (d.voiced v) fallback p m t s) (attend d fallback p m t s)
      (Attends p m t s) := by
  unfold attend
  refine (startTurn_speaks d p m _ s).bind ?_
  intro r calls hstart
  obtain ⟨t₁, s₁, startWait⟩ := r
  refine (collectTurn_speaks d fallback p m _ t₁ s₁).bind ?_
  intro r more hcollect
  obtain ⟨t₂, s₂, collectWait⟩ := r
  refine .pure ?_
  rw [List.append_nil]
  cases collectWait with
  | none => exact .turn hstart hcollect
  | some wait => exact .turn hstart hcollect

/-! ## Turns and polls -/

/-- What a visit in a turn may come to. -/
inductive Visits (guard : UInt32) (clock : TransmitClock) (now : Timestamp) (e : Entry)
    (s : SamplerStats × Option UInt64) :
    Entry × SamplerStats × Option UInt64 → List Call → Prop where
  | idle (h : e.definition.active = false) : Visits guard clock now e s (e, s) []
  | active {t : Tally} {stats : SamplerStats} {wait : UInt64} {calls : List Call}
      (h : e.definition.active = true)
      (hturn : Attends (Plan.of e.definition guard clock now) e.definition e.tally s.1
        (t, stats, wait) calls) :
      Visits guard clock now e s (e.withTally t, stats, nearer s.2 wait) calls

inductive Polls (e : Entry) (s : SamplerStats × UInt32) :
    Entry × SamplerStats × UInt32 → List Call → Prop where
  | idle (h : e.tally.inFlight = false) : Polls e s (e, s) []
  | failed (h : e.tally.inFlight = true) (cause : SensorError) :
      Polls e s (e.withTally e.tally.abandoned, s.1.addError, s.2 + 1)
        [.poll e.definition (.failed cause)]
  | asked (h : e.tally.inFlight = true) (answer : Reply Unit)
      (hfine : ∀ cause, answer ≠ .failed cause) :
      Polls e s (e, s.1, s.2 + 1) [.poll e.definition answer]

theorem visit_speaks (d : Devices W) (guard fallback : UInt32) (clock : TransmitClock)
    (now : Timestamp) (e : Entry) (s : SamplerStats × Option UInt64) :
    Action.Speaks v (visit (d.voiced v) guard fallback clock now e s)
      (visit d guard fallback clock now e s) (Visits guard clock now e s) := by
  unfold visit
  split
  · next h =>
      refine (attend_speaks d fallback _ e.definition e.tally s.1).bind ?_
      intro r calls hturn
      obtain ⟨t, stats, wait⟩ := r
      refine .pure ?_
      rw [List.append_nil]
      exact .active h hturn
  · next h => exact .pure (.idle (Bool.eq_false_iff.mpr h))

theorem pollOne_speaks (d : Devices W) (e : Entry) (s : SamplerStats × UInt32) :
    Action.Speaks v (pollOne (d.voiced v) e s) (pollOne d e s) (Polls e s) := by
  unfold pollOne
  split
  · next h =>
      refine (d.poll_speaks e.definition).bind ?_
      intro answer _ heq
      subst heq
      cases answer with
      | done _ => exact .pure (.asked h _ (by rintro cause ⟨⟩))
      | busy => exact .pure (.asked h _ (by rintro cause ⟨⟩))
      | failed cause => exact .after (d.log_speaks _ _) fun _ => .pure (.failed h cause)
  · next h => exact .pure (.idle (Bool.eq_false_iff.mpr h))

inductive Turns (s : Sampler) (table : Table) (clock : TransmitClock) (now : Timestamp) :
    Sampler × Table → List Call → Prop where
  | turn {slots : List Slot} {stats : SamplerStats} {nearest : Option UInt64} {calls : List Call}
      (h : Slot.Swept (Slot.Through (Visits s.guard clock now)) table.slots (s.stats, none)
        (slots, (stats, nearest), none) calls) :
      Turns s table clock now
        ({ s with lastTurn := now, wait := nearest.getD 0, stats }, { table with slots }) calls

inductive PollsOpen (s : Sampler) (table : Table) :
    Sampler × Table × UInt32 → List Call → Prop where
  | polled {slots : List Slot} {stats : SamplerStats} {polled : UInt32} {calls : List Call}
      (h : Slot.Swept (Slot.Through Polls) table.slots (s.stats, 0)
        (slots, (stats, polled), none) calls) :
      PollsOpen s table ({ s with stats }, { table with slots }, polled) calls

theorem turn_speaks (d : Devices W) (s : Sampler) (table : Table) (clock : TransmitClock)
    (now : Timestamp) :
    Action.Speaks v (s.turn (d.voiced v) table clock now) (s.turn d table clock now)
      (Turns s table clock now) := by
  unfold turn
  refine (Slot.sweep_speaks (visit_speaks d s.guard s.fallback clock now) table.slots
    (s.stats, none)).bind ?_
  intro r calls h
  obtain ⟨slots, stats, nearest⟩ := r
  refine .pure ?_
  rw [List.append_nil]
  exact .turn h

theorem pollOpen_speaks (d : Devices W) (s : Sampler) (table : Table) :
    Action.Speaks v (s.pollOpen (d.voiced v) table) (s.pollOpen d table)
      (PollsOpen s table) := by
  unfold pollOpen
  refine (Slot.sweep_speaks (pollOne_speaks d) table.slots (s.stats, 0)).bind ?_
  intro r calls h
  obtain ⟨slots, stats, polled⟩ := r
  refine .pure ?_
  rw [List.append_nil]
  exact .polled h

end Sampler

end Telemetry
