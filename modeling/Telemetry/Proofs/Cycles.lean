import Mathlib.Data.List.Basic
import Telemetry.Proofs.Steady

/-!
# A whole cycle

A cycle is a send and then good answers, until one of them has no next frame to
send. Over a steady link nothing goes wrong in it: the frames divide the due
measurements among them, in slot order, and every sensor is told after the
frame that its measurement was in (`exchange_sends_each_once`).

The world is free to change before every answer, as long as it stays one in
which the link is steady, and a radio may refuse whatever it likes after the
first measurement of a frame. So nothing is known of where one frame ends and
the next begins, except that every frame passes at least one slot; that is what
ends the cycle.
-/

namespace Telemetry

variable {W : Type}

/-! ## Sends and their answers -/

/-- What happens to the world before an answer arrives, and when it arrives. -/
structure Pause (W : Type) where
  meanwhile : Action W Unit
  now : Timestamp

def Pause.noted (p : Pause W) : Pause (W × List Note) where
  meanwhile := Part.first.run p.meanwhile
  now := p.now

namespace Outgoing

/-- Takes good answers, until one has no next frame to send. Gives the outcomes
of the frames that were sent, and whether that answer came. -/
def answerAll (d : Devices W) :
    Outgoing → List (Pause W) → Action W (Outgoing × List SendOutcome × Bool)
  | o, [] => pure (o, [], false)
  | o, p :: rest => do
      p.meanwhile
      let (o, outcome) ← o.answer d true p.now
      match outcome with
      | none => pure (o, [], true)
      | some outcome =>
          let (o, outcomes, ended) ← answerAll d o rest
          pure (o, outcome :: outcomes, ended)

def exchange (d : Devices W) (o : Outgoing) (now : Timestamp) (pauses : List (Pause W)) :
    Action W (Outgoing × List SendOutcome × Bool) := do
  let (o, outcome) ← o.send d now
  let (o, outcomes, ended) ← answerAll d o pauses
  pure (o, outcome :: outcomes, ended)

/-- All the frames of a cycle over some slots, with the calls for each up to
the end of its answer. -/
inductive Cycle (count : UInt32) :
    List Slot → List (List Entry) → List SendOutcome → List Call → Prop where
  | nothing {slots : List Slot} {calls : List Call}
      (h : Dispatches count slots [] .nothingQueued calls) :
      Cycle count slots [] [.nothingQueued] (calls ++ (Slot.told count slots).map Entry.acked)
  | complete {slots : List Slot} {queued : UInt16} {calls : List Call}
      (h : Dispatches count slots [] (.complete queued) calls) :
      Cycle count slots [Slot.ready count slots] [.complete queued]
        (calls ++ (Slot.told count slots).map Entry.acked)
  | fragment {pre rest : List Slot} {frames : List (List Entry)} {queued : UInt16}
      {outcomes : List SendOutcome} {calls more : List Call}
      (h : Dispatches count pre rest (.fragment queued) calls)
      (hrest : Cycle count rest frames outcomes more) :
      Cycle count (pre ++ rest) (Slot.ready count pre :: frames) (.fragment queued :: outcomes)
        (calls ++ ((Slot.told count pre).map Entry.acked ++ more))

/-- The cycle is over, and has left some slots behind. -/
structure Finished (x : Outgoing × List SendOutcome × Bool) (slots : List Slot) : Prop where
  ended : x.2.2 = true
  slots : x.1.table.slots = slots
  pending : x.1.uplink.pending = false
  cursor : x.1.uplink.cursor = 0
  previous : x.1.uplink.previous = 0

variable {v : Voice} {d : Devices W} {calm : W → Prop} {w : W} {o : Outgoing} {count : UInt32}
  {before pre rest beyond : List Slot}

theorem Dispatches.goes_on {outcome : SendOutcome} {calls : List Call}
    (h : Dispatches count pre rest outcome calls) (hrest : rest ≠ []) :
    pre ≠ [] ∧ ∃ e left, rest = some e :: left ∧ e.ready count = true := by
  cases h with
  | nothing h | complete h => exact absurd rfl hrest
  | fragment left cause h he =>
      refine ⟨?_, _, left, rfl, he⟩
      intro heq
      subst heq
      exact h rfl

/-- An answer walks the slots that the frame has passed, and no others. -/
theorem Leaves.window (h : o.Leaves count before pre rest beyond) (hmoved : rest ≠ [] → pre ≠ []) :
    o.table.window o.uplink.previous o.uplink.reach = Slot.passed count pre := by
  rw [h.previous]
  refine Table.window_append h.slots ?_
  have hbound := h.bound
  have hlen : (Slot.passed count pre).length = pre.length := List.length_map ..
  rw [hlen, Uplink.reach, h.cursor]
  by_cases hrest : rest = []
  · rw [if_pos hrest]
    rw [hrest, List.length_nil, Nat.add_zero] at hbound
    split
    · exact hbound
    · exact hbound
  · have hpos := List.length_pos_iff.mpr (hmoved hrest)
    rw [if_neg hrest, if_pos (by omega)]
    omega

/-- The outgoing side after the walk of a good answer. -/
theorem Leaves.withSlots (h : o.Leaves count before pre rest beyond) :
    (o.acked.withSlots o.uplink.previous (Slot.cycled count pre)).table.slots =
      before ++ (Slot.cycled count pre ++ (rest ++ beyond)) := by
  show (o.table.withWindow o.uplink.previous _).slots = _
  rw [h.previous]
  refine Table.withWindow_append h.slots ?_
  rw [Slot.cycled, Slot.passed, List.length_map, List.length_map]

/-- After the answer to a frame the rest is still to be sent. -/
theorem Leaves.faces (h : o.Leaves count before pre rest beyond)
    (hready : ∃ e left, rest = some e :: left ∧ e.ready count = true) :
    (o.acked.withSlots o.uplink.previous (Slot.cycled count pre)).Faces count
      (before ++ Slot.cycled count pre) rest beyond := by
  have hlen : (before ++ Slot.cycled count pre).length = before.length + pre.length := by
    rw [List.length_append, Slot.cycled, List.length_map]
  have hslots := h.withSlots
  have hsame : (before ++ (Slot.cycled count pre ++ (rest ++ beyond))).length =
      o.table.slots.length := by
    rw [h.slots]
    simp only [List.length_append, Slot.cycled, Slot.passed, List.length_map]
  obtain ⟨e, left, rfl, he⟩ := hready
  have hbound := h.bound
  rw [List.length_cons] at hbound
  refine ⟨h.clock, ?_, ?_, ?_, fun _ => ⟨e, left, rfl, he⟩⟩
  · rw [hslots, List.append_assoc]
  · rw [hslots, hsame, hlen, List.length_cons, Nat.add_assoc]
    exact hbound
  · show o.uplink.start = _
    rw [hlen, Uplink.start, h.cursor, if_neg (List.cons_ne_nil _ _), if_neg (by omega)]

/-- If a good answer has a next frame, that is sent over a steady link as well. -/
def NextSteadily (x : Outgoing × Option SendOutcome) : Prop :=
  ∀ outcome, x.2 = some outcome → Steadily (x.1, outcome)

theorem answer_steady {outcome : SendOutcome} {sent : List Call}
    (hd : d.Steady calm (Slot.ready count rest)) (hleaves : o.Leaves count before pre rest beyond)
    (hpending : o.uplink.pending = !rest.isEmpty) (hsent : Dispatches count pre rest outcome sent)
    (now : Timestamp) (hw : calm w) : NextSteadily ((o.answer d true now).run w).1 := by
  intro next hnext
  let walk := Slot.sweep (settleOne d o.clock.count)
    (o.table.window o.uplink.previous o.uplink.reach) ()
  have hcalm : calm (walk.run w).2 := Slot.sweep_within (settleOne_within hd.within _) _ () w hw
  have hwalk : walk = Slot.sweep (settleOne d count) (Slot.passed count pre) () := by
    show Slot.sweep (settleOne d o.clock.count) _ () = _
    rw [hleaves.window fun hrest => (hsent.goes_on hrest).1, hleaves.clock]
  have hslots : (walk.run w).1.1 = Slot.cycled count pre := by
    obtain ⟨_, -, calls, -, h⟩ := Slot.sweep_speaks (v := .schedule)
      (settleOne_speaks d count) (Slot.passed count pre) () w []
    rw [hwalk]
    exact (Settles.answers_passed h).1
  simp only [answer, Bool.not_true, Bool.false_eq_true, ↓reduceIte, Action.run_bind,
    Action.run_ite] at hnext ⊢
  split at hnext
  · next hgo =>
      have hrest : rest ≠ [] := by
        rw [show o.uplink.pending = true from hgo] at hpending
        simpa using hpending.symm
      have hfaces := hleaves.faces (hsent.goes_on hrest).2
      rw [← hslots] at hfaces
      rw [if_pos hgo]
      cases hnext
      exact send_steady (hfaces.offers ▸ hd) now hcalm
  · cases hnext

/-- Whether a good answer has a next frame is known from what is left. -/
theorem Answers.steady {now : Timestamp} {x : Outgoing × Option SendOutcome} {calls : List Call}
    {outcome : SendOutcome} {sent : List Call} (h : Answers o now true x calls)
    (hsteady : NextSteadily x)
    (hleaves : o.Leaves count before pre rest beyond)
    (hpending : o.uplink.pending = !rest.isEmpty)
    (hsent : Dispatches count pre rest outcome sent) :
    (rest = [] ∧ x.2 = none ∧ calls = (Slot.told count pre).map Entry.acked ∧
      Finished (x.1, [], true) (before ++ (Slot.cycled count pre ++ beyond))) ∨
    ∃ pre' rest' next more, rest = pre' ++ rest' ∧ pre' ≠ [] ∧ x.2 = some next ∧
      calls = (Slot.told count pre).map Entry.acked ++ more ∧
      Dispatches count pre' rest' next more ∧
      x.1.Leaves count (before ++ Slot.cycled count pre) pre' rest' beyond ∧
      x.1.uplink.pending = !rest'.isEmpty := by
  have hwindow := hleaves.window fun hrest => (hsent.goes_on hrest).1
  have hclock := hleaves.clock
  cases h with
  | last h hidle =>
      rw [hwindow, hclock] at h
      obtain ⟨rfl, rfl⟩ := Settles.answers_passed h
      have hrest : rest = [] := by
        rw [hidle] at hpending
        simpa using hpending.symm
      subst hrest
      exact .inl ⟨rfl, rfl, rfl, rfl, hleaves.withSlots, hidle, rfl, rfl⟩
  | next h hgo hsend =>
      rw [hwindow, hclock] at h
      obtain ⟨rfl, rfl⟩ := Settles.answers_passed h
      have hrest : rest ≠ [] := by
        rw [hgo] at hpending
        simpa using hpending.symm
      obtain ⟨e, left, hready, he⟩ := (hsent.goes_on hrest).2
      obtain ⟨pre', rest', heq, hdispatch, hleaves', hpending'⟩ :=
        hsend.dispatches (hsteady _ rfl) (hleaves.faces ⟨e, left, hready, he⟩)
      refine .inr ⟨pre', rest', _, _, heq, ?_, rfl, rfl, hdispatch, hleaves', hpending'⟩
      -- an empty part would leave the measurement that is ready to the rest
      intro hnil
      subst hnil
      by_cases hrest' : rest' = []
      · rw [hrest'] at heq
        exact hrest heq
      · exact (hdispatch.goes_on hrest').1 rfl

theorem Cycle.of_last {outcome : SendOutcome} {calls : List Call}
    (h : Dispatches count pre [] outcome calls) :
    ∃ frames, Cycle count pre frames [outcome]
      (calls ++ (Slot.told count pre).map Entry.acked) := by
  cases h with
  | nothing h => exact ⟨_, .nothing (.nothing h)⟩
  | complete h => exact ⟨_, .complete (.complete h)⟩

theorem Cycle.of_next {outcome : SendOutcome} {outcomes : List SendOutcome}
    {frames : List (List Entry)} {calls more : List Call}
    (h : Dispatches count pre rest outcome calls) (hrest : rest ≠ [])
    (hcycle : Cycle count rest frames outcomes more) :
    ∃ frames', Cycle count (pre ++ rest) frames' (outcome :: outcomes)
      (calls ++ ((Slot.told count pre).map Entry.acked ++ more)) := by
  cases h with
  | nothing h | complete h => exact absurd rfl hrest
  | fragment left cause h he => exact ⟨_, .fragment (.fragment left cause h he) hcycle⟩

/-- After a frame, good answers finish the cycle. The induction is on the
pauses; every frame passes a slot, so they outlast the rest. -/
theorem answerAll_speaks {pauses : List (Pause W)} {outcome : SendOutcome} {sent : List Call}
    (hd : d.Steady calm (Slot.ready count rest))
    (hpauses : ∀ p ∈ pauses, p.meanwhile.Within (.keeping calm))
    (hleaves : o.Leaves count before pre rest beyond)
    (hpending : o.uplink.pending = !rest.isEmpty)
    (hsent : Dispatches count pre rest outcome sent) (hlong : rest.length < pauses.length)
    (hw : calm w) :
    Action.SpeaksAt v (answerAll (d.voiced v) o (pauses.map Pause.noted)) (answerAll d o pauses) w
      fun x _ calls => Finished x (before ++ (Slot.cycled count (pre ++ rest) ++ beyond)) ∧
        ∃ frames, Cycle count (pre ++ rest) frames (outcome :: x.2.1) (sent ++ calls) := by
  induction pauses generalizing o before pre rest outcome sent w with
  | nil => exact absurd hlong (Nat.not_lt_zero _)
  | cons p pauses ih =>
      have hwaited := hpauses p List.mem_cons_self w hw
      have hsteady := answer_steady hd hleaves hpending hsent p.now hwaited
      have hkept := answer_within hd.within o true p.now _ hwaited
      refine .after (Action.quiet_speaks p.meanwhile) ?_
      refine (Action.SpeaksAt.of_speaks (answer_speaks d o true p.now) _).bind ?_
      intro x w₁ calls hx
      obtain ⟨hx, hw₁, hanswer⟩ := hx
      rw [← hx] at hsteady
      rw [← hw₁] at hkept
      obtain ⟨o', next⟩ := x
      obtain ⟨rfl, rfl, rfl, hfinished⟩ | ⟨pre', rest', next, more, rfl, hmoved, rfl, rfl,
        hdispatch, hleaves', hpending'⟩ := hanswer.steady hsteady hleaves hpending hsent
      · refine .pure ?_
        rw [List.append_nil, List.append_nil]
        exact ⟨hfinished, Cycle.of_last hsent⟩
      · have hpos := List.length_pos_iff.mpr hmoved
        rw [List.length_append, List.length_cons] at hlong
        rw [Slot.ready_append] at hd
        have hless := hd.offer (List.subset_append_right _ _)
        have hlater := fun p hp => hpauses p (List.mem_cons_of_mem _ hp)
        refine (ih hless hlater hleaves' hpending' hdispatch (by omega) hkept).bind ?_
        intro r w' last hr
        obtain ⟨o'', outcomes, ended⟩ := r
        obtain ⟨hfinished, frames, hcycle⟩ := hr
        refine .pure ⟨?_, ?_⟩
        · refine ⟨hfinished.ended, ?_, hfinished.pending, hfinished.cursor, hfinished.previous⟩
          rw [Slot.cycled_append, hfinished.slots]
          simp only [List.append_assoc]
        · have hrest : pre' ++ rest' ≠ [] := fun hnil => hmoved (List.append_eq_nil_iff.mp hnil).1
          rw [List.append_nil, List.append_assoc]
          exact Cycle.of_next hsent hrest hcycle

/-- From an idle state, a send and good answers make a whole cycle. -/
theorem exchange_speaks
    (hd : d.Steady calm (Slot.ready o.clock.count (o.table.slots.take o.uplink.capacity)))
    (hidle : o.Idle) (now : Timestamp) {pauses : List (Pause W)}
    (hpauses : ∀ p ∈ pauses, p.meanwhile.Within (.keeping calm))
    (hlong : o.table.slots.length < pauses.length) (hw : calm w) :
    Action.SpeaksAt v (o.exchange (d.voiced v) now (pauses.map Pause.noted))
      (o.exchange d now pauses) w
      fun x _ calls =>
        Finished x (Slot.cycled o.clock.count (o.table.slots.take o.uplink.capacity) ++
          o.table.slots.drop o.uplink.capacity) ∧
        ∃ frames, Cycle o.clock.count (o.table.slots.take o.uplink.capacity) frames x.2.1 calls := by
  have hfaces := hidle.faces
  have hsteady := send_steady (hfaces.offers ▸ hd) now hw
  have hkept := send_within hd.within o now w hw
  refine (Action.SpeaksAt.of_speaks (send_speaks d o now) w).bind ?_
  intro x w₁ calls hx
  obtain ⟨hx, hw₁, hsend⟩ := hx
  rw [← hx] at hsteady
  rw [← hw₁] at hkept
  obtain ⟨o', outcome⟩ := x
  obtain ⟨pre, rest, heq, hdispatch, hleaves, hpending⟩ := hsend.dispatches hsteady hfaces
  have hshort : rest.length ≤ o.table.slots.length := by
    have hlen := congrArg List.length heq
    rw [List.length_take, List.length_append] at hlen
    omega
  rw [heq, Slot.ready_append] at hd
  rw [heq]
  have hless := hd.offer (List.subset_append_right _ _)
  refine (answerAll_speaks hless hpauses hleaves hpending hdispatch (by omega) hkept).bind ?_
  intro r w' more hr
  obtain ⟨o'', outcomes, ended⟩ := r
  obtain ⟨hfinished, frames, hcycle⟩ := hr
  refine .pure ⟨⟨hfinished.ended, hfinished.slots, hfinished.pending, hfinished.cursor,
    hfinished.previous⟩, frames, ?_⟩
  rw [List.append_nil]
  exact hcycle

end Outgoing

/-! ## What a cycle comes to -/

/-- A frame that does not take a measurement. -/
def Call.refused : Call → Bool
  | .append _ _ (.error _) => true
  | _ => false

/-- A sensor is told of a good answer. -/
def Call.tells : Call → Bool
  | .delivered _ => true
  | _ => false

/-- The outcomes of the sends by which some frames are sent. -/
def outcomesOf : List (List Entry) → List SendOutcome
  | [] => [.nothingQueued]
  | [frame] => [.complete (frameSize frame)]
  | frame :: rest => .fragment (frameSize frame) :: outcomesOf rest

/-- The calls by which a frame is filled and handed over. -/
def frameCalls (frame : List Entry) : List Call :=
  .openFrame (.ok ()) :: (frame.map Entry.appended ++ [.send (.ok ())])

/-- The calls by which some frames are sent, each followed by what its answer brings. -/
def cycleCalls (frames : List (List Entry)) (answer : List Entry → List Call) : List Call :=
  if frames = [] then [.openFrame (.ok ())]
  else frames.flatMap fun frame => frameCalls frame ++ answer frame

theorem outcomesOf_cons (frame : List Entry) {rest : List (List Entry)} (h : rest ≠ []) :
    outcomesOf (frame :: rest) = .fragment (frameSize frame) :: outcomesOf rest := by
  cases rest with
  | nil => exact absurd rfl h
  | cons next rest => rfl

theorem cycleCalls_cons (frame : List Entry) {rest : List (List Entry)}
    (answer : List Entry → List Call) (h : rest ≠ []) :
    cycleCalls (frame :: rest) answer =
      frameCalls frame ++ (answer frame ++ cycleCalls rest answer) := by
  rw [cycleCalls, if_neg (List.cons_ne_nil _ _), cycleCalls, if_neg h, List.flatMap_cons,
    List.append_assoc]

/-- A sensor is told only if its measurement is ready, if none has been waiting. -/
theorem Slot.told_eq_ready {count : UInt32} {slots : List Slot}
    (h : ∀ e, some e ∈ slots → e.tally.awaitsAck = false) : told count slots = ready count slots := by
  refine List.filterMap_congr fun slot hmem => ?_
  cases slot with
  | none => rfl
  | some e =>
      rw [Option.filter_some, Option.filter_some, Entry.told, Entry.ready, h e hmem, Bool.or_false]

namespace Outgoing

variable {count : UInt32} {slots pre rest : List Slot} {frames : List (List Entry)}
  {outcome : SendOutcome} {outcomes : List SendOutcome} {calls : List Call}

theorem Dispatches.ready_eq_nil_iff (h : Dispatches count pre rest outcome calls) :
    Slot.ready count pre = [] ↔ outcome = .nothingQueued := by
  cases h with
  | nothing h => simp only [h]
  | complete h | fragment _ _ h => simp only [h, reduceCtorEq]

/-- The frames of a cycle are what is ready, in slot order. -/
theorem Cycle.flatten (h : Cycle count slots frames outcomes calls) :
    frames.flatten = Slot.ready count slots := by
  induction h with
  | nothing h => exact (h.ready_eq_nil_iff.mpr rfl).symm
  | complete h => rw [List.flatten_cons, List.flatten_nil, List.append_nil]
  | fragment h _ ih => rw [List.flatten_cons, ih, Slot.ready_append]

theorem Cycle.goes_on {queued : UInt16} {more : List Call}
    (h : Dispatches count pre rest (.fragment queued) more)
    (hrest : Cycle count rest frames outcomes calls) : frames ≠ [] := by
  intro hnone
  have hflat := hrest.flatten
  cases h with
  | fragment left cause h he =>
      rw [hnone, Slot.ready_cons, if_pos he] at hflat
      cases hflat

theorem Cycle.not_mem (h : Cycle count slots frames outcomes calls) : [] ∉ frames := by
  induction h with
  | nothing h => exact List.not_mem_nil
  | complete h =>
      intro hmem
      cases h.ready_eq_nil_iff.mp (List.mem_singleton.mp hmem).symm
  | fragment h _ ih =>
      intro hmem
      rcases List.mem_cons.mp hmem with heq | hmem
      · cases h.ready_eq_nil_iff.mp heq.symm
      · exact ih hmem

theorem Cycle.outcomes_eq (h : Cycle count slots frames outcomes calls) :
    outcomes = outcomesOf frames := by
  induction h with
  | nothing h => rfl
  | complete h =>
      cases h with
      | complete h => rfl
  | fragment h hrest ih =>
      rw [outcomesOf_cons _ (Cycle.goes_on h hrest), ih]
      cases h with
      | fragment left cause h he => rfl

/-- A digest of the calls that leaves out the refusals. -/
structure Digest (keep : Call → Bool) : Prop where
  opened : keep (.openFrame (.ok ())) = true
  appended : ∀ e : Entry, keep e.appended = true
  refused : ∀ m t cause, keep (.append m t (.error cause)) = false
  sent : keep (.send (.ok ())) = true

theorem Digest.frameCalls {keep : Call → Bool} (hkeep : Digest keep) (frame : List Entry) :
    (frameCalls frame).filter keep = frameCalls frame := by
  rw [List.filter_eq_self]
  intro c hc
  rcases List.mem_cons.mp hc with rfl | hc
  · exact hkeep.opened
  · rcases List.mem_append.mp hc with hc | hc
    · obtain ⟨e, -, rfl⟩ := List.mem_map.mp hc
      exact hkeep.appended e
    · rw [List.mem_singleton.mp hc]
      exact hkeep.sent

theorem Dispatches.digest {keep : Call → Bool} (hkeep : Digest keep)
    (h : Dispatches count pre rest outcome calls) :
    calls.filter keep =
      if Slot.ready count pre = [] then [.openFrame (.ok ())]
      else Telemetry.frameCalls (Slot.ready count pre) := by
  cases h with
  | nothing h => rw [if_pos h, List.filter_cons_of_pos hkeep.opened, List.filter_nil]
  | complete h => rw [if_neg h]; exact hkeep.frameCalls _
  | fragment left cause h he =>
      rw [if_neg h, ← hkeep.frameCalls]
      simp only [Telemetry.frameCalls, List.filter_cons, List.filter_append, hkeep.refused,
        Bool.false_eq_true, ↓reduceIte]

/-- The calls of a cycle in a digest, if it shows of an answer what the frame
makes of it. -/
theorem Cycle.digest {keep : Call → Bool} {answer : List Entry → List Call} (hkeep : Digest keep)
    (h : Cycle count slots frames outcomes calls)
    (hanswer : ∀ part ⊆ slots, ((Slot.told count part).map Entry.acked).filter keep =
      answer (Slot.ready count part)) (hnone : answer [] = []) :
    calls.filter keep = cycleCalls frames answer := by
  induction h with
  | @nothing slots calls h =>
      have hempty := h.ready_eq_nil_iff.mpr rfl
      rw [List.filter_append, h.digest hkeep, hanswer slots (List.Subset.refl _), if_pos hempty,
        hempty, hnone]
      rfl
  | @complete slots queued calls h =>
      have hsome : Slot.ready count slots ≠ [] := fun hempty => by
        cases h.ready_eq_nil_iff.mp hempty
      rw [List.filter_append, h.digest hkeep, hanswer slots (List.Subset.refl _), if_neg hsome,
        cycleCalls, if_neg (List.cons_ne_nil _ _), List.flatMap_singleton]
  | @fragment pre rest frames queued outcomes calls more h hrest ih =>
      have hsome : Slot.ready count pre ≠ [] := fun hempty => by
        cases h.ready_eq_nil_iff.mp hempty
      have hpre := hanswer pre (List.subset_append_left pre rest)
      have hlater := ih fun part hpart =>
        hanswer part (List.Subset.trans hpart (List.subset_append_right pre rest))
      rw [List.filter_append, List.filter_append, h.digest hkeep, hpre, hlater, if_neg hsome,
        cycleCalls_cons _ _ (Cycle.goes_on h hrest)]

/-- Starting from an idle state, over a link that is steady in calm worlds and
for what is ready, a send and good answers come to an end, whatever happens in
between that leaves the world calm. The frames divide among them what is due and
sampled within the capacity, in slot order and with the tallies from before;
none of them is empty, and all but the last are fragments. The measurements in
them end up reset and waiting for nothing, and those that are not due are left
alone. If none has been waiting before, the sensors that are told are those of
each frame, after that frame. -/
theorem exchange_sends_each_once {W : Type} {d : Devices W} {calm : W → Prop} {o : Outgoing}
    (hd : d.Steady calm (Slot.ready o.clock.count (o.table.slots.take o.uplink.capacity)))
    (hidle : o.Idle) (now : Timestamp) {pauses : List (Pause W)}
    (hpauses : ∀ p ∈ pauses, p.meanwhile.Within (.keeping calm))
    (hlong : o.table.slots.length < pauses.length) {w : W} (hw : calm w) :
    let within := o.table.slots.take o.uplink.capacity
    let x := (o.exchange d now pauses).run w
    ∃ (frames : List (List Entry)) (calls : List Call),
      (o.exchange (d.voiced .schedule) now (pauses.map Pause.noted)).run (w, []) =
        (x.1, x.2, Voice.schedule.notes calls) ∧
      Finished x.1 (Slot.cycled o.clock.count within ++ o.table.slots.drop o.uplink.capacity) ∧
      frames.flatten = Slot.ready o.clock.count within ∧ [] ∉ frames ∧
      x.1.2.1 = outcomesOf frames ∧
      calls.filter (fun c => !c.refused && !c.tells) = cycleCalls frames (fun _ => []) ∧
      ((∀ e, some e ∈ within → e.tally.awaitsAck = false) →
        calls.filter (!·.refused) = cycleCalls frames (·.map Entry.acked)) := by
  intro within x
  obtain ⟨calls, hrun, hfinished, frames, hcycle⟩ :=
    exchange_speaks (v := .schedule) hd hidle now hpauses hlong hw []
  refine ⟨frames, calls, ?_, hfinished, hcycle.flatten, hcycle.not_mem, hcycle.outcomes_eq, ?_, ?_⟩
  · rw [hrun, List.nil_append]
  · refine hcycle.digest ⟨rfl, fun _ => rfl, fun _ _ _ => rfl, rfl⟩ (fun part _ => ?_) rfl
    rw [List.filter_eq_nil_iff]
    intro c hc
    obtain ⟨e, -, rfl⟩ := List.mem_map.mp hc
    exact Bool.false_ne_true
  · intro hnone
    refine hcycle.digest ⟨rfl, fun _ => rfl, fun _ _ _ => rfl, rfl⟩ (fun part hpart => ?_) rfl
    rw [Slot.told_eq_ready fun e he => hnone e (hpart he), List.filter_eq_self]
    intro c hc
    obtain ⟨e, -, rfl⟩ := List.mem_map.mp hc
    rfl

end Outgoing

/-- Four measurements with a sample each, of which the last is out of reach. -/
def Outgoing.fourfold : Outgoing where
  uplink := { capacity := 4 }
  table := { slots := [some (entry "A"), none, some (entry "B"), some (entry "C"), some (entry "D")] }
  clock := { interval := 1000, began := 0, count := 1 }
where
  entry (name : String) : Entry :=
    ⟨⟨name, .custom0, 1, 1, false⟩, { summary := .integer 1 1 1, samples := 1 }⟩

namespace Outgoing

theorem fourfold_idle : fourfold.Idle := ⟨rfl, rfl⟩

/-- A cycle in which the three measurements in reach go out in two frames. -/
def InTwoFrames (x : Outgoing × List SendOutcome × Bool) : Prop :=
  ∃ frames : List (List Entry),
    frames.flatten.map Entry.name = ["A", "B", "C"] ∧ [] ∉ frames ∧
      outcomesOf frames = [.fragment 2, .complete 1] ∧
      Finished x (Slot.cycled 1 (fourfold.table.slots.take 4) ++ [some (fourfold.entry "D")])

theorem InTwoFrames.of_frames {x : Outgoing × List SendOutcome × Bool} {frames : List (List Entry)}
    (hflat : frames.flatten = Slot.ready 1 (fourfold.table.slots.take 4)) (hsome : [] ∉ frames)
    (heq : x.2.1 = outcomesOf frames) (houtcomes : x.2.1 = [.fragment 2, .complete 1])
    (hfinished : Finished x
      (Slot.cycled 1 (fourfold.table.slots.take 4) ++ [some (fourfold.entry "D")])) :
    InTwoFrames x := by
  refine ⟨frames, ?_, hsome, heq.symm.trans houtcomes, hfinished⟩
  rw [hflat]
  decide +kernel

/-- A radio that counts measurements and has room for two of them in a frame, and one that writes
them into a buffer of twenty bytes. -/
theorem exchange_sends_each_once_fourfold :
    let counting : List (Pause Nat) := List.replicate 6 ⟨Action.change (· + 7), 0⟩
    let writing : List (Pause (Frame.Station Timestamp)) :=
      List.replicate 6 ⟨Frame.Station.linkPart.run (Action.change (· + 7)), 0⟩
    let offered := Slot.ready 1 (fourfold.table.slots.take 4)
    let station := Frame.Station.equip (.obliging 0) .clocked
    let counted := (fourfold.exchange (.narrow 2) 0 counting).run 0
    let written := (fourfold.exchange station 0 writing).run ⟨⟨20, ""⟩, 0, []⟩
    (Devices.narrow 2).Steady (fun _ => True) offered ∧ InTwoFrames counted.1 ∧
      station.Steady (Frame.Station.Calm (fun _ => True) 20) offered ∧ InTwoFrames written.1 ∧
      written.2.handed = [("\x7b\"A\" : 1,\"B\" : 1\x7d" : String).toUTF8,
        ("\x7b\"C\" : 1\x7d" : String).toUTF8] := by
  intro counting writing offered station counted written
  have hcounts : (Devices.narrow 2).Steady (fun _ => True) offered :=
    Devices.narrow_steady 1 offered
  have hwrites : station.Steady (Frame.Station.Calm (fun _ => True) 20) offered :=
    Frame.Station.equip_steady ((Devices.obliging 0).within_of_leads fun _ _ _ => trivial)
      Frame.Transport.clocked_steady (by decide) (by decide +kernel)
  have hwaits : ∀ p ∈ counting, p.meanwhile.Within (.keeping fun _ => True) :=
    fun _ _ _ _ => trivial
  have hpasses : ∀ p ∈ writing,
      p.meanwhile.Within (.keeping (Frame.Station.Calm (fun _ => True) 20)) := by
    intro p hp
    rw [List.eq_of_mem_replicate hp]
    exact fun st hst => hst
  refine ⟨hcounts, ?_, hwrites, ?_, by decide +kernel⟩
  · have houtcomes : counted.1.2.1 = [.fragment 2, .complete 1] := by decide +kernel
    obtain ⟨frames, calls, -, hfinished, hflat, hsome, heq, -⟩ :=
      exchange_sends_each_once (o := fourfold) hcounts fourfold_idle 0 hwaits (by decide) (w := 0)
        trivial
    exact .of_frames hflat hsome heq houtcomes hfinished
  · have houtcomes : ((fourfold.exchange station 0 writing).run ⟨⟨20, ""⟩, 0, []⟩).1.2.1 =
        [.fragment 2, .complete 1] := by decide +kernel
    obtain ⟨frames, calls, -, hfinished, hflat, hsome, heq, -⟩ :=
      exchange_sends_each_once (o := fourfold) hwrites fourfold_idle 0 hpasses (by decide)
        (w := ⟨⟨20, ""⟩, 0, []⟩) ⟨trivial, rfl⟩
    show InTwoFrames ((fourfold.exchange station 0 writing).run ⟨⟨20, ""⟩, 0, []⟩).1
    exact .of_frames hflat hsome heq houtcomes hfinished

end Outgoing

end Telemetry
