import Mathlib.Logic.Relation
import Telemetry.InstantSend
import Telemetry.Proofs.Turns
import Telemetry.Sleep
import Telemetry.Table.Edits

/-!
# What a node does aside from its schedule

Reads on the spot, sends outside the schedule, edits of the table and naps.
Seen from the schedule all of them are small: a read may leave another lead
time behind and nothing else, a request is cleared by being served, an edit
changes one slot, and a nap no slot at all. `Entry.ReadTo`, `Table.Touches` and
`Table.Edits` say just that, and leave the calls open.

Reads and rounds of sends are met by closer relations as well, with their
results and their calls: `Entry.Reads`, `InstantSend.Serves` and
`InstantSend.Rounds`.
-/

namespace Telemetry

variable {W α : Type} {v : Voice}

/-! ## Reads -/

/-- A call that waits for the acquisition that a read has started. -/
inductive Call.OfWait (m : Definition) : Call → Prop where
  | poll (answer : Reply Unit) : OfWait m (.poll m answer)
  | collect (answer : Reply Reading) : OfWait m (.collect m answer)
  | spin : OfWait m .spin

namespace SpotRead

/-- What starting a sensor and waiting for it may come to. -/
inductive Acquires (m : Definition) (fallback : UInt32) (t : Tally) :
    Tally × Except ReadError Reading → List Call → Prop where
  | busy : Acquires m fallback t (t, .error (.failed (.failed "busy at start")))
      [.start m true .busy]
  | failed (cause : SensorError) :
      Acquires m fallback t (t, .error (.failed cause)) [.start m true (.failed cause)]
  | started (answer : Option (Reply UInt32)) (result : Except ReadError Reading)
      {calls : List Call} (h : ∀ c ∈ calls, c.OfWait m) :
      Acquires m fallback t
        ({ t with leadTime := Reply.leadTime fallback answer, acquiring := true }, result)
        (.start m true (.done ()) :: .collectionTime m answer :: calls)

/-- The calls of a read: a sensor that was off is on for the time of it. -/
def powering (m : Definition) (wasOff : Bool) (calls : List Call) : List Call :=
  if wasOff then .power m true :: (calls ++ [.power m false]) else calls

theorem mem_powering {m : Definition} {wasOff : Bool} {calls : List Call} {c : Call}
    (h : c ∈ powering m wasOff calls) : c ∈ calls ∨ ∃ on, c = .power m on := by
  unfold powering at h
  split at h
  · rcases List.mem_cons.mp h with rfl | h
    · exact .inr ⟨true, rfl⟩
    · rcases List.mem_append.mp h with h | h
      · exact .inl h
      · exact .inr ⟨false, List.mem_singleton.mp h⟩
  · exact .inl h

end SpotRead

/-- What reading a measurement on the spot may come to. -/
inductive Entry.Reads (e : Entry) (fallback : UInt32) (wasOff : Bool) :
    Entry × Except ReadError Reading → List Call → Prop where
  | refused (h : e.tally.acquiring = true) :
      Reads e fallback wasOff (e, .error (.failed .alreadyCollecting)) []
  | made (h : e.tally.acquiring = false) {t : Tally} {result : Except ReadError Reading}
      {calls : List Call}
      (hacquire : SpotRead.Acquires e.definition fallback e.tally (t, result) calls) :
      Reads e fallback wasOff (e.withTally { t with acquiring := false }, result)
        (SpotRead.powering e.definition wasOff calls)

/-- What becomes of a measurement that is read on the spot. -/
inductive Entry.ReadTo (e : Entry) : Entry → Prop where
  | refused (h : e.tally.acquiring = true) : ReadTo e e
  | made (h : e.tally.acquiring = false) (leadTime : UInt32) :
      ReadTo e (e.withTally { e.tally with leadTime, acquiring := false })

/-- A read may leave another lead time behind, and nothing else. -/
theorem Entry.Reads.readTo {e : Entry} {fallback : UInt32} {wasOff : Bool}
    {x : Entry × Except ReadError Reading} {calls : List Call}
    (h : e.Reads fallback wasOff x calls) : e.ReadTo x.1 := by
  cases h with
  | refused h => exact .refused h
  | made h hacquire =>
      cases hacquire with
      | busy => exact .made h e.tally.leadTime
      | failed cause => exact .made h e.tally.leadTime
      | started answer result hcalls => exact .made h (Reply.leadTime fallback answer)

namespace SpotRead

/-- The calls of a wait are those of its question, and the moments between them. -/
theorem askUntil_speaks (d : Devices W) {own : Call → Prop}
    {ask' : Action (W × List Note) (Reply α)} {ask : Action W (Reply α)}
    (hask : Action.Speaks v ask' ask fun _ calls => ∀ c ∈ calls, own c) (hspin : own .spin)
    (limit : UInt64) (began : Timestamp) (questions : Nat) :
    Action.Speaks v (askUntil (d.voiced v) ask' limit began questions)
      (askUntil d ask limit began questions) fun _ calls => ∀ c ∈ calls, own c := by
  induction questions with
  | zero => exact .pure fun c hc => absurd hc List.not_mem_nil
  | succ questions ih =>
      refine hask.bind ?_
      intro answer calls hown
      have hlast : ∀ c ∈ calls ++ [], own c := by simpa only [List.append_nil] using hown
      cases answer with
      | done value => exact .pure hlast
      | failed cause => exact .pure hlast
      | busy =>
          refine .after d.now_speaks fun now => ?_
          split
          · exact .pure hlast
          · refine d.spin_speaks.bind ?_
            intro _ _ heq
            subst heq
            refine ih.imp fun _ more hmore c hc => ?_
            rcases List.mem_append.mp hc with hc | hc
            · exact hown c hc
            · rcases List.mem_append.mp hc with hc | hc
              · rwa [List.mem_singleton.mp hc]
              · exact hmore c hc

theorem askFor_speaks (d : Devices W) {own : Call → Prop}
    {ask' : Action (W × List Note) (Reply α)} {ask : Action W (Reply α)}
    (hask : Action.Speaks v ask' ask fun _ calls => ∀ c ∈ calls, own c) (hspin : own .spin)
    (limit : UInt64) :
    Action.Speaks v (askFor (d.voiced v) limit ask') (askFor d limit ask)
      fun _ calls => ∀ c ∈ calls, own c :=
  .after d.now_speaks fun began => askUntil_speaks d hask hspin limit began patience

theorem await_speaks (d : Devices W) (m : Definition) (budget : UInt64) :
    Action.Speaks v (await (d.voiced v) m budget) (await d m budget)
      fun _ calls => ∀ c ∈ calls, c.OfWait m := by
  have hpoll : Action.Speaks v ((d.voiced v).sensors.poll m) (d.sensors.poll m)
      fun _ calls => ∀ c ∈ calls, c.OfWait m :=
    (d.poll_speaks m).imp fun answer _ heq => heq ▸ List.forall_mem_singleton.mpr (.poll answer)
  have hcollect : Action.Speaks v ((d.voiced v).sensors.collect m) (d.sensors.collect m)
      fun _ calls => ∀ c ∈ calls, c.OfWait m :=
    (d.collect_speaks m).imp fun answer _ heq =>
      heq ▸ List.forall_mem_singleton.mpr (.collect answer)
  unfold await
  refine .after d.now_speaks fun began => ?_
  refine (askFor_speaks d hpoll .spin budget).bind ?_
  intro polled calls hcalls
  have hlast : ∀ c ∈ calls ++ [], c.OfWait m := by simpa only [List.append_nil] using hcalls
  cases polled with
  | none => exact .after (d.log_speaks _ _) fun _ => .pure hlast
  | some outcome =>
      cases outcome with
      | error cause => exact .after (d.log_speaks _ _) fun _ => .pure hlast
      | ok _ =>
          refine .after d.now_speaks fun now => ?_
          refine (askFor_speaks d hcollect .spin _).bind ?_
          intro collected more hmore
          have hboth : ∀ c ∈ calls ++ (more ++ []), c.OfWait m := by
            intro c hc
            rw [List.append_nil, List.mem_append] at hc
            exact hc.elim (hcalls c) (hmore c)
          refine .after d.now_speaks fun ended => ?_
          refine .after (d.log_speaks _ _) fun _ => ?_
          cases collected with
          | none => exact .after (d.log_speaks _ _) fun _ => .pure hboth
          | some outcome =>
              cases outcome with
              | ok r => exact .pure hboth
              | error cause => exact .pure hboth

theorem acquire_speaks (d : Devices W) (fallback : UInt32) (timeout : Option UInt32)
    (m : Definition) (t : Tally) :
    Action.Speaks v (acquire (d.voiced v) fallback timeout m t) (acquire d fallback timeout m t)
      (Acquires m fallback t) := by
  unfold acquire
  refine (d.start_speaks m true).bind ?_
  intro answer _ heq
  subst heq
  cases answer with
  | busy => exact .after (d.log_speaks _ _) fun _ => .pure .busy
  | failed cause => exact .after (d.log_speaks _ _) fun _ => .pure (.failed cause)
  | done _ =>
      refine (d.leadTime_speaks m fallback).bind ?_
      intro leadTime _ hr
      obtain ⟨answer, rfl, rfl⟩ := hr
      refine (await_speaks d m _).bind ?_
      intro result calls hcalls
      refine .pure ?_
      rw [List.append_nil]
      exact .started answer result hcalls

end SpotRead

namespace Entry

/-- Whether the sensor of a measurement is off, as it tells in a world. -/
def sensorOff (d : Devices W) (e : Entry) (w : W) : Bool :=
  ((d.sensors.powered e.definition).run w).1 == some false

theorem read_speaksAt (d : Devices W) (fallback : UInt32) (timeout : Option UInt32) (e : Entry)
    (w : W) :
    Action.SpeaksAt v (e.read (d.voiced v) fallback timeout) (e.read d fallback timeout) w
      fun x _ calls => e.Reads fallback (e.sensorOff d w) x calls := by
  unfold Entry.read
  split
  · next h => exact .after (d.log_speaks _ _) (.pure (.refused h))
  · next h =>
      have hfree : e.tally.acquiring = false := Bool.eq_false_iff.mpr h
      have hacquire := SpotRead.acquire_speaks (v := v) d fallback timeout e.definition e.tally
      refine .after (d.powered_speaks _) ?_
      simp only []
      split
      · next hoff =>
          have hwas : e.sensorOff d w = true := hoff
          rw [hwas]
          refine (Action.SpeaksAt.of_speaks (d.power_speaks e.definition true) _).bind ?_
          intro _ _ _ hpower
          obtain ⟨-, -, rfl⟩ := hpower
          refine (Action.SpeaksAt.of_speaks hacquire _).bind ?_
          intro r _ calls hr
          obtain ⟨t, result⟩ := r
          refine (Action.SpeaksAt.of_speaks (d.power_speaks e.definition false) _).bind ?_
          intro _ _ _ hpower
          obtain ⟨-, -, rfl⟩ := hpower
          exact .pure (.made hfree hr.2.2)
      · next hon =>
          have hwas : e.sensorOff d w = false := Bool.eq_false_iff.mpr hon
          rw [hwas]
          refine (Action.SpeaksAt.of_speaks hacquire _).bind ?_
          intro r _ calls hr
          obtain ⟨t, result⟩ := r
          refine .pure ?_
          rw [List.append_nil]
          exact .made hfree hr.2.2

theorem read_speaks (d : Devices W) (fallback : UInt32) (timeout : Option UInt32) (e : Entry) :
    Action.Speaks v (e.read (d.voiced v) fallback timeout) (e.read d fallback timeout)
      fun x calls => ∃ wasOff, e.Reads fallback wasOff x calls :=
  .of_at fun w => (e.read_speaksAt d fallback timeout w).imp fun _ _ _ h => ⟨_, h⟩

end Entry

/-! ## Operations on the table -/

/-- A read of one measurement of a table, with or without its request served. -/
inductive Table.Touches (t : Table) : Table → Prop where
  | read {i : Nat} {e e' : Entry} (h : t.slots[i]? = some (some e)) (hread : e.ReadTo e') :
      Touches t (t.put i (some e'))
  | served {i : Nat} {e e' : Entry} (h : t.slots[i]? = some (some e))
      (hread : (e.withTally { e.tally with instantRequested := false }).ReadTo e') :
      Touches t (t.put i (some e'))

/-- A measurement more, in the first free slot and under a name of its own. -/
inductive Table.Adds (t : Table) : Table → Prop where
  | added {i : Nat} {m : Definition} (kind : ValueKind) (leadTime : UInt32)
      (hnew : t.indexOf m.name = none) (hfree : t.firstFree = some i) :
      Adds t (t.put i (some { definition := m, tally := Tally.fresh kind leadTime }))

/-- What an edit may make of a table. -/
inductive Table.Edits (t : Table) : Table → Prop where
  | added {t' : Table} (h : Relation.ReflTransGen Adds t t') : Edits t t'
  | removed {i : Nat} {e : Entry} (h : t.slots[i]? = some (some e)) : Edits t (t.put i none)
  | redefined {i : Nat} {e : Entry} (h : t.slots[i]? = some (some e)) (m : Definition)
      (hname : m.name = e.name ∨ t.indexOf m.name = none) :
      Edits t (t.put i (some { e with definition := m }))
  | requested {i : Nat} {e : Entry} (h : t.slots[i]? = some (some e)) :
      Edits t (t.put i (some (e.withTally { e.tally with instantRequested := true })))

namespace Table

/-- The measurement of a name stands in its slot under that name. -/
theorem slot_of_locate {t : Table} {name : String} {i : Nat} {e : Entry}
    (h : t.locate name = some (i, e)) : t.slots[i]? = some (some e) := by
  unfold locate at h
  obtain ⟨j, hj, hmap⟩ := Option.bind_eq_some_iff.mp h
  obtain ⟨e', he', hpair⟩ := Option.map_eq_some_iff.mp hmap
  cases hpair
  exact Option.join_eq_some_iff.mp he'

theorem read_speaks (d : Devices W) (t : Table) (name : String) (timeout : Option UInt32) :
    Action.Speaks v (t.read (d.voiced v) name timeout) (t.read d name timeout)
      fun x _ => Relation.ReflTransGen Touches t x.1 := by
  unfold Table.read
  split
  · exact .pure .refl
  · next i e h =>
      refine (e.read_speaks d t.fallback timeout).bind ?_
      intro r _ hr
      obtain ⟨e', result⟩ := r
      obtain ⟨wasOff, hread⟩ := hr
      exact .pure (.single (.read (slot_of_locate h) hread.readTo))

theorem add_speaks (d : Devices W) (t : Table) (m : Definition) :
    Action.Speaks v (t.add (d.voiced v) m) (t.add d m)
      fun x _ => Relation.ReflTransGen Adds t x.1 := by
  unfold add
  split
  · exact .pure .refl
  · next name _ =>
      simp only []
      split
      · exact .after (d.log_speaks _ _) fun _ => .pure .refl
      · next hnew =>
          have hnone : t.indexOf name = none := by
            simpa only [Option.not_isSome_iff_eq_none] using hnew
          split
          · exact .after (d.log_speaks _ _) fun _ => .pure .refl
          · next i hfree =>
              refine .after (d.valueKind_speaks _) fun kind => ?_
              cases kind with
              | none => exact .after (d.log_speaks _ _) fun _ => .pure .refl
              | some kind =>
                  refine (d.leadTime_speaks _ _).bind ?_
                  intro leadTime _ _
                  refine (d.power_speaks _ _).bind ?_
                  intro _ _ _
                  exact .pure (.single (.added kind leadTime hnone hfree))

/-- Adding many measurements is a chain of single ones. -/
theorem addAll_speaks (d : Devices W) (t : Table) (ms : List Definition) :
    Action.Speaks v (t.addAll (d.voiced v) ms) (t.addAll d ms)
      fun t' _ => Relation.ReflTransGen Adds t t' := by
  induction ms generalizing t with
  | nil => exact .pure .refl
  | cons m rest ih =>
      unfold addAll
      split
      · exact ih t
      · refine (t.add_speaks d m).bind ?_
        intro r _ h
        obtain ⟨t₁, outcome⟩ := r
        cases outcome with
        | ok _ => exact (ih t₁).imp fun _ _ hrest => h.trans hrest
        | error cause =>
            exact .after (d.log_speaks _ _) fun _ =>
              (ih t₁).imp fun _ _ hrest => h.trans hrest

theorem load_speaks (d : Devices W) (t : Table) (persisted defaults : List Definition) :
    Action.Speaks v (t.load (d.voiced v) persisted defaults) (t.load d persisted defaults)
      fun x _ => t.Edits x.1 := by
  unfold load
  split
  · refine .after (d.log_speaks _ _) fun _ => ?_
    refine (t.addAll_speaks d defaults).bind ?_
    intro t' _ h
    exact .pure (.added h)
  · refine .after (d.log_speaks _ _) fun _ => ?_
    refine (t.addAll_speaks d persisted).bind ?_
    intro t' _ h
    exact .pure (.added h)

theorem remove_speaks (d : Devices W) (t : Table) (name : String) :
    Action.Speaks v (t.remove (d.voiced v) name) (t.remove d name)
      fun x _ => t.Edits x.1 := by
  unfold remove
  split
  · exact .pure (.added .refl)
  · next i e h =>
      refine (d.power_speaks _ _).bind ?_
      intro _ _ _
      exact .pure (.removed (slot_of_locate h))

theorem setPeriod_speaks (d : Devices W) (t : Table) (name : String) (period : UInt8) :
    Action.Speaks v (t.setPeriod (d.voiced v) name period) (t.setPeriod d name period)
      fun x _ => t.Edits x.1 := by
  unfold setPeriod
  split
  · exact .pure (.added .refl)
  · next i e h =>
      simp only []
      split
      · refine (d.power_speaks _ _).bind ?_
        intro _ _ _
        exact .pure (.redefined (slot_of_locate h) _ (.inl rfl))
      · exact .pure (.redefined (slot_of_locate h) _ (.inl rfl))

/-- Giving a measurement another definition changes its slot, if it has one. -/
theorem edits_amend (t : Table) (name : String) (change : Definition → Definition)
    (hname : ∀ m, (change m).name = m.name ∨ t.indexOf (change m).name = none) :
    t.Edits (t.amend name fun e => { e with definition := change e.definition }).1 := by
  unfold amend
  split
  · next i e h => exact .redefined (slot_of_locate h) _ (hname e.definition)
  · exact .added .refl

theorem rename_speaks (d : Devices W) (t : Table) (old new : String) :
    Action.Speaks v (t.rename (d.voiced v) old new) (t.rename d old new)
      fun x _ => t.Edits x.1 := by
  unfold rename
  split
  · exact .pure (.added .refl)
  · next name _ =>
      split
      · exact .after (d.log_speaks _ _) fun _ => .pure (.added .refl)
      · next hnew =>
          have hnone : t.indexOf name = none := by
            simpa only [Option.not_isSome_iff_eq_none] using hnew
          exact .pure (t.edits_amend old (fun m => { m with name }) fun _ => .inr hnone)

theorem setSampleCount_speaks (d : Devices W) (t : Table) (name : String) (sampleCount : UInt8) :
    Action.Speaks v (t.setSampleCount (d.voiced v) name sampleCount)
      (t.setSampleCount d name sampleCount) fun x _ => t.Edits x.1 := by
  unfold setSampleCount
  split
  · exact .after (d.log_speaks _ _) fun _ => .pure (.added .refl)
  · exact .pure (t.edits_amend name (fun m => { m with sampleCount }) fun _ => .inl rfl)

theorem setImmediate_speaks (t : Table) (name : String) (immediate : Bool) :
    Action.Speaks v (t.setImmediate name immediate) (t.setImmediate (W := W) name immediate)
      fun x _ => t.Edits x.1 :=
  .pure (t.edits_amend name (fun m => { m with immediate }) fun _ => .inl rfl)

theorem request_speaks (t : Table) (name : String) :
    Action.Speaks v (t.request name) (t.request (W := W) name) fun x _ => t.Edits x.1 := by
  refine .pure ?_
  unfold amend
  split
  · next i e h => exact .requested (slot_of_locate h)
  · exact .added .refl

end Table

/-! ## Sends outside the schedule -/

/-- A call to the radio for a frame outside the schedule. -/
inductive Call.OfFrame : Call → Prop where
  | openFrame (answer : Except FrameError Unit) : OfFrame (.openFrame answer)
  | appendReading (m : Definition) (r : Reading) (answer : Except FrameError Unit) :
      OfFrame (.appendReading m r answer)
  | send (answer : Except FrameError Unit) : OfFrame (.send answer)

namespace InstantSend

/-- A measurement whose request is being served. -/
def unrequested (e : Entry) : Entry := e.withTally { e.tally with instantRequested := false }

/-- What serving one request may come to. -/
inductive Serves (fallback : UInt32) (e : Entry) (count : UInt16) :
    Entry × UInt16 × Bool → List Call → Prop where
  | idle (h : e.tally.instantRequested = false) : Serves fallback e count (e, count, false) []
  | unread (h : e.tally.instantRequested = true) {wasOff : Bool} {e' : Entry} {cause : ReadError}
      {calls : List Call}
      (hread : (unrequested e).Reads fallback wasOff (e', .error cause) calls) :
      Serves fallback e count (e', count, false) calls
  | full (h : e.tally.instantRequested = true) {wasOff : Bool} {e' : Entry} {r : Reading}
      {calls : List Call} (hread : (unrequested e).Reads fallback wasOff (e', .ok r) calls)
      (cause : FrameError) :
      Serves fallback e count (e', count, true)
        (calls ++ [.appendReading e.definition r (.error cause)])
  | queued (h : e.tally.instantRequested = true) {wasOff : Bool} {e' : Entry} {r : Reading}
      {calls : List Call} (hread : (unrequested e).Reads fallback wasOff (e', .ok r) calls) :
      Serves fallback e count (e', Saturating.succ16 count, false)
        (calls ++ [.appendReading e.definition r (.ok ())])

theorem serve_speaks (d : Devices W) (fallback : UInt32) (e : Entry) (count : UInt16) :
    Action.Speaks v (serve (d.voiced v) fallback e count) (serve d fallback e count)
      (Serves fallback e count) := by
  unfold serve
  split
  · next h => exact .pure (.idle (by simpa only [Bool.not_eq_true'] using h))
  · next h =>
      have hasked : e.tally.instantRequested = true := by simpa using h
      refine ((unrequested e).read_speaks d fallback none).bind ?_
      intro r calls hr
      obtain ⟨e', result⟩ := r
      obtain ⟨wasOff, hread⟩ := hr
      cases result with
      | error cause =>
          refine .after (d.log_speaks _ _) fun _ => .pure ?_
          rw [List.append_nil]
          exact .unread hasked hread
      | ok r =>
          refine (d.appendReading_speaks _ r).bind ?_
          intro answer _ heq
          subst heq
          have hdefinition : e'.definition = e.definition := by cases hread; rfl
          simp only [hdefinition]
          cases answer with
          | error cause =>
              exact .after (d.log_speaks _ _) fun _ => .pure (.full hasked hread cause)
          | ok _ => exact .pure (.queued hasked hread)

/-- What handing over a frame with so many readings may come to. -/
inductive Hands (count : UInt16) : Except SendError UInt16 → List Call → Prop where
  | nothing (h : count = 0) : Hands count (.error .nothingQueued) []
  | failed (h : count ≠ 0) (cause : FrameError) :
      Hands count (.error (.frame cause)) [.send (.error cause)]
  | sent (h : count ≠ 0) : Hands count (.ok count) [.send (.ok ())]

theorem handOver_speaks (d : Devices W) (count : UInt16) :
    Action.Speaks v (handOver (d.voiced v) count) (handOver d count) (Hands count) := by
  unfold handOver
  split
  · next h => exact .after (d.log_speaks _ _) fun _ => .pure (.nothing h)
  · next h =>
      refine d.send_speaks.bind ?_
      intro answer _ heq
      subst heq
      cases answer with
      | error cause => exact .pure (.failed h cause)
      | ok _ => exact .pure (.sent h)

/-- What a round comes to that does not get as far as to serve requests, if the clock shows `now`. -/
inductive Declines (guard : UInt32) (u : Uplink) (clock : TransmitClock) (now : Timestamp)
    (t : Table) : Except SendError UInt16 → List Call → Prop where
  | idle (h : t.hasRequests = false) : Declines guard u clock now t (.ok 0) []
  | underway (h : u.midFragment = true) :
      Declines guard u clock now t (.error .fragmentInProgress) []
  | imminent (h : clock.remaining now ≤ guard.toUInt64) :
      Declines guard u clock now t (.error .scheduledSendImminent) []
  | unopened (cause : FrameError) :
      Declines guard u clock now t (.error (.frame cause)) [.openFrame (.error cause)]

/-- What a round of sends outside the schedule may come to. -/
inductive Rounds (guard : UInt32) (u : Uplink) (clock : TransmitClock) (now : Timestamp)
    (t : Table) : Table × Except SendError UInt16 → List Call → Prop where
  | declined {outcome : Except SendError UInt16} {calls : List Call}
      (h : Declines guard u clock now t outcome calls) :
      Rounds guard u clock now t (t, outcome) calls
  | served {slots : List Slot} {count : UInt16} {stop : Option Nat}
      {outcome : Except SendError UInt16} {calls more : List Call}
      (h : Slot.Swept (Serves t.fallback) t.slots 0 (slots, count, stop) calls)
      (hhand : Hands count outcome more) :
      Rounds guard u clock now t ({ t with slots }, outcome) (.openFrame (.ok ()) :: (calls ++ more))

theorem run_rounds (d : Devices W) (guard : UInt32) (u : Uplink) (clock : TransmitClock)
    (t : Table) (w : W) :
    Action.SpeaksAt v (run (d.voiced v) guard u clock t) (run d guard u clock t) w
      fun x _ calls => Rounds guard u clock (d.now.run w).1 t x calls := by
  unfold run
  split
  · next h => exact .pure (.declined (.idle (by simpa only [Bool.not_eq_true'] using h)))
  · split
    · next h => exact .after (d.log_speaks _ _) (.pure (.declined (.underway h)))
    · refine .after d.now_speaks ?_
      split
      · next h => exact .after (d.log_speaks _ _) (.pure (.declined (.imminent h)))
      · refine (Action.SpeaksAt.of_speaks d.openFrame_speaks _).bind ?_
        intro answer w₁ _ hopen
        obtain ⟨-, -, rfl⟩ := hopen
        cases answer with
        | error cause =>
            exact .after (d.log_speaks _ _) (.pure (.declined (.unopened cause)))
        | ok _ =>
            refine (Action.SpeaksAt.of_speaks
              (Slot.sweepUntil_speaks (serve_speaks d t.fallback) t.slots 0) w₁).bind ?_
            intro r w₂ calls h
            obtain ⟨slots, count, stop⟩ := r
            refine (Action.SpeaksAt.of_speaks (handOver_speaks d count) w₂).bind ?_
            intro outcome _ more hhand
            refine .pure ?_
            rw [List.append_nil, List.singleton_append]
            exact .served h.2.2 hhand.2.2

theorem touch_of_serves {t : Table} {before rest : List Slot} {e e' : Entry} {count : UInt16}
    {x : UInt16 × Bool} {fallback : UInt32} {calls : List Call}
    (ht : t.slots = before ++ some e :: rest) (h : Serves fallback e count (e', x) calls) :
    Relation.ReflTransGen Table.Touches t { t with slots := before ++ some e' :: rest } := by
  have hslot : t.slots[before.length]? = some (some e) := by
    rw [ht, List.getElem?_append_right (Nat.le_refl _), Nat.sub_self]
    rfl
  have hput : t.put before.length (some e') = { t with slots := before ++ some e' :: rest } := by
    rw [Table.put, ht, List.set_append_right _ _ (Nat.le_refl _), Nat.sub_self]
    rfl
  rw [← hput]
  cases h with
  | idle h => rw [hput, ← ht]
  | unread h hread => exact .single (.served hslot hread.readTo)
  | full h hread cause => exact .single (.served hslot hread.readTo)
  | queued h hread => exact .single (.served hslot hread.readTo)

/-- A round of serving requests is a chain of reads, slot by slot. -/
theorem touches_of_swept {slots : List Slot} {count : UInt16}
    {x : List Slot × UInt16 × Option Nat} {fallback : UInt32} {calls : List Call}
    (h : Slot.Swept (Serves fallback) slots count x calls) (t : Table) (before : List Slot)
    (ht : t.slots = before ++ slots) :
    Relation.ReflTransGen Table.Touches t { t with slots := before ++ x.1 } := by
  induction h generalizing t before with
  | nil s => rw [← ht]
  | hole h ih =>
      have hrest := ih t (before ++ [none]) (by simpa using ht)
      simpa using hrest
  | stop h => exact touch_of_serves ht h
  | @next e e' rest rest' s s' s'' stop calls more h hrest ih =>
      have hrest := ih { t with slots := before ++ some e' :: rest } (before ++ [some e'])
        (by simp)
      exact (touch_of_serves ht h).trans (by simpa using hrest)

theorem Rounds.touches {guard : UInt32} {u : Uplink} {clock : TransmitClock} {now : Timestamp}
    {t : Table} {x : Table × Except SendError UInt16} {calls : List Call}
    (h : Rounds guard u clock now t x calls) : Relation.ReflTransGen Table.Touches t x.1 := by
  cases h with
  | declined h => exact .refl
  | served h hhand => exact touches_of_swept h t [] rfl

theorem run_speaks (d : Devices W) (guard : UInt32) (u : Uplink) (clock : TransmitClock)
    (t : Table) :
    Action.Speaks v (run (d.voiced v) guard u clock t) (run d guard u clock t)
      fun x _ => Relation.ReflTransGen Table.Touches t x.1 :=
  .of_at fun w => (run_rounds d guard u clock t w).imp fun _ _ _ h => h.touches

end InstantSend

/-! ## Naps -/

/-- A call to the board alone. -/
inductive Call.ToBoard : Call → Prop where
  | onBattery : ToBoard .onBattery
  | sleepFor (ms : UInt32) : ToBoard (.sleepFor ms)

theorem Sleeper.permitted_speaks (d : Devices W) (s : Sleeper) :
    Action.Speaks v (s.permitted (d.voiced v)) (s.permitted d)
      fun _ calls => ∀ c ∈ calls, c.ToBoard := by
  unfold permitted
  cases s.mode with
  | auto =>
      refine d.onBattery_speaks.bind ?_
      intro battery _ heq
      subst heq
      refine .pure fun c hc => ?_
      rw [List.mem_singleton.mp hc]
      exact .onBattery
  | battery => exact .pure fun c hc => absurd hc List.not_mem_nil
  | plugged => exact .pure fun c hc => absurd hc List.not_mem_nil

/-- A nap leaves a sleeper that knows whether the board slept. -/
theorem Sleeper.rest_speaks (d : Devices W) (s : Sleeper) (sampler : Sampler)
    (clock : TransmitClock) (now : Timestamp) :
    Action.Speaks v (s.rest (d.voiced v) sampler clock now) (s.rest d sampler clock now)
      fun x calls => (∃ slept, x.1 = { s with slept }) ∧ ∀ c ∈ calls, c.ToBoard := by
  unfold rest
  refine (s.permitted_speaks d).bind ?_
  intro allowed calls hcalls
  have hsame : (∃ slept, s = { s with slept }) ∧ ∀ c ∈ calls ++ [], c.ToBoard :=
    ⟨⟨s.slept, rfl⟩, by simpa only [List.append_nil] using hcalls⟩
  split
  · exact .pure hsame
  · split
    · exact .pure hsame
    · next ms _ =>
        simp only []
        split
        case' isTrue => refine .after (d.log_speaks _ _) fun _ => ?_
        all_goals
          refine .after (d.log_speaks _ _) fun _ => ?_
          refine (d.sleepFor_speaks ms).bind ?_
          intro entered _ heq
          subst heq
          refine .pure ⟨⟨entered, rfl⟩, fun c hc => ?_⟩
          rcases List.mem_append.mp hc with h | h
          · exact hcalls c h
          · rw [List.append_nil, List.mem_singleton] at h
            rw [h]
            exact .sleepFor ms

end Telemetry
