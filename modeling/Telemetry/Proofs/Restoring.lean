import Telemetry.Proofs.Slots
import Telemetry.Proofs.Steps

/-!
# Reads on the spot leave the schedule as it was

A read on the spot works on the same measurement as the schedule does, with the
same sensor. It must not be noticed: what has been gathered stays, the counters
of the running period stay, and a sensor that was off is off again. A measurement
whose sensor is at work for the schedule is not read at all, and then not even
the sensor is asked whether it is on.

`Entry.ReadApart` says so for one read, from the world in which it begins to the
world in which it ends, whichever way it ends and however often the sensor had
to be asked. Reads are made by name, by a round of sends outside the schedule
and by a send of one reading; `SpotRead.leaves_schedule_alone` finds the same in
all of them, and nothing but it.
-/

namespace Telemetry

variable {W : Type} {v : Voice}

/-! ## One measurement -/

/-- A measurement is as it was, but for what is known of its sensor's lead time. -/
def Entry.Restored (e e' : Entry) : Prop :=
  ∃ leadTime, e' = e.withTally { e.tally with leadTime }

/-- A call that a read on the spot makes while the sensor of its measurement is on. -/
inductive Call.OfRead (m : Definition) : Call → Prop where
  | start (answer : Reply Unit) : OfRead m (.start m true answer)
  | collectionTime (answer : Option (Reply UInt32)) : OfRead m (.collectionTime m answer)
  | waiting {c : Call} (h : c.OfWait m) : OfRead m c

theorem Entry.ReadTo.restored {e e' : Entry} (h : e.ReadTo e') : e.Restored e' := by
  cases h with
  | refused h => exact ⟨e.tally.leadTime, rfl⟩
  | made h leadTime =>
      refine ⟨leadTime, ?_⟩
      rw [← h]

theorem SpotRead.Acquires.ofRead {m : Definition} {fallback : UInt32} {t : Tally}
    {x : Tally × Except ReadError Reading} {calls : List Call} (h : Acquires m fallback t x calls) :
    ∀ c ∈ calls, c.OfRead m := by
  cases h with
  | busy => exact List.forall_mem_singleton.mpr (.start _)
  | failed cause => exact List.forall_mem_singleton.mpr (.start _)
  | started answer result hcalls =>
      refine List.forall_mem_cons.mpr ⟨.start _, List.forall_mem_cons.mpr ⟨.collectionTime _, ?_⟩⟩
      exact fun c hc => .waiting (hcalls c hc)

/-- One read on the spot, from a world to a world, that the schedule does not notice. -/
structure Entry.ReadApart (d : Devices W) (e : Entry) (w : W)
    (x : Entry × Except ReadError Reading) (w' : W) (calls : List Call) : Prop where
  /-- Where the sensor is at work already, only the log hears of the read. -/
  refused : e.tally.acquiring = true →
    x = (e, .error (.failed .alreadyCollecting)) ∧ calls = [] ∧
      w' = ((d.log.debug ("Measurement " ++ e.name ++ " already being collected.")).run w).2
  /-- Otherwise the measurement is as it was, and so no acquisition is left open. -/
  restored : e.tally.acquiring = false → e.Restored x.1 ∧ x.1.tally.acquiring = false
  /-- The sensor is switched on first and off at last if it was off, and never otherwise. -/
  powered : e.tally.acquiring = false →
    ∃ own, calls = SpotRead.powering e.definition (e.sensorOff d w) own ∧
      ∀ c ∈ own, c.OfRead e.definition

theorem Entry.read_apart (d : Devices W) (fallback : UInt32) (timeout : Option UInt32) (e : Entry)
    (w : W) :
    Action.SpeaksAt v (e.read (d.voiced v) fallback timeout) (e.read d fallback timeout) w
      (e.ReadApart d w) := by
  intro notes
  obtain ⟨calls, hrun, hreads⟩ := e.read_speaksAt d fallback timeout w (v := v) notes
  refine ⟨calls, hrun, fun hacquiring => ?_, fun hfree => ?_, fun hfree => ?_⟩
  · have hrefused : (e.read d fallback timeout).run w =
        ((e, .error (.failed .alreadyCollecting)),
          ((d.log.debug ("Measurement " ++ e.name ++ " already being collected.")).run w).2) := by
      rw [Entry.read, if_pos hacquiring]
      rfl
    refine ⟨congrArg Prod.fst hrefused, ?_, congrArg Prod.snd hrefused⟩
    generalize ((e.read d fallback timeout).run w).1 = x at hreads
    cases hreads with
    | refused h => rfl
    | made h hacquire => exact absurd (hacquiring.symm.trans h) Bool.noConfusion
  · obtain ⟨leadTime, heq⟩ := hreads.readTo.restored
    exact ⟨⟨leadTime, heq⟩, by rw [heq]; exact hfree⟩
  · generalize ((e.read d fallback timeout).run w).1 = x at hreads
    cases hreads with
    | refused h => exact absurd (hfree.symm.trans h) Bool.noConfusion
    | made h hacquire => exact ⟨_, rfl, hacquire.ofRead⟩

/-! ## A measurement of a table -/

/-- The read of a name: one measurement is read apart, and all others stay as they are. -/
inductive Table.ReadApart (d : Devices W) (t : Table) (name : String) (w : W) :
    Table × Except ReadError Reading → W → List Call → Prop where
  | unknown (h : t.locate name = none) :
      ReadApart d t name w (t, .error (.refused .unknownMeasurement)) w []
  | read {i : Nat} {e e' : Entry} {result : Except ReadError Reading} {w' : W} {calls : List Call}
      (h : t.locate name = some (i, e)) (hread : e.ReadApart d w (e', result) w' calls) :
      ReadApart d t name w (t.put i (some e'), result) w' calls

/-- If the name is known, it is the read of its measurement. -/
theorem Table.ReadApart.of_locate {d : Devices W} {t : Table} {name : String} {w w' : W}
    {x : Table × Except ReadError Reading} {calls : List Call} {i : Nat} {e : Entry}
    (h : t.ReadApart d name w x w' calls) (hlocate : t.locate name = some (i, e)) :
    ∃ e', x.1 = t.put i (some e') ∧ e.ReadApart d w (e', x.2) w' calls := by
  cases h with
  | unknown h => cases h.symm.trans hlocate
  | read h hread =>
      cases h.symm.trans hlocate
      exact ⟨_, rfl, hread⟩

theorem Table.read_apart (d : Devices W) (t : Table) (name : String) (timeout : Option UInt32)
    (w : W) :
    Action.SpeaksAt v (t.read (d.voiced v) name timeout) (t.read d name timeout) w
      (t.ReadApart d name w) := by
  unfold Table.read
  split
  · next h => exact .pure (.unknown h)
  · next i e h =>
      refine (e.read_apart d t.fallback timeout w).bind ?_
      intro x w' calls hread
      refine .pure ?_
      rw [List.append_nil]
      exact .read h hread

/-! ## Reads for a frame -/

namespace InstantSend

/-- What serving a measurement comes to: nothing without a request, and otherwise a read of it,
after which only the radio is spoken to. -/
inductive ServesApart (d : Devices W) (e : Entry) (count : UInt16) (w : W) :
    Entry × UInt16 × Bool → W → List Call → Prop where
  | idle (h : e.tally.instantRequested = false) : ServesApart d e count w (e, count, false) w []
  | read {e' : Entry} {result : Except ReadError Reading} {w₁ w' : W} {own more : List Call}
      {count' : UInt16} {stop : Bool} (h : e.tally.instantRequested = true)
      (hread : (unrequested e).ReadApart d w (e', result) w₁ own) (hmore : ∀ c ∈ more, c.OfFrame) :
      ServesApart d e count w (e', count', stop) w' (own ++ more)

theorem ServesApart.of_requested {d : Devices W} {e : Entry} {count : UInt16} {w w' : W}
    {x : Entry × UInt16 × Bool} {calls : List Call} (h : ServesApart d e count w x w' calls)
    (hrequested : e.tally.instantRequested = true) :
    ∃ result w₁ own more, calls = own ++ more ∧
      (unrequested e).ReadApart d w (x.1, result) w₁ own ∧ ∀ c ∈ more, c.OfFrame := by
  cases h with
  | idle h => cases h.symm.trans hrequested
  | read h hread hmore => exact ⟨_, _, _, _, rfl, hread, hmore⟩

theorem serve_apart (d : Devices W) (fallback : UInt32) (e : Entry) (count : UInt16) (w : W) :
    Action.SpeaksAt v (serve (d.voiced v) fallback e count) (serve d fallback e count) w
      (ServesApart d e count w) := by
  unfold serve
  split
  · next h => exact .pure (.idle (by simpa only [Bool.not_eq_true'] using h))
  · next h =>
      have hrequested : e.tally.instantRequested = true := by simpa using h
      refine ((unrequested e).read_apart d fallback none w).bind ?_
      intro x w₁ own hread
      obtain ⟨e', result⟩ := x
      cases result with
      | error cause =>
          exact .after (d.log_speaks _ _)
            (.pure (.read hrequested hread (List.forall_mem_nil _)))
      | ok r =>
          refine (Action.SpeaksAt.of_speaks (d.appendReading_speaks _ r) w₁).bind ?_
          intro answer _ _ hanswer
          obtain ⟨-, -, rfl⟩ := hanswer
          have hframe : ∀ c ∈ [Call.appendReading e'.definition r answer] ++ [], c.OfFrame :=
            List.forall_mem_singleton.mpr (.appendReading _ _ _)
          cases answer with
          | error cause => exact .after (d.log_speaks _ _) (.pure (.read hrequested hread hframe))
          | ok _ => exact .pure (.read hrequested hread hframe)

/-- A round of sends serves requests, and does nothing to any other measurement. -/
theorem Rounds.get?_eq {guard : UInt32} {u : Uplink} {clock : TransmitClock} {now : Timestamp}
    {t : Table} {x : Table × Except SendError UInt16} {calls : List Call}
    (h : Rounds guard u clock now t x calls) (i : Nat) :
    x.1.get? i = t.get? i ∨ ∃ e e', t.get? i = some e ∧ e.tally.instantRequested = true ∧
      x.1.get? i = some e' ∧ (unrequested e).Restored e' := by
  cases h with
  | declined h => exact .inl rfl
  | @served slots count stop outcome calls more h hhand =>
      rcases hi : t.slots[i]? with _ | _ | e
      · have hlen : t.slots.length ≤ i := List.getElem?_eq_none_iff.mp hi
        refine .inl ?_
        rw [Table.get?, Table.get?, hi, List.getElem?_eq_none (by rw [h.length_eq]; exact hlen)]
      · refine .inl ?_
        rw [Table.get?, Table.get?, hi, h.at_hole hi]
      · obtain ⟨e', before, own, after, hi', -, hvisit⟩ := h.at_slot hi
        have hget : t.get? i = some e := Table.get?_eq_some.mpr hi
        have hget' : Table.get? { t with slots } i = some e' := Table.get?_eq_some.mpr hi'
        rw [hget, hget']
        rcases hvisit.visited with ⟨rfl, -⟩ | ⟨s, s', stop', hserve⟩
        · exact .inl rfl
        · cases hserve with
          | idle h => exact .inl rfl
          | unread h hread => exact .inr ⟨e, e', rfl, h, rfl, hread.readTo.restored⟩
          | full h hread cause => exact .inr ⟨e, e', rfl, h, rfl, hread.readTo.restored⟩
          | queued h hread => exact .inr ⟨e, e', rfl, h, rfl, hread.readTo.restored⟩

end InstantSend

/-- The world of a send of one reading once its frame is open. -/
def Devices.frameOpen (d : Devices W) (w : W) : W :=
  (d.radio.openFrame.run (d.radio.ready.run (d.radio.connected.run w).2).2).2

/-- The read for a send of one reading begins once the frame is open, and after it only the radio
is spoken to. -/
theorem Node.sendTest_apart (d : Devices W) (n : Node) (name : String) (w : W) :
    Action.SpeaksAt v (n.sendTest (d.voiced v) name) (n.sendTest d name) w
      fun x _ calls => x.1 = n ∧ (∀ c ∈ calls, c.OfFrame) ∨
        ∃ t result w₁ own more, calls = .openFrame (.ok ()) :: (own ++ more) ∧
          n.table.ReadApart d name (d.frameOpen w) (t, result) w₁ own ∧
          x.1 = { n with table := t } ∧ ∀ c ∈ more, c.OfFrame := by
  unfold sendTest
  refine .after d.connected_speaks ?_
  split
  · exact .after (d.log_speaks _ _) (.pure (.inl ⟨rfl, List.forall_mem_nil _⟩))
  · refine .after d.ready_speaks ?_
    split
    · exact .after (d.log_speaks _ _) (.pure (.inl ⟨rfl, List.forall_mem_nil _⟩))
    · refine (Action.SpeaksAt.of_speaks d.openFrame_speaks _).bind ?_
      intro answer w₀ _ hanswer
      obtain ⟨-, hopen, rfl⟩ := hanswer
      have hworld : w₀ = d.frameOpen w := hopen
      cases answer with
      | error cause =>
          exact .pure (.inl ⟨rfl, List.forall_mem_singleton.mpr (.openFrame _)⟩)
      | ok _ =>
          unfold Node.read
          simp only [bind_assoc, pure_bind]
          rw [hworld]
          refine (n.table.read_apart d name none (d.frameOpen w)).bind ?_
          intro x w₁ own hread
          obtain ⟨t, result⟩ := x
          have hnone : ∀ c ∈ ([] : List Call), c.OfFrame := List.forall_mem_nil _
          simp only []
          split
          · exact .pure (.inr ⟨t, _, w₁, own, [], rfl, hread, rfl, hnone⟩)
          · exact .pure (.inr ⟨t, _, w₁, own, [], rfl, hread, rfl, hnone⟩)
          · refine (Action.SpeaksAt.of_speaks (sendReading_speaks d _ name _) w₁).bind ?_
            intro outcome _ more hmore
            refine .pure (.inr ⟨t, _, w₁, own, more, ?_, hread, rfl, hmore.2.2⟩)
            rw [List.append_nil, List.singleton_append]

/-! ## Everywhere -/

/-- Wherever a measurement is read on the spot, by name, in a round of sends outside the schedule
or for a send of one reading, and whatever its sensor, the radio and the clock do, the read is
refused without a word to the sensor, or it leaves the measurement as it was and its sensor on or
off as it was; and all other measurements stay as they are. -/
theorem SpotRead.leaves_schedule_alone (d : Devices W) (v : Voice) :
    (∀ (t : Table) (name : String) (timeout : Option UInt32) (w : W),
      Action.SpeaksAt v (t.read (d.voiced v) name timeout) (t.read d name timeout) w
        (t.ReadApart d name w)) ∧
    (∀ (fallback : UInt32) (e : Entry) (count : UInt16) (w : W),
      Action.SpeaksAt v (InstantSend.serve (d.voiced v) fallback e count)
        (InstantSend.serve d fallback e count) w (InstantSend.ServesApart d e count w)) ∧
    (∀ (guard : UInt32) (u : Uplink) (clock : TransmitClock) (t : Table),
      Action.Speaks v (InstantSend.run (d.voiced v) guard u clock t)
        (InstantSend.run d guard u clock t)
        fun x _ => ∀ i, x.1.get? i = t.get? i ∨
          ∃ e e', t.get? i = some e ∧ e.tally.instantRequested = true ∧
            x.1.get? i = some e' ∧ (InstantSend.unrequested e).Restored e') ∧
    (∀ (n : Node) (name : String) (w : W),
      Action.SpeaksAt v (n.sendTest (d.voiced v) name) (n.sendTest d name) w
        fun x _ calls => x.1 = n ∧ (∀ c ∈ calls, c.OfFrame) ∨
          ∃ t result w₁ own more, calls = .openFrame (.ok ()) :: (own ++ more) ∧
            n.table.ReadApart d name (d.frameOpen w) (t, result) w₁ own ∧
            x.1 = { n with table := t } ∧ ∀ c ∈ more, c.OfFrame) := by
  refine ⟨?_, ?_, ?_, ?_⟩
  · exact fun t name timeout w => t.read_apart d name timeout w
  · exact fun fallback e count w => InstantSend.serve_apart d fallback e count w
  · exact fun guard u clock t => .of_at fun w =>
      (InstantSend.run_rounds d guard u clock t w).imp fun _ _ _ h i => h.get?_eq i
  · exact fun n name w => n.sendTest_apart d name w

/-! ## A read that runs out of time -/

/-- Devices whose sensor can be switched and is never done, in a world that is
the time and whether the sensor is on. -/
def Devices.stuck : Devices (Timestamp × Bool) :=
  let rest := (Devices.obliging 600).through Part.first
  { rest with
    sensors := { rest.sensors with
      poll := fun _ => pure .busy
      power := fun _ on => Action.change fun w => (w.1, on)
      powered := fun _ => Action.look fun w => some w.2 }
    board := { spin := Action.change fun w => (w.1 + 300, w.2) } }

/-- In the middle of a period, with a frame unanswered and a request. -/
def Entry.engaged : Entry where
  definition := ⟨"A", .custom0, 1, 4, false⟩
  tally := {
    summary := .integer 3 1 2
    samples := 2
    started := 2
    finished := 2
    awaitsAck := true
    instantRequested := true }

/-- The sensor is switched on, asked three times, and off again, and the
measurement is as it was. -/
theorem SpotRead.leaves_schedule_alone_stuck :
    let e := Entry.engaged
    let t : Table := { slots := [some e] }
    let x := (t.read (Devices.stuck.voiced .aside) "A" none).run ((0, false), [])
    let y := (InstantSend.serve (Devices.stuck.voiced .aside) 1000 e 0).run ((0, false), [])
    x.1.2 = .error .timedOut ∧ x.2.1 = (600, false) ∧
      (∃ e' own, x.1.1.get? 0 = some e' ∧ e.Restored e' ∧ e'.tally.acquiring = false ∧
        x.2.2 = Voice.aside.notes
          (.power e.definition true :: (own ++ [.power e.definition false])) ∧
        (∀ c ∈ own, c.OfRead e.definition) ∧ own.length = 7) ∧
      y.1.2 = (0, false) ∧ (InstantSend.unrequested e).Restored y.1.1 := by
  intro e t x y
  obtain ⟨hnamed, hserved, -, -⟩ := leaves_schedule_alone Devices.stuck .aside
  obtain ⟨calls, hrun, hread⟩ := hnamed t "A" none (0, false) []
  obtain ⟨calls', hrun', hserve⟩ := hserved 1000 e 0 (0, false) []
  have hlength : x.2.2.length = 9 := by decide +kernel
  have hplace : t.locate "A" = some (0, e) := rfl
  obtain ⟨e', hput, hapart⟩ := hread.of_locate hplace
  obtain ⟨own, hcalls, hown⟩ := hapart.powered rfl
  have hoff : e.sensorOff Devices.stuck (0, false) = true := rfl
  rw [hoff] at hcalls
  obtain ⟨_, _, _, _, -, hserved, -⟩ := hserve.of_requested rfl
  have hcause : (match x.1.2 with | .ok _ => none | .error cause => some cause) =
      some ReadError.timedOut := by decide +kernel
  have hlate : x.1.2 = .error .timedOut := by
    generalize x.1.2 = result at hcause
    cases result with
    | ok r => cases hcause
    | error cause => rw [Option.some.inj hcause]
  refine ⟨hlate, by decide +kernel, ⟨e', own, ?_, (hapart.restored rfl).1, (hapart.restored rfl).2,
    ?_, hown, ?_⟩, by decide +kernel, ?_⟩
  · show ((t.read (Devices.stuck.voiced .aside) "A" none).run ((0, false), [])).1.1.get? 0 = _
    rw [hrun, hput]
    rfl
  · show ((t.read (Devices.stuck.voiced .aside) "A" none).run ((0, false), [])).2.2 = _
    rw [hrun, hcalls]
    rfl
  · rw [show x.2.2 = _ from congrArg (·.2.2) hrun, hcalls] at hlength
    simpa [SpotRead.powering, Voice.notes] using hlength
  · show (InstantSend.unrequested e).Restored
      ((InstantSend.serve (Devices.stuck.voiced .aside) 1000 e 0).run ((0, false), [])).1.1
    rw [hrun']
    exact (hserved.restored rfl).1

end Telemetry
