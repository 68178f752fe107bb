import Telemetry.Proofs.Slots

/-!
# What one frame takes

A frame is filled from a stretch of the table that begins at the cursor. It
takes the measurements that are due and have samples, in slot order, and stops
at the first that does not fit; so the stretch falls into a part the frame has
passed and a rest it has not touched (`Appends.passes_stretch`). A good answer
walks the passed part once more (`Settles.answers_stretch`). Together they leave
every due measurement of that part reset and waiting for nothing.

All of this is about lists of slots. `Sends.frame` puts them back into the
table: if the slots fall into what lies before the cursor, a stretch up to the
capacity, and what lies beyond, then so they do after the send, and the next
cursor is where the rest of the stretch begins.
-/

namespace Telemetry

/-! ## Measurements in a cycle -/

namespace Entry

/-- Due, and with something to send. -/
def ready (count : UInt32) (e : Entry) : Bool := e.definition.due count && e.tally.samples != 0

/-- Due, and its sensor is told of a good answer: the measurement is in the
frame, or has been waiting since an earlier one. -/
def told (count : UInt32) (e : Entry) : Bool :=
  e.definition.due count && (e.tally.samples != 0 || e.tally.awaitsAck)

/-- Due, and waiting for an answer. -/
def awaits (count : UInt32) (e : Entry) : Bool := e.definition.due count && e.tally.awaitsAck

/-- The measurement once a frame has passed it. -/
def passed (count : UInt32) (e : Entry) : Entry :=
  if e.ready count then e.withTally { e.tally.reset with awaitsAck := true }
  else if e.definition.due count then e.withTally e.tally.resetCounters
  else e

/-- The measurement once the frame that has passed it is answered. -/
def answered (count : UInt32) (e : Entry) : Entry :=
  if e.awaits count = true then e.settled else e

/-- The measurement after a whole cycle. -/
def cycled (count : UInt32) (e : Entry) : Entry :=
  if e.ready count then e.withTally { e.tally.reset with awaitsAck := false }
  else if e.definition.due count then e.withTally { e.tally.resetCounters with awaitsAck := false }
  else e

/-- The call by which a frame takes the measurement. -/
def appended (e : Entry) : Call := .append e.definition e.tally (.ok ())

def acked (e : Entry) : Call := .delivered e.definition

theorem due_of_ready {count : UInt32} {e : Entry} (h : e.ready count = true) :
    e.definition.due count = true ∧ e.tally.samples ≠ 0 := by
  obtain ⟨hdue, hs⟩ := Bool.and_eq_true_iff.mp h
  exact ⟨hdue, by simpa only [bne_iff_ne] using hs⟩

theorem ready_of_due {count : UInt32} {e : Entry} (hdue : e.definition.due count = true)
    (hs : e.tally.samples ≠ 0) : e.ready count = true := by
  rw [ready, hdue, Bool.true_and, bne_iff_ne]
  exact hs

theorem not_ready_of_idle {count : UInt32} {e : Entry} (h : e.definition.due count = false) :
    e.ready count = false := by
  rw [ready, h, Bool.false_and]

theorem not_ready_of_unsampled {count : UInt32} {e : Entry} (h : e.tally.samples = 0) :
    e.ready count = false := by
  rw [ready, h, bne_self_eq_false, Bool.and_false]

theorem passed_definition (count : UInt32) (e : Entry) :
    (e.passed count).definition = e.definition := by
  unfold passed
  split
  · rfl
  · split <;> rfl

/-- A measurement that a frame has passed waits for an answer if its sensor is to be told. -/
theorem awaits_passed (count : UInt32) (e : Entry) :
    (e.passed count).awaits count = e.told count := by
  unfold awaits
  rw [passed_definition]
  unfold passed told
  by_cases hready : e.ready count = true
  · obtain ⟨hdue, hs⟩ := due_of_ready hready
    rw [if_pos hready, hdue, bne_iff_ne.mpr hs]
    rfl
  · rw [if_neg hready]
    by_cases hdue : e.definition.due count = true
    · have hs : (e.tally.samples != 0) = false := by
        rw [ready, hdue, Bool.true_and] at hready
        simpa only [Bool.not_eq_true] using hready
      rw [if_pos hdue, hs, Bool.false_or]
      rfl
    · rw [if_neg hdue, Bool.eq_false_iff.mpr hdue, Bool.false_and, Bool.false_and]

theorem answered_passed (count : UInt32) (e : Entry) :
    (e.passed count).answered count = e.cycled count := by
  unfold answered awaits
  rw [passed_definition]
  unfold passed cycled
  by_cases hready : e.ready count = true
  · rw [if_pos hready, if_pos hready, (due_of_ready hready).1]
    rfl
  · rw [if_neg hready, if_neg hready]
    by_cases hdue : e.definition.due count = true
    · rw [if_pos hdue, if_pos hdue, hdue, Bool.true_and]
      split
      · rfl
      · next hwaits =>
          have hnot : e.tally.awaitsAck = false := Bool.eq_false_iff.mpr hwaits
          rw [Tally.resetCounters, ← hnot]
    · rw [if_neg hdue, if_neg hdue, if_neg]
      rw [Bool.and_eq_true]
      exact fun h => hdue h.1

end Entry

/-! ## Stretches of slots -/

namespace Slot

/-- The measurements of a stretch that a frame takes. -/
def ready (count : UInt32) (slots : List Slot) : List Entry :=
  slots.filterMap (·.filter (·.ready count))

/-- The measurements of a stretch whose sensors are told. -/
def told (count : UInt32) (slots : List Slot) : List Entry :=
  slots.filterMap (·.filter (·.told count))

/-- The measurements of a stretch that wait for an answer. -/
def awaiting (count : UInt32) (slots : List Slot) : List Entry :=
  slots.filterMap (·.filter (·.awaits count))

/-- The stretch once a frame has passed it. -/
def passed (count : UInt32) (slots : List Slot) : List Slot :=
  slots.map (Option.map (·.passed count))

/-- The stretch once the frame is answered. -/
def answered (count : UInt32) (slots : List Slot) : List Slot :=
  slots.map (Option.map (·.answered count))

/-- The stretch after a whole cycle. -/
def cycled (count : UInt32) (slots : List Slot) : List Slot :=
  slots.map (Option.map (·.cycled count))

theorem cycled_append (count : UInt32) (slots more : List Slot) :
    cycled count (slots ++ more) = cycled count slots ++ cycled count more := List.map_append

theorem answered_passed (count : UInt32) (slots : List Slot) :
    answered count (passed count slots) = cycled count slots := by
  simp only [answered, passed, cycled, List.map_map]
  refine List.map_congr_left fun slot _ => ?_
  cases slot with
  | none => rfl
  | some e => exact congrArg some (e.answered_passed count)

theorem filter_cons (p : Entry → Bool) (e : Entry) (rest : List Slot) :
    (some e :: rest).filterMap (·.filter p) =
      if p e = true then e :: rest.filterMap (·.filter p) else rest.filterMap (·.filter p) := by
  rw [List.filterMap_cons]
  by_cases h : p e = true
  · rw [if_pos h, Option.filter_some_pos h]
  · rw [if_neg h, Option.filter_some_neg (Bool.eq_false_iff.mpr h)]

theorem mem_filter {slots : List Slot} {p : Entry → Bool} {e : Entry} :
    e ∈ slots.filterMap (·.filter p) ↔ some e ∈ slots ∧ p e = true := by
  rw [List.mem_filterMap]
  constructor
  · rintro ⟨slot, hslot, hfilter⟩
    obtain ⟨rfl, hp⟩ := Option.filter_eq_some_iff.mp hfilter
    exact ⟨hslot, hp⟩
  · rintro ⟨hslot, hp⟩
    exact ⟨some e, hslot, Option.filter_some_pos hp⟩

/-- The sensors of a stretch that a frame has passed. -/
theorem acked_awaiting_passed (count : UInt32) (slots : List Slot) :
    (awaiting count (passed count slots)).map Entry.acked =
      (told count slots).map Entry.acked := by
  induction slots with
  | nil => rfl
  | cons slot rest ih =>
      cases slot with
      | none => exact ih
      | some e =>
          have hpassed : passed count (some e :: rest) =
              some (e.passed count) :: passed count rest := rfl
          have hacked : (e.passed count).acked = e.acked := by
            rw [Entry.acked, Entry.passed_definition, Entry.acked]
          rw [hpassed, awaiting, filter_cons, e.awaits_passed, told, filter_cons]
          by_cases h : e.told count = true
          · rw [if_pos h, if_pos h, List.map_cons, List.map_cons, hacked]
            exact congrArg _ ih
          · rw [if_neg h, if_neg h]
            exact ih

theorem ready_cons (count : UInt32) (e : Entry) (rest : List Slot) :
    ready count (some e :: rest) =
      if e.ready count = true then e :: ready count rest else ready count rest :=
  filter_cons _ e rest

theorem ready_append (count : UInt32) (slots more : List Slot) :
    ready count (slots ++ more) = ready count slots ++ ready count more := List.filterMap_append

end Slot

namespace Outgoing

/-! ## Walks -/

/-- How a walk over a stretch ends: with nothing left, or at a measurement that
does not fit, which begins the rest. -/
inductive WalkEnds (count : UInt32) (position : Nat) : List Slot → Option Nat → List Call → Prop where
  | through : WalkEnds count position [] none []
  | full {e : Entry} (rest : List Slot) (cause : FrameError) (h : e.ready count = true) :
      WalkEnds count position (some e :: rest) (some position)
        [.append e.definition e.tally (.error cause)]

theorem WalkEnds.succ {count : UInt32} {position : Nat} {rest : List Slot} {stop : Option Nat}
    {calls : List Call} (h : WalkEnds count position rest stop calls) :
    WalkEnds count (position + 1) rest (stop.map (· + 1)) calls := by
  cases h with
  | through => exact .through
  | full rest cause h => exact .full rest cause h

/-- A visit that does not end the walk passes the measurement, and takes it if
it is ready. -/
theorem Appends.passes {count : UInt32} {e e' : Entry} {s s' : UInt16 × UplinkStats}
    {calls : List Call} (h : Appends count e s (e', s', false) calls) :
    e' = e.passed count ∧ calls = (if e.ready count = true then [e.appended] else []) ∧
      s'.1.toNat = min (s.1.toNat + if e.ready count = true then 1 else 0) (UInt16.size - 1) := by
  have hword := s.1.toNat_lt
  cases h with
  | idle h =>
      rw [Entry.passed, Entry.not_ready_of_idle h, h]
      refine ⟨rfl, rfl, ?_⟩
      simp only [Bool.false_eq_true, ↓reduceIte, Nat.add_zero, UInt16.size]
      omega
  | unsampled h hs =>
      rw [Entry.passed, Entry.not_ready_of_unsampled hs, h]
      refine ⟨rfl, rfl, ?_⟩
      simp only [Bool.false_eq_true, ↓reduceIte, Nat.add_zero, UInt16.size]
      omega
  | accepted h hs =>
      rw [Entry.passed, Entry.ready_of_due h hs]
      exact ⟨rfl, rfl, Saturating.toNat_succ16 s.1⟩

theorem Appends.full {count : UInt32} {e e' : Entry} {s s' : UInt16 × UplinkStats}
    {calls : List Call} (h : Appends count e s (e', s', true) calls) :
    e' = e ∧ s' = s ∧ e.ready count = true ∧
      ∃ cause, calls = [.append e.definition e.tally (.error cause)] := by
  cases h with
  | refused h hs cause => exact ⟨rfl, rfl, Entry.ready_of_due h hs, cause, rfl⟩

/-- A walk passes a part of the stretch, from which it takes what is ready, and
leaves the rest. -/
theorem Appends.passes_stretch {count : UInt32} {slots : List Slot} {s : UInt16 × UplinkStats}
    {x : List Slot × (UInt16 × UplinkStats) × Option Nat} {calls : List Call}
    (h : Slot.Swept (Appends count) slots s x calls) :
    ∃ pre rest more, slots = pre ++ rest ∧ x.1 = Slot.passed count pre ++ rest ∧
      x.2.1.1.toNat = min (s.1.toNat + (Slot.ready count pre).length) (UInt16.size - 1) ∧
      calls = (Slot.ready count pre).map Entry.appended ++ more ∧
      WalkEnds count pre.length rest x.2.2 more := by
  induction h with
  | nil s =>
      have hword := s.1.toNat_lt
      refine ⟨[], [], [], rfl, rfl, ?_, rfl, .through⟩
      simp only [Slot.ready, List.filterMap_nil, List.length_nil, UInt16.size]
      omega
  | hole h ih =>
      obtain ⟨pre, rest, more, rfl, hx, hs, hcalls, hends⟩ := ih
      exact ⟨none :: pre, rest, more, rfl, congrArg (none :: ·) hx, hs, hcalls, hends.succ⟩
  | @stop e e' rest s s' calls h =>
      obtain ⟨rfl, rfl, hready, cause, rfl⟩ := h.full
      have hword := s'.1.toNat_lt
      refine ⟨[], some e' :: rest, _, rfl, rfl, ?_, rfl, .full rest cause hready⟩
      simp only [Slot.ready, List.filterMap_nil, List.length_nil, UInt16.size]
      omega
  | @next e e' rest rest' s s' s'' stop calls more h hrest ih =>
      obtain ⟨rfl, rfl, hs'⟩ := h.passes
      obtain ⟨pre, left, last, rfl, hx, hs, hcalls, hends⟩ := ih
      refine ⟨some e :: pre, left, last, rfl, congrArg (some (e.passed count) :: ·) hx, ?_, ?_,
        hends.succ⟩
      · rw [hs, hs', Slot.ready_cons]
        generalize UInt16.size - 1 = most
        by_cases hready : e.ready count = true
        · rw [if_pos hready, if_pos hready, List.length_cons]
          omega
        · rw [if_neg hready, if_neg hready]
          omega
      · rw [hcalls, Slot.ready_cons]
        by_cases hready : e.ready count = true
        · rw [if_pos hready, if_pos hready]
          rfl
        · rw [if_neg hready, if_neg hready]
          rfl

/-- A good answer settles what the frame has passed, and tells the sensors. -/
theorem Settles.answers {count : UInt32} {e e' : Entry} {s s' : Unit} {calls : List Call}
    (h : Settles count e s (e', s') calls) :
    e' = e.answered count ∧
      calls = if e.awaits count = true then [e.acked] else [] := by
  cases h with
  | idle h =>
      rw [Entry.answered, Entry.awaits, h]
      exact ⟨rfl, rfl⟩
  | settled h hwaits =>
      rw [Entry.answered, Entry.awaits, h, hwaits]
      exact ⟨rfl, rfl⟩

theorem Settles.answers_stretch {count : UInt32} {slots : List Slot} {s : Unit}
    {x : List Slot × Unit × Option Nat} {calls : List Call}
    (h : Slot.Swept (Slot.Through (Settles count)) slots s x calls) :
    x.1 = Slot.answered count slots ∧ calls = (Slot.awaiting count slots).map Entry.acked := by
  induction h with
  | nil s => exact ⟨rfl, rfl⟩
  | hole h ih => exact ⟨congrArg (none :: ·) ih.1, ih.2⟩
  | stop h => cases h.1
  | @next e e' rest rest' s s' s'' stop calls more h hrest ih =>
      obtain ⟨rfl, rfl⟩ := h.2.answers
      refine ⟨congrArg (some (e.answered count) :: ·) ih.1, ?_⟩
      rw [ih.2, Slot.awaiting, Slot.awaiting, Slot.filter_cons]
      by_cases hwaits : e.awaits count = true
      · rw [if_pos hwaits, if_pos hwaits]
        rfl
      · rw [if_neg hwaits, if_neg hwaits]
        rfl

/-- What a good answer makes of a stretch that a frame has passed. -/
theorem Settles.answers_passed {count : UInt32} {pre : List Slot} {s : Unit}
    {x : List Slot × Unit × Option Nat} {calls : List Call}
    (h : Slot.Swept (Slot.Through (Settles count)) (Slot.passed count pre) s x calls) :
    x.1 = Slot.cycled count pre ∧ calls = (Slot.told count pre).map Entry.acked := by
  obtain ⟨hslots, hcalls⟩ := Settles.answers_stretch h
  exact ⟨hslots.trans (Slot.answered_passed count pre),
    hcalls.trans (Slot.acked_awaiting_passed count pre)⟩

end Outgoing

/-! ## Back in the table -/

namespace Table

/-- A table of which a part stands in a window. -/
theorem window_append {t : Table} {before part beyond : List Slot} {hi : Nat}
    (hslots : t.slots = before ++ (part ++ beyond))
    (hbound : before.length + part.length = min hi t.slots.length) :
    t.window before.length hi = part := by
  have hlen : t.slots.length = before.length + (part.length + beyond.length) := by
    rw [hslots, List.length_append, List.length_append]
  rw [window, hslots, List.drop_left]
  by_cases h : hi ≤ t.slots.length
  · rw [show hi - before.length = part.length by omega, List.take_left]
  · have hnil : beyond = [] := List.length_eq_zero_iff.mp (by omega)
    rw [hnil, List.append_nil]
    exact List.take_of_length_le (by omega)

theorem withWindow_append {t : Table} {before part part' beyond : List Slot}
    (hslots : t.slots = before ++ (part ++ beyond)) (hlen : part'.length = part.length) :
    (t.withWindow before.length part').slots = before ++ (part' ++ beyond) := by
  rw [withWindow, hslots, List.take_left, hlen, ← List.append_assoc before part,
    ← List.length_append, List.drop_left, List.append_assoc]

end Table

/-- The number of measurements in a frame, as far as it is counted. -/
def frameSize (frame : List Entry) : UInt16 := UInt16.ofNat (min frame.length (UInt16.size - 1))

theorem eq_frameSize {frame : List Entry} {queued : UInt16}
    (h : queued.toNat = min frame.length (UInt16.size - 1)) : queued = frameSize frame := by
  rw [frameSize, ← h, UInt16.ofNat_toNat]

theorem queued_eq_zero_iff {frame : List Entry} {queued : UInt16}
    (h : queued.toNat = min frame.length (UInt16.size - 1)) : queued = 0 ↔ frame = [] := by
  rw [← UInt16.toNat_inj, h, UInt16.toNat_zero, ← List.length_eq_zero_iff]
  simp only [UInt16.size]
  omega

namespace Outgoing

/-- What is still to be sent: the slots fall into what lies before the cursor,
a stretch up to the capacity, and what lies beyond. A cycle that goes on does so
at a measurement that is ready. -/
structure Faces (o : Outgoing) (count : UInt32) (before todo beyond : List Slot) : Prop where
  clock : o.clock.count = count
  slots : o.table.slots = before ++ (todo ++ beyond)
  bound : before.length + todo.length = min o.uplink.capacity o.table.slots.length
  start : o.uplink.start = before.length
  resumes : o.uplink.pending = true →
    ∃ e rest, todo = some e :: rest ∧ e.ready count = true

/-- The same stretch once a frame has passed a part of it. -/
structure Leaves (o : Outgoing) (count : UInt32) (before pre rest beyond : List Slot) : Prop where
  clock : o.clock.count = count
  slots : o.table.slots = before ++ (Slot.passed count pre ++ (rest ++ beyond))
  bound : before.length + (pre.length + rest.length) =
    min o.uplink.capacity o.table.slots.length
  previous : o.uplink.previous = before.length
  cursor : o.uplink.cursor = if rest = [] then o.uplink.capacity else before.length + pre.length

theorem Fills.leaves {o o₁ : Outgoing} {count : UInt32} {before todo beyond : List Slot}
    {queued : UInt16} {complete : Bool} {calls : List Call}
    (h : Fills o (o₁, queued, complete) calls) (hfaces : o.Faces count before todo beyond) :
    ∃ pre rest more, todo = pre ++ rest ∧ o₁.Leaves count before pre rest beyond ∧
      queued.toNat = min (Slot.ready count pre).length (UInt16.size - 1) ∧
      complete = rest.isEmpty ∧ o₁.uplink.pending = o.uplink.pending ∧
      calls = (Slot.ready count pre).map Entry.appended ++ more ∧
      ∃ stop, WalkEnds count pre.length rest stop more := by
  cases h with
  | @walked slots s stop _ h =>
      have hwindow : o.table.window o.uplink.start o.uplink.capacity = todo := by
        rw [hfaces.start]
        exact Table.window_append hfaces.slots hfaces.bound
      rw [hwindow, hfaces.clock] at h
      obtain ⟨pre, rest, more, rfl, hx, hqueued, hcalls, hends⟩ := Appends.passes_stretch h
      rw [UInt16.toNat_zero, Nat.zero_add] at hqueued
      have hlen : slots.length = (pre ++ rest).length := h.length_eq
      have hpassed : slots = Slot.passed count pre ++ rest := hx
      subst hpassed
      have hslots := Table.withWindow_append hfaces.slots hlen
      have hbound := hfaces.bound
      have hsame : (o.table.withWindow before.length (Slot.passed count pre ++ rest)).slots.length =
          o.table.slots.length := by
        rw [hslots, hfaces.slots]
        simp only [List.length_append] at hlen ⊢
        rw [hlen]
      rw [List.length_append] at hbound
      rw [List.append_assoc] at hslots
      refine ⟨pre, rest, more, rfl, ⟨hfaces.clock, ?_, ?_, hfaces.start, ?_⟩, hqueued, ?_, rfl,
        hcalls, stop, hends⟩
      · show (o.table.withWindow o.uplink.start _).slots = _
        rw [hfaces.start]
        exact hslots
      · show _ = min _ (o.table.withWindow o.uplink.start _).slots.length
        rw [hfaces.start, hsame]
        exact hbound
      · show stop.elim o.uplink.capacity (o.uplink.start + ·) = _
        rw [hfaces.start]
        cases hends with
        | through => rfl
        | full rest cause h => rfl
      · cases hends with
        | through => rfl
        | full rest cause h => rfl

/-- No cycle is under way. -/
structure Idle (o : Outgoing) : Prop where
  pending : o.uplink.pending = false
  start : o.uplink.start = 0

theorem Idle.faces {o : Outgoing} (h : o.Idle) :
    o.Faces o.clock.count [] (o.table.slots.take o.uplink.capacity)
      (o.table.slots.drop o.uplink.capacity) := by
  refine ⟨rfl, (List.take_append_drop _ _).symm, ?_, h.start, fun hgo => ?_⟩
  · rw [List.length_nil, Nat.zero_add, List.length_take]
  · rw [h.pending] at hgo
    cases hgo

theorem Faces.online {o : Outgoing} {count : UInt32} {before todo beyond : List Slot}
    (h : o.Faces count before todo beyond) : o.online.Faces count before todo beyond :=
  ⟨h.clock, h.slots, h.bound, h.start, h.resumes⟩

/-- With nothing to send no cycle is under way. -/
theorem Faces.idle_of_none {o : Outgoing} {count : UInt32} {before todo beyond : List Slot}
    (h : o.Faces count before todo beyond) (hnone : Slot.ready count todo = []) :
    o.uplink.pending = false := by
  refine Bool.eq_false_iff.mpr fun hgo => ?_
  obtain ⟨e, rest, heq, he⟩ := h.resumes hgo
  rw [heq, Slot.ready_cons, if_pos he] at hnone
  cases hnone

theorem Leaves.ticked {o : Outgoing} {count : UInt32} {before pre rest beyond : List Slot}
    (h : o.Leaves count before pre rest beyond) (now : Timestamp) :
    (o.ticked now).Leaves count before pre rest beyond := by
  rw [Outgoing.ticked]
  split
  · exact h
  · exact ⟨h.clock, h.slots, h.bound, h.previous, h.cursor⟩

/-! ## Sends over a steady link -/

/-- What a send comes to if there is a link, the radio is ready and takes the
frame, and does not refuse the first measurement of any. -/
inductive Steadily : Outgoing × SendOutcome → Prop where
  | nothing {o : Outgoing} (h : o.uplink.cursor = o.uplink.capacity) : Steadily (o, .nothingQueued)
  | complete {o : Outgoing} (queued : UInt16) : Steadily (o, .complete queued)
  | fragment {o : Outgoing} (queued : UInt16) : Steadily (o, .fragment queued)

/-- One frame of a cycle, with the part of the stretch it has passed, the rest,
and the calls. -/
inductive Dispatches (count : UInt32) (pre : List Slot) :
    List Slot → SendOutcome → List Call → Prop where
  | nothing (h : Slot.ready count pre = []) :
      Dispatches count pre [] .nothingQueued [.openFrame (.ok ())]
  | complete (h : Slot.ready count pre ≠ []) :
      Dispatches count pre [] (.complete (frameSize (Slot.ready count pre)))
        (.openFrame (.ok ()) :: ((Slot.ready count pre).map Entry.appended ++ [.send (.ok ())]))
  | fragment {e : Entry} (rest : List Slot) (cause : FrameError)
      (h : Slot.ready count pre ≠ []) (he : e.ready count = true) :
      Dispatches count pre (some e :: rest) (.fragment (frameSize (Slot.ready count pre)))
        (.openFrame (.ok ()) :: ((Slot.ready count pre).map Entry.appended ++
          [.append e.definition e.tally (.error cause), .send (.ok ())]))

theorem Sends.dispatches {o : Outgoing} {now : Timestamp} {x : Outgoing × SendOutcome}
    {count : UInt32} {before todo beyond : List Slot} {calls : List Call}
    (h : Sends o now x calls) (hsteady : Steadily x) (hfaces : o.Faces count before todo beyond) :
    ∃ pre rest, todo = pre ++ rest ∧ Dispatches count pre rest x.2 calls ∧
      x.1.Leaves count before pre rest beyond ∧ x.1.uplink.pending = !rest.isEmpty := by
  cases h with
  | stillOffline | lostLink | deferred | timedOut | stillPending | newlyPending | initFailed =>
      cases hsteady
  | @nothing o₁ queued complete calls hfill h =>
      obtain ⟨pre, rest, more, rfl, hleaves, hqueued, -, hpending, rfl, stop, hends⟩ :=
        hfill.leaves hfaces.online
      have hnone : Slot.ready count pre = [] := (queued_eq_zero_iff hqueued).mp h
      cases hends with
      | through =>
          have hidle : o.uplink.pending = false :=
            hfaces.idle_of_none (by rw [List.append_nil, hnone])
          rw [hnone]
          refine ⟨pre, [], rfl, .nothing hnone, hleaves.ticked now, ?_⟩
          rw [ticked]
          split
          · exact hpending.trans hidle
          · exact hpending.trans hidle
      | full rest cause he =>
          cases hsteady with
          | nothing hcursor =>
              have hleaves := hleaves.ticked now
              rw [hleaves.cursor] at hcursor
              have hbound := hleaves.bound
              simp only [List.cons_ne_nil, ↓reduceIte] at hcursor
              rw [List.length_cons] at hbound
              omega
  | @handed o₁ queued complete calls more x hfill h hhand =>
      obtain ⟨pre, rest, last, rfl, hleaves, hqueued, hcomplete, -, rfl, stop, hends⟩ :=
        hfill.leaves hfaces.online
      have hsome : Slot.ready count pre ≠ [] := fun hnone => h ((queued_eq_zero_iff hqueued).mpr hnone)
      have hleaves := hleaves.ticked now
      rw [eq_frameSize hqueued] at hhand
      refine ⟨pre, rest, rfl, ?_⟩
      cases hends with
      | through =>
          cases hhand with
          | failed cause => cases hsteady
          | part hpart => rw [hcomplete] at hpart; cases hpart
          | last hlast =>
              rw [List.append_nil]
              refine ⟨.complete hsome, ⟨hleaves.clock, hleaves.slots, hleaves.bound,
                hleaves.previous, hleaves.cursor⟩, ?_⟩
              exact congrArg (!·) hlast
      | full rest cause he =>
          cases hhand with
          | failed cause => cases hsteady
          | last hlast => rw [hcomplete] at hlast; cases hlast
          | part hpart =>
              rw [List.append_assoc]
              refine ⟨.fragment rest cause hsome he, ⟨hleaves.clock, hleaves.slots, hleaves.bound,
                hleaves.previous, hleaves.cursor⟩, ?_⟩
              exact congrArg (!·) hpart

end Outgoing

end Telemetry
