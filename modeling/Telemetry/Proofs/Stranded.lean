import Telemetry.Proofs.Resuming

/-!
# Cursors left behind

Between two requests an uplink remembers where its cursor stands and whether a
send is pending. Both are latches, and an outcome that sets or clears one of
them need not touch the other:

```text
                      cursor inside the table     send pending
  fragment            set                         set
  nothing queued      set, if the first           as it was
                      misfit is not in slot 0
  pending             as it was                   set
  deferred            as it was                   as it was
  frame not opened    as it was                   cleared
  all others          cleared                     cleared
```

So the cursor can stand inside the table with nothing pending. `Since` reads a
latch off the outcomes so far, and the main theorem names the outcomes that
strand the cursor. What it costs is seen at the next frame, which takes what is
ready from the cursor on and passes over what stands before it.

Nothing is assumed of the tables here: every request may come with another one.
-/

namespace Telemetry

variable {W α : Type}

/-! ## Latches -/

/-- Something of one kind has happened, and after it only things of another. -/
def Since (sets keeps : α → Prop) (past : List α) : Prop :=
  ∃ before x after, past = before ++ x :: after ∧ sets x ∧ ∀ y ∈ after, keeps y

theorem not_since_nil {sets keeps : α → Prop} : ¬ Since sets keeps [] := by
  rintro ⟨before, x, after, heq, -⟩
  simp at heq

theorem since_concat {sets keeps : α → Prop} {past : List α} {x : α} :
    Since sets keeps (past ++ [x]) ↔ sets x ∨ keeps x ∧ Since sets keeps past := by
  constructor
  · rintro ⟨before, y, after, heq, hsets, hkeeps⟩
    rcases List.eq_nil_or_concat after with rfl | ⟨after, z, rfl⟩
    · obtain ⟨-, heq⟩ := List.append_inj' heq rfl
      cases heq
      exact .inl hsets
    · have hsplit : past ++ [x] = (before ++ y :: after) ++ [z] := by simpa using heq
      obtain ⟨rfl, hlast⟩ := List.append_inj' hsplit rfl
      cases hlast
      exact .inr ⟨hkeeps x (by simp), before, y, after, rfl, hsets,
        fun z hz => hkeeps z (by simp [hz])⟩
  · rintro (hsets | ⟨hx, before, y, after, rfl, hsets, hkeeps⟩)
    · exact ⟨past, x, [], rfl, hsets, by simp⟩
    · refine ⟨before, y, after ++ [x], by simp, hsets, fun z hz => ?_⟩
      rcases List.mem_append.mp hz with hz | hz
      · exact hkeeps z hz
      · rwa [List.mem_singleton.mp hz]

/-! ## Frames that are refused a measurement -/

theorem Slot.not_ready_of_mem {count : UInt32} {slots : List Slot} {e : Entry}
    (h : Slot.ready count slots = []) (he : some e ∈ slots) : e.ready count = false := by
  have hnone := List.filterMap_eq_nil_iff.mp h _ he
  simpa using hnone

namespace Outgoing

variable {o o' : Outgoing} {now : Timestamp} {calls : List Call}

/-- The first ready measurement of a frame does not fit, and where it stands. -/
structure Misfits (o : Outgoing) (notes : List Note) (i : Nat) : Prop where
  reached : o.uplink.start ≤ i
  refused : ∃ e t cause, o.table.get? i = some e ∧ e.ready o.clock.count = true ∧
    .call .schedule (.append e.definition t (.error cause)) ∈ notes
  first : ∀ j e, o.uplink.start ≤ j → j < i → o.table.get? j = some e →
    e.ready o.clock.count = false

/-- There is only one such slot, however often the notes tell of it. -/
theorem Misfits.unique {notes more : List Note} {i j : Nat} (hi : o.Misfits notes i)
    (hj : o.Misfits more j) : i = j := by
  obtain ⟨e, -, -, he, hready, -⟩ := hi.refused
  obtain ⟨e', -, -, he', hready', -⟩ := hj.refused
  rcases Nat.lt_trichotomy i j with hlt | heq | hlt
  · exact absurd (hj.first i e hi.reached hlt he) (by simp [hready])
  · exact heq
  · exact absurd (hi.first j e' hj.reached hlt he') (by simp [hready'])

theorem Misfits.imp {notes more : List Note} {i : Nat} (h : o.Misfits notes i)
    (hmore : ∀ note ∈ notes, note ∈ more) : o.Misfits more i where
  reached := h.reached
  refused := by
    obtain ⟨e, t, cause, he, hready, hmem⟩ := h.refused
    exact ⟨e, t, cause, he, hready, hmore _ hmem⟩
  first := h.first

/-- A frame's walk ends behind the last slot, or at the first misfit. If the frame
has taken something, that is not in slot 0. -/
theorem Fills.ends {queued : UInt16} {complete : Bool} (h : o.Fills (o', queued, complete) calls) :
    complete = true ∧ o'.uplink.cursor = o.uplink.capacity ∧
        (∀ m t cause, .append m t (.error cause) ∉ calls) ∨
      complete = false ∧ o'.uplink.cursor < o.uplink.capacity ∧
        (queued = 0 → o.Misfits (Voice.schedule.notes calls) o'.uplink.cursor) ∧
        (queued ≠ 0 → o'.uplink.cursor ≠ 0) := by
  have hunfinished : complete = false → o'.uplink.cursor < o'.uplink.capacity := by
    rintro rfl
    exact h.unfinished
  cases h with
  | @walked slots s stop calls h =>
      obtain ⟨pre, rest, more, hwindow, -, hqueued, rfl, hends⟩ := Appends.passes_stretch h
      rw [UInt16.toNat_zero, Nat.zero_add] at hqueued
      have htaken : ∀ m t cause, Call.append m t (.error cause) ∉
          (Slot.ready o.clock.count pre).map Entry.appended := by
        simp [Entry.appended]
      cases hends with
      | through =>
          refine .inl ⟨rfl, rfl, ?_⟩
          rwa [List.append_nil]
      | @full e rest cause he =>
          have hat : ∀ {k : Nat} {e' : Entry}, k ≤ pre.length →
              o.table.get? (o.uplink.start + k) = some e' →
              (pre ++ some e :: rest)[k]? = some (some e') := by
            intro k e' hk hget
            have hlen := congrArg List.length hwindow
            rw [← hwindow, Table.getElem?_window, if_pos]
            · exact Table.get?_eq_some.mp hget
            · rw [Table.window, List.length_take, List.length_append, List.length_cons] at hlen
              omega
          refine .inr ⟨rfl, ?_, fun hnone => ⟨Nat.le_add_right _ _, ?_, ?_⟩,
            fun hsome => ?_⟩
          · exact hunfinished rfl
          · have hslot : (o.table.window o.uplink.start o.uplink.capacity)[pre.length]? =
                some (some e) := by
              rw [hwindow, List.getElem?_append_right (Nat.le_refl _), Nat.sub_self]
              rfl
            exact ⟨e, e.tally, cause, Table.get?_eq_some.mpr (Table.slots_of_window hslot), he,
              List.mem_map_of_mem (List.mem_append_right _ List.mem_cons_self)⟩
          · intro j e' hle hlt hget
            obtain ⟨k, rfl⟩ := Nat.exists_eq_add_of_le hle
            have hk : k < pre.length := Nat.lt_of_add_lt_add_left hlt
            have hslot := hat (Nat.le_of_lt hk) hget
            rw [List.getElem?_append_left hk] at hslot
            exact Slot.not_ready_of_mem ((queued_eq_zero_iff hqueued).mp hnone)
              (List.mem_of_getElem? hslot)
          · have hready : Slot.ready o.clock.count pre ≠ [] :=
              fun hnil => hsome ((queued_eq_zero_iff hqueued).mpr hnil)
            show o.uplink.start + pre.length ≠ 0
            cases pre with
            | nil => exact absurd rfl hready
            | cons slot pre => rw [List.length_cons]; omega

theorem Settles.ready_eq {count : UInt32} {e e' : Entry} {s s' : Unit}
    (h : Settles count e s (e', s') calls) :
    e'.definition = e.definition ∧ ∀ c, e'.ready c = e.ready c := by
  cases h with
  | idle h => exact ⟨rfl, fun _ => rfl⟩
  | settled h hwaits => exact ⟨rfl, fun _ => rfl⟩

/-- A good answer leaves every measurement as ready as it was, so the frame that
follows has its misfit where the table before has it. -/
theorem Misfits.of_answered {slots : List Slot} {more : List Call} {i : Nat}
    (h : Slot.Swept (Slot.Through (Settles o.clock.count))
      (o.table.window o.uplink.previous o.uplink.reach) () (slots, (), none) calls) :
    (o.acked.withSlots o.uplink.previous slots).Misfits (Voice.schedule.notes more) i ↔
      o.Misfits (Voice.schedule.notes (calls ++ more)) i := by
  have hpasses : o.table.Passes
      (fun e _ e' => e'.definition = e.definition ∧ ∀ c, e'.ready c = e.ready c)
      (o.table.withWindow o.uplink.previous slots) calls :=
    .of_swept h (fun e s x own hv => hv.2.subject) (fun e => ⟨rfl, fun _ => rfl⟩)
      fun e s e' s' stop own hv => hv.2.ready_eq
  have hnotes : ∀ m t cause,
      Note.call .schedule (.append m t (.error cause)) ∈ Voice.schedule.notes (calls ++ more) ↔
        Note.call .schedule (.append m t (.error cause)) ∈ Voice.schedule.notes more := by
    rw [(Settles.answers_stretch h).2]
    simp [Voice.notes, Entry.acked]
  constructor
  · rintro ⟨hreached, ⟨e', t, cause, he', hready, hmem⟩, hfirst⟩
    obtain ⟨e, own, he, hm, hsame⟩ := hpasses.origin he'
    refine ⟨hreached, ⟨e, t, cause, he, ?_, ?_⟩, fun j e hle hlt he => ?_⟩
    · rw [← hsame]
      exact hready
    · rw [hnotes, ← hm]
      exact hmem
    · obtain ⟨e', own, he', ⟨-, hsame⟩, -⟩ := hpasses.entry j e he
      rw [← hsame]
      exact hfirst j e' hle hlt he'
  · rintro ⟨hreached, ⟨e, t, cause, he, hready, hmem⟩, hfirst⟩
    obtain ⟨e', own, he', ⟨hm, hsame⟩, -⟩ := hpasses.entry i e he
    refine ⟨hreached, ⟨e', t, cause, he', ?_, ?_⟩, fun j e' hle hlt he' => ?_⟩
    · exact (hsame _).trans hready
    · rw [hm, ← hnotes]
      exact hmem
    · obtain ⟨e, own, he, -, hsame⟩ := hpasses.origin he'
      exact (hsame _).trans (hfirst j e hle hlt he)

end Outgoing

/-! ## What a request is to the latches -/

namespace Uplink

/-- The cursor stands behind where the last frame began, and not beyond the
capacity. The loss of the link has set it back. -/
structure Sound (u : Uplink) : Prop where
  order : u.previous ≤ u.cursor
  within : u.cursor ≤ u.capacity
  offline : u.offline = true → u.cursor = 0

theorem Sound.of_reset {u : Uplink} (hcursor : u.cursor = 0) (hprevious : u.previous = 0) :
    u.Sound :=
  ⟨by omega, by omega, fun _ => hcursor⟩

theorem start_le_capacity (u : Uplink) : u.start ≤ u.capacity := by
  unfold start
  split <;> omega

theorem midFragment_iff {u : Uplink} :
    u.midFragment = true ↔ u.cursor ≠ 0 ∧ u.cursor ≠ u.capacity := by
  rw [midFragment, Bool.and_eq_true, bne_iff_ne, bne_iff_ne]

theorem Sound.start_eq {u : Uplink} (h : u.Sound) :
    u.start = if u.midFragment then u.cursor else 0 := by
  have hwithin := h.within
  simp only [start, midFragment_iff]
  split <;> split <;> omega

/-- A request to an uplink: with what it is made, its outcome, the notes, and
the uplink after it. -/
structure Event where
  before : Outgoing
  outcome : Option SendOutcome
  notes : List Note
  after : Uplink

namespace Event

/-- A frame breaks off inside the table: it has taken something, or its first
misfit is not in slot 0. -/
def BreaksOff (ev : Event) : Prop :=
  match ev.outcome with
  | some (.fragment _) => True
  | some .nothingQueued => ∃ i, i ≠ 0 ∧ ev.before.Misfits ev.notes i
  | _ => False

/-- The cursor stays where it is. -/
def Holds (ev : Event) : Prop :=
  match ev.outcome with
  | some .deferred | some .pending | some .initFailed => True
  | _ => False

/-- A send begins to wait. -/
def Queues (ev : Event) : Prop :=
  match ev.outcome with
  | some .pending | some (.fragment _) => True
  | _ => False

/-- What waits goes on to wait. -/
def Defers (ev : Event) : Prop :=
  match ev.outcome with
  | some .deferred | some .nothingQueued => True
  | _ => False

/-- The cursor is left inside the table with nothing pending: a frame could not
be opened, or one that goes on with nothing takes nothing and breaks off. -/
def Strands (ev : Event) : Prop :=
  match ev.outcome with
  | some .initFailed => ev.before.uplink.midFragment = true
  | some .nothingQueued =>
      ev.before.uplink.pending = false ∧ ∃ i, i ≠ 0 ∧ ev.before.Misfits ev.notes i
  | _ => False

/-- What an event is to the two latches. -/
structure Latched (ev : Event) : Prop where
  sound : ev.after.Sound
  capacity : ev.after.capacity = ev.before.uplink.capacity
  inside : ev.after.midFragment = true ↔
    ev.BreaksOff ∨ ev.Holds ∧ ev.before.uplink.midFragment = true
  pending : ev.after.pending = true ↔
    ev.Queues ∨ ev.Defers ∧ ev.before.uplink.pending = true

/-- After all other outcomes the cursor is at an end of the table and nothing waits. -/
def Clears (ev : Event) : Prop :=
  match ev.outcome with
  | none | some .notConnected | some .timedOut | some .sendFailed | some (.complete _) => True
  | _ => False

theorem Latched.of_cleared {ev : Event} (h : ev.Clears) (hsound : ev.after.Sound)
    (hcapacity : ev.after.capacity = ev.before.uplink.capacity)
    (hinside : ev.after.cursor = 0 ∨ ev.after.cursor = ev.after.capacity)
    (hpending : ev.after.pending = false) : ev.Latched := by
  have hnot : ¬ (ev.BreaksOff ∨ ev.Holds ∧ ev.before.uplink.midFragment = true) ∧
      ¬ (ev.Queues ∨ ev.Defers ∧ ev.before.uplink.pending = true) := by
    unfold Clears at h
    unfold BreaksOff Holds Queues Defers
    split at h <;> simp_all
  refine ⟨hsound, hcapacity, iff_of_false ?_ hnot.1, iff_of_false ?_ hnot.2⟩
  · rw [midFragment_iff]
    exact fun hin => hinside.elim hin.1 hin.2
  · exact Bool.eq_false_iff.mp hpending

/-- Stranded is what is inside and not pending. -/
theorem Latched.stranded {ev : Event} (h : ev.Latched) :
    ev.after.midFragment = true ∧ ev.after.pending = false ↔
      ev.Strands ∨ ev.outcome = some .deferred ∧
        ev.before.uplink.midFragment = true ∧ ev.before.uplink.pending = false := by
  rw [← Bool.not_eq_true ev.after.pending, h.inside, h.pending, ← Bool.not_eq_true]
  unfold BreaksOff Holds Queues Defers Strands
  cases ev.outcome with
  | none => simp
  | some outcome => cases outcome <;> simp [and_comm]

end Event

end Uplink

namespace Outgoing

variable {o o' : Outgoing} {now : Timestamp} {calls : List Call}

/-- A frame leaves a sound uplink, whatever it takes. -/
theorem Fills.sound {queued : UInt16} {complete : Bool}
    (h : o.online.Fills (o', queued, complete) calls) :
    o'.uplink.Sound ∧ o'.uplink.capacity = o.uplink.capacity := by
  have hstart := o.online.uplink.start_le_capacity
  have hends := h.ends
  cases h with
  | @walked slots s stop calls h =>
      refine ⟨⟨?_, ?_, fun h => Bool.noConfusion h⟩, rfl⟩
      · show o.online.uplink.start ≤ stop.elim o.online.uplink.capacity _
        cases stop with
        | none => exact hstart
        | some k => exact Nat.le_add_right _ _
      · rcases hends with ⟨-, hcursor, -⟩ | ⟨-, hlt, -⟩
        · exact Nat.le_of_eq hcursor
        · exact Nat.le_of_lt hlt

/-- A frame that has taken nothing leaves the cursor inside the table if its first
misfit is not in slot 0. -/
theorem Fills.inside_iff {complete : Bool} (h : o.online.Fills (o', 0, complete) calls) :
    o'.uplink.midFragment = true ↔
      ∃ i, i ≠ 0 ∧ o.Misfits (Voice.schedule.notes (.openFrame (.ok ()) :: calls)) i := by
  have hcapacity := h.sound.2
  rw [Uplink.midFragment_iff, hcapacity]
  rcases h.ends with ⟨-, hcursor, hnone⟩ | ⟨-, hlt, hmisfits, -⟩
  · refine iff_of_false (fun h => h.2 hcursor) ?_
    rintro ⟨i, -, hi⟩
    obtain ⟨e, t, cause, -, -, hmem⟩ := hi.refused
    exact hnone _ _ _ (by simpa [Voice.notes] using hmem)
  · have hat := (hmisfits rfl).imp fun _ hmem => List.mem_cons_of_mem
      (.call .schedule (.openFrame (.ok ()))) hmem
    constructor
    · exact fun h => ⟨_, h.1, hat.reached, hat.refused, hat.first⟩
    · rintro ⟨i, hne, hreached, hrefused, hfirst⟩
      have heq := hat.unique ⟨hreached, hrefused, hfirst⟩
      exact ⟨by omega, Nat.ne_of_lt hlt⟩

theorem Sends.latched {outcome : SendOutcome} (h : o.Sends now (o', outcome) calls)
    (ho : o.uplink.Sound) :
    Uplink.Event.Latched ⟨o, some outcome, Voice.schedule.notes calls, o'.uplink⟩ := by
  have honline : Uplink.Sound { o.uplink with offline := false } :=
    ⟨ho.order, ho.within, fun h => Bool.noConfusion h⟩
  cases h with
  | stillOffline h =>
      exact .of_cleared trivial ⟨ho.order, ho.within, ho.offline⟩ rfl (.inl (ho.offline h)) rfl
  | lostLink h => exact .of_cleared trivial (.of_reset rfl rfl) rfl (.inl rfl) rfl
  | deferred =>
      refine ⟨honline, rfl, ?_, ?_⟩
      · simp [Uplink.midFragment_iff, online, Uplink.Event.BreaksOff, Uplink.Event.Holds]
      · simp [online, Uplink.Event.Queues, Uplink.Event.Defers]
  | timedOut h hlate => exact .of_cleared trivial (.of_reset rfl rfl) rfl (.inl rfl) rfl
  | stillPending h hearly =>
      refine ⟨honline, rfl, ?_, iff_of_true h (.inl trivial)⟩
      simp [Uplink.midFragment_iff, online, Uplink.Event.BreaksOff, Uplink.Event.Holds]
  | newlyPending h =>
      refine ⟨⟨ho.order, ho.within, fun h => Bool.noConfusion h⟩, rfl, ?_,
        iff_of_true rfl (.inl trivial)⟩
      simp [Uplink.midFragment_iff, online, restart, setPending, Uplink.Event.BreaksOff,
        Uplink.Event.Holds]
  | initFailed cause =>
      refine ⟨⟨ho.order, ho.within, fun h => Bool.noConfusion h⟩, rfl, ?_, ?_⟩
      · simp [Uplink.midFragment_iff, online, restart, setPending, Uplink.Event.BreaksOff,
          Uplink.Event.Holds]
      · simp [restart, setPending, Uplink.Event.Queues, Uplink.Event.Defers]
  | @nothing o₁ queued complete calls hfill h =>
      subst h
      have hpending : (o₁.ticked now).uplink.pending = o.uplink.pending := by
        rw [ticked_uplink]
        exact hfill.clock_eq.2
      obtain ⟨hsound, hcapacity⟩ := hfill.sound
      refine ⟨?_, ?_, ?_, ?_⟩
      · rw [ticked_uplink]
        exact hsound
      · rw [ticked_uplink]
        exact hcapacity
      · rw [ticked_uplink, hfill.inside_iff]
        simp [Uplink.Event.BreaksOff, Uplink.Event.Holds]
      · simp [hpending, Uplink.Event.Queues, Uplink.Event.Defers]
  | @handed o₁ queued complete calls more x hfill h hhand =>
      obtain ⟨hsound, hcapacity⟩ := hfill.sound
      have hends := hfill.ends
      rw [← ticked_uplink o₁ now] at hsound hcapacity hends
      cases hhand with
      | failed cause => exact .of_cleared trivial (.of_reset rfl rfl) hcapacity (.inl rfl) rfl
      | last hlast =>
          rcases hends with ⟨-, hcursor, -⟩ | ⟨hpart, -⟩
          · exact .of_cleared trivial ⟨hsound.order, hsound.within, hsound.offline⟩ hcapacity
              (.inr (hcursor.trans hcapacity.symm)) (congrArg (!·) hlast)
          · exact absurd (hlast.symm.trans hpart) Bool.noConfusion
      | part hpart =>
          rcases hends with ⟨hlast, -⟩ | ⟨-, hlt, -, htaken⟩
          · exact absurd (hpart.symm.trans hlast) Bool.noConfusion
          · refine ⟨⟨hsound.order, hsound.within, hsound.offline⟩, hcapacity,
              iff_of_true ?_ (.inl trivial), iff_of_true (congrArg (!·) hpart) (.inl trivial)⟩
            rw [Uplink.midFragment_iff]
            exact ⟨htaken h, Nat.ne_of_lt (Nat.lt_of_lt_of_eq hlt hcapacity.symm)⟩

/-- A frame with which a cycle is complete takes what is ready, from the slot on
at which it begins. -/
theorem Sends.takes_of_complete {queued : UInt16}
    (h : o.Sends now (o', .complete queued) calls) :
    (Voice.schedule.notes calls).filterMap Note.takes =
      (Slot.ready o.clock.count (o.table.window o.uplink.start o.uplink.capacity)).map
        Entry.name := by
  cases h with
  | @handed o₁ queued complete calls more x hfill hqueued hhand =>
      cases hhand with
      | last hlast =>
          generalize hx : (o₁, queued, complete) = x at hfill
          cases hfill with
          | @walked slots s stop calls h =>
              cases hx
              have hwindow : o.online.table.window o.online.uplink.start o.online.uplink.capacity =
                  o.table.window o.uplink.start o.uplink.capacity := rfl
              obtain ⟨pre, rest, more, hsplit, -, -, rfl, hends⟩ := Appends.passes_stretch h
              cases hends with
              | full rest cause he => cases hlast
              | through =>
                  rw [hwindow, List.append_nil] at hsplit
                  rw [hsplit, ← takes_appended, takes_opened, takes_handed, List.append_nil]
                  rfl

theorem Answers.latched {good : Bool} {outcome : Option SendOutcome}
    (h : o.Answers now good (o', outcome) calls) (ho : o.uplink.Sound) :
    Uplink.Event.Latched ⟨o, outcome, Voice.schedule.notes calls, o'.uplink⟩ := by
  cases h with
  | bad => exact .of_cleared trivial (.of_reset rfl rfl) rfl (.inl rfl) rfl
  | last h hpending => exact .of_cleared trivial (.of_reset rfl rfl) rfl (.inl rfl) hpending
  | @next slots calls more o' outcome h hpending hsend =>
      have hlatched := hsend.latched ⟨ho.order, ho.within, ho.offline⟩
      have hmisfits : ∀ i, (o.acked.withSlots o.uplink.previous slots).Misfits
          (Voice.schedule.notes more) i ↔ o.Misfits (Voice.schedule.notes (calls ++ more)) i :=
        fun i => Misfits.of_answered h
      refine ⟨hlatched.sound, hlatched.capacity, ?_, hlatched.pending⟩
      rw [hlatched.inside]
      unfold Uplink.Event.BreaksOff
      cases outcome with
      | nothingQueued => simp only [hmisfits]; rfl
      | _ => rfl

end Outgoing

/-! ## Runs of an uplink -/

namespace Uplink

/-- What an uplink may be asked for. -/
inductive Request where
  | send
  | answer (good : Bool)
  | reset

/-- A request with the table, the clock and the time it comes with. -/
structure Errand where
  table : Table
  clock : TransmitClock
  now : Timestamp
  request : Request

def Errand.outgoing (x : Errand) (u : Uplink) : Outgoing := ⟨u, x.table, x.clock⟩

def serve (d : Devices W) (u : Uplink) (x : Errand) :
    Action W (Uplink × Option SendOutcome) := do
  match x.request with
  | .send =>
      let (o, outcome) ← (x.outgoing u).send d x.now
      pure (o.uplink, some outcome)
  | .answer good =>
      let (o, outcome) ← (x.outgoing u).answer d good x.now
      pure (o.uplink, outcome)
  | .reset => pure (u.resetCursors, none)

/-- A run of errands, with what the world does before each. -/
def run (d : Devices W) : List ((W → W) × Errand) → Uplink → Action W Uplink
  | [], u => pure u
  | (meanwhile, x) :: rest, u => do
      Action.change meanwhile
      let (u, _) ← u.serve d x
      run d rest u

def history (d : Devices W) : List ((W → W) × Errand) → Uplink → W → List Event
  | [], _, _ => []
  | (meanwhile, x) :: rest, u, w =>
      let r := (u.serve (d.voiced .schedule) x).run (meanwhile w, [])
      ⟨x.outgoing u, r.1.2, r.2.2, r.1.1⟩ :: history d rest r.1.1 r.2.1

theorem serve_latched (d : Devices W) {u : Uplink} (hu : u.Sound) (x : Errand) :
    (u.serve (d.voiced .schedule) x).Traced (u.serve d x) fun r notes =>
      Event.Latched ⟨x.outgoing u, r.2, notes, r.1⟩ := by
  unfold serve
  cases x.request with
  | send =>
      refine Action.Traced.bind (Outgoing.send_speaks d _ x.now) ?_
      intro r _ hr
      obtain ⟨o, outcome⟩ := r
      obtain ⟨calls, rfl, h⟩ := hr
      refine .pure ?_
      rw [List.append_nil]
      exact h.latched hu
  | answer good =>
      refine Action.Traced.bind (Outgoing.answer_speaks d _ good x.now) ?_
      intro r _ hr
      obtain ⟨o, outcome⟩ := r
      obtain ⟨calls, rfl, h⟩ := hr
      refine .pure ?_
      rw [List.append_nil]
      exact h.latched hu
  | reset =>
      exact .pure (Event.Latched.of_cleared trivial (.of_reset rfl rfl) rfl (.inl rfl) rfl)

/-- What a sound uplink is, told by the events so far. -/
structure Latches (capacity : Nat) (past : List Event) (u : Uplink) : Prop where
  sound : u.Sound
  capacity : u.capacity = capacity
  inside : u.midFragment = true ↔ Since Event.BreaksOff Event.Holds past
  pending : u.pending = true ↔ Since Event.Queues Event.Defers past
  stranded : u.midFragment = true ∧ u.pending = false ↔
    Since Event.Strands (fun ev => ev.outcome = some .deferred) past

theorem latches_begin (capacity : Nat) : Latches capacity [] { capacity } where
  sound := .of_reset rfl rfl
  capacity := rfl
  inside := iff_of_false (by simp [midFragment]) not_since_nil
  pending := iff_of_false Bool.false_ne_true not_since_nil
  stranded := iff_of_false (by simp [midFragment]) not_since_nil

theorem Latches.next {capacity : Nat} {past : List Event} {ev : Event}
    (h : Latches capacity past ev.before.uplink) (hev : ev.Latched) :
    Latches capacity (past ++ [ev]) ev.after where
  sound := hev.sound
  capacity := hev.capacity.trans h.capacity
  inside := by rw [since_concat, hev.inside, h.inside]
  pending := by rw [since_concat, hev.pending, h.pending]
  stranded := by rw [since_concat, hev.stranded, h.stranded]

theorem run_latches (d : Devices W) {capacity : Nat} (errands : List ((W → W) × Errand))
    {past : List Event} {u : Uplink} (h : Latches capacity past u) (w : W) :
    Latches capacity (past ++ history d errands u w) ((run d errands u).run w).1 := by
  induction errands generalizing past u w with
  | nil =>
      rw [history, List.append_nil]
      exact h
  | cons errand rest ih =>
      obtain ⟨meanwhile, x⟩ := errand
      obtain ⟨notes, hrun, hlatched⟩ := serve_latched d h.sound x (meanwhile w) []
      rw [List.nil_append] at hrun
      have hrest := ih (h.next hlatched) ((u.serve d x).run (meanwhile w)).2
      rw [List.append_assoc] at hrest
      rw [history, hrun]
      exact hrest

/-- The cursor of an uplink never leaves the table and never stands before the
begin of the last frame. It stands inside the table since a frame broke off
there, and a send is pending since one began to wait; the first without the
second, with the cursor stranded, since a frame could not be opened with the
cursor inside, or one that went on with nothing broke off without taking
anything. The next frame begins at a stranded cursor like at any other inside
the table, and takes nothing that stands before it. -/
theorem cursor_stranded_iff (d : Devices W) (errands : List ((W → W) × Errand)) (capacity : Nat)
    (w : W) :
    let past := history d errands { capacity } w
    let u := ((run d errands { capacity }).run w).1
    u.previous ≤ u.cursor ∧ u.cursor ≤ capacity ∧
    (u.midFragment = true ↔ Since Event.BreaksOff Event.Holds past) ∧
    (u.pending = true ↔ Since Event.Queues Event.Defers past) ∧
    (u.midFragment = true ∧ u.pending = false ↔
      Since Event.Strands (fun ev => ev.outcome = some .deferred) past) ∧
    ∀ (table : Table) (clock : TransmitClock) (now : Timestamp) (w' : W) (queued : UInt16),
      let r := (Outgoing.send (d.voiced .schedule) ⟨u, table, clock⟩ now).run (w', [])
      r.1.2 = .complete queued → r.2.2.filterMap Note.takes =
        (Slot.ready clock.count
          (table.window (if u.midFragment then u.cursor else 0) capacity)).map Entry.name := by
  intro past u
  have hlatches : Latches capacity past u := by
    have h := run_latches d errands (latches_begin capacity) w
    rwa [List.nil_append] at h
  clear_value past u
  refine ⟨hlatches.sound.order, ?_, hlatches.inside, hlatches.pending, hlatches.stranded, ?_⟩
  · exact Nat.le_trans hlatches.sound.within (Nat.le_of_eq hlatches.capacity)
  · intro table clock now w' queued r hr
    obtain ⟨_, hrun, calls, rfl, hsends⟩ :=
      Outgoing.send_speaks (v := .schedule) d ⟨u, table, clock⟩ now w' []
    rw [List.nil_append] at hrun
    generalize (Outgoing.send d ⟨u, table, clock⟩ now).run w' = x at hrun hsends
    obtain ⟨⟨o, outcome⟩, w''⟩ := x
    have hr' : r = ((o, outcome), w'', Voice.schedule.notes calls) := hrun
    rw [hr'] at hr ⊢
    cases hr
    rw [← hlatches.sound.start_eq, ← hlatches.capacity]
    exact hsends.takes_of_complete

end Uplink

/-- A radio in a world that is whether its frames have room. -/
def Devices.fickle : Devices Bool where
  sensors := {
    valueKind := fun _ => pure (some .integer)
    collect := fun _ => pure (.done (.integer 1)) }
  radio := {
    openFrame := pure (.ok ())
    append := fun _ _ => Action.look fun room => if room then .ok () else .error .bufferFull
    appendReading := fun _ _ => pure (.error .bufferFull)
    send := pure (.ok ())
    ready := pure true
    connected := pure true }
  board := {}
  now := pure 0
  log := fun _ _ => pure ()

/-- Two measurements with a sample each, the first of them due at every other tick. -/
def Table.alternating : Table where
  slots := [some ⟨⟨"A", .custom0, 2, 1, false⟩, { samples := 1 }⟩,
    some ⟨⟨"B", .custom1, 1, 1, false⟩, { samples := 1 }⟩]

/-- At count 1 the second measurement is due and does not fit, so that nothing is
queued and the cursor is left at its slot. At count 2 both are due, and the
complete frame takes the second alone. -/
theorem Uplink.cursor_stranded_iff_fickle :
    let errand : Uplink.Errand :=
      ⟨.alternating, { interval := 1000, began := 0, count := 1 }, 1001, .send⟩
    let past := Uplink.history .fickle [(fun _ => false, errand)] { capacity := 2 } true
    let u := ((Uplink.run .fickle [(fun _ => false, errand)] { capacity := 2 }).run true).1
    let r := (Outgoing.send (Devices.fickle.voiced .schedule)
      ⟨u, .alternating, { interval := 1000, began := 1001, count := 2 }⟩ 2002).run (true, [])
    Since Event.Strands (fun ev => ev.outcome = some .deferred) past ∧
    r.1.2 = .complete 1 ∧ r.2.2.filterMap Note.takes = ["B"] ∧
    (Slot.ready 2 Table.alternating.slots).map Entry.name = ["A", "B"] := by
  intro errand past u r
  obtain ⟨-, -, -, -, hstranded, htakes⟩ :=
    Uplink.cursor_stranded_iff .fickle [(fun _ => false, errand)] 2 true
  have hnames := htakes .alternating { interval := 1000, began := 1001, count := 2 } 2002 true 1
    (by decide +kernel)
  dsimp only [r, u]
  refine ⟨hstranded.mp ?_, ?_, hnames.trans ?_, ?_⟩ <;> decide +kernel

end Telemetry
