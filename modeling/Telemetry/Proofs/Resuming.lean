import Telemetry.Proofs.Loops
import Telemetry.Proofs.TickEnds
import Telemetry.Proofs.Walks

/-!
# What follows a fragment

An operation that neither drops a cycle nor edits the table is a stride of it:
the cursor moves, past what is taken on the way, or it rests. Every part of an
operation is judged to be a stride under the count that the operation ends with,
and the strides of a run lead from the slot that did not fit to where the run
leaves the cursor (`history_walks`).

Which count decides is then the question. An answer sends the next frame under
the count of the fragment; a turn of the loop that finds the tick over moves the
count first, and measurements of the old count that are not due at the new one
are passed over. `walk_after_fragment` says both.
-/

namespace Telemetry

variable {W : Type}

/-! ## Strides -/

/-- The measurement that a frame of the schedule has taken, by a note of it. -/
def Note.takes : Note → Option String
  | .call .schedule (.append m _ (.ok _)) => some m.name
  | _ => none

/-- Whether a note tells of a frame that could not be opened, or of a cycle that
is dropped. -/
def Note.drops : Note → Bool
  | .call .schedule (.openFrame (.error _)) => true
  | .call .schedule .reset => true
  | _ => false

theorem takes_appended (entries : List Entry) :
    (Voice.schedule.notes (entries.map Entry.appended)).filterMap Note.takes =
      entries.map Entry.name := by
  rw [Voice.notes, List.map_map, List.filterMap_map]
  exact congrFun (List.filterMap_eq_map (f := Entry.name)) entries

/-- Calls by which nothing is appended. -/
theorem takes_eq_nil {v : Voice} {calls : List Call}
    (h : ∀ c ∈ calls, (Note.call v c).takes = none) :
    (v.notes calls).filterMap Note.takes = [] := by
  rw [List.filterMap_eq_nil_iff]
  intro note hnote
  obtain ⟨c, hc, rfl⟩ := List.mem_map.mp hnote
  exact h c hc

theorem takes_aside (calls : List Call) :
    (Voice.aside.notes calls).filterMap Note.takes = [] := takes_eq_nil fun _ _ => rfl

/-! What stands around the appends of a frame takes nothing. -/

theorem takes_opened (calls : List Call) (answer : Except FrameError Unit) :
    (Voice.schedule.notes (.openFrame answer :: calls)).filterMap Note.takes =
      (Voice.schedule.notes calls).filterMap Note.takes := rfl

theorem takes_handed (calls : List Call) (answer : Except FrameError Unit) :
    (Voice.schedule.notes (calls ++ [.send answer])).filterMap Note.takes =
      (Voice.schedule.notes calls).filterMap Note.takes := by
  rw [Voice.notes_append, List.filterMap_append]
  exact List.append_nil _

theorem takes_marked (notes : List Note) (t t' : Table) :
    (notes ++ [Note.sent t t']).filterMap Note.takes = notes.filterMap Note.takes := by
  rw [List.filterMap_append]
  exact List.append_nil _

namespace Outgoing

/-- A cycle goes on: the cursor moves, past what is taken on the way, and ahead
of it nothing is lost. -/
structure Strides (count : UInt32) (o : Outgoing) (names : List String) (o' : Outgoing) :
    Prop where
  capacity : o'.uplink.capacity = o.uplink.capacity
  forth : o.uplink.cursor ≤ o'.uplink.cursor
  within : o'.uplink.cursor ≤ o'.uplink.capacity
  pending : o'.uplink.cursor < o'.uplink.capacity → o'.uplink.pending = true
  walk : o.table.Walk count o.uplink.cursor o'.uplink.cursor names
  carries : o.table.Carries o'.uplink.cursor o'.table

/-- A cycle of which a part is sent and another is not. -/
structure Partway (o : Outgoing) : Prop where
  unfinished : o.uplink.cursor < o.uplink.capacity
  pending : o.uplink.pending = true

namespace Strides

variable {count : UInt32} {o o' o'' : Outgoing} {names more : List String}

/-- The cursor rests. -/
theorem still (hcapacity : o'.uplink.capacity = o.uplink.capacity)
    (hcursor : o'.uplink.cursor = o.uplink.cursor) (hpending : o'.uplink.pending = o.uplink.pending)
    (hcarries : o.table.Carries o.uplink.cursor o'.table)
    (hwithin : o.uplink.cursor ≤ o.uplink.capacity)
    (hopen : o.uplink.cursor < o.uplink.capacity → o.uplink.pending = true) :
    o.Strides count [] o' where
  capacity := hcapacity
  forth := by rw [hcursor]
  within := by rwa [hcursor, hcapacity]
  pending := by rwa [hcursor, hcapacity, hpending]
  walk := by rw [hcursor]; exact .nil _
  carries := by rwa [hcursor]

theorem trans (h : o.Strides count names o') (h' : o'.Strides count more o'') :
    o.Strides count (names ++ more) o'' where
  capacity := h'.capacity.trans h.capacity
  forth := Nat.le_trans h.forth h'.forth
  within := h'.within
  pending := h'.pending
  walk := h.walk.trans (h'.walk.earlier h.carries (Nat.le_refl _))
  carries := h.carries.trans h'.carries h'.forth

end Strides

/-- After a stride the cursor may rest. -/
theorem Strides.settled {count : UInt32} {o o' o'' : Outgoing} {names : List String}
    (h : o.Strides count names o') (huplink : o''.uplink = o'.uplink)
    (hcarries : o'.table.Carries o'.uplink.cursor o''.table) : o.Strides count names o'' where
  capacity := by rw [huplink, h.capacity]
  forth := by rw [huplink]; exact h.forth
  within := by rw [huplink]; exact h.within
  pending := by rw [huplink]; exact h.pending
  walk := by rw [huplink]; exact h.walk
  carries := by
    rw [huplink]
    exact h.carries.trans hcarries (Nat.le_refl _)

theorem Partway.start {o : Outgoing} (h : o.Partway) : o.uplink.start = o.uplink.cursor :=
  if_neg (Nat.not_le.mpr h.unfinished)

theorem Partway.still {count : UInt32} {o o' : Outgoing} (h : o.Partway)
    (hcapacity : o'.uplink.capacity = o.uplink.capacity)
    (hcursor : o'.uplink.cursor = o.uplink.cursor) (hpending : o'.uplink.pending = o.uplink.pending)
    (hcarries : o.table.Carries o.uplink.cursor o'.table) : o.Strides count [] o' :=
  .still hcapacity hcursor hpending hcarries (Nat.le_of_lt h.unfinished) fun _ => h.pending

/-- A frame's walk is a stride, up to the question whether the cycle stays pending. -/
theorem Fills.strides {o o' : Outgoing} {queued : UInt16} {complete : Bool} {calls : List Call}
    (h : o.Fills (o', queued, complete) calls) (ho : o.Partway) :
    o.Strides o.clock.count ((Voice.schedule.notes calls).filterMap Note.takes) o' ∧
      (complete = true → o'.uplink.cursor = o'.uplink.capacity) := by
  cases h with
  | @walked slots s stop _ h =>
      have hstart := ho.start
      have hopen := ho.unfinished
      rw [hstart] at h
      obtain ⟨pre, rest, more, hwindow, hslots, -, rfl, hends⟩ := Appends.passes_stretch h
      have hlen : pre.length + rest.length =
          min (o.uplink.capacity - o.uplink.cursor) (o.table.slots.length - o.uplink.cursor) := by
        rw [← List.length_append, ← hwindow, Table.window, List.length_take, List.length_drop]
      have hslots : slots = Slot.passed o.clock.count pre ++ rest := hslots
      subst hslots
      have hwalk : o.table.Walk o.clock.count o.uplink.cursor (o.uplink.cursor + pre.length)
          ((Slot.ready o.clock.count pre).map Entry.name) := by
        refine .of_stretch fun k hk => ?_
        have hleft : (pre ++ rest)[k]? = pre[k]? := List.getElem?_append_left hk
        rw [← hleft, ← hwindow, Table.getElem?_window, if_pos (by omega)]
      have hmore : (Voice.schedule.notes more).filterMap Note.takes = [] := by
        cases hends with
        | through => rfl
        | full rest cause h => rfl
      rw [Voice.notes_append, List.filterMap_append, takes_appended, hmore, List.append_nil]
      have hcursor : ∃ cursor, stop.elim o.uplink.capacity (o.uplink.start + ·) = cursor ∧
          o.uplink.cursor + pre.length ≤ cursor ∧ cursor ≤ o.uplink.capacity ∧
          o.table.Walk o.clock.count (o.uplink.cursor + pre.length) cursor [] ∧
          (stop.isNone = true → cursor = o.uplink.capacity) := by
        cases hends with
        | through =>
            refine ⟨o.uplink.capacity, rfl, by omega, Nat.le_refl _, ?_, fun _ => rfl⟩
            rw [List.length_nil, Nat.add_zero] at hlen
            by_cases hshort : o.uplink.capacity ≤ o.table.slots.length
            · rw [show o.uplink.cursor + pre.length = o.uplink.capacity by omega]
              exact .nil _
            · refine .beyond (fun i hi => ?_) (by omega)
              rw [Table.get?, List.getElem?_eq_none (by omega), Option.join_none]
        | full rest cause h =>
            rw [List.length_cons] at hlen
            exact ⟨_, congrArg (· + pre.length) hstart, Nat.le_refl _, by omega, .nil _,
              fun h => Bool.noConfusion h⟩
      obtain ⟨cursor, hcursor, hle, hwithin, hrest, hlast⟩ := hcursor
      have hjoined := hwalk.trans hrest
      rw [List.append_nil] at hjoined
      refine ⟨⟨rfl, ?_, ?_, fun _ => ho.pending, ?_, ?_⟩, fun hnone => hcursor.trans (hlast hnone)⟩
      · show o.uplink.cursor ≤ stop.elim o.uplink.capacity (o.uplink.start + ·)
        omega
      · show stop.elim o.uplink.capacity (o.uplink.start + ·) ≤ o.uplink.capacity
        omega
      · show o.table.Walk _ _ (stop.elim o.uplink.capacity (o.uplink.start + ·)) _
        rwa [hcursor]
      · show o.table.Carries (stop.elim o.uplink.capacity (o.uplink.start + ·))
          (o.table.withWindow o.uplink.start _)
        rw [hcursor, hstart]
        exact .of_passed hwindow hle

variable {o o' : Outgoing} {now : Timestamp} {calls : List Call}

/-- A send goes on with the cycle, as long as there is a link and no call drops it. -/
theorem Sends.strides {outcome : SendOutcome} (h : o.Sends now (o', outcome) calls)
    (ho : o.Partway) (honline : o'.uplink.offline = false)
    (hkept : ∀ note ∈ Voice.schedule.notes calls, note.drops = false) :
    o.Strides o.clock.count ((Voice.schedule.notes calls).filterMap Note.takes) o' := by
  have hdropped : ∀ {c : Call}, c ∈ calls → (Note.call .schedule c).drops = true → False := by
    intro c hc hdrops
    rw [hkept _ (List.mem_map_of_mem hc)] at hdrops
    cases hdrops
  have hpartway : o.online.Partway := ⟨ho.unfinished, ho.pending⟩
  have hticked : ∀ {o₁ : Outgoing} {queued : UInt16} {complete : Bool} {calls : List Call},
      o.online.Fills (o₁, queued, complete) calls → o₁.ticked now = o₁ := by
    intro o₁ queued complete calls hfill
    rw [ticked, if_pos (hfill.clock_eq.2.trans ho.pending)]
  have honline' : ∀ {count : UInt32} {names : List String} {o₁ : Outgoing},
      o.online.Strides count names o₁ → o.Strides count names o₁ :=
    fun h => ⟨h.capacity, h.forth, h.within, h.pending, h.walk, h.carries⟩
  cases h with
  | stillOffline h => exact absurd (h.symm.trans honline) Bool.noConfusion
  | lostLink h => cases honline
  | deferred => exact ho.still rfl rfl rfl (.refl _ _)
  | timedOut h hlate => exact (hdropped List.mem_cons_self rfl).elim
  | stillPending h hearly => exact ho.still rfl rfl rfl (.refl _ _)
  | newlyPending h => exact absurd (h.symm.trans ho.pending) Bool.noConfusion
  | initFailed cause => exact (hdropped List.mem_cons_self rfl).elim
  | nothing hfill h =>
      rw [hticked hfill, takes_opened]
      exact honline' (hfill.strides hpartway).1
  | @handed o₁ queued complete calls more x hfill h hhand =>
      rw [hticked hfill] at hhand
      obtain ⟨hstride, hended⟩ := hfill.strides hpartway
      have hstride := honline' hstride
      rw [takes_opened]
      cases hhand with
      | failed cause =>
          exact (hdropped (c := .reset) (by simp) rfl).elim
      | last hlast =>
          refine ⟨hstride.capacity, hstride.forth, hstride.within, fun hlt => ?_, ?_,
            hstride.carries⟩
          · exact absurd (hended hlast) (Nat.ne_of_lt hlt)
          · rw [takes_handed]
            exact hstride.walk
      | part hpart =>
          refine ⟨hstride.capacity, hstride.forth, hstride.within, fun _ => ?_, ?_,
            hstride.carries⟩
          · exact congrArg (!·) hpart
          · rw [takes_handed]
            exact hstride.walk

theorem Settles.retains {count : UInt32} {e e' : Entry} {s s' : Unit}
    (h : Settles count e s (e', s') calls) : e.Retains e' := by
  cases h with
  | idle h => exact ⟨rfl, id⟩
  | settled h hwaits => exact ⟨rfl, id⟩

theorem Settles.quiet {count : UInt32} {e : Entry} {s : Unit} {x : Entry × Unit}
    (h : Settles count e s x calls) : ∀ c ∈ calls, (Note.call .schedule c).takes = none := by
  cases h with
  | idle h => exact fun c hc => absurd hc List.not_mem_nil
  | settled h hwaits => simp [Note.takes]

theorem Fills.unfinished {queued : UInt16} (h : o.Fills (o', queued, false) calls) :
    o'.uplink.cursor < o'.uplink.capacity := by
  generalize hx : (o', queued, false) = x at h
  cases h with
  | @walked slots s stop calls h =>
      obtain ⟨pre, rest, more, hwindow, -, -, -, hends⟩ := Appends.passes_stretch h
      cases hends with
      | through => cases hx
      | full rest cause h =>
          cases hx
          have hlen := congrArg List.length hwindow
          rw [Table.window, List.length_take, List.length_drop, List.length_append,
            List.length_cons] at hlen
          show o.uplink.start + pre.length < o.uplink.capacity
          omega

/-- A send that comes to a fragment leaves a cycle partway. -/
theorem Sends.partway {queued : UInt16} (h : o.Sends now (o', .fragment queued) calls) :
    o'.Partway := by
  cases h with
  | handed hfill h hhand =>
      cases hhand with
      | part hpart =>
          subst hpart
          have hcursor := hfill.unfinished
          refine ⟨?_, rfl⟩
          rw [ticked]
          split
          · exact hcursor
          · exact hcursor

/-- A good answer goes on with a cycle that is pending. -/
theorem Answers.strides {outcome : Option SendOutcome}
    (h : o.Answers now true (o', outcome) calls) (ho : o.Partway)
    (honline : o'.uplink.offline = false)
    (hkept : ∀ note ∈ Voice.schedule.notes calls, note.drops = false) :
    o.Strides o.clock.count ((Voice.schedule.notes calls).filterMap Note.takes) o' := by
  cases h with
  | last h hpending => exact absurd (hpending.symm.trans ho.pending) Bool.noConfusion
  | @next slots calls more o' outcome h hpending hsend =>
      have hpasses : o.table.Passes (fun e _ e' => e.Retains e')
          (o.table.withWindow o.uplink.previous slots) calls := by
        refine .of_swept h (fun e s x own hv => hv.2.subject) (fun e => ⟨rfl, id⟩) ?_
        exact fun e s e' s' stop own hv => hv.2.retains
      have hsettled : o.Strides o.clock.count [] (o.acked.withSlots o.uplink.previous slots) :=
        ho.still rfl rfl rfl (.of_passes hpasses fun _ _ _ h => h)
      have hquiet : (Voice.schedule.notes calls).filterMap Note.takes = [] := by
        refine takes_eq_nil fun c hc => ?_
        obtain ⟨j, e, s, x, own, -, hv, hmem⟩ := h.calls_of c hc
        exact hv.2.quiet c hmem
      have hpartway : (o.acked.withSlots o.uplink.previous slots).Partway :=
        ⟨ho.unfinished, ho.pending⟩
      rw [Voice.notes_append, List.filterMap_append, hquiet]
      rw [Voice.notes_append] at hkept
      exact hsettled.trans (hsend.strides hpartway honline fun note hnote =>
        hkept note (List.mem_append_right _ hnote))

end Outgoing

/-! ## Operations on a cycle -/

/-- Whether a call is one of those by which readings are taken, or one to the
board: none of them is about a frame or its answer. -/
def Call.offAir : Call → Bool
  | .collectionTime _ _ | .start _ _ _ | .poll _ _ | .collect _ _ => true
  | .onBattery | .sleepFor _ => true
  | _ => false

theorem takes_of_offAir {v : Voice} {calls : List Call} (h : ∀ c ∈ calls, c.offAir = true) :
    (v.notes calls).filterMap Note.takes = [] := by
  refine takes_eq_nil fun c hc => ?_
  have hair := h c hc
  cases c with
  | append m t answer => cases hair
  | _ => cases v <;> rfl

theorem Call.Samples.offAir {m : Definition} {c : Call} (h : c.Samples m) : c.offAir = true := by
  cases h <;> rfl

theorem Call.ToBoard.offAir {c : Call} (h : c.ToBoard) : c.offAir = true := by
  cases h <;> rfl

namespace Sampler

theorem Turns.offAir {s : Sampler} {table : Table} {clock : TransmitClock} {now : Timestamp}
    {x : Sampler × Table} {calls : List Call} (h : s.Turns table clock now x calls) :
    ∀ c ∈ calls, c.offAir = true := by
  intro c hc
  cases h with
  | turn h =>
      obtain ⟨j, e, s, x, own, -, hv, hmem⟩ := h.calls_of c hc
      exact (hv.2.samples c hmem).offAir

theorem PollsOpen.offAir {s : Sampler} {table : Table} {x : Sampler × Table × UInt32}
    {calls : List Call} (h : s.PollsOpen table x calls) : ∀ c ∈ calls, c.offAir = true := by
  intro c hc
  cases h with
  | polled h =>
      obtain ⟨j, e, s, x, own, -, hv, hmem⟩ := h.calls_of c hc
      exact (hv.2.samples c hmem).offAir

/-- Starts and collects take nothing into a frame. -/
theorem Turns.quiet {s : Sampler} {table : Table} {clock : TransmitClock} {now : Timestamp}
    {x : Sampler × Table} {calls : List Call} (h : s.Turns table clock now x calls) :
    (Voice.schedule.notes calls).filterMap Note.takes = [] := takes_of_offAir h.offAir

end Sampler

/-- Operations that neither drop a cycle nor edit the table. -/
def Op.calm : Op → Bool
  | .answer good => good
  | .edit (.request _) => true
  | .edit _ | .load _ _ => false
  | _ => true

/-- A change of the measurement of a name, if there is one. -/
theorem Table.Passes.amend {deal : Entry → List Call → Entry → Prop} {t : Table} (name : String)
    {change : Entry → Entry} (hdeal : ∀ e, deal e [] (change e)) (hspared : ∀ e, deal e [] e) :
    t.Passes deal (t.amend name change).1 [] := by
  unfold Table.amend
  split
  · next i e hlocated =>
      exact .put (get?_eq_some.mpr (slot_of_locate hlocated)) (hdeal e) hspared
  · exact .same hspared fun c hc => absurd hc List.not_mem_nil

namespace Node

variable {reads : Timestamp → Prop} {n n' : Node} {op : Op} {notes : List Note}

/-- Only a turn of the loop moves the count. -/
theorem Performs.count_eq (h : Performs reads n op notes n') (hop : op ≠ .iterate) :
    n'.clock.count = n.clock.count := by
  cases h with
  | iterated h => exact absurd rfl hop
  | answered h => exact h.count_eq
  | set interval h =>
      unfold setInterval at h
      simp only [] at h
      split at h
      · cases h
      · cases h
        rfl
  | switched | woken | powered | refused | requested | edited | loaded | read | asked | tested =>
      rfl

theorem Samples.strides (h : Samples reads n notes n') (hn : n.outgoing.Partway)
    (count : UInt32) :
    n.outgoing.Strides count (notes.filterMap Note.takes) n'.outgoing ∧
      n'.outgoing.Partway ∧ n'.clock = n.clock := by
  cases h with
  | waits hreads h => exact ⟨hn.still rfl rfl rfl (.refl _ _), hn, rfl⟩
  | @turns now sampler table calls hreads hdue h =>
      refine ⟨?_, ⟨hn.unfinished, hn.pending⟩, rfl⟩
      rw [List.filterMap_cons, show (Note.turn now).takes = none from rfl, h.quiet]
      exact hn.still rfl rfl rfl (.of_passes h.passes fun _ _ _ hdeal => hdeal.retains)

theorem Transmits.strides {outcome : Option SendOutcome} (h : Transmits reads n outcome notes n')
    (hn : n.outgoing.Partway) (honline : n'.uplink.offline = false)
    (hkept : ∀ note ∈ notes, note.drops = false) :
    n.outgoing.Strides n'.clock.count (notes.filterMap Note.takes) n'.outgoing := by
  cases h with
  | early hreads h => exact hn.still rfl rfl rfl (.refl _ _)
  | @ended now o outcome calls hreads hdue h =>
      have hpartway : ({ n.outgoing with clock := n.clock.advance } : Outgoing).Partway :=
        ⟨hn.unfinished, hn.pending⟩
      have hstride := h.strides hpartway honline fun note hnote =>
        hkept note (List.mem_append_left _ hnote)
      have hcount : o.clock.count = n.clock.advance.count := h.count_eq
      rw [takes_marked, show (n.withOutgoing o).clock.count = n.clock.advance.count from hcount]
      exact ⟨hstride.capacity, hstride.forth, hstride.within, hstride.pending, hstride.walk,
        hstride.carries⟩

theorem Rests.offAir {sleep : Option SleepDecision} (h : Rests n sleep notes n') :
    ∃ calls, notes = Voice.schedule.notes calls ∧ ∀ c ∈ calls, c.offAir = true := by
  cases h with
  | @rested sampler table polled calls more sleep h slept hnap hsleep =>
      refine ⟨calls ++ more, rfl, fun c hc => ?_⟩
      rcases List.mem_append.mp hc with hc | hc
      · exact h.offAir c hc
      · exact (hnap c hc).offAir

theorem Rests.quiet {sleep : Option SleepDecision} (h : Rests n sleep notes n') :
    notes.filterMap Note.takes = [] := by
  obtain ⟨calls, rfl, hair⟩ := h.offAir
  exact takes_of_offAir hair

theorem Rests.strides {count : UInt32} {o : Outgoing} {names : List String}
    {sleep : Option SleepDecision} (h : Rests n sleep notes n')
    (hn : o.Strides count names n.outgoing) :
    o.Strides count (names ++ notes.filterMap Note.takes) n'.outgoing := by
  rw [h.quiet, List.append_nil]
  cases h with
  | rested h slept hnap hsleep =>
      exact hn.settled rfl (.of_passes h.passes fun _ _ _ hdeal => hdeal.retains)

theorem Loops.strides {iteration : Iteration} (h : Loops reads n iteration notes n')
    (hn : n.outgoing.Partway) (hlinked : n'.offline = false)
    (honline : n'.uplink.offline = false) (hkept : ∀ note ∈ notes, note.drops = false) :
    n.outgoing.Strides n'.clock.count (notes.filterMap Note.takes) n'.outgoing := by
  cases h with
  | disabled h => exact hn.still rfl rfl rfl (.refl _ _)
  | @disconnected n₁ sampler table polled calls henabled hdropped h =>
      have hoffline : n₁.offline = true := by
        rw [hdropped]
        split
        · assumption
        · rfl
      exact absurd (hoffline.symm.trans hlinked) Bool.noConfusion
  | reconnected henabled hoffline hreads => exact hn.still rfl rfl rfl (.refl _ _)
  | @ran table n₁ n₂ n₃ send sleep calls sampled sent settled henabled hoffline haside hidle
      hsamples hsends hrests =>
      rw [hrests.kept.1] at honline
      rw [hrests.kept.2]
      have hread : n.outgoing.Strides n₂.clock.count []
          ({ n with table } : Node).outgoing := hn.still rfl rfl rfl (.of_touches haside)
      obtain ⟨hsampled, hpartway, -⟩ :=
        hsamples.strides ⟨hn.unfinished, hn.pending⟩ n₂.clock.count
      have hsent := hsends.strides hpartway honline fun note hnote => hkept note (by simp [hnote])
      have hstride := hrests.strides (hread.trans (hsampled.trans hsent))
      rw [List.filterMap_append, takes_aside, List.filterMap_append, List.filterMap_append,
        ← List.append_assoc (sampled.filterMap _)]
      exact hstride

theorem Performs.strides (h : Performs reads n op notes n') (hcalm : op.calm = true)
    (hn : n.outgoing.Partway) (hlinked : n'.offline = false)
    (honline : n'.uplink.offline = false) (hkept : ∀ note ∈ notes, note.drops = false) :
    n.outgoing.Strides n'.clock.count (notes.filterMap Note.takes) n'.outgoing := by
  have hstill : ∀ (calls : List Call) {m : Node}, m.uplink = n.uplink →
      n.table.Carries n.uplink.cursor m.table →
      n.outgoing.Strides m.clock.count
        ((Voice.aside.notes calls).filterMap Note.takes) m.outgoing := by
    intro calls m heq hcarries
    rw [takes_aside]
    exact hn.still (congrArg Uplink.capacity heq) (congrArg Uplink.cursor heq)
      (congrArg Uplink.pending heq) hcarries
  cases h with
  | iterated h => exact h.strides hn hlinked honline hkept
  | @answered now good o outcome calls h =>
      have hgood : good = true := hcalm
      subst hgood
      have hstride := h.strides hn honline fun note hnote =>
        hkept note (List.mem_append_left _ hnote)
      have hcount : o.clock.count = n.clock.count := h.count_eq
      rw [takes_marked, show (n.withOutgoing o).clock.count = n.clock.count from hcount]
      exact hstride
  | switched | woken | powered | refused => exact hstill [] rfl (.refl _ _)
  | set interval h =>
      unfold setInterval at h
      simp only [] at h
      split at h
      · cases h
      · cases h
        exact hstill [] rfl (.refl _ _)
  | requested name =>
      have hpasses : n.table.Passes (fun e _ e' => e.Retains e')
          (n.table.amend name fun e => e.withTally { e.tally with instantRequested := true }).1 [] :=
        .amend name (fun e => ⟨rfl, id⟩) fun e => ⟨rfl, id⟩
      exact hstill [] rfl (.of_passes hpasses fun _ _ _ h => h)
  | edited e calls he h =>
      cases e with
      | request name => exact absurd rfl (he name)
      | add | remove | rename | setPeriod | setSampleCount | setImmediate => cases hcalm
  | loaded => cases hcalm
  | read name timeout calls h => exact hstill calls rfl (.of_touches h)
  | asked name calls => exact hstill calls rfl (.refl _ _)
  | tested name calls h => exact hstill calls rfl (.of_touches h)

/-! ## Runs after a fragment -/

/-- An operation that finds a cycle unfinished and does not drop it: the link
stays, and no call tells of a reset or of a frame that could not be opened. -/
structure Episode.Smooth (ep : Episode) : Prop where
  unfinished : ep.before.uplink.cursor < ep.before.uplink.capacity
  linked : ep.after.offline = false
  online : ep.after.uplink.offline = false
  kept : ∀ note ∈ ep.notes, note.drops = false

instance (ep : Episode) : Decidable ep.Smooth :=
  decidable_of_iff (ep.before.uplink.cursor < ep.before.uplink.capacity ∧
      ep.after.offline = false ∧ ep.after.uplink.offline = false ∧
      ∀ note ∈ ep.notes, note.drops = false)
    ⟨fun ⟨hopen, hlinked, honline, hkept⟩ => ⟨hopen, hlinked, honline, hkept⟩,
      fun h => ⟨h.unfinished, h.linked, h.online, h.kept⟩⟩

/-- The walks of some episodes in a row. Each goes on where the one before has
left the cursor, meets its slots under the count that its own operation ends
with, and takes what its own notes tell. -/
inductive Walks (t : Table) : List Episode → Nat → Nat → Prop where
  | nil (i : Nat) : Walks t [] i i
  | cons {ep : Episode} {hi : Nat} {rest : List Episode}
      (h : t.Walk ep.after.clock.count ep.before.uplink.cursor ep.after.uplink.cursor
        (ep.notes.filterMap Note.takes))
      (hrest : Walks t rest ep.after.uplink.cursor hi) :
      Walks t (ep :: rest) ep.before.uplink.cursor hi

namespace Walks

variable {t t' : Table} {lo hi : Nat} {past : List Episode}

theorem le (h : Walks t past lo hi) : lo ≤ hi := by
  induction h with
  | nil i => exact Nat.le_refl i
  | cons h _ ih => exact Nat.le_trans h.le ih

/-- Later walks, told of the table as it was before. -/
theorem earlier {mid : Nat} (h : Walks t' past lo hi) (hcarries : t.Carries mid t')
    (hle : mid ≤ lo) : Walks t past lo hi := by
  induction h with
  | nil i => exact .nil i
  | cons h _ ih => exact .cons (h.earlier hcarries hle) (ih (Nat.le_trans hle h.le))

theorem walk (h : Walks t past lo hi) :
    ∀ ep ∈ past, t.Walk ep.after.clock.count ep.before.uplink.cursor ep.after.uplink.cursor
      (ep.notes.filterMap Note.takes) := by
  induction h with
  | nil i => exact fun ep hep => absurd hep List.not_mem_nil
  | cons h _ ih => exact List.forall_mem_cons.mpr ⟨h, ih⟩

end Walks

variable (d : Devices W) {moves : List (Move W)}

theorem history_walks (n : Node) (w : W) (hcalm : ∀ m ∈ moves, m.op.calm = true)
    (hsmooth : ∀ ep ∈ history d moves n w, ep.Smooth)
    (hwithin : n.uplink.cursor ≤ n.uplink.capacity)
    (hpending : n.uplink.cursor < n.uplink.capacity → n.uplink.pending = true) :
    Walks n.table (history d moves n w) n.uplink.cursor ((run d moves n).run w).1.uplink.cursor ∧
      ((run d moves n).run w).1.uplink.cursor ≤ n.uplink.capacity := by
  induction moves generalizing n w with
  | nil => exact ⟨.nil _, hwithin⟩
  | cons m rest ih =>
      obtain ⟨hperforms, hplain⟩ := performs_any d n (m.meanwhile w) m.op
      have hrun : (run d (m :: rest) n).run w =
          (run d rest ((n.performBy (.blind d) m.op).run (m.meanwhile w)).1).run
            ((n.performBy (.blind d) m.op).run (m.meanwhile w)).2 := rfl
      rw [hrun, hplain]
      rw [history] at hsmooth ⊢
      have hfirst := hsmooth _ List.mem_cons_self
      have hstride := hperforms.strides (hcalm m List.mem_cons_self)
        ⟨hfirst.unfinished, hpending hfirst.unfinished⟩ hfirst.linked hfirst.online hfirst.kept
      obtain ⟨hwalks, hle⟩ := ih _ _ (fun m hm => hcalm m (List.mem_cons_of_mem _ hm))
        (fun ep hep => hsmooth ep (List.mem_cons_of_mem _ hep)) hstride.within hstride.pending
      exact ⟨.cons hstride.walk (hwalks.earlier hstride.carries (Nat.le_refl _)),
        Nat.le_trans hle (Nat.le_of_eq hstride.capacity)⟩

/-- Without turns of the loop the count stays. -/
theorem history_count (n : Node) (w : W) (hops : ∀ m ∈ moves, m.op ≠ .iterate) :
    ∀ ep ∈ history d moves n w, ep.after.clock.count = n.clock.count := by
  induction moves generalizing n w with
  | nil => exact fun ep hep => absurd hep List.not_mem_nil
  | cons m rest ih =>
      obtain ⟨hperforms, -⟩ := performs_any d n (m.meanwhile w) m.op
      have hcount := hperforms.count_eq (hops m List.mem_cons_self)
      rw [history]
      intro ep hep
      rcases List.mem_cons.mp hep with rfl | hep
      · exact hcount
      · rw [ih _ _ (fun m hm => hops m (List.mem_cons_of_mem _ hm)) ep hep, hcount]

/-- A turn of the loop that sends a fragment leaves the cycle partway. -/
theorem partway_of_fragment {n : Node} {w : W} {queued : UInt16} {sleep : Option SleepDecision}
    (hfragment : ((n.iterate d).run w).1.2 = .ran (some (.fragment queued)) sleep) :
    ((n.iterate d).run w).1.1.outgoing.Partway := by
  obtain ⟨notes, hloops⟩ := loops_any d n w
  rw [hfragment] at hloops
  generalize ((n.iterate d).run w).1.1 = n' at hloops ⊢
  cases hloops with
  | ran sleep calls henabled hoffline haside hidle hsamples hsends hrests =>
      cases hsends with
      | ended hreads hdue h =>
          have hpartway := h.partway
          cases hrests with
          | rested h slept hnap hsleep => exact ⟨hpartway.unfinished, hpartway.pending⟩

end Node

/-- The frames that follow a fragment walk on from the slot that did not fit. In
every run of operations that neither drop the cycle nor edit the table they
take, in slot order and each at most once, what has samples and is due when its
slot is met: by the count of the operation that comes to the slot. Where no turn
of the loop comes between, that is the count of the fragment; a turn of the loop
that finds the tick over moves it on, and what is due at the old count and not
at the new one is left out. -/
theorem Node.walk_after_fragment {d : Devices W} {n : Node} {w : W} {queued : UInt16}
    {sleep : Option SleepDecision}
    (hfragment : ((n.iterate d).run w).1.2 = .ran (some (.fragment queued)) sleep)
    {more : List (Move W)} (hcalm : ∀ m ∈ more, m.op.calm = true)
    (hsmooth : ∀ ep ∈ Node.history d more ((n.iterate d).run w).1.1 ((n.iterate d).run w).2,
      ep.Smooth) :
    let n₁ := ((n.iterate d).run w).1.1
    let past := Node.history d more n₁ ((n.iterate d).run w).2
    let n₂ := ((Node.run d more n₁).run ((n.iterate d).run w).2).1
    n₁.uplink.cursor < n₁.uplink.capacity ∧ n₁.uplink.cursor ≤ n₂.uplink.cursor ∧
    n₂.uplink.cursor ≤ n₁.uplink.capacity ∧
    Walks n₁.table past n₁.uplink.cursor n₂.uplink.cursor ∧
    ((∀ m ∈ more, m.op ≠ .iterate) → ∀ ep ∈ past, ep.after.clock.count = n₁.clock.count) := by
  have hpartway := Node.partway_of_fragment d hfragment
  obtain ⟨hwalks, hwithin⟩ := Node.history_walks d _ _ hcalm hsmooth
    (Nat.le_of_lt hpartway.unfinished) fun _ => hpartway.pending
  exact ⟨hpartway.unfinished, hwalks.le, hwithin, hwalks,
    fun hops => Node.history_count d _ _ hops⟩

/-- A radio with room for one measurement in a frame, in a world that keeps the
time and the room that is left. -/
def Devices.cramped : Devices (Timestamp × Nat) where
  sensors := {
    valueKind := fun _ => pure (some .integer)
    collect := fun _ => pure (.done (.integer 1)) }
  radio := {
    openFrame := Action.step fun w => (.ok (), (w.1, 1))
    append := fun _ _ => Action.step fun w =>
      if w.2 = 0 then (.error .bufferFull, w) else (.ok (), (w.1, w.2 - 1))
    appendReading := fun _ _ => pure (.error .bufferFull)
    send := pure (.ok ())
    ready := pure true
    connected := pure true }
  board := {}
  now := Action.look Prod.fst
  log := fun _ _ => pure ()

/-- Four measurements, the first three of them due at every other tick, up to the
end of the second tick. -/
def Life.crowded : Life (Timestamp × Nat) where
  devices := .cramped
  settings := { interval := 1000, power := .plugged }
  capacity := 4
  began := 0
  world := (0, 0)
  moves :=
    ⟨id, .edit (.add ⟨"A", .custom0, 2, 1, false⟩)⟩ ::
    ⟨id, .edit (.add ⟨"B", .custom1, 2, 1, false⟩)⟩ ::
    ⟨id, .edit (.add ⟨"C", .light, 2, 1, false⟩)⟩ ::
    ⟨id, .edit (.add ⟨"D", .sound, 1, 1, false⟩)⟩ ::
      [501, 1001, 1502].map fun time => ⟨fun w => (time, w.2), .iterate⟩

/-- The frame of count 2 has room for A only. The answer goes on with B under the
same count. C has a sample and was due then too, but the turn of the loop that
comes to its slot has moved the count to 3, and takes D alone. -/
theorem Node.walk_after_fragment_crowded :
    let x := (Life.crowded.node.iterate .cramped).run (2002, 0)
    let past := Node.history .cramped
      [⟨id, .answer true⟩, ⟨fun w => (3003, w.2), .iterate⟩] x.1.1 x.2
    x.1.2 = .ran (some (.fragment 1)) (some .powerPolicy) ∧
    x.1.1.table.entries.map
        (fun e => (e.name, e.tally.samples, e.definition.due x.1.1.clock.count)) =
      [("A", 0, true), ("B", 1, true), ("C", 1, true), ("D", 1, true)] ∧
    past.map (·.after.clock.count) = [2, 3] ∧
    x.1.1.table.Walk 2 1 2 ["B"] ∧ x.1.1.table.Walk 3 2 4 ["D"] := by
  have hfacts : let x := (Life.crowded.node.iterate .cramped).run (2002, 0)
      let past := Node.history .cramped
        [⟨id, .answer true⟩, ⟨fun w => (3003, w.2), .iterate⟩] x.1.1 x.2
      x.1.2 = .ran (some (.fragment 1)) (some .powerPolicy) ∧
      x.1.1.table.entries.map
          (fun e => (e.name, e.tally.samples, e.definition.due x.1.1.clock.count)) =
        [("A", 0, true), ("B", 1, true), ("C", 1, true), ("D", 1, true)] ∧
      (∀ ep ∈ past, ep.Smooth) ∧
      past.map (fun ep => (ep.after.clock.count, ep.before.uplink.cursor, ep.after.uplink.cursor,
        ep.notes.filterMap Note.takes)) = [(2, 1, 2, ["B"]), (3, 2, 4, ["D"])] := by
    decide +kernel
  obtain ⟨hfragment, hsamples, hsmooth, hlegs⟩ := hfacts
  obtain ⟨-, -, -, hwalks, -⟩ := walk_after_fragment hfragment (by decide) hsmooth
  generalize (Life.crowded.node.iterate .cramped).run (2002, 0) = x at *
  have hwalk : ∀ leg ∈ [(2, 1, 2, ["B"]), (3, 2, 4, ["D"])],
      x.1.1.table.Walk leg.1 leg.2.1 leg.2.2.1 leg.2.2.2 := by
    rw [← hlegs]
    exact List.forall_mem_map.mpr hwalks.walk
  have hcounts := congrArg (List.map Prod.fst) hlegs
  rw [List.map_map] at hcounts
  exact ⟨hfragment, hsamples, hcounts, hwalk (2, 1, 2, ["B"]) (by simp),
    hwalk (3, 2, 4, ["D"]) (by simp)⟩

end Telemetry
