import Telemetry.Proofs.Owing

/-!
# Whose sensors are told

A good answer does not know what its frame has held. It walks the slots that
the last frame may have covered once more and tells the sensors of those that
are due and owed an answer (`Answers.tells`). Where the cursor and the count of
the transmit clock are still what they were after the frame, those are the
measurements of the frame, together with others of the same slots that have
been owed an answer from before.

A tick that ends between the frame and its answer moves the count, and the walk
of the next frame moves the cursor, whether it finds anything or not. What the
answer then tells has little to do with the frame: `told_iff_owed` says for
every run what it is.
-/

namespace Telemetry

variable {W : Type}

/-- The measurement whose sensor is told of a good answer by a note. -/
def Note.tells : Note → Option String
  | .call .schedule (.delivered m) => some m.name
  | _ => none

theorem tells_acked (entries : List Entry) :
    (Voice.schedule.notes (entries.map Entry.acked)).filterMap Note.tells =
      entries.map Entry.name := by
  rw [Voice.notes, List.map_map, List.filterMap_map]
  exact congrFun (List.filterMap_eq_map (f := Entry.name)) entries

/-- The slots that the last frame may have covered, from the first to the one after the last. -/
def Uplink.span (u : Uplink) : Nat × Nat := (u.previous, u.reach)

def Uplink.Covers (u : Uplink) (i : Nat) : Prop := u.span.1 ≤ i ∧ i < u.span.2

instance (u : Uplink) (i : Nat) : Decidable (u.Covers i) :=
  inferInstanceAs (Decidable (u.span.1 ≤ i ∧ i < u.span.2))

/-! ## Measurements in a window -/

theorem Table.mem_window {t : Table} {lo hi : Nat} {e : Entry} :
    some e ∈ t.window lo hi ↔ ∃ i, t.get? i = some e ∧ lo ≤ i ∧ i < hi := by
  rw [List.mem_iff_getElem?]
  constructor
  · rintro ⟨k, hk⟩
    have hslot := slots_of_window hk
    rw [getElem?_window] at hk
    split at hk
    · exact ⟨lo + k, get?_eq_some.mpr hslot, by omega, by omega⟩
    · cases hk
  · rintro ⟨i, hi', hlo, hlt⟩
    refine ⟨i - lo, ?_⟩
    rw [getElem?_window, if_pos (by omega), Nat.add_sub_cancel' hlo]
    exact get?_eq_some.mp hi'

/-- Different slots, different names. -/
theorem Table.Distinct.nodup {t : Table} (ht : t.Distinct) (lo hi : Nat) (p : Entry → Bool) :
    (((t.window lo hi).filterMap (·.filter p)).map Entry.name).Nodup := by
  have hslots : ∀ (j k : Nat) (e e' : Entry), (t.window lo hi)[j]? = some (some e) →
      (t.window lo hi)[k]? = some (some e') → e.name = e'.name → j = k := by
    intro j k e e' hj hk heq
    have hsame := ht _ _ e e' (get?_eq_some.mpr (slots_of_window hj))
      (get?_eq_some.mpr (slots_of_window hk)) heq
    omega
  generalize t.window lo hi = slots at hslots
  induction slots with
  | nil => exact List.nodup_nil
  | cons slot rest ih =>
      have hrest := ih fun j k e e' hj hk heq =>
        Nat.succ.inj (hslots (j + 1) (k + 1) e e' hj hk heq)
      cases slot with
      | none => exact hrest
      | some e =>
          rw [Slot.filter_cons]
          split
          · rw [List.map_cons, List.nodup_cons]
            refine ⟨fun hmem => ?_, hrest⟩
            obtain ⟨e', he', hname⟩ := List.mem_map.mp hmem
            obtain ⟨k, hk⟩ := List.mem_iff_getElem?.mp (Slot.mem_filter.mp he').1
            exact Nat.noConfusion (hslots 0 (k + 1) e e' rfl hk hname.symm)
          · exact hrest

/-! ## Frames and answers -/

namespace Outgoing

variable {o o' : Outgoing} {now : Timestamp} {calls : List Call}

/-- A good answer would tell the sensor of the measurement of a name. -/
def Awaits (o : Outgoing) (name : String) : Prop :=
  ∃ i e, o.table.get? i = some e ∧ e.name = name ∧ o.uplink.Covers i ∧
    e.awaits o.clock.count = true

theorem Awaits.kept {name : String} (h : o.Awaits name) (howes : o.table.Owes [] o'.table)
    (hspan : o'.uplink.span = o.uplink.span) (hcount : o'.clock.count = o.clock.count) :
    o'.Awaits name := by
  obtain ⟨i, e, hi, rfl, hcovers, hawaits⟩ := h
  obtain ⟨e', hi', hm, hflag⟩ := howes.entry i e hi
  refine ⟨i, e', hi', congrArg Definition.name hm, ?_, ?_⟩
  · rw [Uplink.Covers, hspan]
    exact hcovers
  · rw [Entry.awaits, hm, hcount, hflag]
    exact hawaits

/-- What a frame has taken lies between the slot at which it began and the cursor,
is owed an answer and is due. -/
theorem Fills.awaited {queued : UInt16} {complete : Bool}
    (h : o.Fills (o', queued, complete) calls) :
    ∀ name ∈ (Voice.schedule.notes calls).filterMap Note.takes, ∃ i e,
      o'.table.get? i = some e ∧ e.name = name ∧ o'.uplink.previous ≤ i ∧
        i < o'.uplink.cursor ∧ e.awaits o'.clock.count = true := by
  cases h with
  | @walked slots s stop _ h =>
      obtain ⟨pre, rest, more, hwindow, hslots, -, rfl, hends⟩ := Appends.passes_stretch h
      have hslots : slots = Slot.passed o.clock.count pre ++ rest := hslots
      subst hslots
      have hmore : (Voice.schedule.notes more).filterMap Note.takes = [] := by
        cases hends with
        | through => rfl
        | full rest cause h => rfl
      have hlen : pre.length + rest.length =
          min (o.uplink.capacity - o.uplink.start) (o.table.slots.length - o.uplink.start) := by
        rw [← List.length_append, ← hwindow, Table.window, List.length_take, List.length_drop]
      have hcursor : ∀ k, k < pre.length →
          o.uplink.start + k < stop.elim o.uplink.capacity (o.uplink.start + ·) := by
        intro k hk
        cases hends with
        | through =>
            show _ < o.uplink.capacity
            omega
        | full rest cause h => exact Nat.add_lt_add_left hk _
      rw [Voice.notes_append, List.filterMap_append, takes_appended, hmore, List.append_nil]
      intro name hname
      obtain ⟨e, he, rfl⟩ := List.mem_map.mp hname
      obtain ⟨hslot, hready⟩ := Slot.mem_filter.mp he
      obtain ⟨k, hk⟩ := List.mem_iff_getElem?.mp hslot
      have hlt := (List.getElem?_eq_some_iff.mp hk).1
      have hi : o.table.get? (o.uplink.start + k) = some e := by
        rw [Table.get?_eq_some]
        have hfirst : (o.table.window o.uplink.start o.uplink.capacity)[k]? = some (some e) := by
          rw [hwindow, List.getElem?_append_left hlt, hk]
        exact Table.slots_of_window hfirst
      refine ⟨o.uplink.start + k, e.passed o.clock.count, ?_, ?_, Nat.le_add_right _ _,
        hcursor k hlt, ?_⟩
      · show (o.table.withWindow o.uplink.start _).get? _ = _
        rw [Table.get?_passed hwindow, if_pos (by omega), hi, Option.map_some]
      · rw [Entry.name, Entry.passed_definition, Entry.name]
      · show (e.passed o.clock.count).awaits o.clock.count = true
        obtain ⟨hdue, hs⟩ := Entry.due_of_ready hready
        rw [Entry.awaits_passed, Entry.told, hdue, bne_iff_ne.mpr hs, Bool.true_or, Bool.and_self]

/-- A walk that fills a frame hands nothing over, and tells nobody of an answer. -/
theorem Fills.appends {x : Outgoing × UInt16 × Bool} (h : o.Fills x calls) :
    ∀ c ∈ calls, ∃ m t answer, c = .append m t answer := by
  cases h with
  | walked h =>
      intro c hc
      obtain ⟨j, e, s, x, own, -, hv, hmem⟩ := h.calls_of c hc
      cases hv with
      | idle h => cases hmem
      | unsampled h hs => cases hmem
      | refused h hs cause => exact ⟨_, _, _, List.mem_singleton.mp hmem⟩
      | accepted h hs => exact ⟨_, _, _, List.mem_singleton.mp hmem⟩

/-- When a frame is handed over, all that it has taken would be told by a good answer. -/
theorem Sends.awaited {outcome : SendOutcome} (h : o.Sends now (o', outcome) calls)
    (hsent : Call.send (.ok ()) ∈ calls) :
    ∀ name ∈ (Voice.schedule.notes calls).filterMap Note.takes, o'.Awaits name := by
  have hfills : ∀ {o₁ : Outgoing} {queued : UInt16} {complete : Bool} {calls : List Call},
      o.online.Fills (o₁, queued, complete) calls → Call.send (.ok ()) ∉ calls := by
    intro o₁ queued complete calls hfill hmem
    obtain ⟨m, t, answer, hc⟩ := hfill.appends _ hmem
    cases hc
  cases h with
  | stillOffline | lostLink | deferred | stillPending | newlyPending | timedOut | initFailed =>
      simp at hsent
  | nothing hfill h =>
      rcases List.mem_cons.mp hsent with hc | hc
      · cases hc
      · exact absurd hc (hfills hfill)
  | @handed o₁ queued complete calls more x hfill h hhand =>
      have hhanded : Call.send (.ok ()) ∈ more := by
        rcases List.mem_cons.mp hsent with hc | hc
        · cases hc
        · exact (List.mem_append.mp hc).resolve_left (hfills hfill)
      have hkept : ∀ {o' : Outgoing} {name : String}, o'.table = o₁.table →
          o'.uplink.previous = o₁.uplink.previous → o'.uplink.cursor = o₁.uplink.cursor →
          o'.clock.count = o₁.clock.count →
          name ∈ (Voice.schedule.notes calls).filterMap Note.takes → o'.Awaits name := by
        intro o' name htable hprevious hcursor hcount hname
        obtain ⟨i, e, hi, heq, hlo, hlt, hawaits⟩ := hfill.awaited name hname
        refine ⟨i, e, by rw [htable, hi], heq, ⟨?_, ?_⟩, by rw [hcount, hawaits]⟩
        · exact Nat.le_trans (Nat.le_of_eq hprevious) hlo
        · rw [Uplink.span, Uplink.reach, if_pos (by omega), hcursor]
          exact hlt
      have hcount : (o₁.ticked now).clock.count = o₁.clock.count := by
        rw [ticked_clock]
        split <;> rfl
      have hprevious : (o₁.ticked now).uplink.previous = o₁.uplink.previous :=
        congrArg Uplink.previous (ticked_uplink o₁ now)
      have hcursor : (o₁.ticked now).uplink.cursor = o₁.uplink.cursor :=
        congrArg Uplink.cursor (ticked_uplink o₁ now)
      intro name hname
      rw [takes_opened] at hname
      cases hhand with
      | failed cause => simp at hhanded
      | last | part =>
          rw [takes_handed] at hname
          exact hkept (ticked_table o₁ now) hprevious hcursor hcount hname

theorem Sends.tells_nobody {x : Outgoing × SendOutcome} (h : o.Sends now x calls) :
    (Voice.schedule.notes calls).filterMap Note.tells = [] := by
  have hfills : ∀ {o₁ : Outgoing} {queued : UInt16} {complete : Bool} {calls : List Call},
      o.online.Fills (o₁, queued, complete) calls →
      (Voice.schedule.notes calls).filterMap Note.tells = [] := by
    intro o₁ queued complete calls hfill
    rw [List.filterMap_eq_nil_iff]
    intro note hnote
    obtain ⟨c, hc, rfl⟩ := List.mem_map.mp hnote
    obtain ⟨m, t, answer, rfl⟩ := hfill.appends c hc
    rfl
  have hopened : ∀ {more : List Call}, (Voice.schedule.notes more).filterMap Note.tells = [] →
      (Voice.schedule.notes (.openFrame (.ok ()) :: more)).filterMap Note.tells = [] := id
  cases h with
  | stillOffline | lostLink | deferred | stillPending | newlyPending | timedOut | initFailed => rfl
  | nothing hfill h => exact hopened (hfills hfill)
  | handed hfill h hhand =>
      refine hopened ?_
      rw [Voice.notes_append, List.filterMap_append, hfills hfill, List.nil_append]
      cases hhand <;> rfl

/-- A good answer tells the sensors of what waits in the slots of the last frame
and is due now. -/
theorem Answers.tells {outcome : Option SendOutcome}
    (h : o.Answers now true (o', outcome) calls) :
    (Voice.schedule.notes calls).filterMap Note.tells =
      (Slot.awaiting o.clock.count
        (o.table.window o.uplink.previous o.uplink.reach)).map Entry.name := by
  cases h with
  | last h hpending => rw [(Settles.answers_stretch h).2, tells_acked]
  | next h hpending hsend =>
      rw [Voice.notes_append, List.filterMap_append, hsend.tells_nobody, List.append_nil,
        (Settles.answers_stretch h).2, tells_acked]

theorem mem_awaiting {name : String} :
    name ∈ (Slot.awaiting o.clock.count
      (o.table.window o.uplink.previous o.uplink.reach)).map Entry.name ↔ o.Awaits name := by
  rw [List.mem_map]
  constructor
  · rintro ⟨e, he, rfl⟩
    obtain ⟨hslot, hawaits⟩ := Slot.mem_filter.mp he
    obtain ⟨i, hi, hcovers⟩ := Table.mem_window.mp hslot
    exact ⟨i, e, hi, rfl, hcovers, hawaits⟩
  · rintro ⟨i, e, hi, rfl, hcovers, hawaits⟩
    exact ⟨e, Slot.mem_filter.mpr ⟨Table.mem_window.mpr ⟨i, hi, hcovers⟩, hawaits⟩, rfl⟩

end Outgoing

/-! ## Operations and runs -/

namespace Node

/-- The radio has taken a frame. -/
def Deal.HandsOver (x : Deal) : Prop := Note.call .schedule (.send (.ok ())) ∈ x.episode.notes

/-- An operation by which a frame stays the last one, unanswered, its slots are
what they were, and no tick ends. -/
structure Deal.Idles (x : Deal) : Prop where
  calm : x.op.calm = true
  unanswered : x.op ≠ .answer true
  span : x.episode.after.uplink.span = x.episode.before.uplink.span
  count : x.episode.after.clock.count = x.episode.before.clock.count

variable {reads : Timestamp → Prop} {n n' : Node} {op : Op} {notes : List Note}

theorem not_handed_of_offAir {v : Voice} {calls : List Call} (h : ∀ c ∈ calls, c.offAir = true) :
    Note.call .schedule (.send (.ok ())) ∉ v.notes calls := by
  intro hmem
  obtain ⟨c, hc, heq⟩ := List.mem_map.mp hmem
  cases heq
  exact Bool.noConfusion (h _ hc)

theorem not_handed_aside {calls : List Call} :
    Note.call .schedule (.send (.ok ())) ∉ Voice.aside.notes calls := by
  intro hmem
  obtain ⟨c, hc, heq⟩ := List.mem_map.mp hmem
  cases heq

theorem mem_of_handed {calls : List Call} {t t' : Table}
    (h : Note.call .schedule (.send (.ok ())) ∈ Voice.schedule.notes calls ++ [.sent t t']) :
    Call.send (.ok ()) ∈ calls := by
  rcases List.mem_append.mp h with hmem | hmem
  · obtain ⟨c, hc, heq⟩ := List.mem_map.mp hmem
    cases heq
    exact hc
  · cases List.mem_singleton.mp hmem

/-- A turn of the loop after which the radio has a frame. -/
theorem Loops.awaited {iteration : Iteration} (h : Loops reads n iteration notes n')
    (hhanded : Note.call .schedule (.send (.ok ())) ∈ notes) :
    ∀ name ∈ notes.filterMap Note.takes, n'.outgoing.Awaits name := by
  cases h with
  | disabled h => cases hhanded
  | disconnected henabled hdropped h => exact absurd hhanded (not_handed_of_offAir h.offAir)
  | reconnected henabled hoffline hreads => cases hhanded
  | @ran table n₁ n₂ n₃ send sleep calls sampled sent settled henabled hoffline haside hidle
      hsamples hsends hrests =>
      have hsampled : Note.call .schedule (.send (.ok ())) ∉ sampled ∧
          sampled.filterMap Note.takes = [] := by
        cases hsamples with
        | waits hreads h => exact ⟨List.not_mem_nil, rfl⟩
        | turns hreads hdue h =>
            refine ⟨fun hmem => ?_, h.quiet⟩
            rcases List.mem_cons.mp hmem with heq | hmem
            · cases heq
            · exact not_handed_of_offAir h.offAir hmem
      have hsettled : Note.call .schedule (.send (.ok ())) ∉ settled ∧
          settled.filterMap Note.takes = [] := by
        obtain ⟨calls, rfl, hair⟩ := hrests.offAir
        exact ⟨not_handed_of_offAir hair, takes_of_offAir hair⟩
      have hsent : Note.call .schedule (.send (.ok ())) ∈ sent := by
        rcases List.mem_append.mp hhanded with hmem | hmem
        · exact absurd hmem not_handed_aside
        rcases List.mem_append.mp hmem with hmem | hmem
        · exact absurd hmem hsampled.1
        exact (List.mem_append.mp hmem).resolve_right hsettled.1
      rw [List.filterMap_append, takes_aside, List.filterMap_append, hsampled.2,
        List.filterMap_append, hsettled.2, List.append_nil]
      intro name hname
      cases hsends with
      | early hreads h => cases hsent
      | @ended now o outcome calls hreads hdue h =>
          rw [List.nil_append, List.nil_append, takes_marked] at hname
          have hawaits : (n₁.withOutgoing o).outgoing.Awaits name :=
            h.awaited (mem_of_handed hsent) name hname
          exact hawaits.kept hrests.owes.1 (congrArg Uplink.span hrests.kept.1)
            (congrArg TransmitClock.count hrests.kept.2)

/-- An operation after which the radio has a frame: all that the frame has taken
would be told by a good answer. -/
theorem Performs.awaited (h : Performs reads n op notes n')
    (hhanded : Note.call .schedule (.send (.ok ())) ∈ notes) :
    op.calm = true ∧ ∀ name ∈ notes.filterMap Note.takes, n'.outgoing.Awaits name := by
  cases h with
  | iterated h => exact ⟨rfl, h.awaited hhanded⟩
  | @answered now good o outcome calls h =>
      have hsent := mem_of_handed hhanded
      cases h with
      | bad => cases hsent
      | last h hpending =>
          rw [(Outgoing.Settles.answers_stretch h).2] at hsent
          obtain ⟨e, -, heq⟩ := List.mem_map.mp hsent
          cases heq
      | @next slots calls more o' outcome h hpending hsend =>
          have hcalls := (Outgoing.Settles.answers_stretch h).2
          have hmore : Call.send (.ok ()) ∈ more := by
            refine (List.mem_append.mp hsent).resolve_left fun hmem => ?_
            rw [hcalls] at hmem
            obtain ⟨e, -, heq⟩ := List.mem_map.mp hmem
            cases heq
          have hquiet : (Voice.schedule.notes calls).filterMap Note.takes = [] := by
            rw [hcalls]
            refine takes_eq_nil fun c hc => ?_
            obtain ⟨e, -, rfl⟩ := List.mem_map.mp hc
            rfl
          refine ⟨rfl, fun name hname => hsend.awaited hmore name ?_⟩
          rwa [takes_marked, Voice.notes_append, List.filterMap_append, hquiet] at hname
  | switched | woken | powered | set | refused | requested => cases hhanded
  | edited | loaded | read | asked | tested => exact absurd hhanded not_handed_aside

/-- What a good answer tells. -/
theorem Performs.tells (h : Performs reads n (.answer true) notes n') :
    notes.filterMap Note.tells = (Slot.awaiting n.clock.count
      (n.table.window n.uplink.previous n.uplink.reach)).map Entry.name := by
  cases h with
  | @answered now good o outcome calls h =>
      rw [List.filterMap_append, h.tells]
      exact List.append_nil _

/-! ## Runs -/

/-- A run, operation by operation. -/
def deals (d : Devices W) (moves : List (Move W)) (n : Node) (w : W) : List Deal :=
  moves.zipWith (fun m episode => ⟨m.op, episode⟩) (history d moves n w)

/-- What holds before a run and is kept by every operation holds of the deals
and of the node the run comes to. -/
theorem deals_induction (d : Devices W) (claim : List Deal → Node → Prop)
    (hdeal : ∀ past n op notes n', claim past n → Performs (fun _ => True) n op notes n' →
      claim (past ++ [⟨op, n, notes, n'⟩]) n')
    (moves : List (Move W)) (past : List Deal) (n : Node) (w : W) (hstart : claim past n) :
    claim (past ++ deals d moves n w) ((run d moves n).run w).1 := by
  induction moves generalizing past n w with
  | nil =>
      rw [deals, List.zipWith_nil_left, List.append_nil]
      exact hstart
  | cons m rest ih =>
      obtain ⟨hperforms, hplain⟩ := performs_any d n (m.meanwhile w) m.op
      have hrun : (run d (m :: rest) n).run w =
          (run d rest ((n.performBy (.blind d) m.op).run (m.meanwhile w)).1).run
            ((n.performBy (.blind d) m.op).run (m.meanwhile w)).2 := rfl
      rw [hrun, hplain]
      have hrest := ih _ _ ((n.performBy (.full d) m.op).run (m.meanwhile w, [])).2.1
        (hdeal past n m.op _ _ hstart hperforms)
      rw [List.append_assoc] at hrest
      exact hrest

/-- What the flags and the cursor have to do with the deals so far. -/
structure Accounts (past : List Deal) (n : Node) : Prop where
  distinct : n.table.Distinct
  flag : ∀ i e, n.table.get? i = some e → e.tally.awaitsAck = owed i past
  frame : ∀ earlier x later, past = earlier ++ x :: later → x.HandsOver →
    (∀ y ∈ later, y.Idles) →
      (∀ name ∈ x.episode.notes.filterMap Note.takes, n.outgoing.Awaits name) ∧
      ∀ i e, n.table.get? i = some e → e.tally.awaitsAck = true →
        e.name ∈ x.episode.notes.filterMap Note.takes ∨ owed i earlier = true

theorem Accounts.next {past : List Deal} (h : Accounts past n)
    (hperforms : Performs reads n op notes n') : Accounts (past ++ [⟨op, n, notes, n'⟩]) n' where
  distinct := hperforms.distinct h.distinct
  flag i e' hi' := by
    rw [owed_concat]
    exact hperforms.flagged h.distinct (fun e hi => h.flag i e hi) hi'
  frame earlier x later hsplit hhands hidles := by
    rcases List.eq_nil_or_concat later with rfl | ⟨before, y, rfl⟩
    · obtain ⟨rfl, heq⟩ := List.append_inj' hsplit rfl
      cases heq
      obtain ⟨hcalm, hawaited⟩ := hperforms.awaited hhands
      refine ⟨hawaited, fun i e' hi' hflag => ?_⟩
      obtain ⟨e, hi, hname, hawaits⟩ := (hperforms.owes hcalm h.distinct).back hi'
      rw [hflag] at hawaits
      rw [hname]
      rcases owing_true hawaits.symm with hbefore | htaken
      · exact .inr ((h.flag i e hi).symm.trans hbefore)
      · exact .inl htaken
    · rw [List.concat_eq_append] at hsplit hidles
      rw [← List.cons_append, ← List.append_assoc] at hsplit
      obtain ⟨rfl, heq⟩ := List.append_inj' hsplit rfl
      cases heq
      have hidle : Deal.Idles ⟨op, n, notes, n'⟩ := hidles _ (by simp)
      obtain ⟨hawaited, howed⟩ := h.frame earlier x before rfl hhands fun y hy =>
        hidles y (by simp [hy])
      have howes := hperforms.owes_nothing hidle.calm hidle.unanswered hidle.count
      refine ⟨fun name hname => (hawaited name hname).kept howes hidle.span hidle.count,
        fun i e' hi' hflag => ?_⟩
      obtain ⟨e, hi, hname, hawaits⟩ := howes.back hi'
      rw [hname]
      exact howed i e hi (hawaits.symm.trans hflag)

end Node

namespace Life

/-- The whole life, operation by operation. -/
def record (l : Life W) : List Node.Deal := Node.deals l.devices l.moves l.birth l.world

theorem accounts (l : Life W) : Node.Accounts l.record l.node := by
  have hrun := Node.deals_induction l.devices Node.Accounts
    (fun _ _ _ _ _ hpast hperforms => hpast.next hperforms) l.moves [] l.birth l.world
    { distinct := Table.distinct_empty l.capacity l.settings.collectionTime
      flag := fun i e hi => by
        rw [birth, Node.create, Table.get?_empty] at hi
        cases hi
      frame := fun earlier x later hsplit => by simp at hsplit }
  rwa [List.nil_append] at hrun

/-- A good answer tells the sensors of the measurements that are owed one, stand
in the slots of the last frame and are due at the count of the moment, each once.
As long as nothing has moved the cursor or the count since a frame was handed
over, all its measurements are told; and whoever else is told has been owed an
answer from before that frame. -/
theorem told_iff_owed (l : Life W) (w : W) :
    let told := ((l.node.performBy (.full l.devices) (.answer true)).run (w, [])).2.2.filterMap
      Note.tells
    told.Nodup ∧
    (∀ name, name ∈ told ↔ ∃ i e, l.node.table.get? i = some e ∧ e.name = name ∧
      l.node.uplink.Covers i ∧ e.definition.due l.node.clock.count = true ∧
      Node.owed i l.record = true) ∧
    ∀ earlier x later, l.record = earlier ++ x :: later → x.HandsOver →
      (∀ y ∈ later, y.Idles) →
        (∀ name ∈ x.episode.notes.filterMap Note.takes, name ∈ told) ∧
        ∀ name ∈ told, name ∈ x.episode.notes.filterMap Note.takes ∨
          ∃ i e, l.node.table.get? i = some e ∧ e.name = name ∧ Node.owed i earlier = true := by
  intro told
  have haccounts := l.accounts
  have htold : told = (Slot.awaiting l.node.clock.count (l.node.table.window
      l.node.uplink.previous l.node.uplink.reach)).map Entry.name :=
    (Node.performs_any l.devices l.node w (.answer true)).1.tells
  clear_value told
  generalize l.node = n at haccounts htold ⊢
  have hmem : ∀ name, name ∈ told ↔ n.outgoing.Awaits name := fun name => by
    rw [htold]
    exact Outgoing.mem_awaiting (o := n.outgoing)
  refine ⟨?_, fun name => ?_, fun earlier x later hsplit hhands hidles => ?_⟩
  · rw [htold]
    exact haccounts.distinct.nodup _ _ _
  · rw [hmem]
    constructor
    · rintro ⟨i, e, hi, heq, hcovers, hawaits⟩
      obtain ⟨hdue, hflag⟩ := Bool.and_eq_true_iff.mp hawaits
      exact ⟨i, e, hi, heq, hcovers, hdue, (haccounts.flag i e hi).symm.trans hflag⟩
    · rintro ⟨i, e, hi, heq, hcovers, hdue, howed⟩
      exact ⟨i, e, hi, heq, hcovers,
        Bool.and_eq_true_iff.mpr ⟨hdue, (haccounts.flag i e hi).trans howed⟩⟩
  · obtain ⟨hawaited, hfrom⟩ := haccounts.frame earlier x later hsplit hhands hidles
    refine ⟨fun name hname => (hmem name).mpr (hawaited name hname), fun name hname => ?_⟩
    obtain ⟨i, e, hi, rfl, -, hawaits⟩ := (hmem name).mp hname
    rcases hfrom i e hi (Bool.and_eq_true_iff.mp hawaits).2 with htaken | hbefore
    · exact .inl htaken
    · exact .inr ⟨i, e, hi, rfl, hbefore⟩

/-- A life with one measurement that is due at every other tick, up to the end
of the third. -/
def unhurried : Life Timestamp where
  devices := .obliging 0
  settings := { interval := 1000 }
  capacity := 1
  began := 0
  world := 0
  moves :=
    ⟨id, .edit (.add ⟨"A", .custom0, 2, 1, false⟩)⟩ ::
      [501, 1001, 1502, 2002, 3003].map fun time => ⟨fun _ => time, .iterate⟩

/-- The second tick sends a frame with the measurement, and the third ends before
the answer comes. The answer tells nobody. -/
theorem told_iff_owed_unhurried :
    let told := ((unhurried.node.performBy (.full unhurried.devices) (.answer true)).run
      (3004, [])).2.2.filterMap Note.tells
    unhurried.record.flatMap (·.episode.notes.filterMap Note.takes) = ["A"] ∧
    Node.owed 0 unhurried.record = true ∧ told = [] ∧
    ∀ e, unhurried.node.table.get? 0 = some e →
      e.definition.due unhurried.node.clock.count = false := by
  intro told
  obtain ⟨-, htold, -⟩ := told_iff_owed unhurried 3004
  have hfacts : unhurried.record.flatMap (·.episode.notes.filterMap Note.takes) = ["A"] ∧
      Node.owed 0 unhurried.record = true ∧ unhurried.node.uplink.Covers 0 := by
    decide +kernel
  have hnone : told = [] := by decide +kernel
  obtain ⟨htaken, howed, hcovers⟩ := hfacts
  refine ⟨htaken, howed, hnone, fun e he => Bool.eq_false_iff.mpr fun hdue => ?_⟩
  have hmem : e.name ∈ told := (htold e.name).mpr ⟨0, e, he, rfl, hcovers, hdue, howed⟩
  rw [hnone] at hmem
  cases hmem

end Life

end Telemetry
