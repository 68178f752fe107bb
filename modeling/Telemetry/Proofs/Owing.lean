import Telemetry.Proofs.Adrift
import Telemetry.Proofs.Resuming

/-!
# Who is told of a good answer

A measurement that a frame has taken is owed an answer until its sensor is told,
the frame is dropped or a bad answer comes. Nothing of this asks how many frames
ago it was taken, and the flag in its tally says no more than that it is owed
(`Owed`).

The answer itself does not know what its frame has held. It walks the slots
between the begin of the last frame and the cursor once more, and tells the
sensors of those that are owed an answer and due at the count of that moment.
So the measurements of the frame are all told as long as neither the cursor nor
the count has moved since, and together with them those of the same slots that
have been owed an answer from before.
-/

namespace Telemetry

variable {W : Type}

/-! ## Being owed an answer -/

/-- What a call is to the measurement of a name: it is owed an answer from now
on, or no longer. -/
def Call.owes (name : String) : Call → Option Bool
  | .append m _ (.ok _) => if m.name = name then some true else none
  | .delivered m => if m.name = name then some false else none
  | .reset => some false
  | _ => none

def Note.owes (name : String) : Note → Option Bool
  | .call .schedule c => c.owes name
  | _ => none

/-- Whether the measurement of a name is owed an answer after some notes, if it
is known whether it was before. -/
def owing (name : String) (notes : List Note) (owed : Bool) : Bool :=
  notes.foldl (fun owed note => (note.owes name).getD owed) owed

theorem owing_append (name : String) (notes more : List Note) (owed : Bool) :
    owing name (notes ++ more) owed = owing name more (owing name notes owed) :=
  List.foldl_append

theorem owing_cons (name : String) (note : Note) (rest : List Note) (owed : Bool) :
    owing name (note :: rest) owed = owing name rest ((note.owes name).getD owed) := rfl

theorem owing_silent {name : String} {notes : List Note}
    (h : ∀ note ∈ notes, note.owes name = none) (owed : Bool) : owing name notes owed = owed := by
  induction notes generalizing owed with
  | nil => rfl
  | cons note rest ih =>
      rw [owing_cons, h note List.mem_cons_self, Option.getD_none]
      exact ih (fun note hnote => h note (List.mem_cons_of_mem _ hnote)) owed

theorem takes_of_owes {name : String} {note : Note} (h : note.owes name = some true) :
    note.takes = some name := by
  cases note with
  | turn now => cases h
  | sent before after => cases h
  | call v c =>
      cases v with
      | aside => cases h
      | schedule =>
          cases c with
          | append m t answer =>
              cases answer with
              | error cause => cases h
              | ok _ =>
                  simp only [Note.owes, Call.owes] at h
                  split at h
                  · next heq => rw [← heq]; rfl
                  · cases h
          | delivered m =>
              simp only [Note.owes, Call.owes] at h
              split at h <;> cases h
          | _ => cases h

/-- What is owed an answer has been before, or a frame has taken it. -/
theorem owing_true {name : String} {notes : List Note} {owed : Bool}
    (h : owing name notes owed = true) :
    owed = true ∨ name ∈ notes.filterMap Note.takes := by
  induction notes generalizing owed with
  | nil => exact .inl h
  | cons note rest ih =>
      rw [owing_cons] at h
      rcases ih h with howed | hmem
      · cases howes : note.owes name with
        | none =>
            rw [howes] at howed
            exact .inl howed
        | some now =>
            rw [howes] at howed
            subst howed
            exact .inr (List.mem_filterMap.mpr ⟨note, List.mem_cons_self, takes_of_owes howes⟩)
      · obtain ⟨later, hlater, htakes⟩ := List.mem_filterMap.mp hmem
        exact .inr (List.mem_filterMap.mpr ⟨later, List.mem_cons_of_mem _ hlater, htakes⟩)

theorem Call.owes_of_other {name : String} {c : Call} (hsubject : c.subject ≠ none)
    (hother : c.about name = false) : c.owes name = none := by
  have hname : ∀ {m : Definition}, c.subject = some m.name → m.name ≠ name := by
    intro m hm heq
    rw [Call.about, hm, heq, beq_self_eq_true] at hother
    cases hother
  cases c with
  | append m t answer =>
      cases answer with
      | error cause => rfl
      | ok _ => exact if_neg (hname rfl)
  | delivered m => exact if_neg (hname rfl)
  | reset => exact absurd rfl hsubject
  | _ => rfl

/-- Calls for other measurements do not matter, as long as none drops the frame. -/
theorem owing_filter {name : String} {calls : List Call} (h : ∀ c ∈ calls, c.subject ≠ none)
    (owed : Bool) :
    owing name (Voice.schedule.notes calls) owed =
      owing name (Voice.schedule.notes (calls.filter (·.about name))) owed := by
  induction calls generalizing owed with
  | nil => rfl
  | cons c rest ih =>
      have hrest := ih fun c hc => h c (List.mem_cons_of_mem _ hc)
      cases habout : c.about name with
      | true =>
          rw [List.filter_cons_of_pos habout]
          exact hrest _
      | false =>
          have hnone : (Note.call .schedule c).owes name = none :=
            Call.owes_of_other (h c List.mem_cons_self) habout
          rw [List.filter_cons_of_neg (by simp [habout]), ← hrest]
          show owing name (.call .schedule c :: Voice.schedule.notes rest) owed = _
          rw [owing_cons, hnone, Option.getD_none]

/-! ## What sends and answers are to it -/

/-- What some notes are to a table: each measurement keeps its definition, and
waits for an answer if it is owed one after the notes. -/
structure Table.Owes (t : Table) (notes : List Note) (t' : Table) : Prop where
  hole : ∀ i, t.get? i = none → t'.get? i = none
  entry : ∀ i e, t.get? i = some e → ∃ e', t'.get? i = some e' ∧
    e'.definition = e.definition ∧
    e'.tally.awaitsAck = owing e.name notes e.tally.awaitsAck

namespace Table.Owes

variable {t t' t'' : Table} {notes more : List Note}

protected theorem refl (t : Table) : t.Owes [] t where
  hole _ hi := hi
  entry _ e hi := ⟨e, hi, rfl, rfl⟩

theorem trans (h : t.Owes notes t') (hrest : t'.Owes more t'') : t.Owes (notes ++ more) t'' where
  hole i hi := hrest.hole i (h.hole i hi)
  entry i e hi := by
    obtain ⟨e', hi', hm, hawaits⟩ := h.entry i e hi
    obtain ⟨e'', hi'', hm', hawaits'⟩ := hrest.entry i e' hi'
    have hname : e'.name = e.name := congrArg Definition.name hm
    refine ⟨e'', hi'', hm'.trans hm, ?_⟩
    rw [hawaits', hawaits, hname, owing_append]

theorem back (h : t.Owes notes t') {i : Nat} {e' : Entry} (hi' : t'.get? i = some e') :
    ∃ e, t.get? i = some e ∧ e'.name = e.name ∧
      e'.tally.awaitsAck = owing e.name notes e.tally.awaitsAck := by
  cases hi : t.get? i with
  | none =>
      rw [h.hole i hi] at hi'
      cases hi'
  | some e =>
      obtain ⟨e₁, hi₁, hm, hawaits⟩ := h.entry i e hi
      rw [hi₁] at hi'
      cases hi'
      exact ⟨e, rfl, congrArg Definition.name hm, hawaits⟩

theorem distinct (h : t.Owes notes t') (ht : t.Distinct) : t'.Distinct := by
  intro i j e e' hi hj heq
  obtain ⟨e₁, hi₁, h₁, -⟩ := h.back hi
  obtain ⟨e₂, hj₂, h₂, -⟩ := h.back hj
  exact ht i j e₁ e₂ hi₁ hj₂ (h₁.symm.trans (heq.trans h₂))

/-- Notes that are nothing to anyone may be added. -/
theorem silent (h : t.Owes [] t') (hsilent : ∀ note ∈ notes, ∀ name, note.owes name = none) :
    t.Owes notes t' where
  hole := h.hole
  entry i e hi := by
    obtain ⟨e', hi', hm, hawaits⟩ := h.entry i e hi
    refine ⟨e', hi', hm, ?_⟩
    rw [owing_silent fun note hnote => hsilent note hnote e.name]
    exact hawaits

theorem of_passes {deal : Entry → List Call → Entry → Prop} {calls : List Call}
    (h : t.Passes deal t' calls) (hdeal : ∀ e own e', deal e own e' →
      e'.definition = e.definition ∧ e'.tally.awaitsAck = e.tally.awaitsAck) : t.Owes [] t' where
  hole := h.hole
  entry i e hi := by
    obtain ⟨e', own, hi', hdone, -⟩ := h.entry i e hi
    exact ⟨e', hi', (hdeal _ _ _ hdone).1, (hdeal _ _ _ hdone).2⟩

theorem of_touches (h : Relation.ReflTransGen Touches t t') : t.Owes [] t' := by
  induction h with
  | refl => exact .refl t
  | tail _ hlast ih =>
      exact ih.trans (of_passes hlast.passes fun _ _ _ hd => ⟨hd.definition_eq, hd.awaits_eq⟩)

/-- A sweep whose visits make calls for the measurement they visit. -/
theorem of_swept {σ : Type} {visit : Entry → σ → Entry × σ × Bool → List Call → Prop}
    {lo hi : Nat} {s : σ} {x : List Slot × σ × Option Nat} {calls : List Call}
    (ht : t.Distinct) (h : Slot.Swept visit (t.window lo hi) s x calls)
    (hsubject : ∀ e s x own, visit e s x own → ∀ c ∈ own, c.subject = some e.name)
    (hvisit : ∀ e s e' s' stop own, visit e s (e', s', stop) own →
      e'.definition = e.definition ∧
      e'.tally.awaitsAck = owing e.name (Voice.schedule.notes own) e.tally.awaitsAck) :
    t.Owes (Voice.schedule.notes calls) (t.withWindow lo x.1) := by
  have hpasses : t.Passes (fun e own e' => e'.definition = e.definition ∧
      e'.tally.awaitsAck = owing e.name (Voice.schedule.notes own) e.tally.awaitsAck)
      (t.withWindow lo x.1) calls :=
    .of_swept h hsubject (fun e => ⟨rfl, rfl⟩) hvisit
  have hcalls : ∀ c ∈ calls, c.subject ≠ none := by
    intro c hc
    obtain ⟨j, e, s, x, own, -, hv, hmem⟩ := h.calls_of c hc
    rw [hsubject _ _ _ _ hv c hmem]
    exact Option.some_ne_none _
  refine ⟨hpasses.hole, fun i e hi => ?_⟩
  obtain ⟨e', own, hi', ⟨hm, hawaits⟩, hown⟩ := hpasses.entry i e hi
  refine ⟨e', hi', hm, ?_⟩
  rw [owing_filter hcalls, hown ht]
  exact hawaits

/-- A frame that is dropped leaves nothing owed. -/
theorem dropped (h : t.Owes notes t') :
    t.Owes (notes ++ [.call .schedule .reset]) t'.clearAcks where
  hole i hi := by rw [get?_clearAcks, h.hole i hi, Option.map_none]
  entry i e hi := by
    obtain ⟨e', hi', hm, -⟩ := h.entry i e hi
    refine ⟨e'.settled, by rw [get?_clearAcks, hi', Option.map_some], hm, ?_⟩
    rw [owing_append]
    rfl

end Table.Owes

namespace Outgoing

variable {o o' : Outgoing} {now : Timestamp} {calls : List Call}

theorem Appends.owes {count : UInt32} {e e' : Entry} {s s' : UInt16 × UplinkStats} {stop : Bool}
    (h : Appends count e s (e', s', stop) calls) :
    e'.definition = e.definition ∧
      e'.tally.awaitsAck = owing e.name (Voice.schedule.notes calls) e.tally.awaitsAck := by
  cases h with
  | idle h => exact ⟨rfl, rfl⟩
  | unsampled h hs => exact ⟨rfl, rfl⟩
  | refused h hs cause => exact ⟨rfl, rfl⟩
  | accepted h hs => exact ⟨rfl, by simp [owing, Voice.notes, Note.owes, Call.owes, Entry.name]⟩

theorem Settles.owes {count : UInt32} {e e' : Entry} {s s' : Unit}
    (h : Settles count e s (e', s') calls) :
    e'.definition = e.definition ∧
      e'.tally.awaitsAck = owing e.name (Voice.schedule.notes calls) e.tally.awaitsAck := by
  cases h with
  | idle h => exact ⟨rfl, rfl⟩
  | settled h hwaits =>
      exact ⟨rfl, by simp [owing, Voice.notes, Note.owes, Call.owes, Entry.name, Entry.settled]⟩

theorem Fills.owes {queued : UInt16} {complete : Bool}
    (h : o.Fills (o', queued, complete) calls) (ht : o.table.Distinct) :
    o.table.Owes (Voice.schedule.notes calls) o'.table := by
  cases h with
  | walked h =>
      exact .of_swept ht h (fun e s x own hv => hv.subject)
        fun e s e' s' stop own hv => hv.owes

theorem Sends.owes {outcome : SendOutcome} (h : o.Sends now (o', outcome) calls)
    (ht : o.table.Distinct) : o.table.Owes (Voice.schedule.notes calls) o'.table := by
  have hopened : ∀ {t : Table} {more : List Call}, o.table.Owes (Voice.schedule.notes more) t →
      o.table.Owes (Voice.schedule.notes (.openFrame (.ok ()) :: more)) t := fun h => by
    have hopen : o.table.Owes (Voice.schedule.notes [.openFrame (.ok ())]) o.table :=
      (Table.Owes.refl o.table).silent (by simp [Voice.notes, Note.owes, Call.owes])
    exact hopen.trans h
  cases h with
  | stillOffline | lostLink | deferred | stillPending | newlyPending => exact .refl _
  | timedOut h hlate => exact (Table.Owes.refl o.table).dropped
  | initFailed cause =>
      exact (Table.Owes.refl o.table).silent (by simp [Voice.notes, Note.owes, Call.owes])
  | nothing hfill h =>
      rw [ticked_table]
      exact hopened (hfill.owes ht)
  | @handed o₁ queued complete calls more x hfill h hhand =>
      have hfilled := hfill.owes ht
      rw [← ticked_table o₁ now] at hfilled
      refine hopened ?_
      rw [Voice.notes_append]
      have hsent : ∀ answer, (o₁.ticked now).table.Owes
          (Voice.schedule.notes [.send answer]) (o₁.ticked now).table := fun answer =>
        (Table.Owes.refl _).silent (by simp [Voice.notes, Note.owes, Call.owes])
      cases hhand with
      | failed cause => exact hfilled.trans (hsent _).dropped
      | last h => exact hfilled.trans (hsent _)
      | part h => exact hfilled.trans (hsent _)

/-- A good answer, with the frame that may follow it. -/
theorem Answers.owes {outcome : Option SendOutcome}
    (h : o.Answers now true (o', outcome) calls) (ht : o.table.Distinct) :
    o.table.Owes (Voice.schedule.notes calls) o'.table := by
  have hsettled : ∀ {slots : List Slot} {own : List Call},
      Slot.Swept (Slot.Through (Settles o.clock.count))
        (o.table.window o.uplink.previous o.uplink.reach) () (slots, (), none) own →
      o.table.Owes (Voice.schedule.notes own) (o.table.withWindow o.uplink.previous slots) :=
    fun h => .of_swept ht h (fun e s x own hv => hv.2.subject)
      fun e s e' s' stop own hv => hv.2.owes
  cases h with
  | last h hpending => exact hsettled h
  | next h hpending hsend =>
      have howes := hsettled h
      rw [Voice.notes_append]
      exact howes.trans (hsend.owes (howes.distinct ht))

end Outgoing

/-! ## Operations -/

theorem owes_of_offAir {v : Voice} {calls : List Call} (h : ∀ c ∈ calls, c.offAir = true) :
    ∀ note ∈ v.notes calls, ∀ name, note.owes name = none := by
  intro note hnote name
  obtain ⟨c, hc, rfl⟩ := List.mem_map.mp hnote
  have hair := h c hc
  cases v with
  | aside => rfl
  | schedule =>
      cases c with
      | append m t answer => cases hair
      | delivered m => cases hair
      | reset => cases hair
      | _ => rfl

theorem owes_aside {calls : List Call} :
    ∀ note ∈ Voice.aside.notes calls, ∀ name, note.owes name = none := by
  intro note hnote name
  obtain ⟨c, hc, rfl⟩ := List.mem_map.mp hnote
  rfl

/-- Whether an operation tells that all answers are bad. -/
def Op.forgets : Op → Bool
  | .answer good => !good
  | _ => false

namespace Node

/-- An operation of a run, with what happens in it. -/
structure Deal where
  op : Op
  episode : Episode

/-- Whether the measurement in a slot is owed an answer after an operation. -/
def Deal.owes (i : Nat) (x : Deal) (owed : Bool) : Bool :=
  match x.episode.before.table.get? i with
  | none => false
  | some e => !x.op.forgets && owing e.name x.episode.notes owed

/-- Whether the measurement in a slot is owed an answer after a run. -/
def owed (i : Nat) (record : List Deal) : Bool := record.foldl (fun owed x => x.owes i owed) false

theorem owed_concat (i : Nat) (record : List Deal) (x : Deal) :
    owed i (record ++ [x]) = x.owes i (owed i record) := by
  rw [owed, List.foldl_append, List.foldl_cons, List.foldl_nil]
  rfl

variable {reads : Timestamp → Prop} {n n' : Node} {op : Op} {notes : List Note}

theorem polls_owes {s s' : Sampler} {t t' : Table} {polled : UInt32} {calls : List Call}
    (h : s.PollsOpen t (s', t', polled) calls) : t.Owes [] t' :=
  .of_passes h.passes fun _ _ _ hd => ⟨hd.definition_eq, congrArg Prod.fst hd.marks_eq⟩

theorem Samples.owes (h : Samples reads n notes n') :
    n.table.Owes [] n'.table ∧ ∀ note ∈ notes, ∀ name, note.owes name = none := by
  cases h with
  | waits hreads h => exact ⟨.refl _, by simp⟩
  | @turns now sampler table calls hreads hdue h =>
      refine ⟨.of_passes h.passes fun _ _ _ hd =>
        ⟨hd.definition_eq, congrArg Prod.fst hd.marks_eq⟩, fun note hnote name => ?_⟩
      rcases List.mem_cons.mp hnote with rfl | hnote
      · rfl
      · exact owes_of_offAir h.offAir note hnote name

theorem Rests.owes {sleep : Option SleepDecision} (h : Rests n sleep notes n') :
    n.table.Owes [] n'.table ∧ ∀ note ∈ notes, ∀ name, note.owes name = none := by
  have hsilent : ∀ note ∈ notes, ∀ name, note.owes name = none := by
    obtain ⟨calls, rfl, hair⟩ := h.offAir
    exact owes_of_offAir hair
  cases h with
  | rested h slept hnap hsleep => exact ⟨polls_owes h, hsilent⟩

theorem requested_owes (t : Table) (name : String) :
    t.Owes [] (t.amend name fun e => e.withTally { e.tally with instantRequested := true }).1 := by
  have hpasses : t.Passes (fun e _ e' => e'.definition = e.definition ∧
      e'.tally.awaitsAck = e.tally.awaitsAck)
      (t.amend name fun e => e.withTally { e.tally with instantRequested := true }).1 [] :=
    .amend name (fun e => ⟨rfl, rfl⟩) fun e => ⟨rfl, rfl⟩
  exact .of_passes hpasses fun _ _ _ h => h

theorem Transmits.owes {outcome : Option SendOutcome} (h : Transmits reads n outcome notes n')
    (ht : n.table.Distinct) : n.table.Owes notes n'.table := by
  cases h with
  | early hreads h => exact .refl _
  | @ended now o outcome calls hreads hdue h =>
      exact (h.owes ht).trans ((Table.Owes.refl _).silent (by simp [Note.owes]))

theorem Loops.owes {iteration : Iteration} (h : Loops reads n iteration notes n')
    (ht : n.table.Distinct) : n.table.Owes notes n'.table := by
  cases h with
  | disabled h => exact .refl _
  | @disconnected n₁ sampler table polled calls henabled hdropped h =>
      rw [← table_of_dropped hdropped]
      exact (polls_owes h).silent (owes_of_offAir h.offAir)
  | reconnected henabled hoffline hreads => exact .refl _
  | @ran table n₁ n₂ n₃ send sleep calls sampled sent settled henabled hoffline haside hidle
      hsamples hsends hrests =>
      have haside' : n.table.Owes (Voice.aside.notes calls) table :=
        (Table.Owes.of_touches haside).silent owes_aside
      have hsampled : table.Owes sampled n₁.table := hsamples.owes.1.silent hsamples.owes.2
      have hrested : n₂.table.Owes settled n'.table := hrests.owes.1.silent hrests.owes.2
      have hsent := hsends.owes ((haside'.trans hsampled).distinct ht)
      exact haside'.trans (hsampled.trans (hsent.trans hrested))

/-- A turn of the loop that does not move the count does not end a tick. -/
theorem Loops.owes_nothing {iteration : Iteration} (h : Loops reads n iteration notes n')
    (hcount : n'.clock.count = n.clock.count) : n.table.Owes [] n'.table := by
  cases h with
  | disabled h => exact .refl _
  | @disconnected n₁ sampler table polled calls henabled hdropped h =>
      rw [← table_of_dropped hdropped]
      exact polls_owes h
  | reconnected henabled hoffline hreads => exact .refl _
  | @ran table n₁ n₂ n₃ send sleep calls sampled sent settled henabled hoffline haside hidle
      hsamples hsends hrests =>
      cases hsends with
      | early hreads h =>
          have haside' : n.table.Owes [] table := .of_touches haside
          exact (haside'.trans hsamples.owes.1).trans hrests.owes.1
      | @ended now o outcome calls hreads hdue h =>
          have hmoved : n'.clock.count = n.clock.count + 1 := by
            rw [hrests.kept.2, ← show n₁.clock = n.clock from hsamples.kept.2]
            exact h.count_eq
          exact absurd (hmoved.symm.trans hcount) (Tally.succ_ne _)

/-- Operations besides the loop's and the answers, as long as they are calm. -/
theorem Performs.owes_otherwise (h : Performs reads n op notes n') (hcalm : op.calm = true)
    (hloop : op ≠ .iterate) (hanswer : op ≠ .answer true) :
    n.table.Owes [] n'.table ∧ ∀ note ∈ notes, ∀ name, note.owes name = none := by
  cases h with
  | iterated h => exact absurd rfl hloop
  | @answered now good o outcome calls h =>
      have hgood : good = true := hcalm
      subst hgood
      exact absurd rfl hanswer
  | switched | woken | powered | refused => exact ⟨.refl _, by simp⟩
  | set interval h =>
      rw [(setInterval_table h).1]
      exact ⟨.refl _, by simp⟩
  | requested name => exact ⟨requested_owes n.table name, by simp⟩
  | edited e calls he h =>
      cases e with
      | request name => exact absurd rfl (he name)
      | add | remove | rename | setPeriod | setSampleCount | setImmediate => cases hcalm
  | loaded => cases hcalm
  | read name timeout calls h => exact ⟨.of_touches h, owes_aside⟩
  | asked name calls => exact ⟨.refl _, owes_aside⟩
  | tested name calls h => exact ⟨.of_touches h, owes_aside⟩

/-- What is owed follows the notes of an operation that neither edits the table
nor tells of a bad answer. -/
theorem Performs.owes (h : Performs reads n op notes n') (hcalm : op.calm = true)
    (ht : n.table.Distinct) : n.table.Owes notes n'.table := by
  by_cases hloop : op = .iterate
  · subst hloop
    cases h with
    | iterated h => exact h.owes ht
  by_cases hanswer : op = .answer true
  · subst hanswer
    cases h with
    | answered h => exact (h.owes ht).trans ((Table.Owes.refl _).silent (by simp [Note.owes]))
  obtain ⟨howes, hsilent⟩ := h.owes_otherwise hcalm hloop hanswer
  exact howes.silent hsilent

/-- Between a frame and its answer nothing becomes owed, and nothing ceases to be. -/
theorem Performs.owes_nothing (h : Performs reads n op notes n') (hcalm : op.calm = true)
    (hanswer : op ≠ .answer true) (hcount : n'.clock.count = n.clock.count) :
    n.table.Owes [] n'.table := by
  by_cases hloop : op = .iterate
  · subst hloop
    cases h with
    | iterated h => exact h.owes_nothing hcount
  exact (h.owes_otherwise hcalm hloop hanswer).1

/-- All other operations. -/
theorem Performs.upsets (h : Performs reads n op notes n') (hcalm : op.calm = false) :
    op = .answer false ∧ n'.table = n.table.clearAcks ∨
      op.forgets = false ∧ n.table.Edits n'.table ∧
        ∀ note ∈ notes, ∀ name, note.owes name = none := by
  cases h with
  | @answered now good o outcome calls h =>
      have hgood : good = false := hcalm
      subst hgood
      cases h with
      | bad => exact .inl ⟨rfl, rfl⟩
  | edited e calls he h => exact .inr ⟨rfl, h, owes_aside⟩
  | loaded persisted defaults calls h => exact .inr ⟨rfl, h, owes_aside⟩
  | iterated | switched | woken | powered | set | refused | requested | read | asked | tested =>
      cases hcalm

/-- The flag in a tally says whether its measurement is owed an answer. -/
theorem Performs.flagged (h : Performs reads n op notes n') (ht : n.table.Distinct) {i : Nat}
    {owed : Bool} (howed : ∀ e, n.table.get? i = some e → e.tally.awaitsAck = owed) {e' : Entry}
    (hi' : n'.table.get? i = some e') :
    e'.tally.awaitsAck = Deal.owes i ⟨op, n, notes, n'⟩ owed := by
  unfold Deal.owes
  dsimp only
  cases hcalm : op.calm with
  | true =>
      have hforgets : op.forgets = false := by
        cases op with
        | answer good => exact congrArg (!·) hcalm
        | _ => rfl
      obtain ⟨e, hi, -, hawaits⟩ := (h.owes hcalm ht).back hi'
      rw [hi, hawaits, howed e hi, hforgets]
      rfl
  | false =>
      rcases h.upsets hcalm with ⟨rfl, htable⟩ | ⟨hforgets, hedits, hsilent⟩
      · rw [htable, Table.get?_clearAcks] at hi'
        obtain ⟨e, hi, rfl⟩ := Option.map_eq_some_iff.mp hi'
        rw [hi]
        rfl
      · have hedited := hedits.edited hi'
        cases hi : n.table.get? i with
        | none =>
            rw [hi] at hedited
            cases hedited with
            | added m kind leadTime => rfl
        | some e =>
            rw [hi] at hedited
            cases hedited with
            | kept e m instantRequested =>
                rw [← howed e hi, hforgets]
                show e.tally.awaitsAck = (!false && owing e.name notes e.tally.awaitsAck)
                rw [owing_silent fun note hnote => hsilent note hnote e.name]
                rfl

theorem Performs.distinct (h : Performs reads n op notes n') (ht : n.table.Distinct) :
    n'.table.Distinct := by
  cases hcalm : op.calm with
  | true => exact (h.owes hcalm ht).distinct ht
  | false =>
      rcases h.upsets hcalm with ⟨-, htable⟩ | ⟨-, hedits, -⟩
      · rw [htable]
        exact (Table.Owes.refl n.table).dropped.distinct ht
      · exact hedits.distinct ht

end Node

end Telemetry
