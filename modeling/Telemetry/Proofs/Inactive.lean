import Telemetry.Proofs.Frames
import Telemetry.Proofs.Loops
import Telemetry.Proofs.Stays

/-!
# Measurements that are switched off

A measurement without a period, without samples or without a name is inactive.
The sampler's turns and the uplink's walks pass it over, each by a look at its
definition. The round of polls does not look: an acquisition that was open when
the measurement became inactive is polled in every turn of the loop, and no turn
sleeps, until a poll fails. Nothing else can end it, as nothing collects.

`Sampler.Lingers` is this and no more, seen from the calls. It is judged of one
step, and joins over the steps of an operation and over the operations of a run.
-/

namespace Telemetry

variable {W : Type}

/-! ## The schedule's calls for a measurement -/

/-- The call of the schedule that a note tells of. -/
def Note.scheduled : Note → Option Call
  | .call .schedule c => some c
  | _ => none

/-- The calls that the schedule makes for the measurement of a name. -/
def callsFor (name : String) (notes : List Note) : List Call :=
  (notes.filterMap Note.scheduled).filter (·.about name)

theorem callsFor_append (name : String) (notes more : List Note) :
    callsFor name (notes ++ more) = callsFor name notes ++ callsFor name more := by
  rw [callsFor, List.filterMap_append, List.filter_append]
  rfl

theorem scheduled_schedule (calls : List Call) :
    (Voice.schedule.notes calls).filterMap Note.scheduled = calls := by
  rw [Voice.notes, List.filterMap_map]
  exact List.filterMap_some

theorem scheduled_aside (calls : List Call) :
    (Voice.aside.notes calls).filterMap Note.scheduled = [] := by
  rw [Voice.notes, List.filterMap_map]
  exact List.filterMap_eq_nil_iff.mpr fun _ _ => rfl

/-- They are among the notes that concern it. -/
theorem callsFor_eq (name : String) (notes : List Note) :
    callsFor name notes = (notes.filter (·.concerns name)).filterMap Note.scheduled := by
  induction notes with
  | nil => rfl
  | cons note rest ih =>
      rw [callsFor] at ih ⊢
      cases note with
      | turn now => exact ih
      | sent before after => exact ih
      | call v c =>
          cases v with
          | aside => exact ih
          | schedule =>
              have hhead : Note.scheduled (.call .schedule c) = some c := rfl
              cases habout : c.about name with
              | true =>
                  have hconcerns : Note.concerns name (.call .schedule c) = true := habout
                  rw [List.filterMap_cons_some hhead, List.filter_cons_of_pos habout,
                    List.filter_cons_of_pos hconcerns, List.filterMap_cons_some hhead, ih]
              | false =>
                  have hsilent : ¬ Note.concerns name (.call .schedule c) = true := by
                    rw [Note.concerns, habout]
                    exact Bool.false_ne_true
                  rw [List.filterMap_cons_some hhead,
                    List.filter_cons_of_neg (Bool.eq_false_iff.mp habout),
                    List.filter_cons_of_neg hsilent, ih]

/-! ## An open acquisition that nobody collects -/

/-- What is left to a measurement whose turns do not come: if an acquisition is
open it is polled, until a poll fails. -/
inductive Sampler.Lingers : Bool → List Call → Bool → Prop where
  | nil (inFlight : Bool) : Lingers inFlight [] inFlight
  | asked {inFlight : Bool} {calls : List Call} (m : Definition) (answer : Reply Unit)
      (hfine : ∀ cause, answer ≠ .failed cause) (hrest : Lingers true calls inFlight) :
      Lingers true (.poll m answer :: calls) inFlight
  | failed (m : Definition) (cause : SensorError) :
      Lingers true [.poll m (.failed cause)] false

theorem Sampler.Lingers.trans {before inFlight after : Bool} {calls more : List Call}
    (h : Lingers before calls inFlight) (hrest : Lingers inFlight more after) :
    Lingers before (calls ++ more) after := by
  induction h with
  | nil inFlight => exact hrest
  | asked m answer hfine _ ih => exact .asked m answer hfine (ih hrest)
  | failed m cause =>
      cases hrest with
      | nil => exact .failed m cause

/-- Once nothing is open, nothing is called. -/
theorem Sampler.Lingers.eq_nil {inFlight : Bool} {calls : List Call}
    (h : Lingers false calls inFlight) : calls = [] := by
  cases h with
  | nil => rfl

namespace Entry

variable {e e' : Entry} {own : List Call}

theorem TurnedTo.idle {guard : UInt32} {clock : TransmitClock} {now : Timestamp}
    (h : e.TurnedTo guard clock now own e') (hinactive : e.definition.active = false) :
    e' = e ∧ own = [] := by
  rcases h with hspared | ⟨s, s', h⟩
  · exact hspared
  · cases h with
    | idle h => exact ⟨rfl, rfl⟩
    | active h hturn => exact absurd (hinactive.symm.trans h) Bool.noConfusion

theorem PolledTo.lingers (h : e.PolledTo own e') :
    Sampler.Lingers e.tally.inFlight own e'.tally.inFlight := by
  rcases h with ⟨rfl, rfl⟩ | ⟨s, s', h⟩
  · exact .nil _
  · cases h with
    | idle h => exact .nil _
    | failed h cause =>
        have hover : (e.withTally e.tally.abandoned).tally.inFlight = false :=
          decide_eq_false (UInt32.lt_irrefl e.tally.started)
        rw [h, hover]
        exact .failed e.definition cause
    | asked h answer hfine =>
        rw [h]
        exact .asked e.definition answer hfine (.nil true)

theorem Handled.idle (h : e.Handled own e') (hinactive : e.definition.active = false) :
    own = [] ∧ e'.tally.inFlight = e.tally.inFlight := by
  have hnever : ∀ {count : UInt32}, e.definition.due count = true → False := fun hdue =>
    Bool.noConfusion (hinactive.symm.trans (Definition.active_of_due hdue))
  cases h with
  | appended h =>
      cases h with
      | idle h => exact ⟨rfl, rfl⟩
      | unsampled h hs => exact (hnever h).elim
      | refused h hs cause => exact (hnever h).elim
      | accepted h hs => exact (hnever h).elim
  | answered h =>
      cases h with
      | idle h => exact ⟨rfl, rfl⟩
      | settled h hwaits => exact (hnever h).elim
  | cleared => exact ⟨rfl, rfl⟩

theorem Handlings.idle (h : e.Handlings own e') (hinactive : e.definition.active = false) :
    own = [] ∧ e'.tally.inFlight = e.tally.inFlight := by
  induction h with
  | nil e => exact ⟨rfl, rfl⟩
  | cons h _ ih =>
      obtain ⟨rfl, hsame⟩ := h.idle hinactive
      obtain ⟨rfl, hrest⟩ := ih (by rw [h.definition_eq, hinactive])
      exact ⟨rfl, hrest.trans hsame⟩

theorem TouchedTo.inFlight_eq (h : e.TouchedTo own e') :
    e'.tally.inFlight = e.tally.inFlight := by
  rcases h.2 with rfl | h | h
  · rfl
  · cases h <;> rfl
  · cases h <;> rfl

end Entry

namespace Node

variable {n n' : Node} {notes : List Note} {i : Nat} {e e' : Entry}

theorem Seen.lingers (h : Seen n n' e notes e') (hinactive : e.definition.active = false) :
    Sampler.Lingers e.tally.inFlight (notes.filterMap Note.scheduled) e'.tally.inFlight := by
  cases h with
  | turn now h =>
      obtain ⟨rfl, rfl⟩ := h.idle hinactive
      exact .nil _
  | polled h =>
      rw [scheduled_schedule]
      exact h.lingers
  | sent h =>
      obtain ⟨rfl, hsame⟩ := h.idle hinactive
      rw [hsame]
      exact .nil _
  | touched h =>
      rw [h.inFlight_eq]
      exact .nil _

theorem Path.lingers (h : Path n notes n') (ht : n.table.Distinct)
    (hi : n.table.get? i = some e) (hinactive : e.definition.active = false) :
    ∃ e', n'.table.get? i = some e' ∧
      Sampler.Lingers e.tally.inFlight (callsFor e.name notes) e'.tally.inFlight := by
  induction h generalizing e with
  | nil n => exact ⟨e, hi, .nil _⟩
  | cons h _ ih =>
      obtain ⟨e₁, hi₁, hseen⟩ := h.seen ht hi
      have hm := hseen.definition_eq
      obtain ⟨e₂, hi₂, hrest⟩ := ih (h.distinct ht) hi₁ (hm ▸ hinactive)
      rw [Entry.name, hm] at hrest
      refine ⟨e₂, hi₂, ?_⟩
      rw [callsFor_append, callsFor_eq e.name]
      exact (hseen.lingers hinactive).trans hrest

/-- An edit leaves an open acquisition open, and makes no call of the schedule. -/
theorem Deed.lingers (h : Deed n notes n') (ht : n.table.Distinct)
    (hi : n.table.get? i = some e) (hinactive : e.definition.active = false)
    (hi' : n'.table.get? i = some e') :
    Sampler.Lingers e.tally.inFlight (callsFor e.name notes) e'.tally.inFlight := by
  cases h with
  | steps h =>
      obtain ⟨e₁, hi₁, hlingers⟩ := h.lingers ht hi hinactive
      rw [hi₁] at hi'
      cases hi'
      exact hlingers
  | edit calls h =>
      have hedited := h.edited hi'
      rw [hi] at hedited
      rw [callsFor, scheduled_aside]
      cases hedited with
      | kept e m instantRequested => exact .nil _

/-! ## Runs -/

/-- Whether a slot holds a measurement that is inactive. -/
def inactiveAt (n : Node) (i : Nat) : Bool := (n.table.get? i).any (!·.definition.active)

/-- Whether the measurement in a slot has an open acquisition. -/
def inFlightAt (n : Node) (i : Nat) : Bool := (n.table.get? i).any (·.tally.inFlight)

/-- The calls that the schedule makes for the measurement in a slot. -/
def Episode.callsAt (i : Nat) (ep : Episode) : List Call :=
  match ep.before.table.get? i with
  | none => []
  | some e => callsFor e.name ep.notes

theorem of_inactiveAt (h : n.inactiveAt i = true) :
    ∃ e, n.table.get? i = some e ∧ e.definition.active = false ∧
      n.inFlightAt i = e.tally.inFlight := by
  rw [inactiveAt] at h
  rw [inFlightAt]
  cases hi : n.table.get? i with
  | none =>
      rw [hi] at h
      cases h
  | some e =>
      rw [hi, Option.any_some, Bool.not_eq_true'] at h
      exact ⟨e, rfl, h, rfl⟩

/-- While a slot holds an inactive measurement, its acquisition lingers. -/
theorem history_lingers (d : Devices W) (n : Node) (ht : n.table.Distinct) (i : Nat)
    (moves : List (Move W)) (w : W)
    (hinactive : ∀ ep ∈ history d moves n w, ep.before.inactiveAt i = true)
    (hend : ((run d moves n).run w).1.inactiveAt i = true) :
    Sampler.Lingers (n.inFlightAt i) ((history d moves n w).flatMap (·.callsAt i))
      (((run d moves n).run w).1.inFlightAt i) := by
  have hrun := history_induction d n
    (fun past n' => n'.table.Distinct ∧
      ((∀ ep ∈ past, ep.before.inactiveAt i = true) → n'.inactiveAt i = true →
        Sampler.Lingers (n.inFlightAt i) (past.flatMap (·.callsAt i)) (n'.inFlightAt i)))
    (fun past n₁ notes n₂ hpast hdeed => ?_) moves [] w ⟨ht, fun _ _ => .nil _⟩
  · rw [List.nil_append] at hrun
    exact hrun.2 hinactive hend
  · refine ⟨hdeed.distinct hpast.1, fun hbefore hafter => ?_⟩
    have hidle : n₁.inactiveAt i = true := hbefore ⟨n₁, notes, n₂⟩ (by simp)
    obtain ⟨e, hi, he, hflight⟩ := of_inactiveAt hidle
    obtain ⟨e', hi', -, hflight'⟩ := of_inactiveAt hafter
    have hlingers := hpast.2 (fun ep hep => hbefore ep (by simp [hep])) hidle
    have hlast := hdeed.lingers hpast.1 hi he hi'
    rw [← hflight, ← hflight'] at hlast
    rw [List.flatMap_append, List.flatMap_singleton]
    refine hlingers.trans ?_
    rwa [Episode.callsAt, hi]

end Node

/-! ## The round of polls -/

namespace Sampler

/-- A round of polls counts the open acquisitions. -/
theorem Polls.counts {slots : List Slot} {s : SamplerStats × UInt32}
    {x : List Slot × (SamplerStats × UInt32) × Option Nat} {calls : List Call}
    (h : Slot.Swept (Slot.Through Polls) slots s x calls)
    (hroom : s.2.toNat + slots.length < UInt32.size) :
    x.2.1.2.toNat = s.2.toNat + (slots.filterMap (·.filter (·.tally.inFlight))).length := by
  induction h with
  | nil s => rfl
  | hole h ih =>
      rw [List.length_cons] at hroom
      exact ih (by omega)
  | stop h => cases h.1
  | @next e e' rest rest' s s' s'' stop calls more h hrest ih =>
      rw [List.length_cons] at hroom
      have hsucc : (s.2 + 1).toNat = s.2.toNat + 1 := by
        rw [UInt32.toNat_add]
        refine Nat.mod_eq_of_lt ?_
        show s.2.toNat + 1 < UInt32.size
        omega
      have hnext : s'.2.toNat = s.2.toNat + if e.tally.inFlight then 1 else 0 := by
        cases h.2 with
        | idle hover => rw [hover]; rfl
        | failed hopen cause => rw [hopen]; exact hsucc
        | asked hopen answer hfine => rw [hopen]; exact hsucc
      rw [Slot.filter_cons]
      cases hopen : e.tally.inFlight with
      | true =>
          rw [hopen, if_pos rfl] at hnext
          rw [if_pos rfl, List.length_cons, ih (by omega), hnext]
          omega
      | false =>
          rw [hopen, if_neg Bool.false_ne_true] at hnext
          rw [if_neg Bool.false_ne_true, ih (by omega), hnext]
          omega

variable {s s' : Sampler} {t t' : Table} {polled : UInt32} {calls : List Call}

theorem PollsOpen.polled_ne_zero_iff (h : s.PollsOpen t (s', t', polled) calls)
    (hroom : t.capacity < UInt32.size) :
    polled ≠ 0 ↔ ∃ i e, t.get? i = some e ∧ e.tally.inFlight = true := by
  cases h with
  | polled h =>
      have hcount := Polls.counts h (by rw [UInt32.toNat_zero, Nat.zero_add]; exact hroom)
      rw [UInt32.toNat_zero, Nat.zero_add] at hcount
      rw [Ne, ← UInt32.toNat_inj, UInt32.toNat_zero, hcount, List.length_eq_zero_iff]
      constructor
      · intro hne
        obtain ⟨e, he⟩ := List.exists_mem_of_ne_nil _ hne
        obtain ⟨hslot, hopen⟩ := Slot.mem_filter.mp he
        obtain ⟨i, hi⟩ := List.mem_iff_getElem?.mp hslot
        exact ⟨i, e, Table.get?_eq_some.mpr hi, hopen⟩
      · rintro ⟨i, e, hi, hopen⟩
        have hslot := List.mem_of_getElem? (Table.get?_eq_some.mp hi)
        exact List.ne_nil_of_mem (Slot.mem_filter.mpr ⟨hslot, hopen⟩)

/-- Every open acquisition is polled, whatever its definition says. -/
theorem PollsOpen.polls (h : s.PollsOpen t (s', t', polled) calls) {i : Nat} {e : Entry}
    (hi : t.get? i = some e) (hopen : e.tally.inFlight = true) :
    ∃ answer, Call.poll e.definition answer ∈ calls := by
  cases h with
  | polled h =>
      obtain ⟨-, hvisits⟩ := h.at_visit (fun _ _ => True) (fun _ => trivial)
        (fun _ _ _ _ _ => trivial) (fun _ _ _ _ _ _ _ => trivial) rfl
      obtain ⟨e', s₁, s₂, own, -, hv, -, hown⟩ := hvisits i e (Table.get?_eq_some.mp hi)
      cases hv.2 with
      | idle h => exact absurd (h.symm.trans hopen) Bool.noConfusion
      | failed h cause => exact ⟨_, hown _ List.mem_cons_self⟩
      | asked h answer hfine => exact ⟨_, hown _ List.mem_cons_self⟩

end Sampler

namespace Node

variable {reads : Timestamp → Prop} {n n' : Node} {notes : List Note} {i : Nat} {e : Entry}
  {send : Option SendOutcome} {sleep : Option SleepDecision} {iteration : Iteration}

theorem Rests.polls (h : Rests n sleep notes n') (hroom : n.table.capacity < UInt32.size)
    (hi : n.table.get? i = some e) (hopen : e.tally.inFlight = true) :
    sleep = none ∧ ∃ answer, Note.call .schedule (.poll e.definition answer) ∈ notes := by
  cases h with
  | rested h slept hnap hsleep =>
      obtain ⟨answer, hmem⟩ := h.polls hi hopen
      exact ⟨hsleep.mpr ((h.polled_ne_zero_iff hroom).mpr ⟨i, e, hi, hopen⟩), answer,
        List.mem_map_of_mem (List.mem_append_left _ hmem)⟩

/-- A turn that does not sleep has polled some acquisition. -/
theorem Rests.polled_of_awake (h : Rests n none notes n')
    (hroom : n.table.capacity < UInt32.size) :
    ∃ m answer, Note.call .schedule (.poll m answer) ∈ notes := by
  cases h with
  | rested h slept hnap hsleep =>
      obtain ⟨i, e, hi, hopen⟩ := (h.polled_ne_zero_iff hroom).mp (hsleep.mp rfl)
      obtain ⟨answer, hmem⟩ := h.polls hi hopen
      exact ⟨e.definition, answer, List.mem_map_of_mem (List.mem_append_left _ hmem)⟩

/-- What a measurement that is inactive keeps until the round of polls. -/
def Spares (t t' : Table) : Prop :=
  t'.capacity = t.capacity ∧ ∀ i e, t.get? i = some e → e.definition.active = false →
    ∃ e', t'.get? i = some e' ∧ e'.definition = e.definition ∧
      e'.tally.inFlight = e.tally.inFlight

theorem Spares.trans {t t' t'' : Table} (h : Spares t t') (hrest : Spares t' t'') :
    Spares t t'' := by
  refine ⟨hrest.1.trans h.1, fun i e hi hinactive => ?_⟩
  obtain ⟨e', hi', hm, hsame⟩ := h.2 i e hi hinactive
  obtain ⟨e'', hi'', hm', hsame'⟩ := hrest.2 i e' hi' (hm ▸ hinactive)
  exact ⟨e'', hi'', hm'.trans hm, hsame'.trans hsame⟩

theorem Spares.of_passes {deal : Entry → List Call → Entry → Prop} {t t' : Table}
    {calls : List Call} (h : t.Passes deal t' calls)
    (hdeal : ∀ e own e', deal e own e' → e.definition.active = false →
      e'.definition = e.definition ∧ e'.tally.inFlight = e.tally.inFlight) : Spares t t' := by
  refine ⟨h.capacity, fun i e hi hinactive => ?_⟩
  obtain ⟨e', own, hi', hdone, -⟩ := h.entry i e hi
  exact ⟨e', hi', hdeal _ _ _ hdone hinactive⟩

/-- The end of a turn of the loop, before which the turn spares what is inactive. -/
theorem Loops.settles (h : Loops reads n (.ran send sleep) notes n') :
    ∃ n₁ settled, Rests n₁ sleep settled n' ∧ Spares n.table n₁.table ∧
      ∀ note ∈ settled, note ∈ notes := by
  cases h with
  | @ran table n₁ n₂ n₃ send sleep calls sampled sent settled henabled hoffline haside hidle
      hsamples hsends hrests =>
      have hspared : ∀ t : Table, Spares t t := fun t => ⟨rfl, fun i e hi _ => ⟨e, hi, rfl, rfl⟩⟩
      have htouched : Spares n.table table := by
        clear hidle hsamples
        induction haside with
        | refl => exact hspared _
        | tail _ hlast ih =>
            exact ih.trans (.of_passes hlast.passes fun _ _ _ hd _ =>
              ⟨hd.definition_eq, hd.inFlight_eq⟩)
      have hsampled : Spares table n₁.table := by
        cases hsamples with
        | waits hreads h => exact hspared _
        | turns hreads hdue h =>
            refine .of_passes h.passes fun e own e' hd hinactive => ?_
            obtain ⟨rfl, -⟩ := hd.idle hinactive
            exact ⟨rfl, rfl⟩
      have hsent : Spares n₁.table n₂.table := by
        cases hsends with
        | early hreads h => exact hspared _
        | ended hreads hdue h =>
            exact .of_passes h.passes fun _ _ _ hd hinactive =>
              ⟨hd.definition_eq, (hd.idle hinactive).2⟩
      exact ⟨n₂, settled, hrests, (htouched.trans hsampled).trans hsent,
        fun note hnote => by simp [hnote]⟩

/-- A turn of the loop that comes to the round of polls. -/
theorem Loops.polls (h : Loops reads n iteration notes n')
    (hround : iteration = .disconnected ∨ ∃ send sleep, iteration = .ran send sleep)
    (hroom : n.table.capacity < UInt32.size) (hi : n.table.get? i = some e)
    (hinactive : e.definition.active = false) (hopen : e.tally.inFlight = true) :
    (∃ answer, Note.call .schedule (.poll e.definition answer) ∈ notes) ∧
      ∀ send sleep, iteration = .ran send sleep → sleep = none := by
  rcases hround with rfl | ⟨send, sleep, rfl⟩
  · cases h with
    | @disconnected n₁ sampler table polled calls henabled hdropped h =>
        rw [← table_of_dropped hdropped] at hi
        obtain ⟨answer, hmem⟩ := h.polls hi hopen
        exact ⟨⟨answer, List.mem_map_of_mem hmem⟩, fun _ _ heq => by cases heq⟩
  · obtain ⟨n₁, settled, hrests, hspares, hnotes⟩ := h.settles
    obtain ⟨e', hi', hm, hsame⟩ := hspares.2 i e hi hinactive
    obtain ⟨rfl, answer, hmem⟩ := hrests.polls (hspares.1 ▸ hroom) hi' (hsame.trans hopen)
    rw [hm] at hmem
    exact ⟨⟨answer, hnotes _ hmem⟩, fun _ _ heq => by cases heq; rfl⟩

end Node

/-- What a turn of the loop comes to for a measurement that is inactive. -/
theorem Node.polls_inactive (d : Devices W) {n : Node} (ht : n.table.Distinct)
    (hroom : n.table.capacity < UInt32.size) {i : Nat} {e : Entry} (hi : n.table.get? i = some e)
    (hinactive : e.definition.active = false) (w : W) :
    let notes := ((n.performBy (.full d) .iterate).run (w, [])).2.2
    let iteration := ((n.iterate d).run w).1.2
    (e.tally.inFlight = true →
      iteration = .disconnected ∨ (∃ send sleep, iteration = .ran send sleep) →
        (∃ answer, .call .schedule (.poll e.definition answer) ∈ notes) ∧
          ∀ send sleep, iteration = .ran send sleep → sleep = none) ∧
    (e.tally.inFlight = false → ∀ send, iteration = .ran send none →
      ∃ m answer, .call .schedule (.poll m answer) ∈ notes ∧ m.name ≠ e.name) := by
  intro notes iteration
  have hwithin : d.Within (.keeping fun _ => True) := d.within_of_leads fun _ _ _ => trivial
  have hloops : Loops (fun _ => True) n iteration notes
      ((n.performBy (.full d) .iterate).run (w, [])).1 :=
    loops_run hwithin n (fun _ _ => trivial) trivial
  have hpath : ∃ n', Path n notes n' := by
    obtain ⟨new, hrun, hpath⟩ := iterateBy_path d n w []
    have hnotes : notes = new := (congrArg (·.2.2) hrun).trans (List.nil_append new)
    exact ⟨_, hnotes ▸ hpath⟩
  clear_value notes iteration
  refine ⟨fun hopen hround => hloops.polls hround hroom hi hinactive hopen,
    fun hover send hran => ?_⟩
  subst hran
  obtain ⟨n₁, settled, hrests, hspares, hmem⟩ := hloops.settles
  obtain ⟨m, answer, hpoll⟩ := hrests.polled_of_awake (hspares.1 ▸ hroom)
  refine ⟨m, answer, hmem _ hpoll, fun heq => ?_⟩
  obtain ⟨n', hpath⟩ := hpath
  obtain ⟨e', -, hcalls⟩ := hpath.lingers ht hi hinactive
  have hcall : Call.poll m answer ∈ callsFor e.name notes := by
    refine List.mem_filter.mpr ⟨List.mem_filterMap.mpr ⟨_, hmem _ hpoll, rfl⟩, ?_⟩
    rw [Call.about, Call.subject, heq]
    exact beq_self_eq_true _
  rw [hover] at hcalls
  rw [hcalls.eq_nil] at hcall
  cases hcall

namespace Life

/-- The table of a node has the capacity that it began with, and distinct names. -/
theorem table_kept (l : Life W) :
    l.node.table.capacity = l.capacity ∧ l.node.table.Distinct :=
  Node.history_induction l.devices l.birth
    (fun _ n => n.table.capacity = l.capacity ∧ n.table.Distinct)
    (fun _ _ _ _ hpast hdeed => ⟨hdeed.capacity_eq.trans hpast.1, hdeed.distinct hpast.2⟩)
    l.moves [] l.world
    ⟨Table.capacity_empty _ _, Table.distinct_empty l.capacity l.settings.collectionTime⟩

/-- While a measurement is inactive, the schedule makes no call for it but polls:
none if no acquisition was open when it became inactive, and none after the first
poll that fails. As long as an acquisition is open, every turn of the loop that
comes to the round of polls makes one and does not sleep. Otherwise a turn that
does not sleep has polled another measurement. -/
theorem inactive_still_polled (l : Life W) (more : List (Move W)) (i : Nat)
    (hroom : l.capacity < UInt32.size)
    (hinactive : ∀ ep ∈ (l.continued more).past.drop l.past.length,
      ep.before.inactiveAt i = true)
    (hend : (l.continued more).node.inactiveAt i = true) :
    let n := (l.continued more).node
    Sampler.Lingers (l.node.inFlightAt i)
      (((l.continued more).past.drop l.past.length).flatMap (·.callsAt i)) (n.inFlightAt i) ∧
    ∀ (w : W) (e : Entry), n.table.get? i = some e →
      let notes := ((n.performBy (.full l.devices) .iterate).run (w, [])).2.2
      let iteration := ((n.iterate l.devices).run w).1.2
      (e.tally.inFlight = true →
        iteration = .disconnected ∨ (∃ send sleep, iteration = .ran send sleep) →
          (∃ answer, .call .schedule (.poll e.definition answer) ∈ notes) ∧
            ∀ send sleep, iteration = .ran send sleep → sleep = none) ∧
      (e.tally.inFlight = false → ∀ send, iteration = .ran send none →
        ∃ m answer, .call .schedule (.poll m answer) ∈ notes ∧ m.name ≠ e.name) := by
  intro n
  have hn : n = ((Node.run l.devices more l.node).run l.present).1 :=
    (congrArg Prod.fst (l.run_continued more)).symm
  obtain ⟨hcapacity, ht⟩ := (l.continued more).table_kept
  rw [l.past_continued more, List.drop_left] at hinactive ⊢
  have hlingers := Node.history_lingers l.devices l.node l.table_kept.2 i more l.present hinactive
    (hn ▸ hend)
  rw [← hn] at hlingers
  refine ⟨hlingers, fun w e hi => ?_⟩
  have he : e.definition.active = false := by
    obtain ⟨e', hi', he', -⟩ := Node.of_inactiveAt hend
    rw [hi] at hi'
    cases hi'
    exact he'
  exact Node.polls_inactive l.devices ht (hcapacity ▸ hroom) hi he w

/-- A measurement whose period is set to nothing while its sensor is at work. -/
def stopped : Life Timestamp :=
  (ticking 600 1000 [1]).continued [⟨id, .edit (.setPeriod "A" 0)⟩]

/-- The next turn of the loop polls it, and so does the one after, and none sleeps. -/
theorem inactive_still_polled_stopped :
    let l := stopped.continued [⟨fun _ => 2, .iterate⟩]
    let calls := (l.past.drop stopped.past.length).flatMap (·.callsAt 0)
    stopped.node.inactiveAt 0 = true ∧ Sampler.Lingers true calls true ∧ calls.length = 1 ∧
    ((l.node.iterate stopped.devices).run 3).1.2 = .ran none none ∧
    ∃ m answer, .call .schedule (.poll m answer) ∈
      ((l.node.performBy (.full stopped.devices) .iterate).run (3, [])).2.2 := by
  intro l calls
  have hidle : (∀ ep ∈ l.past.drop stopped.past.length, ep.before.inactiveAt 0 = true) ∧
      l.node.inactiveAt 0 = true := by decide +kernel
  have hfacts : stopped.node.inactiveAt 0 = true ∧ calls.length = 1 ∧
      ((l.node.iterate stopped.devices).run 3).1.2 = .ran none none := by decide +kernel
  have hopen : stopped.node.inFlightAt 0 = true ∧ l.node.inFlightAt 0 = true := by decide +kernel
  obtain ⟨hlingers, hround⟩ :=
    inactive_still_polled stopped [⟨fun _ => 2, .iterate⟩] 0 (by decide) hidle.1 hidle.2
  obtain ⟨hinactive, hlength, hran⟩ := hfacts
  dsimp only [calls, l] at hopen hran hlength ⊢
  rw [hopen.1, hopen.2] at hlingers
  obtain ⟨e, hi, -, hflight⟩ := Node.of_inactiveAt hidle.2
  obtain ⟨⟨answer, hpoll⟩, -⟩ :=
    (hround 3 e hi).1 (hflight.symm.trans hopen.2) (.inr ⟨none, none, hran⟩)
  exact ⟨hinactive, hlingers, hlength, hran, e.definition, answer, hpoll⟩

end Life

end Telemetry
