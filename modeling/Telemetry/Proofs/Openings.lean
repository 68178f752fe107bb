import Mathlib.Data.List.Basic
import Mathlib.Data.List.Induction
import Telemetry.Proofs.Counters

/-!
# Polls and collects follow a start

Whether an acquisition is open is written nowhere: it is the difference of two
counters, and sends, failed polls, edits and the sampler itself all move them.
The notes know better. An acquisition is `Underway` after some notes if among
them a start succeeded and nothing that could end it came later, and notes are
`Orderly` if every poll and every collect in them found one underway.

The invariant ties the two together: while the counters differ, an acquisition
is underway (`Tally.Tended`). It needs the counters in step, which the file on
counters grants as long as there are fewer turns than words; then a collect is
made only where they differ. The converse of the invariant is not claimed and
does not hold: an append empties the counters under an open acquisition.
-/

namespace Telemetry

namespace Note

/-- The schedule starts an acquisition, and the sensor agrees. -/
def opens : Note → Bool
  | .call .schedule (.start _ _ (.done _)) => true
  | _ => false

/-- The schedule tries another start, or is told that the acquisition is over. -/
def ends : Note → Bool
  | .call .schedule (.start _ _ _) => true
  | .call .schedule (.poll _ (.failed _)) => true
  | .call .schedule (.collect _ (.done _)) => true
  | .call .schedule (.collect _ (.failed _)) => true
  | _ => false

/-- The schedule looks after an acquisition that it takes to be open. -/
def tends : Note → Bool
  | .call .schedule (.poll _ _) => true
  | .call .schedule (.collect _ _) => true
  | _ => false

/-- The schedule collects a reading. -/
def reads : Note → Bool
  | .call .schedule (.collect _ (.done _)) => true
  | _ => false

theorem ends_of_reads {note : Note} (h : note.reads = true) : note.ends = true := by
  unfold reads at h
  split at h
  · rfl
  · cases h

theorem tends_of_reads {note : Note} (h : note.reads = true) : note.tends = true := by
  unfold reads at h
  split at h
  · rfl
  · cases h

end Note

/-- A start has succeeded, and nothing that could end the acquisition came later. -/
def Underway (notes : List Note) : Prop :=
  ∃ before note after, notes = before ++ note :: after ∧ note.opens = true ∧
    ∀ later ∈ after, later.ends = false

/-- Every poll and every collect finds an acquisition underway. -/
def Orderly (notes : List Note) : Prop :=
  ∀ before note after, notes = before ++ note :: after → note.tends = true → Underway before

theorem underway_concat_opens {notes : List Note} {note : Note} (h : note.opens = true) :
    Underway (notes ++ [note]) :=
  ⟨notes, note, [], rfl, h, fun _ hmem => absurd hmem List.not_mem_nil⟩

theorem Underway.concat {notes : List Note} (h : Underway notes) {note : Note}
    (hnote : note.ends = false) : Underway (notes ++ [note]) := by
  obtain ⟨before, start, after, rfl, hopens, hafter⟩ := h
  refine ⟨before, start, after ++ [note], by simp, hopens, fun later hmem => ?_⟩
  rcases List.mem_append.mp hmem with h | h
  · exact hafter later h
  · rwa [List.mem_singleton.mp h]

/-- After an end, what is underway has been started since. -/
theorem Underway.opened_after {before between : List Note} {note : Note}
    (h : Underway (before ++ note :: between)) (hends : note.ends = true)
    (hopens : note.opens = false) : ∃ later ∈ between, later.opens = true := by
  obtain ⟨before', start, after, heq, hstart, hafter⟩ := h
  rcases List.append_eq_append_iff.mp heq with ⟨gap, rfl, hgap⟩ | ⟨gap, rfl, hgap⟩
  · cases gap with
    | nil =>
        cases hgap
        exact absurd (hstart.symm.trans hopens) Bool.noConfusion
    | cons first gap =>
        cases hgap
        exact ⟨start, by simp, hstart⟩
  · cases gap with
    | nil =>
        cases hgap
        exact absurd (hstart.symm.trans hopens) Bool.noConfusion
    | cons first gap =>
        cases hgap
        exact absurd (hends.symm.trans (hafter note (by simp))) Bool.noConfusion

namespace Orderly

theorem nil : Orderly [] := by
  intro before note after heq
  simp at heq

theorem concat {notes : List Note} (h : Orderly notes) {note : Note}
    (hnote : note.tends = true → Underway notes) : Orderly (notes ++ [note]) := by
  intro before n after heq htends
  rcases List.eq_nil_or_concat after with rfl | ⟨after', last, rfl⟩
  · obtain ⟨rfl, hlast⟩ := List.append_inj' heq rfl
    cases hlast
    exact hnote htends
  · rw [List.concat_eq_append, ← List.cons_append, ← List.append_assoc] at heq
    exact h before n after' (List.append_inj' heq rfl).1 htends

/-- Two readings never come from one start. -/
theorem opened_between {before between after : List Note} {first second : Note}
    (h : Orderly (before ++ first :: (between ++ second :: after))) (hfirst : first.reads = true)
    (hsecond : second.reads = true) : ∃ note ∈ between, note.opens = true := by
  have hunderway := h (before ++ first :: between) second after (by simp)
    (Note.tends_of_reads hsecond)
  refine hunderway.opened_after (Note.ends_of_reads hfirst) ?_
  unfold Note.reads at hfirst
  split at hfirst
  · rfl
  · cases hfirst

end Orderly

/-! ## What is done to a tally keeps the order -/

/-- The notes are in order, and while the counters differ, an acquisition is underway. -/
def Tally.Tended (t : Tally) (notes : List Note) : Prop :=
  Orderly notes ∧ (t.inFlight = true → Underway notes)

namespace Tally

theorem inFlight_congr {t t' : Tally} (hs : t'.started = t.started)
    (hf : t'.finished = t.finished) : t'.inFlight = t.inFlight := by
  rw [inFlight, inFlight, hs, hf]

theorem not_inFlight {t : Tally} (h : t.finished = t.started) : t.inFlight ≠ true := by
  rw [inFlight, h, Ne, decide_eq_true_eq]
  exact UInt32.lt_irrefl _

/-- Counters in step differ if they are found to. -/
theorem InStep.inFlight {t : Tally} (h : t.InStep) (hopen : t.finished + 1 = t.started) :
    t.inFlight = true := by
  have hne : t.finished ≠ t.started := by
    intro heq
    rw [heq] at hopen
    have hone : t.started + 1 - t.started = 0 := by rw [hopen, UInt32.sub_self]
    rw [UInt32.add_comm, UInt32.add_sub_cancel] at hone
    cases hone
  rw [Tally.inFlight, decide_eq_true_eq, UInt32.lt_iff_toNat_lt]
  exact Nat.lt_of_le_of_ne h.1 fun heq => hne (UInt32.toNat_inj.mp heq)

namespace Tended

variable {t t' : Tally} {notes : List Note}

theorem congr (h : t.Tended notes) (hs : t'.started = t.started) (hf : t'.finished = t.finished) :
    t'.Tended notes := ⟨h.1, fun hopen => h.2 (inFlight_congr hs hf ▸ hopen)⟩

theorem closed (h : Orderly notes) (hover : t.finished = t.started) : t.Tended notes :=
  ⟨h, fun hopen => absurd hopen (not_inFlight hover)⟩

/-- A note that neither ends an acquisition nor looks after one. -/
theorem quiet {note : Note} (h : t.Tended notes) (hends : note.ends = false)
    (htends : note.tends = false) : t.Tended (notes ++ [note]) := by
  refine ⟨h.1.concat fun hnote => ?_, fun hopen => (h.2 hopen).concat hends⟩
  exact absurd (hnote.symm.trans htends) Bool.noConfusion

end Tended

end Tally

namespace Sampler

variable {p : Plan} {m : Definition} {t t' : Tally} {s s' : SamplerStats} {busy : Bool}
  {calls : List Call} {notes : List Note}

theorem Starts.tended (h : Starts m t s (t', s', busy) calls) (hover : t.finished = t.started)
    (hnotes : Orderly notes) : t'.Tended (notes ++ Voice.schedule.notes calls) := by
  have hstart : ∀ answer, Orderly (notes ++ [.call .schedule (.start m false answer)]) :=
    fun answer => hnotes.concat nofun
  cases h with
  | refused h =>
      rw [Voice.notes_nil, List.append_nil]
      exact .closed hnotes (by rw [Tally.missed, hover])
  | opened h => exact ⟨hstart _, fun _ => underway_concat_opens rfl⟩
  | failed h cause => exact .closed (hstart _) (by rw [Tally.missed, hover])
  | busy h => exact .closed (hstart _) hover

theorem Collects.tended (h : Collects m t s (t', s', busy) calls)
    (hopen : t.finished + 1 = t.started) (ht : t.Tended notes) (hunderway : Underway notes) :
    t'.Tended (notes ++ Voice.schedule.notes calls) := by
  have hcollect : ∀ answer, Orderly (notes ++ [.call .schedule (.collect m answer)]) :=
    fun answer => ht.1.concat fun _ => hunderway
  cases h with
  | done r leadTime answer hlead =>
      obtain ⟨summary, samples, heq⟩ := t.closed.taking_eq r
      rw [heq]
      refine .closed ?_ hopen
      have hlast : Orderly (notes ++ [.call .schedule (.collect m (.done r))] ++
          [.call .schedule (.collectionTime m answer)]) := (hcollect (.done r)).concat nofun
      rwa [List.append_assoc] at hlast
  | failed cause => exact .closed (hcollect _) hopen
  | busy => exact ⟨hcollect _, fun _ => hunderway.concat rfl⟩

theorem StartTurns.tended {wait : UInt64} (h : StartTurns p m t s (t', s', wait) calls)
    (hstep : t.InStep) (ht : t.Tended notes) :
    t'.Tended (notes ++ Voice.schedule.notes calls) := by
  cases h with
  | early h => rwa [Voice.notes_nil, List.append_nil]
  | due h hstart => exact hstart.tended (by rw [hstep.givenUp.1, hstep.givenUp.2]) ht.1

/-- In step, nothing is collected that is not open. -/
theorem CollectTurns.tended {collectAt : UInt64} {wait : Option UInt64}
    (h : CollectTurns p m collectAt t s (t', s', wait) calls) (hstep : t.InStep)
    (ht : t.Tended notes) : t'.Tended (notes ++ Voice.schedule.notes calls) := by
  cases h with
  | idle h => rwa [Voice.notes_nil, List.append_nil]
  | early hopen h => rwa [Voice.notes_nil, List.append_nil]
  | due hopen h hcollect => exact hcollect.tended hopen ht (ht.2 (hstep.inFlight hopen))
  | astray hne hopen =>
      rw [Voice.notes_nil, List.append_nil]
      exact .closed ht.1 rfl

variable {e e' : Entry}

theorem Visits.tended {k : Nat} {guard : UInt32} {clock : TransmitClock} {now : Timestamp}
    {near near' : Option UInt64} (h : Visits guard clock now e (s, near) (e', s', near') calls)
    (he : e.tally.Paced k) (hlimit : k + 1 < UInt32.size) (ht : e.tally.Tended notes) :
    e'.tally.Tended (notes ++ Voice.schedule.notes calls) := by
  cases h with
  | idle h => rwa [Voice.notes_nil, List.append_nil]
  | active h hturn =>
      cases hturn with
      | turn hstart hcollect =>
          let p := Plan.of e.definition guard clock now
          have hcap := capLead_paced p he
          have hsame := capLead_counters p e.tally
          have hmid := hstart.tended hcap.1 (ht.congr hsame.1 hsame.2)
          rw [Voice.notes_append, ← List.append_assoc]
          exact hcollect.tended (hstart.paced hcap hlimit).1 hmid

theorem Polls.tended {polled polled' : UInt32} (h : Polls e (s, polled) (e', s', polled') calls)
    (ht : e.tally.Tended notes) : e'.tally.Tended (notes ++ Voice.schedule.notes calls) := by
  cases h with
  | idle h => rwa [Voice.notes_nil, List.append_nil]
  | failed h cause => exact .closed (ht.1.concat fun _ => ht.2 h) rfl
  | asked h answer hfine =>
      refine ⟨ht.1.concat fun _ => ht.2 h, fun _ => (ht.2 h).concat ?_⟩
      cases answer with
      | failed cause => exact absurd rfl (hfine cause)
      | done _ => rfl
      | busy => rfl

end Sampler

namespace Entry

variable {e e' : Entry} {own : List Call} {notes : List Note}

/-- Sends and answers make no call about an acquisition, and open none. -/
theorem Handled.tended (h : e.Handled own e') (ht : e.tally.Tended notes) :
    e'.tally.Tended (notes ++ Voice.schedule.notes own) := by
  cases h with
  | appended h =>
      cases h with
      | idle h => rwa [Voice.notes_nil, List.append_nil]
      | unsampled h hs =>
          rw [Voice.notes_nil, List.append_nil]
          exact .closed ht.1 rfl
      | refused h hs cause => exact ht.quiet rfl rfl
      | accepted h hs => exact (Tally.Tended.closed ht.1 rfl).quiet rfl rfl
  | answered h =>
      cases h with
      | idle h => rwa [Voice.notes_nil, List.append_nil]
      | settled h hwaits => exact (ht.congr rfl rfl).quiet rfl rfl
  | cleared =>
      rw [Voice.notes_nil, List.append_nil]
      exact ht.congr rfl rfl

theorem Handlings.tended (h : e.Handlings own e') (ht : e.tally.Tended notes) :
    e'.tally.Tended (notes ++ Voice.schedule.notes own) := by
  induction h generalizing notes with
  | nil e => rwa [Voice.notes_nil, List.append_nil]
  | cons h _ ih =>
      rw [Voice.notes_append, ← List.append_assoc]
      exact ih (h.tended ht)

theorem TurnedTo.tended {k : Nat} {guard : UInt32} {clock : TransmitClock} {now : Timestamp}
    (h : e.TurnedTo guard clock now own e') (he : e.tally.Paced k)
    (hlimit : k + 1 < UInt32.size) (ht : e.tally.Tended notes) :
    e'.tally.Tended (notes ++ Voice.schedule.notes own) := by
  rcases h with ⟨rfl, rfl⟩ | ⟨s, s', h⟩
  · rwa [Voice.notes_nil, List.append_nil]
  · exact h.tended he hlimit ht

theorem PolledTo.tended (h : e.PolledTo own e') (ht : e.tally.Tended notes) :
    e'.tally.Tended (notes ++ Voice.schedule.notes own) := by
  rcases h with ⟨rfl, rfl⟩ | ⟨s, s', h⟩
  · rwa [Voice.notes_nil, List.append_nil]
  · exact h.tended ht

/-- A read moves no counter. -/
theorem ReadTo.tended (h : e.ReadTo e') (ht : e.tally.Tended notes) : e'.tally.Tended notes := by
  cases h with
  | refused h => exact ht
  | made h leadTime => exact ht.congr rfl rfl

theorem TouchedTo.tended (h : e.TouchedTo own e') (ht : e.tally.Tended notes) :
    e'.tally.Tended notes := by
  rcases h.2 with rfl | h | h
  · exact ht
  · exact h.tended ht
  · exact h.tended (ht.congr rfl rfl)

end Entry

namespace Node

theorem Seen.tended {k : Nat} {n n' : Node} {e e' : Entry} {own notes : List Note}
    (h : Seen n n' e own e') (he : e.tally.Paced k) (hlimit : k + turns own < UInt32.size)
    (ht : e.tally.Tended notes) : e'.tally.Tended (notes ++ own) := by
  cases h with
  | @turn now calls e' h =>
      have hone : 1 ≤ turns (.turn now :: Voice.schedule.notes calls) := by
        rw [turns, List.countP_cons_of_pos rfl]
        omega
      rw [List.append_cons]
      exact h.tended he (by omega) (ht.quiet rfl rfl)
  | polled h => exact h.tended ht
  | sent h =>
      rw [← List.append_assoc]
      exact (h.tended ht).quiet rfl rfl
  | touched h =>
      rw [List.append_nil]
      exact h.tended ht

/-- In step and in order, after fewer turns than words. -/
theorem tended_lasting (i : Nat) :
    Lasting i fun notes e =>
      turns notes < UInt32.size → e.tally.Paced (turns notes) ∧ e.tally.Tended notes where
  fresh m kind leadTime _ := ⟨Tally.paced_zero rfl rfl, .closed .nil rfl⟩
  edited notes e m instantRequested h hlimit :=
    ⟨(h hlimit).1.congr rfl rfl, (h hlimit).2.congr rfl rfl⟩
  seen n n' notes e more e' _ _ hseen h hlimit := by
    rw [turns_append] at hlimit ⊢
    obtain ⟨hpaced, htended⟩ := h (by omega)
    exact ⟨hseen.paced hpaced hlimit, hseen.tended hpaced hlimit htended⟩

/-- A stay has no more turns than the run. -/
theorem turns_stay_le (i : Nat) (past : List Episode) : turns (stay i past) ≤ turnsOf past := by
  induction past using List.reverseRecOn with
  | nil => exact Nat.le_refl 0
  | append_singleton past ep ih =>
      rw [turnsOf] at ih ⊢
      rw [stay_concat, List.flatMap_append, turns_append, List.flatMap_singleton]
      cases ep.before.table.get? i with
      | none => exact Nat.zero_le _
      | some e =>
          have hfilter := turns_filter_le (·.concerns e.name) ep.notes
          simp only [turns_append]
          omega

end Node

/-- As long as there are fewer turns than words, the schedule never polls or
collects a measurement but after a start that succeeded, with no other start
since and nothing that ended the acquisition. So between two readings of a
measurement there is a start that succeeded. -/
theorem Life.acquisitions_in_order {W : Type} (l : Life W)
    (hlimit : Node.turnsOf l.past < UInt32.size) {i : Nat} {e : Entry}
    (hi : l.node.table.get? i = some e) :
    (∀ before note after, Node.stay i l.past = before ++ note :: after → note.tends = true →
      Underway before) ∧
    ∀ before first between second after,
      Node.stay i l.past = before ++ first :: (between ++ second :: after) →
      first.reads = true → second.reads = true → ∃ note ∈ between, note.opens = true := by
  have hle := Node.turns_stay_le i l.past
  obtain ⟨_, horder, _⟩ := (Node.tended_lasting i).holds l hi (by omega)
  refine ⟨horder, fun before first between second after heq hfirst hsecond => ?_⟩
  rw [heq] at horder
  exact horder.opened_between hfirst hsecond

/-- Two readings, and what the notes say before each of them. -/
theorem Life.acquisitions_in_order_ticking :
    let l := Life.ticking 100 1000 [1, 402, 503, 1004, 1407, 1508]
    ∃ before first between second after,
      Node.stay 0 l.past = before ++ first :: (between ++ second :: after) ∧
      first.reads = true ∧ second.reads = true ∧ Underway before ∧
      ∃ note ∈ between, note.opens = true := by
  let l := Life.ticking 100 1000 [1, 402, 503, 1004, 1407, 1508]
  have hlimit : Node.turnsOf l.past < UInt32.size := by decide +kernel
  have hreads : ((Node.stay 0 l.past).filter Note.reads).length = 2 := by decide +kernel
  have hslot : (l.node.table.get? 0).isSome = true := by decide +kernel
  obtain ⟨e, hi⟩ := Option.isSome_iff_exists.mp hslot
  obtain ⟨horder, hbetween⟩ := Life.acquisitions_in_order l hlimit hi
  obtain ⟨first, second, htwo⟩ := List.length_eq_two.mp hreads
  obtain ⟨before, rest, heq, _, hfirst, hrest⟩ := List.filter_eq_cons_iff.mp htwo
  obtain ⟨between, after, rfl, _, hsecond, _⟩ := List.filter_eq_cons_iff.mp hrest
  exact ⟨before, first, between, second, after, heq, hfirst, hsecond,
    horder before first _ heq (Note.tends_of_reads hfirst),
    hbetween before first between second after heq hfirst hsecond⟩

end Telemetry
