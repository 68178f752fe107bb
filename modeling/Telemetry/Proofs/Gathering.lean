import Mathlib.Algebra.Ring.Int.Defs
import Mathlib.Data.List.Forall2
import Telemetry.Proofs.Stays

/-!
# What a tally amounts to

A tally is folded from one reading at a time, emptied by one accepted append,
and touched by much else: refused appends, resumed frames, bad answers, reads
on the spot. This file says what it holds in the end, from the notes of the
measurement's stay alone. `gathered` is the list of readings that the schedule
has collected since the last accepted append, `Summary.ofReadings` says without
any fold what a list amounts to, and a tally `Shows` a list if its summary and
its number of samples are those of the list.

The notes are read from left to right with the readings gathered so far, and
the one invariant is that the tally shows them. Appends are met on the way, and
at each of them the tally that is handed over shows what is gathered there.
-/

namespace Telemetry

/-! ## What readings amount to -/

namespace Reading

def integers (readings : List Reading) : List Int64 :=
  readings.filterMap fun
    | .integer v => some v
    | _ => none

def floats (readings : List Reading) : List Float32 :=
  readings.filterMap fun
    | .float v => some v
    | _ => none

def texts (readings : List Reading) : List String :=
  readings.filterMap fun
    | .text s => some s
    | _ => none

end Reading

namespace Summary

/-- Whole numbers have a sum, cut to a word, a least and a greatest. -/
def ofIntegers : List Int64 → Summary
  | [] => .empty
  | v :: rest =>
      .integer (Int64.ofInt ((v :: rest).map Int64.toInt).sum) (rest.foldl min v) (rest.foldl max v)

/-- Floats are added up in their order, and so are their bounds. -/
def ofFloats : List Float32 → Summary
  | [] => .empty
  | v :: rest =>
      let bounds := rest.foldl (fun bounds v => widen bounds.1 bounds.2 v) (v, v)
      .float (rest.foldl (· + ·) v) bounds.1 bounds.2

/-- Of texts the last one is kept. -/
def ofTexts (texts : List String) : Summary := texts.getLast?.elim .empty .text

/-- What readings of one kind amount to. -/
def ofReadings (kind : ValueKind) (readings : List Reading) : Summary :=
  match kind with
  | .integer => ofIntegers (Reading.integers readings)
  | .float => ofFloats (Reading.floats readings)
  | .text => ofTexts (Reading.texts readings)

theorem widen_eq {least greatest v : Int64} (h : least ≤ greatest) :
    widen least greatest v = (min least v, max greatest v) := by
  have hmin : min least v = if least ≤ v then least else v := rfl
  have hmax : max greatest v = if greatest ≤ v then v else greatest := rfl
  rw [hmin, hmax]
  unfold widen
  simp only [Int64.lt_iff_toInt_lt, Int64.le_iff_toInt_le] at h ⊢
  split
  · next habove => rw [if_pos (by omega), if_pos (by omega)]
  · next habove =>
      split
      · next hbelow => rw [if_neg (by omega), if_neg (by omega)]
      · next hbelow =>
          rw [if_pos (by omega)]
          split
          · next hsame =>
              have heq : greatest = v := Int64.toInt_inj.mp (by omega)
              rw [heq]
          · rfl

theorem foldl_min_le_foldl_max (values : List Int64) {least greatest : Int64}
    (h : least ≤ greatest) : values.foldl min least ≤ values.foldl max greatest := by
  induction values generalizing least greatest with
  | nil => exact h
  | cons v rest ih =>
      refine ih ?_
      have hmin : min least v = if least ≤ v then least else v := rfl
      have hmax : max greatest v = if greatest ≤ v then v else greatest := rfl
      rw [hmin, hmax]
      simp only [Int64.le_iff_toInt_le] at h ⊢
      split <;> split <;> omega

theorem ofIntegers_concat (values : List Int64) (v : Int64) :
    (ofIntegers values).fold (.integer v) = some (ofIntegers (values ++ [v])) := by
  cases values with
  | nil => simp [ofIntegers, fold, ofReading]
  | cons w rest =>
      have hbounds := foldl_min_le_foldl_max rest (Int64.le_refl w)
      rw [List.cons_append]
      simp only [ofIntegers, fold, widen_eq hbounds, List.map_cons, List.map_append, List.sum_cons,
        List.sum_append, List.map_nil, List.sum_nil, List.foldl_append, List.foldl_cons,
        List.foldl_nil, ← Int.add_assoc, Int.add_zero]
      rw [Int64.ofInt_add _ v.toInt, Int64.ofInt_toInt]

theorem ofFloats_concat (values : List Float32) (v : Float32) :
    (ofFloats values).fold (.float v) = some (ofFloats (values ++ [v])) := by
  cases values with
  | nil => rfl
  | cons w rest =>
      rw [List.cons_append]
      simp only [ofFloats, fold, List.foldl_append, List.foldl_cons, List.foldl_nil]

theorem ofTexts_concat (values : List String) (s : String) :
    (ofTexts values).fold (.text s) = some (ofTexts (values ++ [s])) := by
  rw [ofTexts, ofTexts, List.getLast?_concat]
  cases values.getLast? with
  | none => rfl
  | some last => rfl

/-- One more reading of the kind never fails, and amounts to one more in the list. -/
theorem ofReadings_concat (readings : List Reading) (r : Reading) :
    (ofReadings r.kind readings).fold r = some (ofReadings r.kind (readings ++ [r])) := by
  cases r with
  | integer v =>
      simp only [Reading.kind, ofReadings, Reading.integers, List.filterMap_append]
      exact ofIntegers_concat _ v
  | float v =>
      simp only [Reading.kind, ofReadings, Reading.floats, List.filterMap_append]
      exact ofFloats_concat _ v
  | text s =>
      simp only [Reading.kind, ofReadings, Reading.texts, List.filterMap_append]
      exact ofTexts_concat _ s

theorem ofReadings_nil (kind : ValueKind) : ofReadings kind [] = .empty := by
  cases kind <;> rfl

theorem keepsLast_concat (readings : List Reading) (r : Reading) :
    (ofReadings r.kind (readings ++ [r])).keepsLast = decide (r.kind = .text) := by
  have hintegers : ∀ values, (ofIntegers values).keepsLast = false := fun values => by
    cases values <;> rfl
  have hfloats : ∀ values, (ofFloats values).keepsLast = false := fun values => by
    cases values <;> rfl
  cases r with
  | integer v => exact hintegers _
  | float v => exact hfloats _
  | text s =>
      have htexts : Reading.texts (readings ++ [.text s]) = Reading.texts readings ++ [s] :=
        List.filterMap_append
      simp only [Reading.kind, ofReadings, htexts, ofTexts, List.getLast?_concat]
      rfl

end Summary

namespace Tally

/-- A tally shows some readings: its summary and its number of samples are
theirs. The number stays at the last word, and of texts one counts. -/
structure Shows (t : Tally) (readings : List Reading) : Prop where
  samples : t.samples.toNat =
    if t.kind = .text then min readings.length 1 else min readings.length (UInt32.size - 1)
  summary : t.summary = Summary.ofReadings t.kind readings

theorem shows_nil {t : Tally} (hs : t.samples = 0) (hsummary : t.summary = .empty) :
    t.Shows [] := by
  refine ⟨?_, ?_⟩
  · rw [hs, UInt32.toNat_zero, List.length_nil, Nat.zero_min, Nat.zero_min, ite_self]
  · rw [hsummary, Summary.ofReadings_nil]

namespace Shows

variable {t t' : Tally} {readings : List Reading} {r : Reading}

/-- What a tally shows is a matter of three of its fields. -/
theorem congr (h : t.Shows readings) (hkind : t'.kind = t.kind) (hs : t'.samples = t.samples)
    (hsummary : t'.summary = t.summary) : t'.Shows readings := by
  refine ⟨?_, ?_⟩
  · rw [hs, hkind, h.samples]
  · rw [hsummary, hkind, h.summary]

theorem samples_ne_zero (h : t.Shows readings) (hs : t.samples ≠ 0) : readings ≠ [] := by
  intro heq
  subst heq
  refine hs (UInt32.toNat_inj.mp ?_)
  rw [h.samples, List.length_nil, Nat.zero_min, Nat.zero_min, ite_self, UInt32.toNat_zero]

/-- An empty tally has no summary to replace. -/
theorem summary_eq (h : t.Shows readings) :
    (if t.samples = 0 then Summary.empty else t.summary) = Summary.ofReadings t.kind readings := by
  split
  · next hs =>
      have hsamples := h.samples
      rw [hs, UInt32.toNat_zero] at hsamples
      have hnil : readings = [] := by
        refine List.length_eq_zero_iff.mp ?_
        unfold UInt32.size at hsamples
        split at hsamples <;> omega
      rw [hnil, Summary.ofReadings_nil]
  · exact h.summary

/-- A reading of the kind is always folded in, and nothing is lost by it. -/
theorem fold (h : t.Shows readings) (hkind : r.kind = t.kind) :
    ∃ t', t.fold r = .ok t' ∧ t'.kind = t.kind ∧ t'.Shows (readings ++ [r]) := by
  refine ⟨{ t with
    summary := Summary.ofReadings t.kind (readings ++ [r])
    samples := if t.kind = .text then 1 else Saturating.succ t.samples }, ?_, rfl, ?_, rfl⟩
  · unfold Tally.fold
    rw [if_neg (not_not_intro hkind), h.summary_eq, ← hkind, Summary.ofReadings_concat]
    simp only [Summary.keepsLast_concat, decide_eq_true_eq]
  · have hsamples := h.samples
    simp only [List.length_append, List.length_cons, List.length_nil]
    split
    · next htext => rw [UInt32.toNat_one]; omega
    · next htext =>
        rw [if_neg htext] at hsamples
        rw [Saturating.toNat_succ, hsamples]
        omega

theorem taking (h : t.Shows readings) :
    (t.taking r).kind = t.kind ∧
      (t.taking r).Shows (if r.kind = t.kind then readings ++ [r] else readings) := by
  unfold Tally.taking
  by_cases hkind : r.kind = t.kind
  · obtain ⟨t', hfold, hsame, hshows⟩ := h.fold hkind
    rw [hfold, if_pos hkind]
    exact ⟨hsame, hshows⟩
  · rw [Tally.fold, if_pos hkind, if_neg hkind]
    exact ⟨rfl, h⟩

/-- No reading meets a summary of another kind. -/
theorem fold_ne_summary (h : t.Shows readings) (kind : ValueKind) :
    t.fold r ≠ .error (.summary kind) := by
  intro hfold
  by_cases hkind : r.kind = t.kind
  · obtain ⟨t', hok, _⟩ := h.fold hkind
    rw [hok] at hfold
    cases hfold
  · rw [Tally.fold, if_pos hkind] at hfold
    cases hfold

end Shows

end Tally

/-! ## What is gathered -/

/-- The readings that are gathered after a note. -/
def gather (kind : ValueKind) (readings : List Reading) : Note → List Reading
  | .call .schedule (.collect _ (.done r)) =>
      if r.kind = kind then readings ++ [r] else readings
  | .call .schedule (.append _ _ (.ok _)) => []
  | _ => readings

/-- The readings of a kind that were collected for the schedule since the last
append that was accepted. -/
def gathered (kind : ValueKind) (notes : List Note) : List Reading := notes.foldl (gather kind) []

/-- All readings of a kind that were collected for the schedule. -/
def collected (kind : ValueKind) (notes : List Note) : List Reading :=
  notes.filterMap fun
    | .call .schedule (.collect _ (.done r)) => if r.kind = kind then some r else none
    | _ => none

/-- The tallies in the frames of the schedule. -/
def framed (notes : List Note) : List Tally :=
  notes.filterMap fun
    | .call .schedule (.append _ t (.ok _)) => some t
    | _ => none

/-- Whether a note tells of neither a reading nor an append. -/
def Note.silent : Note → Bool
  | .call .schedule (.collect _ (.done _)) => false
  | .call .schedule (.append _ _ _) => false
  | _ => true

theorem gather_silent {note : Note} (h : note.silent = true) (kind : ValueKind)
    (readings : List Reading) : gather kind readings note = readings := by
  unfold gather
  split
  · cases h
  · cases h
  · rfl

theorem gather_all_silent {notes : List Note} (h : notes.all Note.silent = true)
    (kind : ValueKind) (readings : List Reading) :
    notes.foldl (gather kind) readings = readings := by
  induction notes with
  | nil => rfl
  | cons note rest ih =>
      obtain ⟨hnote, hrest⟩ := Bool.and_eq_true_iff.mp h
      rw [List.foldl_cons, gather_silent hnote, ih hrest]

/-- A note is of an accepted append, of a reading, or of neither. -/
theorem gather_cases (note : Note) :
    (∃ m t, note = .call .schedule (.append m t (.ok ()))) ∨
      (∃ m r, note = .call .schedule (.collect m (.done r))) ∨
      (∀ kind readings, gather kind readings note = readings) ∧ framed [note] = [] ∧
        ∀ kind, collected kind [note] = [] := by
  have hneither : ∀ note : Note, (∀ kind readings, gather kind readings note = readings) →
      framed [note] = [] → (∀ kind, collected kind [note] = []) →
      (∃ m t, note = .call .schedule (.append m t (.ok ()))) ∨
        (∃ m r, note = .call .schedule (.collect m (.done r))) ∨
        (∀ kind readings, gather kind readings note = readings) ∧ framed [note] = [] ∧
          ∀ kind, collected kind [note] = [] := fun _ h h' h'' => .inr (.inr ⟨h, h', h''⟩)
  rcases note with ⟨v, c⟩ | now | ⟨before, after⟩
  · cases v with
    | aside => exact hneither _ (fun _ _ => rfl) rfl fun _ => rfl
    | schedule =>
        cases c
        case collect m answer =>
          cases answer with
          | done r => exact .inr (.inl ⟨m, r, rfl⟩)
          | busy => exact hneither _ (fun _ _ => rfl) rfl fun _ => rfl
          | failed cause => exact hneither _ (fun _ _ => rfl) rfl fun _ => rfl
        case append m t answer =>
          cases answer with
          | ok _ => exact .inl ⟨m, t, rfl⟩
          | error cause => exact hneither _ (fun _ _ => rfl) rfl fun _ => rfl
        all_goals exact hneither _ (fun _ _ => rfl) rfl fun _ => rfl
  · exact hneither _ (fun _ _ => rfl) rfl fun _ => rfl
  · exact hneither _ (fun _ _ => rfl) rfl fun _ => rfl

theorem framed_cons (note : Note) (notes : List Note) :
    framed (note :: notes) = framed [note] ++ framed notes :=
  List.filterMap_append (l := [note])

theorem collected_cons (kind : ValueKind) (note : Note) (notes : List Note) :
    collected kind (note :: notes) = collected kind [note] ++ collected kind notes :=
  List.filterMap_append (l := [note])

/-- Every tally that is handed over to be sent shows what is gathered by then,
and that is not nothing. -/
def Honest (kind : ValueKind) : List Reading → List Note → Prop
  | _, [] => True
  | readings, note :: rest =>
      (∀ m t answer, note = .call .schedule (.append m t answer) →
        readings ≠ [] ∧ t.Shows readings) ∧
      Honest kind (gather kind readings note) rest

namespace Honest

variable {kind : ValueKind}

theorem append {notes more : List Note} {readings : List Reading}
    (h : Honest kind readings notes) (hmore : Honest kind (notes.foldl (gather kind) readings) more) :
    Honest kind readings (notes ++ more) := by
  induction notes generalizing readings with
  | nil => exact hmore
  | cons note rest ih => exact ⟨h.1, ih h.2 hmore⟩

/-- Nothing is handed over. -/
theorem of_silent {notes : List Note} (h : notes.all Note.silent = true)
    (readings : List Reading) : Honest kind readings notes := by
  induction notes generalizing readings with
  | nil => trivial
  | cons note rest ih =>
      obtain ⟨hnote, hrest⟩ := Bool.and_eq_true_iff.mp h
      refine ⟨fun m t answer heq => ?_, ih hrest _⟩
      rw [heq] at hnote
      cases hnote

/-- Wherever a tally is handed over, it shows what was gathered before. -/
theorem at_append {before after : List Note} {readings : List Reading} {m : Definition}
    {t : Tally} {answer : Except FrameError Unit}
    (h : Honest kind readings (before ++ .call .schedule (.append m t answer) :: after)) :
    before.foldl (gather kind) readings ≠ [] ∧ t.Shows (before.foldl (gather kind) readings) := by
  induction before generalizing readings with
  | nil => exact h.1 m t answer rfl
  | cons note rest ih => exact ih h.2

/-- The tallies in frames show one batch of readings each; the batches in a row,
with what is left, are all readings there were. -/
theorem batches {notes : List Note} {readings : List Reading} (h : Honest kind readings notes) :
    ∃ batches, List.Forall₂ (fun t batch => batch ≠ [] ∧ t.Shows batch) (framed notes) batches ∧
      batches.flatten ++ notes.foldl (gather kind) readings = readings ++ collected kind notes := by
  induction notes generalizing readings with
  | nil => exact ⟨[], .nil, by simp [collected]⟩
  | cons note rest ih =>
      obtain ⟨batches, hshow, hall⟩ := ih h.2
      rw [framed_cons, collected_cons, List.foldl_cons]
      rcases gather_cases note with ⟨m, t, rfl⟩ | ⟨m, r, rfl⟩ | ⟨hgather, hframed, hcollected⟩
      · refine ⟨readings :: batches, .cons (h.1 m t _ rfl) hshow, ?_⟩
        rw [List.flatten_cons, List.append_assoc, hall]
        rfl
      · refine ⟨batches, hshow, ?_⟩
        rw [hall]
        by_cases hkind : r.kind = kind
        · simp [gather, collected, hkind]
        · simp [gather, collected, hkind]
      · refine ⟨batches, by rwa [hframed], ?_⟩
        rw [hall, hgather, hcollected, List.nil_append]

end Honest

/-! ## What is done to a tally upholds what it shows -/

/-- One tally becomes another, with some notes: if it shows what is gathered
before them, the other shows what is gathered after them. -/
def Tally.Upholds (t t' : Tally) (notes : List Note) : Prop :=
  t'.kind = t.kind ∧ ∀ readings, t.Shows readings →
    Honest t.kind readings notes ∧ t'.Shows (notes.foldl (gather t.kind) readings)

namespace Tally.Upholds

variable {t t' t'' : Tally} {notes more : List Note}

/-- Silent notes, and a tally with the same readings. -/
theorem silent (hnotes : notes.all Note.silent = true) (hkind : t'.kind = t.kind)
    (hs : t'.samples = t.samples) (hsummary : t'.summary = t.summary) : t.Upholds t' notes := by
  refine ⟨hkind, fun readings h => ⟨.of_silent hnotes readings, ?_⟩⟩
  rw [gather_all_silent hnotes]
  exact h.congr hkind hs hsummary

theorem refl (t : Tally) : t.Upholds t [] := silent rfl rfl rfl rfl

theorem trans (h : t.Upholds t' notes) (h' : t'.Upholds t'' more) :
    t.Upholds t'' (notes ++ more) := by
  refine ⟨h'.1.trans h.1, fun readings hshows => ?_⟩
  obtain ⟨hhonest, hmid⟩ := h.2 readings hshows
  obtain ⟨hhonest', hend⟩ := h'.2 _ hmid
  rw [h.1] at hhonest' hend
  exact ⟨hhonest.append hhonest', by rwa [List.foldl_append]⟩

end Tally.Upholds

namespace Sampler

variable {p : Plan} {m : Definition} {t t' : Tally} {s s' : SamplerStats} {busy : Bool}
  {calls : List Call}

theorem givenUp_upholds (t : Tally) : t.Upholds t.givenUp [] := by
  unfold Tally.givenUp
  split
  · exact .silent rfl rfl rfl rfl
  · exact .refl t

theorem capLead_upholds (p : Plan) (t : Tally) : t.Upholds (capLead p t) [] := by
  unfold capLead
  split
  · exact .silent rfl rfl rfl rfl
  · exact .refl t

theorem Starts.upholds (h : Starts m t s (t', s', busy) calls) :
    t.Upholds t' (Voice.schedule.notes calls) := by
  cases h with
  | refused h => exact .silent rfl rfl rfl rfl
  | opened h => exact .silent rfl rfl rfl rfl
  | failed h cause => exact .silent rfl rfl rfl rfl
  | busy h => exact .silent rfl rfl rfl rfl

/-- The reading that is collected is gathered if it is of the kind, and that is
when it is folded in. -/
theorem Collects.upholds (h : Collects m t s (t', s', busy) calls) :
    t.Upholds t' (Voice.schedule.notes calls) := by
  cases h with
  | done r leadTime answer hlead =>
      refine ⟨?_, fun readings hshows => ⟨?_, ?_⟩⟩
      · obtain ⟨summary, samples, heq⟩ := t.closed.taking_eq r
        rw [heq]
        rfl
      · refine ⟨fun m t answer heq => ?_, .of_silent rfl _⟩
        cases heq
      · have hclosed : t.closed.Shows readings := hshows.congr rfl rfl rfl
        have htaken := (hclosed.taking (r := r)).2
        have hgathered : (Voice.schedule.notes [.collect m (.done r),
            .collectionTime m answer]).foldl (gather t.kind) readings =
              if r.kind = t.kind then readings ++ [r] else readings := rfl
        rw [hgathered]
        exact htaken.congr rfl rfl rfl
  | failed cause => exact .silent rfl rfl rfl rfl
  | busy => exact .silent rfl rfl rfl rfl

theorem StartTurns.upholds {wait : UInt64} (h : StartTurns p m t s (t', s', wait) calls) :
    t.Upholds t' (Voice.schedule.notes calls) := by
  cases h with
  | early h => exact .refl t
  | due h hstart => exact (givenUp_upholds t).trans hstart.upholds

theorem CollectTurns.upholds {collectAt : UInt64} {wait : Option UInt64}
    (h : CollectTurns p m collectAt t s (t', s', wait) calls) :
    t.Upholds t' (Voice.schedule.notes calls) := by
  cases h with
  | idle h => exact .refl t
  | early hopen h => exact .refl t
  | due hopen h hcollect => exact hcollect.upholds
  | astray hne hopen => exact .silent rfl rfl rfl rfl

theorem Attends.upholds {wait : UInt64} (h : Attends p m t s (t', s', wait) calls) :
    t.Upholds t' (Voice.schedule.notes calls) := by
  cases h with
  | turn hstart hcollect =>
      rw [Voice.notes_append]
      exact ((capLead_upholds p t).trans hstart.upholds).trans hcollect.upholds

variable {e e' : Entry}

theorem Visits.upholds {guard : UInt32} {clock : TransmitClock} {now : Timestamp}
    {near near' : Option UInt64} (h : Visits guard clock now e (s, near) (e', s', near') calls) :
    e.tally.Upholds e'.tally (Voice.schedule.notes calls) := by
  cases h with
  | idle h => exact .refl _
  | active h hturn => exact hturn.upholds

theorem Polls.upholds {polled polled' : UInt32}
    (h : Polls e (s, polled) (e', s', polled') calls) :
    e.tally.Upholds e'.tally (Voice.schedule.notes calls) := by
  cases h with
  | idle h => exact .refl _
  | failed h cause => exact .silent rfl rfl rfl rfl
  | asked h answer hfine => exact .silent rfl rfl rfl rfl

end Sampler

namespace Entry

variable {e e' : Entry} {own : List Call}

/-- An append hands over what is gathered; one that is accepted empties the tally. -/
theorem upholds_of_appends {count : UInt32} {s s' : UInt16 × UplinkStats} {stop : Bool}
    (h : Outgoing.Appends count e s (e', s', stop) own) :
    e.tally.Upholds e'.tally (Voice.schedule.notes own) := by
  have hhanded : ∀ readings answer, e.tally.samples ≠ 0 → e.tally.Shows readings →
      Honest e.tally.kind readings
        (Voice.schedule.notes [.append e.definition e.tally answer]) := by
    intro readings answer hs hshows
    refine ⟨fun m t answer' heq => ?_, trivial⟩
    cases heq
    exact ⟨hshows.samples_ne_zero hs, hshows⟩
  cases h with
  | idle h => exact .refl _
  | unsampled h hs => exact .silent rfl rfl rfl rfl
  | refused h hs cause => exact ⟨rfl, fun readings hshows => ⟨hhanded readings _ hs hshows, hshows⟩⟩
  | accepted h hs =>
      exact ⟨rfl, fun readings hshows => ⟨hhanded readings _ hs hshows, Tally.shows_nil rfl rfl⟩⟩

theorem Handled.upholds (h : e.Handled own e') :
    e.tally.Upholds e'.tally (Voice.schedule.notes own) := by
  cases h with
  | appended h => exact upholds_of_appends h
  | answered h =>
      cases h with
      | idle h => exact .refl _
      | settled h hwaits => exact .silent rfl rfl rfl rfl
  | cleared => exact .silent rfl rfl rfl rfl

theorem Handlings.upholds (h : e.Handlings own e') :
    e.tally.Upholds e'.tally (Voice.schedule.notes own) := by
  induction h with
  | nil e => exact .refl _
  | cons h _ ih =>
      rw [Voice.notes_append]
      exact h.upholds.trans ih

theorem TurnedTo.upholds {guard : UInt32} {clock : TransmitClock} {now : Timestamp}
    (h : e.TurnedTo guard clock now own e') :
    e.tally.Upholds e'.tally (Voice.schedule.notes own) := by
  rcases h with ⟨rfl, rfl⟩ | ⟨s, s', h⟩
  · exact .refl _
  · exact h.upholds

theorem PolledTo.upholds (h : e.PolledTo own e') :
    e.tally.Upholds e'.tally (Voice.schedule.notes own) := by
  rcases h with ⟨rfl, rfl⟩ | ⟨s, s', h⟩
  · exact .refl _
  · exact h.upholds

/-- A read on the spot is no reading of the schedule. -/
theorem TouchedTo.upholds (h : e.TouchedTo own e') : e.tally.Upholds e'.tally [] := by
  rcases h.2 with rfl | h | h
  · exact .refl _
  · cases h with
    | refused h => exact .refl _
    | made h leadTime => exact .silent rfl rfl rfl rfl
  · cases h with
    | refused h => exact .silent rfl rfl rfl rfl
    | made h leadTime => exact .silent rfl rfl rfl rfl

end Entry

theorem Node.Seen.upholds {n n' : Node} {e e' : Entry} {own : List Note}
    (h : Seen n n' e own e') : e.tally.Upholds e'.tally own := by
  cases h with
  | turn now h =>
      have hturn : e.tally.Upholds e.tally [.turn now] := .silent rfl rfl rfl rfl
      exact hturn.trans h.upholds
  | polled h => exact h.upholds
  | sent h => exact h.upholds.trans (.silent rfl rfl rfl rfl)
  | touched h => exact h.upholds

/-! ## The stay of a measurement -/

/-- The tally shows what is gathered, and has always shown it when it was handed over. -/
theorem shows_lasting (i : Nat) :
    Node.Lasting i fun notes e =>
      Honest e.tally.kind [] notes ∧ e.tally.Shows (gathered e.tally.kind notes) where
  fresh m kind leadTime := ⟨trivial, Tally.shows_nil rfl rfl⟩
  edited notes e m instantRequested h := ⟨h.1, h.2.congr rfl rfl rfl⟩
  seen n n' notes e more e' _ _ hseen h := by
    obtain ⟨hkind, hupholds⟩ := hseen.upholds
    obtain ⟨hhonest, hshows⟩ := hupholds _ h.2
    rw [hkind, gathered, List.foldl_append]
    exact ⟨h.1.append hhonest, hshows⟩

/-- In every reachable state the tally of a measurement is what the readings
amount to that were collected for it since its last accepted append. Every
tally that is handed over shows what was gathered by then, which is not
nothing; the batches in the frames and what is left are all the readings, each
once and in their order; and no reading finds a summary of another kind. -/
theorem Life.readings_accounted {W : Type} (l : Life W) {i : Nat} {e : Entry}
    (hi : l.node.table.get? i = some e) :
    let notes := Node.stay i l.past
    let kind := e.tally.kind
    (e.tally.samples.toNat = if kind = .text then min (gathered kind notes).length 1
      else min (gathered kind notes).length (UInt32.size - 1)) ∧
    e.tally.summary = Summary.ofReadings kind (gathered kind notes) ∧
    (∀ before m t answer after, notes = before ++ .call .schedule (.append m t answer) :: after →
      gathered kind before ≠ [] ∧ t.Shows (gathered kind before)) ∧
    (∃ batches,
      List.Forall₂ (fun t batch => batch ≠ [] ∧ t.Shows batch) (framed notes) batches ∧
      batches.flatten ++ gathered kind notes = collected kind notes) ∧
    ∀ r given, e.tally.fold r ≠ .error (.summary given) := by
  obtain ⟨hhonest, hshows⟩ := (shows_lasting i).holds l hi
  refine ⟨hshows.samples, hshows.summary, ?_, hhonest.batches, ?_⟩
  · intro before m t answer after heq
    rw [heq] at hhonest
    exact hhonest.at_append
  · exact fun r given => hshows.fold_ne_summary given

/-- Two readings, of which the first has been sent. -/
theorem Life.readings_accounted_ticking :
    let l := Life.ticking 100 1000 [1, 402, 503, 1004, 1407, 1508]
    (framed (Node.stay 0 l.past)).length = 1 ∧
      (collected .integer (Node.stay 0 l.past)).length = 2 ∧
      ∃ e, l.node.table.get? 0 = some e ∧ e.tally.samples = 1 ∧
        e.tally.summary =
          Summary.ofReadings .integer (gathered .integer (Node.stay 0 l.past)) := by
  have hcounts : (framed (Node.stay 0
      (Life.ticking 100 1000 [1, 402, 503, 1004, 1407, 1508]).past)).length = 1 ∧
      (collected .integer (Node.stay 0
        (Life.ticking 100 1000 [1, 402, 503, 1004, 1407, 1508]).past)).length = 2 := by
    decide +kernel
  have htally : ((Life.ticking 100 1000 [1, 402, 503, 1004, 1407, 1508]).node.table.get? 0).map
      (fun e => (e.tally.kind, e.tally.samples)) = some (.integer, 1) := by
    decide +kernel
  obtain ⟨e, hi, heq⟩ := Option.map_eq_some_iff.mp htally
  obtain ⟨hkind, hsamples⟩ := Prod.mk.inj heq
  have haccounted := Life.readings_accounted _ hi
  rw [hkind] at haccounted
  exact ⟨hcounts.1, hcounts.2, e, hi, hsamples, haccounted.2.1⟩

end Telemetry
