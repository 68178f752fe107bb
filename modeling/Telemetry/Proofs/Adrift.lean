import Telemetry.Proofs.Stays

/-!
# A sensor at work with no acquisition open

The flag `acquiring` says that a sensor is at work for the schedule, and what
takes it back is the end of an acquisition: a collect, a failed poll, a start
that gives the last one up. Sends do not look at the flag. One that clears the
counters of a measurement while its sensor is at work closes the acquisition
without an end, and the flag stays: such a tally is adrift. Every later start
and every read of it is refused, and nothing but its removal ends that.

`acquiring_out_of_step_iff` says that this is the only way to come to it. What a
tally owes to its counters is stated in words that wrap around, so there is no
limit to the number of starts; a sampler that finds two acquisitions open gives
both of them up in the same turn.
-/

namespace Telemetry

namespace Tally

def Near (t : Tally) : Prop := t.started = t.finished ∨ t.started = t.finished + 1

/-- The sensor is at work, and all acquisitions are over. -/
def Adrift (t : Tally) : Prop := t.acquiring = true ∧ t.started = t.finished

/-- Whether a tally is near, and whether it is adrift, in terms of another. -/
def Follows (t t' : Tally) : Prop := t'.Near ∧ (t'.Adrift ↔ t.Adrift)

theorem Near.follows_self {t : Tally} (h : t.Near) : t.Follows t := ⟨h, Iff.rfl⟩

/-- A tally with the same counters and the same flag. -/
theorem Near.follows {t t' : Tally} (h : t.Near) (hs : t'.started = t.started)
    (hf : t'.finished = t.finished) (ha : t'.acquiring = t.acquiring) : t.Follows t' := by
  unfold Follows Near Adrift
  rw [hs, hf, ha]
  exact ⟨h, Iff.rfl⟩

theorem Follows.trans {t t' t'' : Tally} (h : t.Follows t') (h' : t'.Follows t'') :
    t.Follows t'' := ⟨h'.1, h'.2.trans h.2⟩

theorem succ_ne (a : UInt32) : a + 1 ≠ a := by
  intro h
  have hnat := congrArg UInt32.toNat h
  rw [UInt32.toNat_add, UInt32.toNat_one] at hnat
  have hlt := a.toNat_lt
  omega

theorem succ_succ_ne (a : UInt32) : a + 1 + 1 ≠ a := by
  intro h
  have hnat := congrArg UInt32.toNat h
  rw [UInt32.toNat_add, UInt32.toNat_add, UInt32.toNat_one] at hnat
  have hlt := a.toNat_lt
  omega

theorem not_adrift_of_idle {t : Tally} (h : t.acquiring = false) : ¬ t.Adrift := by
  intro hr
  obtain ⟨hacquiring, _⟩ := hr
  rw [h] at hacquiring
  cases hacquiring

theorem not_adrift_of_open {t : Tally} (h : t.finished + 1 = t.started) : ¬ t.Adrift := by
  intro hr
  obtain ⟨_, hover⟩ := hr
  rw [hover] at h
  exact succ_ne _ h

/-- An acquisition that is seen to be open is one. -/
theorem Near.open_of_inFlight {t : Tally} (h : t.Near) (hopen : t.inFlight = true) :
    t.finished + 1 = t.started := by
  rcases h with heq | hsucc
  · rw [inFlight, heq, decide_eq_true_eq] at hopen
    exact absurd hopen (UInt32.lt_irrefl _)
  · exact hsucc.symm

theorem follows_closed {t : Tally} (hopen : t.finished + 1 = t.started) :
    t.Follows t.closed :=
  ⟨.inl hopen.symm, iff_of_false (not_adrift_of_idle rfl) (not_adrift_of_open hopen)⟩

theorem Near.givenUp_follows {t : Tally} (h : t.Near) : t.Follows t.givenUp := by
  unfold givenUp
  split
  · next hopen => exact follows_closed (h.open_of_inFlight hopen)
  · exact h.follows_self

theorem Near.missed_follows {t : Tally} (h : t.Near) : t.Follows t.missed := by
  unfold Follows Near Adrift missed
  rw [UInt32.add_left_inj, UInt32.add_left_inj]
  exact ⟨h, Iff.rfl⟩

end Tally

/-! ## What the sampler does -/

namespace Sampler

variable {p : Plan} {m : Definition} {t t' : Tally} {s s' : SamplerStats} {busy : Bool}
  {calls : List Call}

/-- A start leaves a tally that follows, unless two acquisitions are open then. -/
theorem Starts.follows (h : Starts m t s (t', s', busy) calls) (ht : t.Near) :
    t.Follows t' ∨ ¬ t.Adrift ∧ t'.finished + 1 + 1 = t'.started := by
  cases h with
  | refused h => exact .inl ht.missed_follows
  | opened h =>
      have hnot := Tally.not_adrift_of_idle h
      rcases ht with heq | hsucc
      · have hopen : t.opened.finished + 1 = t.opened.started := by
          rw [Tally.opened, heq]
        exact .inl ⟨.inr hopen.symm, iff_of_false (Tally.not_adrift_of_open hopen) hnot⟩
      · exact .inr ⟨hnot, by rw [Tally.opened, hsucc]⟩
  | failed h cause => exact .inl ht.missed_follows
  | busy h => exact .inl ht.follows_self

theorem Collects.follows (h : Collects m t s (t', s', busy) calls)
    (hopen : t.finished + 1 = t.started) : t.Follows t' := by
  cases h with
  | done r leadTime answer hlead =>
      obtain ⟨summary, samples, heq⟩ := t.closed.taking_eq r
      rw [heq]
      have hclosed := Tally.follows_closed hopen
      exact hclosed.trans (hclosed.1.follows rfl rfl rfl)
  | failed cause => exact Tally.follows_closed hopen
  | busy =>
      refine ⟨.inr hopen.symm, iff_of_false ?_ (Tally.not_adrift_of_open hopen)⟩
      exact Tally.not_adrift_of_idle rfl

variable {startWait : UInt64} {collectAt : UInt64} {collectWait : Option UInt64}

theorem StartTurns.follows (h : StartTurns p m t s (t', s', startWait) calls) (ht : t.Near) :
    t.Follows t' ∨ ¬ t.Adrift ∧ t'.finished + 1 + 1 = t'.started := by
  cases h with
  | early h => exact .inl ht.follows_self
  | due h hstart =>
      have hgiven := ht.givenUp_follows
      rcases hstart.follows hgiven.1 with hfollows | ⟨hnot, htwo⟩
      · exact .inl (hgiven.trans hfollows)
      · exact .inr ⟨fun hadrift => hnot (hgiven.2.mpr hadrift), htwo⟩

theorem CollectTurns.follows (h : CollectTurns p m collectAt t s (t', s', collectWait) calls)
    (ht : t.Near) : t.Follows t' := by
  cases h with
  | idle h => exact ht.follows_self
  | early hopen h => exact ht.follows_self
  | due hopen h hcollect => exact hcollect.follows hopen
  | astray hne hopen =>
      rcases ht with h | h
      · exact absurd h.symm hne
      · exact absurd h.symm hopen

/-- Two open acquisitions are given up at once. -/
theorem CollectTurns.near_of_two (h : CollectTurns p m collectAt t s (t', s', collectWait) calls)
    (htwo : t.finished + 1 + 1 = t.started) : t'.Near ∧ ¬ t'.Adrift := by
  cases h with
  | idle h => exact absurd (h.symm ▸ htwo) (Tally.succ_succ_ne _)
  | early hopen h => exact absurd (hopen.symm ▸ htwo) (Tally.succ_ne _)
  | due hopen h hcollect => exact absurd (hopen.symm ▸ htwo) (Tally.succ_ne _)
  | astray hne hopen => exact ⟨.inl rfl, Tally.not_adrift_of_idle rfl⟩

variable {guard : UInt32} {clock : TransmitClock} {now : Timestamp} {e e' : Entry}

theorem Attends.follows {wait : UInt64} (h : Attends p m t s (t', s', wait) calls)
    (ht : t.Near) : t.Follows t' := by
  have hcap : t.Follows (capLead p t) := by
    unfold capLead
    split
    · exact ht.follows rfl rfl rfl
    · exact ht.follows_self
  cases h with
  | turn hstart hcollect =>
      rcases hstart.follows hcap.1 with hfollows | ⟨hnot, htwo⟩
      · exact (hcap.trans hfollows).trans (hcollect.follows hfollows.1)
      · obtain ⟨hnear, hnot'⟩ := hcollect.near_of_two htwo
        exact ⟨hnear, iff_of_false hnot' fun hadrift => hnot (hcap.2.mpr hadrift)⟩

theorem Visits.follows {near near' : Option UInt64}
    (h : Visits guard clock now e (s, near) (e', s', near') calls) (he : e.tally.Near) :
    e.tally.Follows e'.tally := by
  cases h with
  | idle h => exact he.follows_self
  | active h hturn => exact hturn.follows he

theorem Polls.follows {polled polled' : UInt32}
    (h : Polls e (s, polled) (e', s', polled') calls) (he : e.tally.Near) :
    e.tally.Follows e'.tally := by
  cases h with
  | idle h => exact he.follows_self
  | failed h cause =>
      refine ⟨.inl rfl, iff_of_false (Tally.not_adrift_of_idle rfl) ?_⟩
      exact Tally.not_adrift_of_open (he.open_of_inFlight h)
  | asked h answer hfine => exact he.follows_self

end Sampler

/-! ## What everything else does -/

namespace Entry

variable {e e' : Entry} {own : List Call}

theorem TurnedTo.follows {guard : UInt32} {clock : TransmitClock} {now : Timestamp}
    (h : e.TurnedTo guard clock now own e') (he : e.tally.Near) : e.tally.Follows e'.tally := by
  rcases h with ⟨rfl, _⟩ | ⟨s, s', h⟩
  · exact he.follows_self
  · exact h.follows he

theorem PolledTo.follows (h : e.PolledTo own e') (he : e.tally.Near) :
    e.tally.Follows e'.tally := by
  rcases h with ⟨rfl, _⟩ | ⟨s, s', h⟩
  · exact he.follows_self
  · exact h.follows he

theorem ReadTo.follows (h : e.ReadTo e') (he : e.tally.Near) : e.tally.Follows e'.tally := by
  cases h with
  | refused h => exact he.follows_self
  | made h leadTime => exact he.follows rfl rfl h.symm

theorem TouchedTo.follows (h : e.TouchedTo own e') (he : e.tally.Near) :
    e.tally.Follows e'.tally := by
  rcases h.2 with rfl | h | h
  · exact he.follows_self
  · exact h.follows he
  · have hasked : e.tally.Follows { e.tally with instantRequested := false } :=
      he.follows rfl rfl rfl
    exact hasked.trans (h.follows hasked.1)

/-- The counters after a send, or an answer, are those before it or zero, and
the flag is what it was. -/
def Spared (e e' : Entry) : Prop :=
  e'.tally.acquiring = e.tally.acquiring ∧
    (e'.tally.started = e.tally.started ∧ e'.tally.finished = e.tally.finished ∨
      e'.tally.started = 0 ∧ e'.tally.finished = 0)

theorem Handled.spared (h : e.Handled own e') : e.Spared e' := by
  cases h with
  | appended h =>
      cases h with
      | idle h => exact ⟨rfl, .inl ⟨rfl, rfl⟩⟩
      | unsampled h hs => exact ⟨rfl, .inr ⟨rfl, rfl⟩⟩
      | refused h hs cause => exact ⟨rfl, .inl ⟨rfl, rfl⟩⟩
      | accepted h hs => exact ⟨rfl, .inr ⟨rfl, rfl⟩⟩
  | answered h =>
      cases h with
      | idle h => exact ⟨rfl, .inl ⟨rfl, rfl⟩⟩
      | settled h hwaits => exact ⟨rfl, .inl ⟨rfl, rfl⟩⟩
  | cleared => exact ⟨rfl, .inl ⟨rfl, rfl⟩⟩

theorem Handlings.spared (h : e.Handlings own e') : e.Spared e' := by
  induction h with
  | nil e => exact ⟨rfl, .inl ⟨rfl, rfl⟩⟩
  | cons h _ ih =>
      obtain ⟨hflag, hcounters⟩ := h.spared
      obtain ⟨hflag', hcounters'⟩ := ih
      refine ⟨hflag'.trans hflag, ?_⟩
      rcases hcounters' with ⟨hs, hf⟩ | hzero
      · rwa [hs, hf]
      · exact .inr hzero

end Entry

/-! ## How a tally comes adrift -/

/-- The uplink has cleared the counters of the measurement in a slot while its
sensor was at work. -/
def Table.ClearsAtWork (i : Nat) (before after : Table) : Prop :=
  ∃ e e', before.get? i = some e ∧ after.get? i = some e' ∧ e.tally.acquiring = true ∧
    e'.tally.started = 0 ∧ e'.tally.finished = 0

/-- By some of the notes the uplink has done so. -/
def ClearedAtWork (i : Nat) (notes : List Note) : Prop :=
  ∃ before after, .sent before after ∈ notes ∧ before.ClearsAtWork i after

namespace ClearedAtWork

variable {i : Nat} {notes more : List Note}

theorem append : ClearedAtWork i (notes ++ more) ↔ ClearedAtWork i notes ∨ ClearedAtWork i more := by
  simp only [ClearedAtWork, List.mem_append, or_and_right, exists_or]

/-- Calls are nothing of the kind. -/
theorem not_notes (v : Voice) (calls : List Call) : ¬ ClearedAtWork i (v.notes calls) := by
  intro hr
  obtain ⟨before, after, hmem, _⟩ := hr
  obtain ⟨c, _, hc⟩ := List.mem_map.mp hmem
  cases hc

theorem append_notes (v : Voice) (calls : List Call) :
    ClearedAtWork i (notes ++ v.notes calls) ↔ ClearedAtWork i notes := by
  rw [append, or_iff_left (not_notes v calls)]

theorem append_turn (now : Timestamp) (calls : List Call) :
    ClearedAtWork i (notes ++ .turn now :: Voice.schedule.notes calls) ↔
      ClearedAtWork i notes := by
  have hturn : ¬ ClearedAtWork i [.turn now] := by
    intro hr
    obtain ⟨before, after, hmem, _⟩ := hr
    cases List.mem_singleton.mp hmem
  rw [List.append_cons, append_notes, append, or_iff_left hturn]

theorem append_sent (calls : List Call) (before after : Table) :
    ClearedAtWork i (notes ++ (Voice.schedule.notes calls ++ [.sent before after])) ↔
      ClearedAtWork i notes ∨ before.ClearsAtWork i after := by
  have hsent : ClearedAtWork i [.sent before after] ↔ before.ClearsAtWork i after := by
    constructor
    · intro hr
      obtain ⟨before', after', hmem, h⟩ := hr
      cases List.mem_singleton.mp hmem
      exact h
    · exact fun h => ⟨before, after, List.mem_singleton_self _, h⟩
  rw [← List.append_assoc, append, append_notes, hsent]

end ClearedAtWork

namespace Entry

/-- A send leaves a measurement adrift that was so before, and one whose
counters it clears at work. -/
theorem Spared.adrift_iff {before after : Table} {i : Nat} {e e' : Entry} (h : e.Spared e')
    (hi : before.get? i = some e) (hi' : after.get? i = some e') :
    e'.tally.Adrift ↔ e.tally.Adrift ∨ before.ClearsAtWork i after := by
  have hclears : before.ClearsAtWork i after ↔ e.tally.acquiring = true ∧
      e'.tally.started = 0 ∧ e'.tally.finished = 0 := by
    constructor
    · intro hr
      obtain ⟨e₁, e₂, h₁, h₂, hwork⟩ := hr
      cases hi.symm.trans h₁
      cases hi'.symm.trans h₂
      exact hwork
    · exact fun hwork => ⟨e, e', hi, hi', hwork⟩
  obtain ⟨hflag, hsame | hzero⟩ := h
  · rw [hclears, Tally.Adrift, Tally.Adrift, hflag, hsame.1, hsame.2]
    constructor
    · exact .inl
    · intro hr
      rcases hr with hadrift | ⟨hwork, hs, hf⟩
      · exact hadrift
      · exact ⟨hwork, hs.trans hf.symm⟩
  · rw [hclears, Tally.Adrift, Tally.Adrift, hflag, hzero.1, hzero.2]
    constructor
    · exact fun hadrift => .inr ⟨hadrift.1, rfl, rfl⟩
    · intro hr
      rcases hr with hadrift | hwork
      · exact ⟨hadrift.1, rfl⟩
      · exact ⟨hwork.1, rfl⟩

theorem Spared.near {e e' : Entry} (h : e.Spared e') (he : e.tally.Near) : e'.tally.Near := by
  unfold Tally.Near
  rcases h.2 with hsame | hzero
  · rw [hsame.1, hsame.2]
    exact he
  · exact .inl (hzero.1.trans hzero.2.symm)

end Entry

/-- Near always, and adrift if the counters have been cleared at work. -/
theorem adrift_lasting (i : Nat) :
    Node.Lasting i fun notes e => e.tally.Near ∧ (e.tally.Adrift ↔ ClearedAtWork i notes) where
  fresh m kind leadTime := by
    refine ⟨.inl rfl, iff_of_false (Tally.not_adrift_of_idle rfl) ?_⟩
    intro hr
    obtain ⟨before, after, hmem, _⟩ := hr
    cases hmem
  edited notes e m instantRequested h := by
    have hsame : e.tally.Follows { e.tally with instantRequested } := h.1.follows rfl rfl rfl
    exact ⟨hsame.1, hsame.2.trans h.2⟩
  seen n n' notes e more e' hi hi' hseen h := by
    cases hseen with
    | turn now hturn =>
        have hfollows := hturn.follows h.1
        rw [ClearedAtWork.append_turn]
        exact ⟨hfollows.1, hfollows.2.trans h.2⟩
    | polled hpoll =>
        have hfollows := hpoll.follows h.1
        rw [ClearedAtWork.append_notes]
        exact ⟨hfollows.1, hfollows.2.trans h.2⟩
    | sent hsent =>
        have hspared := hsent.spared
        rw [ClearedAtWork.append_sent, hspared.adrift_iff hi hi', h.2]
        exact ⟨hspared.near h.1, Iff.rfl⟩
    | touched htouch =>
        have hfollows := htouch.follows h.1
        rw [List.append_nil]
        exact ⟨hfollows.1, hfollows.2.trans h.2⟩

/-- A sensor is at work without an open acquisition if and only if, since the
measurement was added, the uplink has cleared its counters while the sensor was
at work. -/
theorem Life.acquiring_out_of_step_iff {W : Type} (l : Life W) {i : Nat} {e : Entry}
    (hi : l.node.table.get? i = some e) :
    (e.tally.acquiring = true ∧ e.tally.started ≠ e.tally.finished + 1) ↔
      ∃ before after, .sent before after ∈ Node.stay i l.past ∧ before.ClearsAtWork i after := by
  obtain ⟨hnear, hadrift⟩ := (adrift_lasting i).holds l hi
  refine Iff.trans ?_ hadrift
  constructor
  · intro hr
    obtain ⟨hacquiring, hne⟩ := hr
    exact ⟨hacquiring, hnear.resolve_right hne⟩
  · intro hr
    obtain ⟨hacquiring, hover⟩ := hr
    exact ⟨hacquiring, fun hopen => Tally.succ_ne _ (hopen.symm.trans hover)⟩

/-- A sensor that takes longer than the way to its next target is started for
the next period just before the send of this one, which clears its counters. -/
theorem Life.acquiring_out_of_step_ticking :
    let l := Life.ticking 600 1000 [1, 500, 901, 1001]
    ∃ e, l.node.table.get? 0 = some e ∧
      (e.tally.acquiring = true ∧ e.tally.started ≠ e.tally.finished + 1) ∧
      ∃ before after, .sent before after ∈ Node.stay 0 l.past ∧ before.ClearsAtWork 0 after := by
  have htally : ((Life.ticking 600 1000 [1, 500, 901, 1001]).node.table.get? 0).map
      (fun e => (e.tally.acquiring, e.tally.started, e.tally.finished)) = some (true, 0, 0) := by
    decide +kernel
  obtain ⟨e, hi, heq⟩ := Option.map_eq_some_iff.mp htally
  obtain ⟨hacquiring, hcounters⟩ := Prod.mk.inj heq
  obtain ⟨hstarted, hfinished⟩ := Prod.mk.inj hcounters
  have hout : e.tally.acquiring = true ∧ e.tally.started ≠ e.tally.finished + 1 := by
    rw [hstarted, hfinished]
    exact ⟨hacquiring, by decide⟩
  exact ⟨e, hi, hout, (Life.acquiring_out_of_step_iff _ hi).mp hout⟩

/-- A measurement that is adrift remains so, whatever happens, until it is removed. -/
theorem Life.adrift_for_good {W : Type} (l : Life W) (more : List (Move W)) {i : Nat}
    {e e' : Entry} (hi : l.node.table.get? i = some e) (hadrift : e.tally.Adrift)
    (hkept : ∀ ep ∈ (l.continued more).past.drop l.past.length, ep.before.table.get? i ≠ none)
    (hi' : (l.continued more).node.table.get? i = some e') : e'.tally.Adrift := by
  rw [l.past_continued more, List.drop_left] at hkept
  obtain ⟨new, hnew⟩ := Node.stay_append i l.past hkept
  have hcleared := ((adrift_lasting i).holds l hi).2.mp hadrift
  refine ((adrift_lasting i).holds (l.continued more) hi').2.mpr ?_
  rw [l.past_continued more, hnew, ClearedAtWork.append]
  exact .inl hcleared

end Telemetry
