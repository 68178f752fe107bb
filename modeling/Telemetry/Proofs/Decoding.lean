import Telemetry.Proofs.Handing

/-!
# Reading back what was sent

A frame is opened, measurements are appended, each with or without success, and
the frame is sent. What arrives is one object, and its members are those of the
measurements that were taken, in order: nothing for a measurement without
readings, one member for a single reading or a text, and the mean with its
bounds for several numbers.

Names are short, so a name with a suffix is too long to be another name, and the
keys stay different. Only an empty name is short enough to collide: its bounds
are `_min` and `_max`, which are names themselves (`nameless_collides`).
-/

namespace Telemetry

/-- Whether a summary holds no floats. -/
def Summary.Exact : Summary → Prop
  | .float _ _ _ => False
  | _ => True

namespace Frame

open Json

/-! ## What a measurement means -/

def whole (n : Int) : Json.Value := .number (.ofInt n)

/-- The members that a measurement's readings amount to; floats are left out. -/
def meaningOf (name : String) (t : Tally) : List (String × Json.Value) :=
  match t.summary with
  | .integer sum least greatest =>
      if t.samples ≤ 1 then [(name, whole sum.toInt)]
      else
        [(name, whole (sum.toInt.tdiv t.samples.toNat)),
          (name ++ "_min", whole least.toInt), (name ++ "_max", whole greatest.toInt)]
  | .text last => [(name, .text last)]
  | _ => []

theorem toInt_samples (n : UInt32) : n.toUInt64.toInt64.toInt = n.toNat := by
  have hn := n.toNat_lt
  rw [UInt64.toInt64, Int64.toInt, Int64.toBitVec]
  simp only []
  rw [BitVec.toInt_eq_toNat_of_lt]
  · simp
  · simp
    omega

theorem toInt_mean {n : UInt32} (h : ¬ n ≤ 1) (sum : Int64) :
    (sum / n.toUInt64.toInt64).toInt = sum.toInt.tdiv n.toNat := by
  have hn : 1 < n.toNat := by
    have hlt := UInt32.not_le.mp h
    simpa [UInt32.lt_iff_toNat_lt] using hlt
  have hne : n.toUInt64.toInt64 ≠ -1 := by
    intro heq
    have hint := toInt_samples n
    rw [heq] at hint
    have hminus : (-1 : Int64).toInt = -1 := by decide
    omega
  rw [Int64.toInt_div_of_ne_right _ _ hne, toInt_samples]

theorem values?_fieldsOf {t : Tally} (h : t.summary.Exact) (name : String) :
    values? (fieldsOf name t) = some (meaningOf name t) := by
  unfold fieldsOf meaningOf
  cases hsummary : t.summary with
  | empty => rfl
  | text last => rfl
  | float sum least greatest =>
      rw [hsummary] at h
      exact h.elim
  | integer sum least greatest =>
      simp only []
      split
      · rfl
      · next hmany =>
          rw [← toInt_mean hmany]
          rfl

theorem values?_append {fields more : List Field} {vs ws : List (String × Json.Value)}
    (h : values? fields = some vs) (hmore : values? more = some ws) :
    values? (fields ++ more) = some (vs ++ ws) := by
  induction fields generalizing vs with
  | nil =>
      cases h
      exact hmore
  | cons x rest ih =>
      obtain ⟨v, hv, hrest⟩ := Option.bind_eq_some_iff.mp h
      obtain ⟨us, hus, rfl⟩ := Option.map_eq_some_iff.mp hrest
      rw [List.cons_append, values?, hv, Option.bind_some, ih hus]
      rfl

/-! ## Names that stay different -/

/-- What a name of a measurement has to be for its fields to be told from all others. -/
structure Fit (name : String) : Prop where
  named : name ≠ ""
  short : name.utf8ByteSize ≤ Limits.nameBytes
  plain : ∀ c ∈ name.toList, Plain c

/-- Short names with suffixes are the same only if both parts are. -/
theorem suffix_inj {a b s s' : String} (ha : Fit a) (hb : Fit b) (hs : s ∈ suffixes)
    (hs' : s' ∈ suffixes) (h : a ++ s = b ++ s') : a = b ∧ s = s' := by
  have hsizes : ∀ x ∈ suffixes, (x.utf8ByteSize = 0 ∨ x.utf8ByteSize = 4) ∧
      x.toList.length = x.utf8ByteSize := by
    decide
  obtain ⟨hsize, hlength⟩ := hsizes s hs
  obtain ⟨hsize', hlength'⟩ := hsizes s' hs'
  have htotal := congrArg String.utf8ByteSize h
  simp only [String.utf8ByteSize_append] at htotal
  have hshort : a.utf8ByteSize ≤ 4 := ha.short
  have hshort' : b.utf8ByteSize ≤ 4 := hb.short
  have hpos : 0 < a.utf8ByteSize := Nat.pos_of_ne_zero (by simpa using ha.named)
  have hpos' : 0 < b.utf8ByteSize := Nat.pos_of_ne_zero (by simpa using hb.named)
  -- a suffix makes a name longer than any name without one
  have hsame : s.toList.length = s'.toList.length := by omega
  rw [← String.toList_inj, String.toList_append, String.toList_append] at h
  obtain ⟨hname, hsuffix⟩ := List.append_inj' h hsame
  exact ⟨String.toList_inj.mp hname, String.toList_inj.mp hsuffix⟩

theorem nodup_fieldsOf (name : String) (t : Tally) : ((fieldsOf name t).map Field.name).Nodup := by
  refine List.Nodup.sublist (names_fieldsOf name t) (List.pairwise_map.mpr ?_)
  have hsuffixes : suffixes.Nodup := by decide
  refine hsuffixes.imp fun hne heq => hne ?_
  rw [← String.toList_inj] at heq ⊢
  simpa using heq

/-- The fields of different measurements have different names. -/
theorem nodup_fields {entries : List (Definition × Tally)} (hfit : ∀ e ∈ entries, Fit e.1.name)
    (hnodup : (entries.map (·.1.name)).Nodup) :
    ((entries.flatMap fun e => fieldsOf e.1.name e.2).map Field.name).Nodup := by
  induction entries with
  | nil => exact List.nodup_nil
  | cons e rest ih =>
      obtain ⟨he, hrest⟩ := List.forall_mem_cons.mp hfit
      obtain ⟨hnew, hnodup⟩ := List.nodup_cons.mp hnodup
      rw [List.flatMap_cons, List.map_append, List.nodup_append]
      refine ⟨nodup_fieldsOf _ _, ih hrest hnodup, ?_⟩
      intro key hkey key' hkey' hsame
      obtain ⟨x, hx, hxkey⟩ := List.mem_map.mp hkey
      obtain ⟨y, hy, hykey⟩ := List.mem_map.mp hkey'
      obtain ⟨e', he', hy⟩ := List.mem_flatMap.mp hy
      obtain ⟨s, hs, hxname⟩ := name_of_mem_fieldsOf hx
      obtain ⟨s', hs', hyname⟩ := name_of_mem_fieldsOf hy
      have heq := (suffix_inj he (hrest e' he') hs hs'
        (by rw [← hxname, ← hyname, hxkey, hykey, hsame])).1
      exact hnew (List.mem_map.mpr ⟨e', he', heq.symm⟩)

/-! ## What arrives -/

/-- The measurements that were taken, given the answers. -/
def accepted : List (Definition × Tally) → List (Except FrameError Unit) →
    List (Definition × Tally)
  | e :: rest, .ok _ :: answers => e :: accepted rest answers
  | _ :: rest, .error _ :: answers => accepted rest answers
  | _, _ => []

theorem accepted_sublist (entries : List (Definition × Tally))
    (answers : List (Except FrameError Unit)) : (accepted entries answers).Sublist entries := by
  induction entries generalizing answers with
  | nil => exact .slnil
  | cons e rest ih =>
      match answers with
      | [] => exact List.nil_sublist _
      | .ok _ :: answers => exact (ih answers).cons_cons e
      | .error _ :: answers => exact (ih answers).cons e

/-- The members that measurements amount to, in order. -/
def meaning (entries : List (Definition × Tally)) : List (String × Json.Value) :=
  entries.flatMap fun e => meaningOf e.1.name e.2

theorem values?_entries {entries : List (Definition × Tally)}
    (h : ∀ e ∈ entries, e.2.summary.Exact) :
    values? (entries.flatMap fun e => fieldsOf e.1.name e.2) = some (meaning entries) := by
  induction entries with
  | nil => rfl
  | cons e rest ih =>
      obtain ⟨he, hrest⟩ := List.forall_mem_cons.mp h
      rw [meaning, List.flatMap_cons, List.flatMap_cons]
      exact values?_append (values?_fieldsOf he e.1.name) (ih hrest)

/-- Appending measurements one after the other. -/
def appends (entries : List (Definition × Tally)) : List Ask :=
  entries.map fun e => .append e.1 e.2

theorem afterAll_appends (entries : List (Definition × Tally))
    (answers : List (Except FrameError Unit)) (fields : List Field) :
    (Sheet.writing fields).afterAll (appends entries) answers =
      .writing (fields ++ (accepted entries answers).flatMap fun e => fieldsOf e.1.name e.2) := by
  induction entries generalizing answers fields with
  | nil => simp [appends, Sheet.afterAll, accepted]
  | cons e rest ih =>
      match answers with
      | [] => simp [appends, Sheet.afterAll, accepted]
      | .ok _ :: answers =>
          have hrest := ih answers (fields ++ fieldsOf e.1.name e.2)
          rw [List.append_assoc] at hrest
          exact hrest
      | .error _ :: answers => exact ih answers fields

namespace Station

variable {V : Type} (log : Logger V) (link : Transport V)

theorem appends_handed (entries : List (Definition × Tally)) (st : Station V) :
    ((Ask.performAll (radio log link) (appends entries)).run st).2.handed = st.handed := by
  induction entries generalizing st with
  | nil => rfl
  | cons e rest ih => exact ih _

/-- One frame is handed over, and what is read from it are the measurements that were taken. -/
def Arrives (st : Station V) (entries : List (Definition × Tally)) : Prop :=
  let opened := ((radio log link).openFrame.run st).2
  let filled := (Ask.performAll (radio log link) (appends entries)).run opened
  let sent := ((radio log link).send.run filled.2).2
  ∃ frame, sent.handed = st.handed ++ [frame] ∧
    Value.ofBytes frame = some (.object (meaning (accepted entries filled.1))) ∧
    ((meaning (accepted entries filled.1)).map Prod.fst).Nodup

theorem entries_arrive (st : Station V) (entries : List (Definition × Tally))
    (hopen : ((radio log link).openFrame.run st).1 = .ok ())
    (hfit : ∀ e ∈ entries, Fit e.1.name) (hnodup : (entries.map (·.1.name)).Nodup)
    (hexact : ∀ e ∈ entries, e.2.summary.Exact) : Arrives log link st entries := by
  unfold Arrives
  intro opened filled sent
  have hshows := performAll_shows log link opened (appends entries) (open_shows hopen)
  rw [afterAll_appends, List.nil_append] at hshows
  obtain ⟨g, hclose, htext⟩ := Draft.close_writing hshows
  have hsub := accepted_sublist entries filled.1
  have hnames : (((accepted entries filled.1).flatMap fun e => fieldsOf e.1.name e.2).map
      Field.name).Nodup :=
    nodup_fields (fun e he => hfit e (hsub.subset he)) (hnodup.sublist (hsub.map _))
  have hvalues := values?_entries fun e he => hexact e (hsub.subset he)
  have hplain : ∀ x ∈ (accepted entries filled.1).flatMap fun e => fieldsOf e.1.name e.2,
      x.Plain := by
    intro x hx
    obtain ⟨e, he, hx⟩ := List.mem_flatMap.mp hx
    exact fieldsOf_plain (hfit e (hsub.subset he)).plain e.2 x hx
  have hframe : g.text = String.ofList (frameChars
      ((accepted entries filled.1).flatMap fun e => fieldsOf e.1.name e.2)) := by
    rw [← String.toList_inj, htext, String.toList_ofList]
  refine ⟨g.text.toUTF8, ?_, ?_, ?_⟩
  · exact (handed_close hclose).trans (by rw [appends_handed]; rfl)
  · rw [hframe, ofBytes_frame hplain hnames, hvalues]
    rfl
  · rw [names_of_values? hvalues]
    exact hnames

/-- A frame with a mean, a text with a quote and a measurement without readings. -/
theorem entries_arrive_mixed :
    let st : Station Unit := ⟨⟨64, ""⟩, (), []⟩
    let entries : List (Definition × Tally) :=
      [(called "TMP", { summary := .integer 43 20 23, samples := 2 }),
        (called "FW", { summary := .text "1\"4", samples := 1 }), (called "PC1", {})]
    (((radio silent sink).openFrame.run st).1 = .ok () ∧ (∀ e ∈ entries, Fit e.1.name) ∧
      (entries.map (·.1.name)).Nodup ∧ ∀ e ∈ entries, e.2.summary.Exact) ∧
    Arrives silent sink st entries := by
  intro st entries
  have hopen : ((radio silent sink).openFrame.run st).1 = .ok () := rfl
  have hfit : ∀ e ∈ entries, Fit e.1.name := by
    intro e he
    simp only [entries, List.mem_cons, List.not_mem_nil, or_false] at he
    rcases he with rfl | rfl | rfl <;> exact ⟨by decide, by decide, plain_of_all rfl⟩
  have hnodup : (entries.map (·.1.name)).Nodup := by decide
  have hexact : ∀ e ∈ entries, e.2.summary.Exact := by
    intro e he
    simp only [entries, List.mem_cons, List.not_mem_nil, or_false] at he
    rcases he with rfl | rfl | rfl <;> trivial
  exact ⟨⟨hopen, hfit, hnodup, hexact⟩, entries_arrive silent sink st entries hopen hfit hnodup hexact⟩

/-- The bounds of a measurement without a name have the names of others. -/
theorem nameless_collides :
    let st : Station Unit := ⟨⟨128, ""⟩, (), []⟩
    let entries : List (Definition × Tally) :=
      [(called "", { summary := .integer 4 1 3, samples := 2 }),
        (called "_min", { summary := .integer 7 7 7, samples := 1 })]
    (((radio silent sink).openFrame.run st).1 = .ok () ∧
      (∀ e ∈ entries, e.1.name.utf8ByteSize ≤ Limits.nameBytes ∧
        (∀ c ∈ e.1.name.toList, Plain c) ∧ e.2.summary.Exact) ∧
      (entries.map (·.1.name)).Nodup) ∧
    ¬ Arrives silent sink st entries := by
  intro st entries
  refine ⟨⟨rfl, ?_, by decide⟩, ?_⟩
  · intro e he
    simp only [entries, List.mem_cons, List.not_mem_nil, or_false] at he
    rcases he with rfl | rfl <;> exact ⟨by decide, plain_of_all rfl, trivial⟩
  · rintro ⟨frame, -, -, hkeys⟩
    have hfirst : (⟨128, "\x7b"⟩ : Draft).append "" { summary := .integer 4 1 3, samples := 2 } =
        some ⟨128, "\x7b\"\" : 2,\"_min\" : 1,\"_max\" : 3"⟩ := by
      decide +kernel
    have hsecond : ((⟨128, "\x7b\"\" : 2,\"_min\" : 1,\"_max\" : 3"⟩ : Draft).append "_min"
        { summary := .integer 7 7 7, samples := 1 }).isSome := by
      decide +kernel
    obtain ⟨g, hg⟩ := Option.isSome_iff_exists.mp hsecond
    have hopen : (⟨128, ""⟩ : Draft).openStep = (.ok (), ⟨128, "\x7b"⟩) := rfl
    have hanswers : ((Ask.performAll (radio silent sink) (appends entries)).run
        ((radio silent sink).openFrame.run st).2).1 = [.ok (), .ok ()] := by
      simp [entries, appends, Ask.performAll, Ask.perform, open_run, append_run, hopen, st,
        Draft.appendStep, called, hfirst, hg]
    rw [hanswers] at hkeys
    exact absurd hkeys (by decide)

end Station

end Frame

end Telemetry
