import Mathlib.Data.List.TakeWhile
import Telemetry.Proofs.Pulses
import Telemetry.Proofs.Revisions

/-!
# A table loaded again

A node keeps the list of its definitions and boots from it. What was listed
comes back: a kept name is its own kept form, names are apart, and the list
leaves no holes, so the definition at place `i` lands in slot `i`, whatever has
been edited before. That names are kept and apart holds through whole lives, by
`Life.wellNamed`.

Of any other list it is said what loading amounts to, an addition for every
definition that has a name (`addAll_eq_addEach`), and which of two namesakes is
in the table: `Tries` has a constructor for each way an addition may go, and a
namesake that comes later is let in by one of them only.
-/

namespace Telemetry

variable {W : Type}

/-! ## A kept name is its own kept form -/

namespace Name

theorem trim_of_spaceless {chars : List Char} (h : ' ' ∉ chars) : trim chars = chars := by
  have hdrop : chars.reverse.dropWhile (· == ' ') = chars.reverse := by
    refine List.dropWhile_eq_self_iff.mpr fun hlt hspace => h ?_
    rw [← List.mem_reverse, ← eq_of_beq hspace]
    exact List.getElem_mem hlt
  rw [trim, hdrop, List.reverse_reverse]

theorem map_bridge_of_spaceless {chars : List Char} (h : ' ' ∉ chars) :
    chars.map bridge = chars := by
  refine (List.map_congr_left fun c hc => ?_).trans (List.map_id' chars)
  rw [bridge, if_neg]
  rintro rfl
  exact h hc

theorem Kept.normalise_eq {name : String} (h : Kept name) : normalise name = .ok name := by
  have hgood : ¬ (name.isEmpty || decide (Limits.nameBytes < name.utf8ByteSize)) = true := by
    simp only [Bool.or_eq_true, String.isEmpty_iff, decide_eq_true_eq, not_or, Nat.not_lt]
    exact ⟨h.nonempty, h.short⟩
  simp only [normalise, trim_of_spaceless h.spaceless, String.ofList_toList, if_neg hgood,
    map_bridge_of_spaceless h.spaceless]

end Name

/-! ## Names through a life -/

namespace Node

theorem Path.wellNamed {n n' : Node} {notes : List Note} (h : Path n notes n')
    (ht : n.table.WellNamed) : n'.table.WellNamed := by
  refine ⟨h.distinct ht.distinct, fun i e' hi' => ?_⟩
  obtain ⟨calls, hpasses⟩ := h.passes
  obtain ⟨e, own, hi, hdefinition⟩ := hpasses.origin hi'
  rw [Entry.name, hdefinition]
  exact ht.kept i e hi

theorem performBy_wellNamed (d : Devices W) (n : Node) (op : Op) (ht : n.table.WellNamed) (w : W) :
    ((n.performBy (.blind d) op).run w).1.table.WellNamed := by
  by_cases hop : op.edits = false
  · obtain ⟨_, -, hpath⟩ := performBy_path d n hop w []
    exact hpath.wellNamed ht
  cases op with
  | edit e =>
      obtain ⟨_, -, calls, -, hcomes⟩ := e.attempt_speaks (v := .aside) d n.table w []
      simp only [performBy, Edit.apply_eq_attempt, Action.run_map]
      exact hcomes.wellNamed ht
  | load persisted defaults =>
      obtain ⟨_, -, calls, -, hgrows⟩ :=
        n.table.load_grows (v := .aside) d persisted defaults w []
      exact hgrows.wellNamed ht
  | _ => exact absurd rfl hop

theorem run_wellNamed (d : Devices W) (moves : List (Move W)) {n : Node} (ht : n.table.WellNamed)
    (w : W) : ((run d moves n).run w).1.table.WellNamed := by
  induction moves generalizing n w with
  | nil => exact ht
  | cons m rest ih => exact ih (performBy_wellNamed d n m.op ht (m.meanwhile w)) _

end Node

theorem Life.wellNamed (l : Life W) : l.node.table.WellNamed :=
  Node.run_wellNamed l.devices l.moves (Table.wellNamed_empty _ _) l.world

namespace Table

/-! ## Additions one by one -/

/-- The definitions of a table in slot order, as a node keeps them. -/
def listing (t : Table) : List Definition := t.entries.map Entry.definition

/-- The measurement that comes of a definition when it is added. -/
def freshEntry (m : Definition) (name : String) (kind : ValueKind) (leadTime : UInt32) : Entry :=
  { definition := { m with name }, tally := Tally.fresh kind leadTime }

/-- How an addition may go, with its answer. -/
inductive Tries (d : Devices W) (t : Table) (m : Definition) :
    Table × Except SetupError Nat → Prop where
  | misnamed {cause : SetupError} (hname : Name.normalise m.name = .error cause) :
      Tries d t m (t, .error cause)
  | namesake {name : String} (hname : Name.normalise m.name = .ok name)
      (hthere : (t.indexOf name).isSome) : Tries d t m (t, .error .duplicateName)
  | full (hfull : t.firstFree = none) : Tries d t m (t, .error .tableFull)
  | unsupported {name : String} (hname : Name.normalise m.name = .ok name) {w : W}
      (hkind : ((d.sensors.valueKind { m with name }).run w).1 = none) :
      Tries d t m (t, .error .unsupportedKind)
  | taken {name : String} (hname : Name.normalise m.name = .ok name)
      (hnew : t.indexOf name = none) {i : Nat} (hfree : t.firstFree = some i) (kind : ValueKind)
      (leadTime : UInt32) : Tries d t m (t.put i (some (freshEntry m name kind leadTime)), .ok i)

theorem add_tries (d : Devices W) (t : Table) (m : Definition) (w : W) :
    t.Tries d m ((t.add d m).run w).1 := by
  unfold add
  split
  · next cause hname => exact .misnamed hname
  · next name hname =>
      simp only [Action.run_ite, Action.run_bind]
      split
      · next hthere => exact .namesake hname hthere
      · next hnew =>
          split
          · next hfull => exact .full hfull
          · next i hfree =>
              simp only [Action.run_bind]
              cases hkind : ((d.sensors.valueKind { m with name }).run w).1 with
              | none => exact .unsupported hname hkind
              | some kind => exact .taken hname (by simpa using hnew) hfree kind _

/-- Adds a definition as a node that boots does it: the log is told of a refusal. -/
def addOrSkip (d : Devices W) (t : Table) (m : Definition) :
    Action W (Table × Except SetupError Nat) := do
  let (t, outcome) ← t.add d m
  match outcome with
  | .ok _ => pure ()
  | .error cause => d.log.warn ("Skipping " ++ m.name ++ " at boot: " ++ cause.message)
  pure (t, outcome)

/-- Adds definitions one by one and collects the answers. -/
def addEach (d : Devices W) :
    Table → List Definition → Action W (Table × List (Except SetupError Nat))
  | t, [] => pure (t, [])
  | t, m :: rest => do
      let (t, outcome) ← t.addOrSkip d m
      let (t, outcomes) ← addEach d t rest
      pure (t, outcome :: outcomes)

theorem addOrSkip_tries (d : Devices W) (t : Table) (m : Definition) (w : W) :
    t.Tries d m ((t.addOrSkip d m).run w).1 := by
  have htries := t.add_tries d m w
  simp only [addOrSkip, Action.run_bind]
  generalize (t.add d m).run w = r at htries ⊢
  obtain ⟨⟨t', outcome⟩, w'⟩ := r
  cases outcome with
  | ok i => exact htries
  | error cause => exact htries

theorem addAll_eq_addEach (d : Devices W) (t : Table) (ms : List Definition) :
    t.addAll d ms = Prod.fst <$> t.addEach d (ms.filter fun m => !m.name.isEmpty) := by
  induction ms generalizing t with
  | nil => rfl
  | cons m rest ih =>
      unfold addAll
      split
      · next hempty => rw [List.filter_cons_of_neg (by simp [hempty]), ih]
      · next hnamed =>
          rw [List.filter_cons_of_pos (by simpa using hnamed)]
          refine Action.ext fun w => ?_
          simp only [addEach, addOrSkip, Action.run_map, Action.run_bind]
          generalize (t.add d m).run w = r
          obtain ⟨⟨t', outcome⟩, w'⟩ := r
          cases outcome with
          | ok i => simp [ih]
          | error cause => simp [ih]

/-- Additions in a row, with their answers. -/
inductive TriesAll (d : Devices W) :
    Table → List Definition → Table → List (Except SetupError Nat) → Prop where
  | nil (t : Table) : TriesAll d t [] t []
  | cons {t t₁ t₂ : Table} {m : Definition} {rest : List Definition}
      {outcome : Except SetupError Nat} {outcomes : List (Except SetupError Nat)}
      (h : t.Tries d m (t₁, outcome)) (hrest : TriesAll d t₁ rest t₂ outcomes) :
      TriesAll d t (m :: rest) t₂ (outcome :: outcomes)

theorem addEach_triesAll (d : Devices W) (t : Table) (ms : List Definition) (w : W) :
    TriesAll d t ms ((t.addEach d ms).run w).1.1 ((t.addEach d ms).run w).1.2 := by
  induction ms generalizing t w with
  | nil => exact .nil t
  | cons m rest ih =>
      have htries := t.addOrSkip_tries d m w
      simp only [addEach, Action.run_bind, Action.run_pure]
      generalize (t.addOrSkip d m).run w = r at htries ⊢
      exact .cons htries (ih r.1.1 r.2)

/-! ## The first of two namesakes -/

section

variable {d : Devices W} {t t' : Table} {m : Definition} {ms : List Definition}
  {outcome : Except SetupError Nat} {outcomes : List (Except SetupError Nat)}

theorem Tries.grows (h : t.Tries d m (t', outcome)) : t.Grows t' := by
  cases h with
  | misnamed hname => exact .refl
  | namesake hname hthere => exact .refl
  | full hfull => exact .refl
  | unsupported hname hkind => exact .refl
  | taken hname hnew hfree kind leadTime =>
      exact .single ⟨_, .mk (Name.kept_of_normalise hname) hnew hfree⟩

theorem TriesAll.grows (h : TriesAll d t ms t' outcomes) : t.Grows t' := by
  induction h with
  | nil t => exact .refl
  | cons h _ ih => exact h.grows.trans ih

/-- The addition at a place of the list, and all that come after it. -/
theorem TriesAll.at (h : TriesAll d t ms t' outcomes) {i : Nat} (hi : ms[i]? = some m) :
    ∃ t₁ t₂ outcome, outcomes[i]? = some outcome ∧ t.Grows t₁ ∧ t₁.Tries d m (t₂, outcome) ∧
      TriesAll d t₂ (ms.drop (i + 1)) t' (outcomes.drop (i + 1)) := by
  induction h generalizing i with
  | nil t => cases hi
  | @cons t t₁ t₂ m₁ rest outcome outcomes h hrest ih =>
      cases i with
      | zero =>
          cases hi
          exact ⟨t, t₁, outcome, rfl, .refl, h, hrest⟩
      | succ i =>
          obtain ⟨t₃, t₄, outcome', hat, hgrows, htries, hdrop⟩ := ih hi
          exact ⟨t₃, t₄, outcome', hat, h.grows.trans hgrows, htries, hdrop⟩

theorem get?_of_indexOf {name : String} (h : (t.indexOf name).isSome) :
    ∃ i e, t.get? i = some e ∧ e.name = name := by
  obtain ⟨i, hi⟩ := Option.isSome_iff_exists.mp h
  obtain ⟨hlt, hholds, -⟩ := List.findIdx?_eq_some_iff_getElem.mp hi
  cases hslot : t.slots[i] with
  | none =>
      rw [hslot] at hholds
      cases hholds
  | some e =>
      rw [hslot] at hholds
      exact ⟨i, e, get?_eq_some.mpr (by rw [List.getElem?_eq_getElem hlt, hslot]),
        eq_of_beq hholds⟩

theorem Grows.full (h : t.Grows t') (hfull : t.firstFree = none) : t'.firstFree = none := by
  induction h with
  | refl => exact hfull
  | tail _ hlast ih =>
      obtain ⟨i, hgains⟩ := hlast
      cases hgains with
      | mk hkept hnew hfree =>
          rw [ih] at hfree
          cases hfree

/-- What is let in stays, under its kept name. -/
theorem TriesAll.accepted (h : TriesAll d t ms t' outcomes) {i k : Nat} (hi : ms[i]? = some m)
    (hok : outcomes[i]? = some (.ok k)) :
    ∃ name kind leadTime, Name.normalise m.name = .ok name ∧
      t'.get? k = some (freshEntry m name kind leadTime) := by
  obtain ⟨t₁, t₂, outcome, hat, -, htries, hrest⟩ := h.at hi
  obtain rfl := Option.some_inj.mp (hat.symm.trans hok)
  cases htries with
  | @taken name hname hnew _ hfree kind leadTime =>
      refine ⟨name, kind, leadTime, hname, hrest.grows.get?_eq ?_⟩
      exact get?_put_self (lt_of_firstFree hfree).1 _

/-- A namesake that comes later is let in only if the sensors had no use for the
one that came first. -/
theorem TriesAll.first_wins (h : TriesAll d t ms t' outcomes) {i j k : Nat} {m' : Definition}
    {name : String} (hij : i < j) (hi : ms[i]? = some m) (hj : ms[j]? = some m')
    (hname : Name.normalise m.name = .ok name) (hname' : Name.normalise m'.name = .ok name)
    (hok : outcomes[j]? = some (.ok k)) : outcomes[i]? = some (.error .unsupportedKind) := by
  obtain ⟨t₁, t₂, outcome, hat, -, htries, hrest⟩ := h.at hi
  have hlater : (ms.drop (i + 1))[j - (i + 1)]? = some m' := by
    rw [List.getElem?_drop, Nat.add_sub_cancel' hij]
    exact hj
  obtain ⟨t₃, t₄, outcome', hat', hgrows, htries', -⟩ := hrest.at hlater
  rw [List.getElem?_drop, Nat.add_sub_cancel' hij, hok] at hat'
  cases hat'
  rw [hat]
  cases htries' with
  | @taken name' hname'' hnew _ hfree kind leadTime =>
      obtain rfl := Except.ok.inj (hname'.symm.trans hname'')
      have hapart : ∀ s e, t₂.get? s = some e → e.name ≠ name := fun s e hs =>
        name_ne_of_indexOf hnew (hgrows.get?_eq hs)
      cases htries with
      | misnamed herror =>
          rw [hname] at herror
          cases herror
      | namesake hsame hthere =>
          obtain rfl := Except.ok.inj (hname.symm.trans hsame)
          obtain ⟨s, e, hs, heq⟩ := get?_of_indexOf hthere
          exact absurd heq (hapart s e hs)
      | full hfull =>
          rw [hgrows.full hfull] at hfree
          cases hfree
      | unsupported _ hkind => rfl
      | taken hsame hnew₁ hfree₁ kind₁ leadTime₁ =>
          obtain rfl := Except.ok.inj (hname.symm.trans hsame)
          exact absurd rfl (hapart _ _ (get?_put_self (lt_of_firstFree hfree₁).1 _))

end

/-! ## A listing fills a table from below -/

section

variable {d : Devices W} {t t' : Table} {ms : List Definition}
  {outcomes : List (Except SetupError Nat)}

theorem firstFree_of_packed {es : List Entry} {room : Nat}
    (h : t.slots = es.map some ++ List.replicate (room + 1) none) :
    t.firstFree = some es.length := by
  have hnone : es.findIdx? (Option.isNone ∘ some) = none :=
    List.findIdx?_eq_none_iff.mpr fun _ _ => rfl
  rw [firstFree, h, List.findIdx?_append]
  simp [hnone, List.replicate_succ, List.findIdx?_cons]

theorem slots_put_packed {es : List Entry} {room : Nat}
    (h : t.slots = es.map some ++ List.replicate (room + 1) none) (e : Entry) :
    (t.put es.length (some e)).slots = (es ++ [e]).map some ++ List.replicate room none := by
  simp [put, h, List.replicate_succ]

theorem get?_packed {es : List Entry} {room : Nat}
    (h : t.slots = es.map some ++ List.replicate room none) (i : Nat) : t.get? i = es[i]? := by
  rw [get?, h]
  by_cases hi : i < es.length
  · rw [List.getElem?_append_left (by rwa [List.length_map]), List.getElem?_map]
    simp [hi]
  · rw [List.getElem?_append_right (by rw [List.length_map]; omega),
      List.getElem?_eq_none (l := es) (by omega), List.getElem?_replicate]
    split <;> rfl

/-- Kept names that are apart, kinds that are supported and room for all: every
addition takes the next slot. -/
theorem TriesAll.fills (h : TriesAll d t ms t' outcomes) {es : List Entry} {room : Nat}
    (hslots : t.slots = es.map some ++ List.replicate room none) (hroom : ms.length ≤ room)
    (hapart : (es.map Entry.name ++ ms.map Definition.name).Nodup)
    (hkept : ∀ m ∈ ms, Name.Kept m.name)
    (hsupported : ∀ m ∈ ms, ∀ w, ((d.sensors.valueKind m).run w).1 ≠ none) :
    ∃ new : List Entry, t'.slots = (es ++ new).map some ++ List.replicate (room - ms.length) none ∧
      new.length = ms.length ∧ ∀ (i : Nat) (m : Definition), ms[i]? = some m →
        ∃ kind leadTime, new[i]? = some (freshEntry m m.name kind leadTime) := by
  induction h generalizing es room with
  | nil t =>
      refine ⟨[], by rw [List.append_nil]; exact hslots, rfl, fun i m hi => ?_⟩
      cases hi
  | @cons t t₁ t₂ m rest outcome outcomes h hrest ih =>
      obtain ⟨room, rfl⟩ : ∃ r, room = r + 1 := ⟨room - 1, by simp at hroom; omega⟩
      have hname := (hkept m List.mem_cons_self).normalise_eq
      cases h with
      | misnamed herror =>
          rw [hname] at herror
          cases herror
      | namesake hsame hthere =>
          obtain rfl := Except.ok.inj (hname.symm.trans hsame)
          obtain ⟨i, e, hi, heq⟩ := get?_of_indexOf hthere
          rw [get?_packed hslots] at hi
          have hmem : e.name ∈ es.map Entry.name :=
            List.mem_map_of_mem (List.mem_of_getElem? hi)
          exact absurd heq ((List.nodup_append.mp hapart).2.2 _ hmem _ (by simp))
      | full hfull =>
          rw [firstFree_of_packed hslots] at hfull
          cases hfull
      | unsupported hsame hkind =>
          obtain rfl := Except.ok.inj (hname.symm.trans hsame)
          exact absurd hkind (hsupported m List.mem_cons_self _)
      | @taken name hsame hnew i hfree kind leadTime =>
          obtain rfl := Except.ok.inj (hname.symm.trans hsame)
          rw [firstFree_of_packed hslots, Option.some_inj] at hfree
          subst hfree
          obtain ⟨new, hslots', hlength, hnew⟩ := ih (slots_put_packed hslots _)
            (by simp at hroom; omega) (by simpa [freshEntry, Entry.name] using hapart)
            (fun m' hm' => hkept m' (List.mem_cons_of_mem m hm'))
            fun m' hm' => hsupported m' (List.mem_cons_of_mem m hm')
          refine ⟨freshEntry m m.name kind leadTime :: new, ?_, by simp [hlength], fun i m' hi => ?_⟩
          · rw [hslots', List.append_assoc, List.length_cons, Nat.add_sub_add_right]
            rfl
          · cases i with
            | zero =>
                cases hi
                exact ⟨kind, leadTime, rfl⟩
            | succ i => exact hnew i m' hi

end

theorem get?_of_mem_listing {t : Table} {m : Definition} (h : m ∈ t.listing) :
    ∃ i e, t.get? i = some e ∧ e.definition = m := by
  obtain ⟨e, he, rfl⟩ := List.mem_map.mp h
  obtain ⟨slot, hslot, hid⟩ := List.mem_filterMap.mp he
  obtain rfl : slot = some e := hid
  obtain ⟨i, hi⟩ := List.mem_iff_getElem?.mp hslot
  exact ⟨i, e, get?_eq_some.mpr hi, rfl⟩

theorem length_listing_le (t : Table) : t.listing.length ≤ t.capacity := by
  rw [listing, List.length_map]
  exact List.length_filterMap_le id t.slots

namespace WellNamed

variable {t : Table}

theorem listing_kept (ht : t.WellNamed) : ∀ m ∈ t.listing, Name.Kept m.name := by
  intro m hm
  obtain ⟨i, e, hi, rfl⟩ := get?_of_mem_listing hm
  exact ht.kept i e hi

/-- Every name stands once in the listing. -/
theorem listing_apart (ht : t.WellNamed) : (t.listing.map Definition.name).Nodup := by
  rw [listing, List.map_map, List.Nodup, List.pairwise_map, entries, List.pairwise_filterMap,
    List.pairwise_iff_getElem]
  intro i j hi hj hlt e he e' he' heq
  have hslot : t.get? i = some e := get?_eq_some.mpr (List.getElem?_eq_some_iff.mpr ⟨hi, he⟩)
  have hslot' : t.get? j = some e' := get?_eq_some.mpr (List.getElem?_eq_some_iff.mpr ⟨hj, he'⟩)
  exact absurd (ht.distinct i j e e' hslot hslot' heq) (Nat.ne_of_lt hlt)

theorem listing_named (ht : t.WellNamed) :
    (t.listing.filter fun m => !m.name.isEmpty) = t.listing := by
  refine List.filter_eq_self.mpr fun m hm => ?_
  simpa [String.isEmpty_iff] using (ht.listing_kept m hm).nonempty

end WellNamed

/-! ## Booting -/

/-- The list a node boots from: the stored one, unless nothing in it has a name. -/
def chosen (persisted defaults : List Definition) : BootSource × List Definition :=
  if persisted.all (·.name.isEmpty) then (.defaults, defaults) else (.persisted, persisted)

def BootSource.announce (log : Logger W) : BootSource → Action W Unit
  | .persisted => log.debug "Loading measurements."
  | .defaults => log.error "No persistent loaded, load defaults."

theorem load_eq_addEach (d : Devices W) (t : Table) (persisted defaults : List Definition) :
    t.load d persisted defaults =
      ((chosen persisted defaults).1.announce d.log >>= fun _ =>
        (fun x => (x.1, (chosen persisted defaults).1)) <$>
          t.addEach d ((chosen persisted defaults).2.filter fun m => !m.name.isEmpty)) := by
  unfold load chosen
  split
  · simp only [addAll_eq_addEach, bind_map_left]
    rfl
  · simp only [addAll_eq_addEach, bind_map_left]
    rfl

theorem WellNamed.chosen_listing {t : Table} (ht : t.WellNamed) (hsome : t.listing ≠ [])
    (defaults : List Definition) : chosen t.listing defaults = (.persisted, t.listing) := by
  obtain ⟨m, hm⟩ := List.exists_mem_of_ne_nil _ hsome
  refine if_neg fun hall => (ht.listing_kept m hm).nonempty ?_
  exact String.isEmpty_iff.mp (List.all_eq_true.mp hall m hm)

/-- What a node has listed comes back: whatever has been done with it, the
definitions of its table in slot order, loaded into an empty table of the same
size by sensors that know their kinds, are taken for stored ones, and each
stands unchanged and with a fresh tally in the slot of its place in the list.

Loading any list into any table amounts to adding the definitions with a name
one by one. What is let in stays, and of two namesakes the later one is let in
only if the sensors have no use for the earlier one. -/
theorem reload_listing (l : Life W) :
    (l.node.table.listing ≠ [] →
      ∀ {V : Type} (d : Devices V) (fallback : UInt32) (defaults : List Definition) (v : V),
        (∀ m ∈ l.node.table.listing, ∀ v, ((d.sensors.valueKind m).run v).1 ≠ none) →
        let r := (((empty l.node.table.capacity fallback).load d l.node.table.listing defaults).run
          v).1
        r.2 = .persisted ∧ r.1.capacity = l.node.table.capacity ∧
        (∀ (i : Nat) (m : Definition), l.node.table.listing[i]? = some m → ∃ kind leadTime,
          r.1.get? i = some { definition := m, tally := Tally.fresh kind leadTime }) ∧
        ∀ i, l.node.table.listing.length ≤ i → r.1.get? i = none) ∧
    ∀ {V : Type} (d : Devices V) (t : Table) (persisted defaults : List Definition),
      let source := (chosen persisted defaults).1
      let named := (chosen persisted defaults).2.filter fun m => !m.name.isEmpty
      (t.load d persisted defaults =
        (source.announce d.log >>= fun _ => (fun x => (x.1, source)) <$> t.addEach d named)) ∧
      ∀ v, let r := ((t.addEach d named).run v).1
        (∀ (i k : Nat) (m : Definition), named[i]? = some m → r.2[i]? = some (.ok k) →
          ∃ name kind leadTime, Name.normalise m.name = .ok name ∧ r.1.get? k =
            some { definition := { m with name }, tally := Tally.fresh kind leadTime }) ∧
        ∀ (i j k : Nat) (m m' : Definition) (name : String), i < j →
          named[i]? = some m → named[j]? = some m' →
          Name.normalise m.name = .ok name → Name.normalise m'.name = .ok name →
          r.2[j]? = some (.ok k) → r.2[i]? = some (.error .unsupportedKind) := by
  refine ⟨fun hsome V d fallback defaults v hsupported => ?_,
    fun {V} d t persisted defaults => ⟨t.load_eq_addEach d persisted defaults, fun v => ?_⟩⟩
  · have ht := l.wellNamed
    have hle := l.node.table.length_listing_le
    rw [load_eq_addEach, ht.chosen_listing hsome, ht.listing_named]
    have hall := addEach_triesAll d (empty l.node.table.capacity fallback) l.node.table.listing
      ((BootSource.persisted.announce d.log).run v).2
    have hempty : (empty l.node.table.capacity fallback).slots =
        ([] : List Entry).map some ++ List.replicate l.node.table.capacity none := rfl
    obtain ⟨new, hslots, hlength, hnew⟩ := hall.fills hempty hle ht.listing_apart
      ht.listing_kept hsupported
    refine ⟨rfl, hall.grows.capacity_eq.trans (capacity_empty _ _), fun i m hi => ?_,
      fun i hi => ?_⟩
    · obtain ⟨kind, leadTime, hat⟩ := hnew i m hi
      exact ⟨kind, leadTime, (get?_packed hslots i).trans hat⟩
    · exact (get?_packed hslots i).trans (List.getElem?_eq_none (hlength ▸ hi))
  · have hall := addEach_triesAll d t
      ((chosen persisted defaults).2.filter fun m => !m.name.isEmpty) v
    exact ⟨fun i k m hi hok => hall.accepted hi hok,
      fun i j k m m' name hij hi hj hname hname' hok =>
        hall.first_wins hij hi hj hname hname' hok⟩

/-- Three measurements, of which the first is removed and the second gets
another name. -/
def rearranged : Life Timestamp where
  devices := .obliging 600
  settings := {}
  capacity := 4
  began := 0
  world := 0
  moves := [.add (measurement "A"), .add (measurement "B"), .add (measurement "C"), .remove "A",
    .rename "B" "B 2"].map fun e => ⟨id, .edit e⟩
where
  measurement (name : String) : Definition := ⟨name, .custom0, 1, 1, false⟩

/-- The two that are left move up when the table is loaded again. Of two
namesakes a pulse counter lets in the one that counts pulses. -/
theorem reload_listing_rearranged :
    let t := rearranged.node.table
    let b : Definition := ⟨"B_2", .custom0, 1, 1, false⟩
    let c : Definition := ⟨"C", .custom0, 1, 1, false⟩
    let twins : List Definition := [⟨"A", .custom0, 1, 1, false⟩, ⟨"A", .pulseCount, 1, 1, false⟩]
    let loaded := (((empty 4 1000).load (Devices.obliging 600) [b, c] []).run 0).1
    let tried := (((empty 4 1000).addEach Devices.metering twins).run ({}, 0, 0)).1
    t.slots.map (Option.map Entry.definition) = [none, some b, some c, none] ∧
      t.listing = [b, c] ∧ loaded.2 = .persisted ∧
      (loaded.1.get? 0).map Entry.definition = some b ∧
      (loaded.1.get? 1).map Entry.definition = some c ∧ loaded.1.get? 2 = none ∧
      tried.2[1]? = some (.ok 0) ∧ tried.2[0]? = some (.error .unsupportedKind) := by
  intro t b c twins loaded tried
  have hlisting : rearranged.node.table.listing = [b, c] := by decide +kernel
  have hcapacity : rearranged.node.table.capacity = 4 := by decide +kernel
  have hnamed : ((chosen twins []).2.filter fun m => !m.name.isEmpty) = twins := by decide +kernel
  obtain ⟨hreload, hload⟩ := reload_listing rearranged
  have hloaded := hreload (by rw [hlisting]; exact List.cons_ne_nil _ _) (Devices.obliging 600)
    1000 [] 0 fun m _ v => Option.some_ne_none _
  have hnames := (hload Devices.metering (empty 4 1000) twins []).2 ({}, 0, 0)
  simp only [hlisting, hcapacity] at hloaded
  simp only [hnamed] at hnames
  obtain ⟨hsource, -, hfilled, hrest⟩ := hloaded
  obtain ⟨_, _, hb⟩ := hfilled 0 b rfl
  obtain ⟨_, _, hc⟩ := hfilled 1 c rfl
  have hsecond : tried.2[1]? = some (.ok 0) := by decide +kernel
  have hfirst := hnames.2 0 1 0 _ _ "A" Nat.zero_lt_one rfl rfl (by decide +kernel)
    (by decide +kernel) hsecond
  exact ⟨by decide +kernel, hlisting, hsource, congrArg (Option.map Entry.definition) hb,
    congrArg (Option.map Entry.definition) hc, hrest 2 (Nat.le_refl 2), hsecond, hfirst⟩

/-- A sensor that only counts pulses has no use for the first of two namesakes,
and the second one is let in. -/
theorem unsupported_namesake_loses :
    let first : Definition := ⟨"A", .custom0, 1, 1, false⟩
    let second : Definition := ⟨"A", .pulseCount, 1, 1, false⟩
    let r := (((empty 1 1000).load Devices.metering [first, second] []).run ({}, 0, 0)).1
    Name.normalise first.name = Name.normalise second.name ∧ r.2 = .persisted ∧
      (r.1.get? 0).map Entry.definition = some second := by
  decide +kernel

end Table

end Telemetry
