import Telemetry.Proofs.Revisions
import Telemetry.Proofs.Switches

/-!
# Sensors are on as the table wants them

Sensors that can tell whether they are on tell what they were last switched to.
Then, after every operation of a run that gives no measurement another name, the
sensor of every measurement is on exactly if the measurement has a period, and
the sensor of every measurement that was removed is off.

`Drift.heeding` carries that. It relates a table and its world to later ones,
name by name: either the table wants what it wanted and the sensor recalls what
it recalled, or the sensor was switched to what the table wants now. A read on
the spot is of the first kind, whichever way it ends, as it gives back the
power it found; the edits are of the second. The relation is transitive, so it
holds from any moment of a run to any later one, and a name for which the table
has come to want something, or has ceased to, was switched in between.
-/

namespace Telemetry

variable {W α β : Type} {on : W → String → Option Bool} {d : Devices W}

/-! ## What sensors recall -/

/-- What the sensors recall they do not forget. -/
def Drift.recalling (on : W → String → Option Bool) : Drift W where
  leads w w' := ∀ name b, on w name = some b → on w' name = some b
  refl _ _ _ h := h
  trans h h' name b hb := h' name b (h name b hb)

/-- Sensors that tell of a name what it was last switched to, which is `on`. Of a
name that never was switched they may tell anything. -/
structure Devices.Recalls (on : W → String → Option Bool) (d : Devices W) : Prop where
  switched : ∀ m b w, on ((d.sensors.power m b).run w).2 m.name = some b
  apart : ∀ m b w name b', name ≠ m.name → on w name = some b' →
    on ((d.sensors.power m b).run w).2 name = some b'
  told : ∀ m b w, on w m.name = some b → ((d.sensors.powered m).run w).1 = some b
  within : d.unswitched.Within (.recalling on)

/-! ## Reads give back the power they found -/

section

variable (hd : d.Recalls on)
include hd

theorem Entry.read_recalls (fallback : UInt32) (timeout : Option UInt32) (e : Entry) :
    (e.read d fallback timeout).Within (.recalling on) := by
  have hacquire := SpotRead.acquire_within hd.within fallback timeout e.definition e.tally
  rw [SpotRead.acquire_unswitched] at hacquire
  unfold Entry.read
  split
  · exact (hd.within.log _ _).bind fun _ => .pure _
  · intro w name b hb
    have hasked := hd.within.powered e.definition w name b hb
    by_cases hoff : (((d.sensors.powered e.definition).run w).1 == some false) = true
    · simp only [Action.run_bind, hoff, if_true]
      by_cases hname : name = e.definition.name
      · have hfalse : some b = some false := by
          rw [← hd.told e.definition b w (hname ▸ hb)]
          exact eq_of_beq hoff
        rw [hname, hfalse]
        exact hd.switched _ _ _
      · exact hd.apart _ _ _ _ _ hname (hacquire _ _ _ (hd.apart _ _ _ _ _ hname hasked))
    · simp only [Action.run_bind, hoff]
      exact hacquire _ _ _ hasked

theorem Table.read_recalls (t : Table) (name : String) (timeout : Option UInt32) :
    (t.read d name timeout).Within (.recalling on) := by
  unfold Table.read
  split
  · exact .pure _
  · exact (Entry.read_recalls hd _ _ _).bind fun _ => .pure _

theorem InstantSend.serve_recalls (fallback : UInt32) (e : Entry) (count : UInt16) :
    (serve d fallback e count).Within (.recalling on) := by
  unfold serve
  split
  · exact .pure _
  · refine (Entry.read_recalls hd fallback none _).bind fun x => ?_
    obtain ⟨e', result⟩ := x
    cases result with
    | error cause => exact (hd.within.log _ _).bind fun _ => .pure _
    | ok reading =>
        refine (hd.within.appendReading _ reading).bind fun answer => ?_
        cases answer with
        | error cause => exact (hd.within.log _ _).bind fun _ => .pure _
        | ok _ => exact .pure _

theorem InstantSend.run_recalls (guard : UInt32) (u : Uplink) (clock : TransmitClock) (t : Table) :
    (run d guard u clock t).Within (.recalling on) := by
  unfold run
  split
  · exact .pure _
  · split
    · exact (hd.within.log _ _).bind fun _ => .pure _
    · refine hd.within.now.bind fun now => ?_
      split
      · exact (hd.within.log _ _).bind fun _ => .pure _
      · refine hd.within.openFrame.bind fun answer => ?_
        cases answer with
        | error cause => exact (hd.within.log _ _).bind fun _ => .pure _
        | ok _ =>
            have hserve := serve_recalls hd t.fallback
            refine (Slot.sweepUntil_within hserve t.slots 0).bind fun x => ?_
            exact (handOver_within hd.within x.2.1).bind fun _ => .pure _

namespace Node

variable (n : Node)

theorem sendRequested_recalls : (n.sendRequested d).Within (.recalling on) := by
  refine (InstantSend.run_recalls hd _ _ _ _).bind fun x => ?_
  obtain ⟨table, outcome⟩ := x
  cases outcome with
  | ok sent =>
      simp only []
      split
      · exact (hd.within.log _ _).bind fun _ => .pure _
      · exact .pure _
  | error cause => exact (hd.within.log _ _).bind fun _ => .pure _

theorem read_recalls (name : String) (timeout : Option UInt32) :
    (n.read d name timeout).Within (.recalling on) :=
  (Table.read_recalls hd _ _ _).bind fun _ => .pure _

theorem sendTest_recalls (name : String) : (n.sendTest d name).Within (.recalling on) := by
  refine hd.within.connected.bind fun connected => ?_
  split
  · exact (hd.within.log _ _).bind fun _ => .pure _
  · refine hd.within.ready.bind fun ready => ?_
    split
    · exact (hd.within.log _ _).bind fun _ => .pure _
    · refine hd.within.openFrame.bind fun answer => ?_
      cases answer with
      | error cause => exact .pure _
      | ok _ =>
          refine (read_recalls hd n name none).bind fun x => ?_
          obtain ⟨n', result⟩ := x
          simp only []
          split
          · exact .pure _
          · exact .pure _
          · exact (sendReading_within hd.within _ _ _).bind fun _ => .pure _

theorem iterateOnline_recalls : (n.iterateOnline d).Within (.recalling on) := by
  have hwatch := Watch.blind_within hd.within
  refine Action.Within.bind ?_ fun n₁ => ?_
  · refine hd.within.ready.bind fun ready => ?_
    split
    · exact sendRequested_recalls hd n
    · exact .pure _
  · refine (sampleBy_within hwatch n₁).bind fun n₂ => ?_
    refine (transmitBy_within hwatch n₂).bind fun x => ?_
    exact (settle_within hd.within x.1).bind fun _ => .pure _

theorem iterate_recalls : (n.iterate d).Within (.recalling on) := by
  unfold iterate
  split
  · exact .pure _
  · refine hd.within.connected.bind fun connected => ?_
    split
    · exact iterateOffline_within hd.within n
    · split
      · exact (hd.within.log _ _).bind fun _ => hd.within.now.bind fun _ => .pure _
      · exact iterateOnline_recalls hd n

/-- An operation that is no edit forgets nothing that the sensors recall. -/
theorem performBy_recalls {op : Op} (hop : op.edits = false) :
    (n.performBy (.blind d) op).Within (.recalling on) := by
  cases op with
  | iterate => exact (iterate_recalls hd n).map _
  | answer good => exact (answerBy_within (Watch.blind_within hd.within) n good).map _
  | setEnabled enabled => exact setEnabled_within hd.within n enabled
  | setPower power => exact .pure _
  | setInterval interval => exact .pure _
  | edit e => cases hop
  | load persisted defaults => cases hop
  | read name timeout => exact (read_recalls hd n name timeout).map _
  | collectionTimeout name => exact (collectionTimeout_within hd.within n name).map _
  | sendTest name => exact (sendTest_recalls hd n name).map _

end Node

end

/-! ## What a table wants -/

namespace Table

/-- Whether the sensor of a name should be on, if there is a measurement of that name. -/
def wish (t : Table) (name : String) : Option Bool :=
  (t.locate name).map fun x => x.2.definition.wantsPower

variable {t t' : Table} {name : String}

theorem locate_isSome {i : Nat} {e : Entry} (hi : t.get? i = some e) : (t.locate e.name).isSome := by
  obtain ⟨j, hj⟩ : ∃ j, t.indexOf e.name = some j :=
    Option.ne_none_iff_exists'.mp fun h => name_ne_of_indexOf h hi rfl
  obtain ⟨hlt, hholds, -⟩ := List.findIdx?_eq_some_iff_getElem.mp hj
  rw [locate, hj, Option.bind_some, List.getElem?_eq_getElem hlt, Option.join_some,
    Option.isSome_map]
  cases hslot : t.slots[j] with
  | none => rw [hslot] at hholds; cases hholds
  | some e' => rfl

theorem wish_eq_some (ht : t.Distinct) {b : Bool} :
    t.wish name = some b ↔
      ∃ i e, t.get? i = some e ∧ e.name = name ∧ e.definition.wantsPower = b := by
  rw [wish, Option.map_eq_some_iff]
  constructor
  · rintro ⟨⟨i, e⟩, h, rfl⟩
    exact ⟨i, e, get?_of_locate h, name_of_locate h, rfl⟩
  · rintro ⟨i, e, hi, rfl, rfl⟩
    obtain ⟨⟨j, e'⟩, h⟩ := Option.isSome_iff_exists.mp (locate_isSome hi)
    have hj := get?_of_locate h
    have hij := ht j i e' e hj hi (name_of_locate h)
    rw [hij, hi, Option.some_inj] at hj
    exact ⟨(j, e'), h, by rw [← hj]⟩

theorem wish_of_get? (ht : t.Distinct) {i : Nat} {e : Entry} (hi : t.get? i = some e) :
    t.wish e.name = some e.definition.wantsPower := (wish_eq_some ht).mpr ⟨i, e, hi, rfl, rfl⟩

theorem wish_eq_none (h : ∀ i e, t.get? i = some e → e.name ≠ name) : t.wish name = none := by
  rw [wish, Option.map_eq_none_iff]
  cases hlocate : t.locate name with
  | none => rfl
  | some x => exact absurd (name_of_locate hlocate) (h x.1 x.2 (get?_of_locate hlocate))

/-- Measurements that keep their names, and that want what they wanted. -/
theorem wish_eq_of_passes {calls : List Call} (ht : t.Distinct) (ht' : t'.Distinct)
    (h : t.Passes (fun e _ e' => e'.name = e.name ∧
      e'.definition.wantsPower = e.definition.wantsPower) t' calls) : t'.wish name = t.wish name := by
  ext b
  rw [wish_eq_some ht, wish_eq_some ht']
  constructor
  · rintro ⟨i, e', hi', rfl, rfl⟩
    obtain ⟨e, own, hi, hname, hwants⟩ := h.origin hi'
    exact ⟨i, e, hi, hname.symm, hwants.symm⟩
  · rintro ⟨i, e, hi, rfl, rfl⟩
    obtain ⟨e', own, hi', hdeal, -⟩ := h.entry i e hi
    exact ⟨i, e', hi', hdeal⟩

/-- Another content of a slot matters to nobody whose name is not in it. -/
theorem wish_put {i : Nat} {slot : Slot} (ht : t.Distinct) (ht' : (t.put i slot).Distinct)
    (hold : ∀ e, t.get? i = some e → e.name ≠ name) (hnew : ∀ e, slot = some e → e.name ≠ name)
    (hlt : i < t.slots.length) : (t.put i slot).wish name = t.wish name := by
  ext b
  rw [wish_eq_some ht, wish_eq_some ht']
  constructor
  · rintro ⟨j, e, hj, rfl, rfl⟩
    by_cases hij : i = j
    · subst hij
      rw [get?_put_self hlt] at hj
      exact absurd rfl (hnew e hj)
    · rw [get?_put_ne hij] at hj
      exact ⟨j, e, hj, rfl, rfl⟩
  · rintro ⟨j, e, hj, rfl, rfl⟩
    by_cases hij : i = j
    · subst hij
      exact absurd rfl (hold e hj)
    · exact ⟨j, e, by rw [get?_put_ne hij, hj], rfl, rfl⟩

end Table

/-! ## Switching as the table changes -/

/-- The tables want the same of the sensor of every name. -/
def Table.Agree (t t' : Table) : Prop := t.Distinct → t'.Distinct ∧ ∀ name, t'.wish name = t.wish name

/-- For every name either nothing has changed that matters, or its sensor was
switched to what the table wants by now. -/
def Drift.heeding (on : W → String → Option Bool) : Drift (Table × W) where
  leads x x' := x.1.Distinct → x'.1.Distinct ∧ ∀ name,
    (x'.1.wish name = x.1.wish name ∧ ∀ b, on x.2 name = some b → on x'.2 name = some b) ∨
      on x'.2 name = some ((x'.1.wish name).getD false)
  refl _ ht := ⟨ht, fun _ => .inl ⟨rfl, fun _ h => h⟩⟩
  trans {x x' x''} h h' ht := by
    obtain ⟨ht', hfirst⟩ := h ht
    obtain ⟨ht'', hsecond⟩ := h' ht'
    refine ⟨ht'', fun name => ?_⟩
    rcases hsecond name with ⟨hwish, hkept⟩ | hnow
    · rcases hfirst name with ⟨hwish', hkept'⟩ | hbefore
      · exact .inl ⟨hwish.trans hwish', fun b hb => hkept b (hkept' b hb)⟩
      · exact .inr (hwish ▸ hkept _ hbefore)
    · exact .inr hnow

/-- An action that makes one table into another, and switches sensors accordingly. -/
def Action.Heeds (on : W → String → Option Bool) (t : Table) (last : α → Table)
    (a : Action W α) : Prop :=
  ∀ w, (Drift.heeding on).leads (t, w) (last (a.run w).1, (a.run w).2)

namespace Action.Heeds

variable {t : Table} {a : Action W α} {f : α → Action W β}

protected theorem of_within {last : α → Table} (ha : a.Within (.recalling on))
    (h : ∀ w, t.Agree (last (a.run w).1)) : a.Heeds on t last := by
  intro w ht
  obtain ⟨ht', hwish⟩ := h w ht
  exact ⟨ht', fun name => .inl ⟨hwish name, ha w name⟩⟩

protected theorem pure {last : α → Table} {x : α} (h : t.Agree (last x)) :
    (pure x : Action W α).Heeds on t last :=
  .of_within (.pure x) fun _ => h

protected theorem bind {mid : α → Table} {last : β → Table} (ha : a.Heeds on t mid)
    (hf : ∀ x, (f x).Heeds on (mid x) last) : (a >>= f).Heeds on t last :=
  fun w => (Drift.heeding on).trans (ha w) (hf _ _)

theorem map {last : α → Table} {last' : β → Table} (g : α → β) (ha : a.Heeds on t last)
    (h : ∀ x, last' (g x) = last x) : (g <$> a).Heeds on t last' := by
  intro w
  rw [run_map, h]
  exact ha w

theorem after {last : β → Table} (ha : a.Within (.recalling on))
    (hf : ∀ x, (f x).Heeds on t last) : (a >>= f).Heeds on t last := by
  have hsame : a.Heeds on t fun _ => t := .of_within ha fun _ ht => ⟨ht, fun _ => rfl⟩
  exact hsame.bind hf

end Action.Heeds

namespace Table

variable {t : Table}

theorem Agree.refl (t : Table) : t.Agree t := fun ht => ⟨ht, fun _ => rfl⟩

theorem agree_put {i : Nat} {e e' : Entry} (hi : t.get? i = some e) (hname : e'.name = e.name)
    (hwants : e'.definition.wantsPower = e.definition.wantsPower) :
    t.Agree (t.put i (some e')) := by
  intro ht
  have ht' : (t.put i (some e')).Distinct :=
    ht.put (lt_of_get? hi) fun j x hne hj heq => hne (ht j i x e hj hi (heq.trans hname))
  exact ⟨ht', fun _ => wish_eq_of_passes ht ht' (.put hi ⟨hname, hwants⟩ fun _ => ⟨rfl, rfl⟩)⟩

theorem agree_amend (t : Table) (name : String) {change : Entry → Entry}
    (hname : ∀ e, (change e).name = e.name)
    (hwants : ∀ e, (change e).definition.wantsPower = e.definition.wantsPower) :
    t.Agree (t.amend name change).1 := by
  unfold amend
  split
  · next i e h => exact agree_put (get?_of_locate h) (hname e) (hwants e)
  · exact .refl t

/-- A slot gets another content, and the sensor of the one name that is
concerned is switched to what is wanted then. -/
theorem put_heeds (hd : d.Recalls on) {i : Nat} {slot : Slot} {m : Definition} {b : Bool}
    (hlt : i < t.slots.length) (hold : ∀ e, t.get? i = some e → e.name = m.name)
    (hnew : ∀ e, slot = some e → e.name = m.name)
    (hput : t.Distinct → (t.put i slot).Distinct ∧ ((t.put i slot).wish m.name).getD false = b)
    (answer : α) :
    (d.sensors.power m b >>= fun _ => pure (t.put i slot, answer)).Heeds on t Prod.fst := by
  intro w ht
  obtain ⟨ht', hwish⟩ := hput ht
  refine ⟨ht', fun name => ?_⟩
  by_cases hname : name = m.name
  · rw [hname]
    refine .inr ?_
    show on _ m.name = some (((t.put i slot).wish m.name).getD false)
    rw [hwish]
    exact hd.switched m b w
  · refine .inl ⟨?_, fun b' hb' => hd.apart m b w name b' hname hb'⟩
    exact wish_put ht ht' (fun e he heq => hname (heq.symm.trans (hold e he)))
      (fun e he heq => hname (heq.symm.trans (hnew e he))) hlt

section

variable (hd : d.Recalls on)
include hd

/-- A measurement in a slot, with its sensor switched to what it wants. -/
theorem put_some_heeds {i : Nat} {e' : Entry} {m : Definition} (hlt : i < t.slots.length)
    (hold : ∀ e, t.get? i = some e → e.name = m.name) (hname : e'.name = m.name)
    (hdistinct : t.Distinct → (t.put i (some e')).Distinct) (answer : α) :
    (d.sensors.power m e'.definition.wantsPower >>= fun _ =>
      pure (t.put i (some e'), answer)).Heeds on t Prod.fst := by
  refine put_heeds hd hlt hold (fun e he => ?_) (fun ht => ⟨hdistinct ht, ?_⟩) answer
  · cases he
    exact hname
  · rw [← hname, wish_of_get? (hdistinct ht) (get?_put_self hlt _), Option.getD_some]

theorem add_heeds (t : Table) (m : Definition) : (t.add d m).Heeds on t Prod.fst := by
  unfold add
  split
  · exact .pure (.refl t)
  · next name _ =>
      simp only []
      split
      · exact .after (hd.within.log _ _) fun _ => .pure (.refl t)
      · next hnew =>
          have hnone : t.indexOf name = none := by simpa using hnew
          split
          · exact .after (hd.within.log _ _) fun _ => .pure (.refl t)
          · next i hfree =>
              obtain ⟨hlt, hhole⟩ := lt_of_firstFree hfree
              refine .after (hd.within.valueKind _) fun kind => ?_
              cases kind with
              | none => exact .after (hd.within.log _ _) fun _ => .pure (.refl t)
              | some kind =>
                  refine .after (d.unswitched.leadTime_within hd.within _ _) fun leadTime => ?_
                  refine put_some_heeds hd hlt (fun e he => ?_) rfl ?_ _
                  · rw [hhole] at he
                    cases he
                  · exact (Adds.added kind leadTime hnone hfree).distinct

theorem remove_heeds (t : Table) (name : String) : (t.remove d name).Heeds on t Prod.fst := by
  unfold remove
  split
  · exact .pure (.refl t)
  · next i e h =>
      have hi := get?_of_locate h
      have hlt := lt_of_get? hi
      refine put_heeds hd hlt (fun e' he' => ?_) (fun e' he' => (by cases he')) (fun ht => ?_) _
      · rw [hi] at he'
        cases he'
        rfl
      · refine ⟨(Edits.removed (slot_of_locate h)).distinct ht, ?_⟩
        rw [wish_eq_none fun j e' hj heq => ?_, Option.getD_none]
        by_cases hij : i = j
        · subst hij
          rw [get?_put_self hlt] at hj
          cases hj
        · rw [get?_put_ne hij] at hj
          exact hij (ht i j e e' hi hj heq.symm)

theorem setPeriod_heeds (t : Table) (name : String) (period : UInt8) :
    (t.setPeriod d name period).Heeds on t Prod.fst := by
  unfold setPeriod
  split
  · exact .pure (.refl t)
  · next i e h =>
      have hi := get?_of_locate h
      simp only []
      split
      · refine put_some_heeds hd (lt_of_get? hi) (fun e' he' => ?_) ?_ ?_ _
        · rw [hi] at he'
          cases he'
          rfl
        · rfl
        · exact (Edits.redefined (slot_of_locate h) { e.definition with period } (.inl rfl)).distinct
      · next hsame =>
          exact .pure (agree_put hi rfl (by simpa using hsame))

theorem addAll_heeds (t : Table) (ms : List Definition) : (t.addAll d ms).Heeds on t id := by
  induction ms generalizing t with
  | nil => exact .pure (.refl t)
  | cons m rest ih =>
      unfold addAll
      split
      · exact ih t
      · refine (add_heeds hd t m).bind fun x => ?_
        obtain ⟨t₁, outcome⟩ := x
        cases outcome with
        | ok _ => exact ih t₁
        | error cause => exact .after (hd.within.log _ _) fun _ => ih t₁

theorem load_heeds (t : Table) (persisted defaults : List Definition) :
    (t.load d persisted defaults).Heeds on t Prod.fst := by
  unfold load
  split
  all_goals
    refine .after (hd.within.log _ _) fun _ => ?_
    exact (addAll_heeds hd t _).bind fun t' => .pure (.refl t')

end

end Table

/-! ## Operations and runs -/

theorem Edit.apply_heeds (hd : d.Recalls on) (t : Table) {e : Edit}
    (he : ∀ old new, e ≠ .rename old new) : (e.apply d t).Heeds on t id := by
  cases e with
  | add m => exact (t.add_heeds hd m).map _ fun _ => rfl
  | remove name => exact (t.remove_heeds hd name).map _ fun _ => rfl
  | rename old new => exact absurd rfl (he old new)
  | setPeriod name period => exact (t.setPeriod_heeds hd name period).map _ fun _ => rfl
  | setSampleCount name sampleCount =>
      have hset : (t.setSampleCount d name sampleCount).Heeds on t Prod.fst := by
        unfold Table.setSampleCount
        split
        · exact .after (hd.within.log _ _) fun _ => .pure (.refl t)
        · exact .pure (t.agree_amend name (fun _ => rfl) fun _ => rfl)
      exact hset.map _ fun _ => rfl
  | setImmediate name immediate =>
      have hset : (t.setImmediate (W := W) name immediate).Heeds on t Prod.fst :=
        .pure (t.agree_amend name (fun _ => rfl) fun _ => rfl)
      exact hset.map _ fun _ => rfl
  | request name =>
      have hset : (t.request (W := W) name).Heeds on t Prod.fst :=
        .pure (t.agree_amend name (fun _ => rfl) fun _ => rfl)
      exact hset.map _ fun _ => rfl

/-- A move that gives no measurement another name, and before which nobody else
has switched a sensor. -/
structure Move.KeepsNames (on : W → String → Option Bool) (m : Move W) : Prop where
  meanwhile : ∀ w, (Drift.recalling on).leads w (m.meanwhile w)
  op : ∀ old new, m.op ≠ .edit (.rename old new)

namespace Node

theorem Path.agree {n n' : Node} {notes : List Note} (h : Path n notes n') :
    n.table.Agree n'.table := by
  intro ht
  obtain ⟨calls, hpasses⟩ := h.passes
  refine ⟨h.distinct ht, fun name => ?_⟩
  refine Table.wish_eq_of_passes ht (h.distinct ht) (hpasses.imp fun e _ e' heq => ?_)
  rw [Entry.name, Entry.name, heq]
  exact ⟨rfl, rfl⟩

theorem performBy_heeds (hd : d.Recalls on) (n : Node) {op : Op}
    (hop : ∀ old new, op ≠ .edit (.rename old new)) :
    (n.performBy (.blind d) op).Heeds on n.table table := by
  by_cases hedits : op.edits = false
  · refine .of_within (performBy_recalls hd n hedits) fun w => ?_
    obtain ⟨notes, -, hpath⟩ := performBy_path d n hedits w []
    exact hpath.agree
  · cases op with
    | edit e =>
        have hedit := e.apply_heeds hd n.table fun old new heq => hop old new (heq ▸ rfl)
        exact hedit.map _ fun _ => rfl
    | load persisted defaults =>
        have hload : (n.edit fun t => t.load d persisted defaults).Heeds on n.table
            fun x => x.1.table := (n.table.load_heeds hd persisted defaults).map _ fun _ => rfl
        exact hload.map _ fun _ => rfl
    | _ => exact absurd rfl hedits

theorem run_heeds (hd : d.Recalls on) {moves : List (Move W)}
    (hmoves : ∀ m ∈ moves, m.KeepsNames on) (n : Node) : (run d moves n).Heeds on n.table table := by
  induction moves generalizing n with
  | nil => exact .pure (.refl n.table)
  | cons m rest ih =>
      have hm := hmoves m List.mem_cons_self
      refine .after hm.meanwhile fun _ => (performBy_heeds hd n hm.op).bind fun n' => ?_
      exact ih (fun m' hm' => hmoves m' (List.mem_cons_of_mem _ hm')) n'

end Node

namespace Life

/-- What the sensor of a name tells at the end of a life of whether it is on. -/
def Tells (l : Life W) (name : String) (b : Bool) : Prop :=
  ∀ m : Definition, m.name = name → ((l.devices.sensors.powered m).run l.present).1 = some b

/-- With sensors that tell what they were last switched to, and unless a
measurement is given another name, every sensor is on exactly if its measurement
has a period, and off once its measurement is gone. -/
theorem powered_as_wanted (l : Life W) (more : List (Move W)) (hd : l.devices.Recalls on)
    (hmoves : ∀ m ∈ l.moves ++ more, m.KeepsNames on) :
    let later := l.continued more
    (∀ i e, later.node.table.get? i = some e → later.Tells e.name (0 < e.definition.period)) ∧
      ∀ i e, l.node.table.get? i = some e →
        (∀ j e', later.node.table.get? j = some e' → e'.name ≠ e.name) →
        later.Tells e.name false := by
  intro later
  have hbirth : l.birth.table.Distinct := Table.distinct_empty _ _
  have hnever (name : String) : l.birth.table.wish name = none := by
    refine Table.wish_eq_none fun i e hi => ?_
    rw [birth, Node.create, Table.get?_empty] at hi
    cases hi
  have hsince : (Drift.heeding on).leads (l.birth.table, l.world) (later.node.table, later.present) :=
    Node.run_heeds hd hmoves l.birth l.world
  have hthen : (Drift.heeding on).leads (l.birth.table, l.world) (l.node.table, l.present) :=
    Node.run_heeds hd (fun m hm => hmoves m (List.mem_append_left _ hm)) l.birth l.world
  have hfrom : (Drift.heeding on).leads (l.node.table, l.present) (later.node.table, later.present) := by
    have hmore := Node.run_heeds hd (fun m hm => hmoves m (List.mem_append_right _ hm))
      l.node l.present
    rwa [l.run_continued more] at hmore
  constructor
  · intro i e hi m hm
    obtain ⟨ht, hnames⟩ := hsince hbirth
    have hwish := Table.wish_of_get? ht hi
    rcases hnames e.name with ⟨hsame, -⟩ | hnow
    · rw [hwish, hnever] at hsame
      cases hsame
    · rw [hwish] at hnow
      exact hd.told m _ _ (hm ▸ hnow)
  · intro i e hi hgone m hm
    obtain ⟨-, hnames⟩ := hfrom (hthen hbirth).1
    have hnone : later.node.table.wish e.name = none := Table.wish_eq_none hgone
    rcases hnames e.name with ⟨hsame, -⟩ | hnow
    · rw [hnone, Table.wish_of_get? (hthen hbirth).1 hi] at hsame
      cases hsame
    · rw [hnone] at hnow
      exact hd.told m _ _ (hm ▸ hnow)

end Life

/-- A clock, and what the sensor of every name was last switched to. -/
abbrev Switchboard : Type := Timestamp × (String → Option Bool)

/-- Devices whose sensors can be switched, and whose readings fail. -/
def Devices.switchboard : Devices Switchboard :=
  let rest := (Devices.obliging 0).through Part.first
  { rest with sensors := {
      valueKind := fun _ => pure (some .integer)
      collect := fun _ => pure (.failed .timeout)
      power := fun m b => Action.change fun w => (w.1, Function.update w.2 m.name (some b))
      powered := fun m => Action.look fun w => w.2 m.name } }

theorem Devices.switchboard_recalls : Devices.switchboard.Recalls Prod.snd where
  switched _ _ _ := Function.update_self ..
  apart _ _ _ _ _ hname h := (Function.update_of_ne hname ..).trans h
  told _ _ _ h := h
  within := {
    Devices.Within.through (Devices.obliging_within 0 (.still _)) (p := Part.first)
      (Part.leads_of_still fun _ => rfl) with
    power := fun _ _ => .pure _ }

/-- Two measurements, one of them without a period, and a reading of that one. -/
def Life.switched : Life Switchboard where
  devices := .switchboard
  settings := {}
  capacity := 2
  began := 0
  world := (0, fun _ => none)
  moves := [
    ⟨id, .edit (.add ⟨"A", .custom0, 0, 1, false⟩)⟩,
    ⟨id, .edit (.add ⟨"B", .custom1, 1, 1, false⟩)⟩,
    ⟨id, .read "A" none⟩]

/-- The reading of A fails and leaves its sensor off; the sensor of B is on until
B is removed. -/
theorem Life.powered_as_wanted_switched :
    let removed := Life.switched.continued [⟨id, .edit (.remove "B")⟩]
    ((Life.switched.node.read .switchboard "A" none).run Life.switched.present).1.2 =
      .error (.failed .timeout) ∧
    Life.switched.Tells "A" false ∧ Life.switched.Tells "B" true ∧ removed.Tells "B" false := by
  have hmoves : ∀ m ∈ Life.switched.moves ++ [⟨id, .edit (.remove "B")⟩],
      m.KeepsNames Prod.snd := by
    intro m hm
    refine ⟨?_, ?_⟩
    all_goals
      simp only [Life.switched, List.cons_append, List.nil_append, List.mem_cons,
        List.not_mem_nil, or_false] at hm
      rcases hm with rfl | rfl | rfl | rfl <;> simp [Drift.recalling]
  have hbefore := Life.switched.powered_as_wanted [] Devices.switchboard_recalls
    fun m hm => hmoves m (by simpa using .inl hm)
  have hafter := Life.switched.powered_as_wanted _ Devices.switchboard_recalls hmoves
  refine ⟨rfl, ?_, ?_, ?_⟩
  · exact hbefore.1 0 _ rfl
  · exact hbefore.1 1 _ rfl
  · refine hafter.2 1 _ rfl ?_
    have hnames : ∀ j, ((Life.switched.continued [⟨id, .edit (.remove "B")⟩]).node.table.get? j).map
        Entry.name ≠ some "B" := by
      rintro (_ | _ | j)
      · decide +kernel
      · decide +kernel
      · exact (Option.some_ne_none _).symm
    intro j e' hj heq
    exact hnames j (by rw [hj, Option.map_some, heq]; rfl)

end Telemetry
