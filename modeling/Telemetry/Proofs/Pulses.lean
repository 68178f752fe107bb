import Telemetry.PulseCounter
import Telemetry.Proofs.Switches
import Telemetry.Proofs.Told

/-!
# Where the pulses go

A pulse counter keeps one snapshot, and every reading of it takes the place of
the one before, whoever it is for: the schedule, a read on the spot or a send
outside the schedule. What a good answer takes off the count is the last
reading, then, whatever stood in the frame that was answered, and an answer
that does not tell the counter takes nothing off.

The books of a counter can be kept from the operations and the notes alone. A
`Ledger` has the reading that stands and what deliveries have taken off, and
besides them what stood in the frames that were answered well, with the
difference between the two. `Node.pulses_accounted` says that the count and the
ledger make up for every edge, in every order of edges and operations.

Edges may come at any time, within a turn of the loop too, so all that a device
may do to the counter is a drift: some more edges.
-/

namespace Telemetry

variable {W α : Type}

/-- The number that a frame shows of a tally: the sum, or the mean of several. -/
def Tally.figure (t : Tally) : Nat :=
  match t.summary with
  | .integer sum _ _ =>
      (if t.samples ≤ 1 then sum else sum / t.samples.toUInt64.toInt64).toInt.toNat
  | _ => 0

namespace PulseCounter

/-! ## The books of a counter -/

/-- What the operations and the notes of them tell of a counter, all in edges. -/
structure Ledger where
  /-- The last reading, until it is delivered. -/
  standing : Nat := 0
  /-- What has been taken off the count. -/
  taken : Nat := 0
  /-- What stands in the open frame of the schedule. -/
  loaded : Nat := 0
  /-- What stands in the last frame of the schedule, until it is answered. -/
  framed : Nat := 0
  /-- What stood in the frames that were answered well. -/
  answered : Nat := 0
  /-- What good answers have taken off beyond what stood in their frames. -/
  excess : Nat := 0
  /-- What good answers have left on the count of what stood in their frames. -/
  arrears : Nat := 0

namespace Ledger

/-- Readings and deliveries count for whomever they are made, frames for the
schedule only. -/
def enter (l : Ledger) : Note → Ledger
  | .call _ (.collect _ (.done (.integer reading))) => { l with standing := reading.toInt.toNat }
  | .call _ (.delivered _) => { l with standing := 0, taken := l.taken + l.standing }
  | .call .schedule (.openFrame (.ok _)) => { l with loaded := 0 }
  | .call .schedule (.append _ t (.ok _)) => { l with loaded := l.loaded + t.figure }
  | .call .schedule (.send (.ok _)) => { l with loaded := 0, framed := l.loaded }
  | _ => l

def through (l : Ledger) (notes : List Note) : Ledger := notes.foldl enter l

/-- What stood in the frame that an operation answers well. -/
def due (l : Ledger) : Op → Nat
  | .answer true => l.framed
  | _ => 0

/-- An answer, good or bad, is the last of its frame. -/
def expect (l : Ledger) : Op → Ledger
  | .answer _ => { l with framed := 0 }
  | _ => l

/-- An operation, with what it has taken off beside what it should have. -/
def deal (l : Ledger) (x : Node.Deal) : Ledger :=
  let l' := (l.expect x.op).through x.episode.notes
  { l' with
    answered := l.answered + l.due x.op
    excess := l.excess + (l'.taken - l.taken - l.due x.op)
    arrears := l.arrears + (l.due x.op - (l'.taken - l.taken)) }

@[simp] theorem through_concat (l : Ledger) (notes : List Note) (note : Note) :
    l.through (notes ++ [note]) = (l.through notes).enter note := List.foldl_concat ..

/-- Ledgers that are the same to the counter. -/
def Alike (l l' : Ledger) : Prop := l'.taken = l.taken ∧ l'.standing = l.standing

theorem expect_alike (l : Ledger) (op : Op) : l.Alike (l.expect op) := by
  unfold expect
  split <;> exact ⟨rfl, rfl⟩

theorem taken_le_enter (l : Ledger) (note : Note) : l.taken ≤ (l.enter note).taken := by
  unfold enter
  split
  · exact Nat.le_refl _
  · exact Nat.le_add_right _ _
  all_goals exact Nat.le_refl _

theorem taken_le_through (l : Ledger) (notes : List Note) : l.taken ≤ (l.through notes).taken := by
  induction notes generalizing l with
  | nil => exact Nat.le_refl _
  | cons note rest ih => exact Nat.le_trans (l.taken_le_enter note) (ih (l.enter note))

/-- What has been taken off is what stood in the frames, up to the difference. -/
def Squares (l : Ledger) : Prop := l.answered + l.excess = l.taken + l.arrears

theorem Squares.deal {l : Ledger} (h : l.Squares) (x : Node.Deal) : (l.deal x).Squares := by
  have htaken : l.taken ≤ ((l.expect x.op).through x.episode.notes).taken := by
    rw [← (l.expect_alike x.op).1]
    exact taken_le_through _ _
  unfold Squares at h ⊢
  simp only [Ledger.deal]
  omega

theorem Squares.deals {l : Ledger} (h : l.Squares) (record : List Node.Deal) :
    (record.foldl Ledger.deal l).Squares := by
  induction record generalizing l with
  | nil => exact h
  | cons x rest ih => exact ih (h.deal x)

end Ledger

theorem recordMany_add (p : PulseCounter) (edges more : Nat) :
    p.recordMany (edges + more) = (p.recordMany edges).recordMany more := by
  induction edges generalizing p with
  | zero => rw [Nat.zero_add, recordMany]
  | succ edges ih => rw [Nat.succ_add, recordMany, recordMany, ih]

theorem recordMany_on {p : PulseCounter} (h : p.counting = true) (edges : Nat) :
    p.recordMany edges = { p with count := p.count + UInt32.ofNat edges } := by
  induction edges generalizing p with
  | zero => simp [recordMany]
  | succ edges ih =>
      have hrecord : p.record = { p with count := p.count + 1 } := if_pos h
      have hcount : p.count + 1 + UInt32.ofNat edges = p.count + UInt32.ofNat (edges + 1) := by
        rw [UInt32.ofNat_add, UInt32.add_assoc, UInt32.add_comm 1]
        rfl
      rw [recordMany, hrecord, ih (p := { p with count := p.count + 1 }) h, hcount]

/-- A reading of the count is the count. -/
theorem toNat_reading (count : UInt32) : count.toUInt64.toInt64.toInt.toNat = count.toNat := by
  have hcount : count.toNat < 4294967296 := count.toNat_lt
  have hsign : 2 * count.toUInt64.toBitVec.toNat < 18446744073709551616 := by
    show 2 * count.toUInt64.toNat < 18446744073709551616
    rw [UInt32.toNat_toUInt64]
    omega
  have hint : count.toUInt64.toInt64.toInt = count.toNat := BitVec.toInt_eq_toNat_of_lt hsign
  rw [hint, Int.toNat_natCast]

/-- A counter that is on agrees with its ledger, for as long as the edges since
some moment are not more than it can count. -/
structure Books (since arrived : Nat) (l : Ledger) (p : PulseCounter) : Prop where
  counting : p.counting = true
  kept : arrived < since + UInt32.size →
    since + l.taken + p.count.toNat = arrived ∧ p.snapshot.toNat = l.standing ∧
      l.standing ≤ p.count.toNat

namespace Books

variable {since arrived : Nat} {l : Ledger} {p : PulseCounter}

theorem alike {l' : Ledger} (h : Books since arrived l p) (heq : l.Alike l') :
    Books since arrived l' p := by
  refine ⟨h.counting, fun hroom => ?_⟩
  rw [heq.1, heq.2]
  exact h.kept hroom

theorem recordMany (h : Books since arrived l p) (edges : Nat) :
    Books since (arrived + edges) l (p.recordMany edges) := by
  rw [recordMany_on h.counting]
  refine ⟨h.counting, fun hroom => ?_⟩
  have hsize : UInt32.size = 4294967296 := rfl
  obtain ⟨hcount, hsnapshot, hstanding⟩ := h.kept (by omega)
  have hadded : (p.count + UInt32.ofNat edges).toNat = p.count.toNat + edges := by
    rw [UInt32.toNat_add, UInt32.toNat_ofNat_of_lt' (by omega)]
    exact Nat.mod_eq_of_lt (by omega)
  simp only [hadded]
  exact ⟨by omega, hsnapshot, by omega⟩

theorem capture (h : Books since arrived l p) :
    Books since arrived { l with standing := p.count.toNat } p.capture := by
  refine ⟨h.counting, fun hroom => ?_⟩
  obtain ⟨hcount, -, -⟩ := h.kept hroom
  exact ⟨hcount, rfl, Nat.le_refl _⟩

/-- What is taken off is on the count: an answer never brings it below nothing. -/
theorem delivered (h : Books since arrived l p) :
    Books since arrived { l with standing := 0, taken := l.taken + l.standing } p.delivered := by
  refine ⟨h.counting, fun hroom => ?_⟩
  obtain ⟨hcount, hsnapshot, hstanding⟩ := h.kept hroom
  have hle : p.snapshot ≤ p.count := UInt32.le_iff_toNat_le.mpr (hsnapshot ▸ hstanding)
  have hleft : (p.count - p.snapshot).toNat = p.count.toNat - p.snapshot.toNat :=
    UInt32.toNat_sub_of_le _ _ hle
  simp only [PulseCounter.delivered, hleft]
  exact ⟨by omega, rfl, Nat.zero_le _⟩

end Books

end PulseCounter

open PulseCounter

/-! ## Devices with a counter -/

/-- Some more edges have come. -/
def Drift.arriving (part : Part W PulseCounter) (edges : W → Nat) : Drift W where
  leads w w' := ∃ more,
    part.get w' = (part.get w).recordMany more ∧ edges w' = edges w + more
  refl w := ⟨0, rfl, rfl⟩
  trans := by
    rintro w w' w'' ⟨more, hget, hedges⟩ ⟨more', hget', hedges'⟩
    refine ⟨more + more', ?_, ?_⟩
    · rw [hget', hget, recordMany_add]
    · rw [hedges', hedges, Nat.add_assoc]

/-- The devices without their sensors. -/
def Devices.sensorless (d : Devices W) : Devices W :=
  { d with sensors := { valueKind := fun _ => pure none, collect := fun _ => pure .busy } }

/-- Devices whose sensor is a pulse counter, in a world where edges are told
from everything else: they come at any time, and nothing but them and its owner
moves the counter. -/
structure Devices.Pulsing (d : Devices W) (part : Part W PulseCounter) (edges : W → Nat) :
    Prop where
  sensors : d.sensors = PulseCounter.sensors d.log part
  get_set : ∀ p w, part.get (part.set p w) = p
  edges_set : ∀ p w, edges (part.set p w) = edges w
  within : d.sensorless.Within (.arriving part edges)

/-- The notes so far, together with the counter, leave no edge out. -/
def Accounted (part : Part W PulseCounter) (edges : W → Nat) (since : Nat) (l : Ledger)
    (w : W × List Note) : Prop :=
  Books since (edges w.1) (l.through w.2) (part.get w.1)

section

variable {part : Part W PulseCounter} {edges : W → Nat} {since : Nat} {l : Ledger} {v : Voice}

theorem Accounted.arriving {w w' : W} {notes : List Note}
    (h : Accounted part edges since l (w, notes))
    (harrive : (Drift.arriving part edges).leads w w') :
    Accounted part edges since l (w', notes) := by
  obtain ⟨more, hget, hedges⟩ := harrive
  show Books since (edges w') (l.through notes) (part.get w')
  rw [hget, hedges]
  exact h.recordMany more

/-- A call that is neither a reading nor a delivery. -/
def Call.Bare : Call → Prop
  | .collect _ _ | .delivered _ => False
  | _ => True

theorem PulseCounter.Ledger.enter_bare (l : Ledger) (v : Voice) {c : Call} (h : c.Bare) :
    l.Alike (l.enter (.call v c)) := by
  cases c with
  | collect m answer => cases h
  | delivered m => cases h
  | openFrame answer => cases v <;> cases answer <;> exact ⟨rfl, rfl⟩
  | append m t answer => cases v <;> cases answer <;> exact ⟨rfl, rfl⟩
  | send answer => cases v <;> cases answer <;> exact ⟨rfl, rfl⟩
  | _ => exact ⟨rfl, rfl⟩

theorem Accounted.bare {w : W} {notes : List Note} (h : Accounted part edges since l (w, notes))
    {c : Call} (hbare : c.Bare) : Accounted part edges since l (w, notes ++ [.call v c]) := by
  unfold Accounted
  rw [Ledger.through_concat]
  exact Books.alike h (Ledger.enter_bare _ v hbare)

namespace Action

variable {a : Action W α}

theorem quiet_accounted (ha : a.Within (.arriving part edges)) :
    (Part.first.run a).Within (.keeping (Accounted part edges since l)) := by
  rintro ⟨w, notes⟩ hw
  exact Accounted.arriving hw (ha w)

theorem noting_accounted (ha : a.Within (.arriving part edges)) {call : α → Call}
    (hbare : ∀ x, (call x).Bare) :
    ((Part.first.run a).noting v.write call).Within (.keeping (Accounted part edges since l)) := by
  rintro ⟨w, notes⟩ hw
  exact Accounted.arriving (Accounted.bare hw (hbare (a.run w).1)) (ha w)

theorem announced_accounted (ha : a.Within (.arriving part edges)) {c : Call} (hbare : c.Bare) :
    ((Part.first.run a).announced v.write c).Within
      (.keeping (Accounted part edges since l)) := by
  rintro ⟨w, notes⟩ hw
  exact Accounted.arriving (Accounted.bare hw hbare) (ha w)

end Action

namespace Devices.Pulsing

variable {d : Devices W} (hd : d.Pulsing part edges)
include hd

theorem start_arriving (m : Definition) (alone : Bool) :
    (d.sensors.start m alone).Within (.arriving part edges) := by
  rw [hd.sensors]
  intro w
  show (Drift.arriving part edges).leads w ((PulseCounter.start d.log part m).run w).2
  unfold PulseCounter.start
  rw [Action.run_bind]
  cases ((Action.look part.get).run w).1.fault m with
  | some cause => exact (Drift.arriving part edges).refl w
  | none => exact hd.within.log _ _ w

/-- A reading is the count as it was, and the snapshot is the reading. -/
theorem collect_accounted (m : Definition) :
    ((Part.first.run (d.sensors.collect m)).noting v.write (.collect m)).Within
      (.keeping (Accounted part edges since l)) := by
  rw [hd.sensors]
  rintro ⟨w, notes⟩ hw
  show Accounted part edges since l (((PulseCounter.collect d.log part m).run w).2,
    notes ++ [.call v (.collect m ((PulseCounter.collect d.log part m).run w).1)])
  unfold PulseCounter.collect
  rw [Action.run_bind, Action.run_look]
  cases hfault : (part.get w).fault m with
  | some cause =>
      unfold Accounted
      rw [Ledger.through_concat]
      exact hw
  | none =>
      have hset : Accounted part edges since l (part.set (part.get w).capture w,
          notes ++ [.call v (.collect m (.done (.integer
            (part.get w).count.toUInt64.toInt64)))]) := by
        unfold Accounted
        rw [Ledger.through_concat, hd.get_set, hd.edges_set]
        show Books since (edges w)
          { l.through notes with
            standing := (part.get w).count.toUInt64.toInt64.toInt.toNat } _
        rw [toNat_reading]
        exact Books.capture hw
      exact hset.arriving (hd.within.log _ _ _)

theorem delivered_accounted (m : Definition) :
    ((Part.first.run (d.sensors.delivered m)).announced v.write (.delivered m)).Within
      (.keeping (Accounted part edges since l)) := by
  rw [hd.sensors]
  rintro ⟨w, notes⟩ hw
  show Accounted part edges since l
    (part.set (part.get w).delivered w, notes ++ [.call v (.delivered m)])
  unfold Accounted
  rw [Ledger.through_concat, hd.get_set, hd.edges_set]
  exact Books.delivered hw

theorem voiced_accounted (v : Voice) :
    (d.voiced v).unswitched.Within (.keeping (Accounted part edges since l)) where
  valueKind m := Action.quiet_accounted (by rw [hd.sensors]; exact .pure _)
  collectionTime m :=
    Action.noting_accounted (by rw [hd.sensors]; exact .pure _) fun _ => trivial
  start m alone := Action.noting_accounted (hd.start_arriving m alone) fun _ => trivial
  poll m := Action.noting_accounted (by rw [hd.sensors]; exact .pure _) fun _ => trivial
  collect m := hd.collect_accounted m
  power _ _ := .pure _
  powered m := Action.quiet_accounted (by
    rw [hd.sensors]
    exact (Drift.arriving part edges).refl)
  delivered m := hd.delivered_accounted m
  openFrame := Action.noting_accounted hd.within.openFrame fun _ => trivial
  append m t := Action.noting_accounted (hd.within.append m t) fun _ => trivial
  appendReading m r := Action.noting_accounted (hd.within.appendReading m r) fun _ => trivial
  send := Action.noting_accounted hd.within.send fun _ => trivial
  ready := Action.quiet_accounted hd.within.ready
  allowed := Action.quiet_accounted hd.within.allowed
  connected := Action.quiet_accounted hd.within.connected
  reset := Action.announced_accounted hd.within.reset trivial
  onBattery := Action.announced_accounted hd.within.onBattery trivial
  sleepFor ms := Action.announced_accounted (hd.within.sleepFor ms) trivial
  spin := Action.announced_accounted hd.within.spin trivial
  now := Action.quiet_accounted hd.within.now
  log severity text := Action.quiet_accounted (hd.within.log severity text)

theorem stayOn : (Watch.full d).StayOn (Accounted part edges since l) where
  within := {
    schedule := hd.voiced_accounted .schedule
    aside := hd.voiced_accounted .aside
    turn := by
      intro now w hw
      show Books since _ (l.through (w.2 ++ [.turn now])) _
      rw [Ledger.through_concat]
      exact hw
    sent := by
      intro t t' w hw
      show Books since _ (l.through (w.2 ++ [.sent t t'])) _
      rw [Ledger.through_concat]
      exact hw }
  powered := by
    intro m w hw
    show ((d.sensors.powered m).run w.1).1 ≠ some false
    rw [hd.sensors]
    show some (part.get w.1).counting ≠ some false
    rw [hw.counting]
    decide

end Devices.Pulsing

namespace Node

variable {d : Devices W} (hd : d.Pulsing part edges)
include hd

theorem performBy_accounted (n : Node) {op : Op} (hop : op.switches = false) :
    (n.performBy (.full d) op).Within (.keeping (Accounted part edges since l)) := by
  intro w hw
  rw [performBy_unswitched hd.stayOn n hop w hw]
  exact performBy_within hd.stayOn.within n op w hw

/-- Whatever a counter has been through, a run leaves no edge out. -/
theorem deals_accounted (n : Node) (moves : List (Move W)) (w : W)
    (hops : ∀ m ∈ moves, m.op.switches = false)
    (hmeanwhile : ∀ m ∈ moves, ∀ w, (Drift.arriving part edges).leads w (m.meanwhile w))
    (hstart : Books since (edges w) l (part.get w)) :
    Books since (edges ((run d moves n).run w).2) ((deals d moves n w).foldl Ledger.deal l)
      (part.get ((run d moves n).run w).2) := by
  induction moves generalizing n w l with
  | nil => exact hstart
  | cons m rest ih =>
      obtain ⟨notes, hrun, -⟩ := performBy_deed d n m.op (m.meanwhile w) []
      have hbegun : Accounted part edges since (l.expect m.op) (m.meanwhile w, []) := by
        have hexpect : Accounted part edges since (l.expect m.op) (w, []) :=
          hstart.alike (l.expect_alike m.op)
        exact hexpect.arriving (hmeanwhile m List.mem_cons_self w)
      have hdone := performBy_accounted hd n (hops m List.mem_cons_self) _ hbegun
      rw [hrun, List.nil_append] at hdone
      have hdeals : deals d (m :: rest) n w =
          ⟨m.op, n, notes, ((n.performBy (.blind d) m.op).run (m.meanwhile w)).1⟩ ::
            deals d rest ((n.performBy (.blind d) m.op).run (m.meanwhile w)).1
              ((n.performBy (.blind d) m.op).run (m.meanwhile w)).2 := by
        simp only [deals, history, hrun, List.nil_append, List.zipWith_cons_cons]
      rw [hdeals]
      exact ih _ _ (fun m hm => hops m (List.mem_cons_of_mem _ hm))
        (fun m hm => hmeanwhile m (List.mem_cons_of_mem _ hm)) ⟨hdone.counting, hdone.kept⟩

/-- Where the edges of a fresh counter have gone, as long as nobody edits or
switches it and they are not more than it can count. All are on the count but
for what good answers have taken off, and each of these has taken the reading
that stood; that one is on the count as well. So the count is what has come
without what stood in the frames that were answered well, up to the difference
between the frames and the readings that stood when their answers came. -/
theorem pulses_accounted (n : Node) (moves : List (Move W)) (w : W)
    (hfresh : part.get w = { counting := true }) (hops : ∀ m ∈ moves, m.op.switches = false)
    (hmeanwhile : ∀ m ∈ moves, ∀ w, (Drift.arriving part edges).leads w (m.meanwhile w))
    (hfew : edges ((run d moves n).run w).2 < edges w + UInt32.size) :
    let w' := ((run d moves n).run w).2
    let l := (deals d moves n w).foldl Ledger.deal {}
    edges w + l.taken + (part.get w').count.toNat = edges w' ∧
      (part.get w').snapshot.toNat = l.standing ∧ l.standing ≤ (part.get w').count.toNat ∧
      edges w + l.answered + l.excess + (part.get w').count.toNat = edges w' + l.arrears := by
  intro w' l
  have hstart : Books (edges w) (edges w) {} (part.get w) := by
    rw [hfresh]
    exact ⟨rfl, fun _ => ⟨rfl, rfl, Nat.le_refl _⟩⟩
  have hbooks : Books (edges w) (edges w') l (part.get w') :=
    deals_accounted hd n moves w hops hmeanwhile hstart
  obtain ⟨hcount, hsnapshot, hstanding⟩ := hbooks.kept hfew
  have hsquares : l.Squares := Ledger.Squares.deals (l := {}) rfl _
  refine ⟨hcount, hsnapshot, hstanding, ?_⟩
  unfold Ledger.Squares at hsquares
  omega

end Node

end

/-! ## A read between a frame and its answer -/

/-- A counter, the edges it has been given, and a time. -/
abbrev Metered : Type := PulseCounter × Nat × Timestamp

def Metered.time : Part Metered Timestamp where
  get := fun w => w.2.2
  set := fun time w => (w.1, w.2.1, time)

/-- Devices that always succeed, with a pulse counter for a sensor. -/
def Devices.metering : Devices Metered :=
  let rest := (Devices.obliging 0).through Metered.time
  { rest with sensors := PulseCounter.sensors rest.log Part.first }

/-- Some edges come, and it is later. -/
def Move.arriving (more : Nat) (time : Timestamp) (op : Op) : Move Metered :=
  ⟨fun w => (w.1.recordMany more, w.2.1 + more, time), op⟩

theorem Devices.metering_pulsing :
    Devices.metering.Pulsing Part.first fun w => w.2.1 where
  sensors := rfl
  get_set _ _ := rfl
  edges_set _ _ := rfl
  within := {
    Devices.Within.through (Devices.obliging_within 0 (.still _)) (p := Metered.time)
      (Part.leads_of_still fun _ => rfl) with
    collectionTime := fun _ => .pure _ }

/-- Five edges stand in a frame when two more come and all are read on the spot:
the answer to the frame takes seven off, and two are in no frame ever. -/
theorem Node.pulses_accounted_spot :
    let begun := ((Node.create { interval := 1000 } 1 0).performBy (.blind .metering)
      (.edit (.add ⟨"P", .pulseCount, 1, 1, false⟩))).run ({}, 0, 0)
    let moves := [.arriving 5 491 .iterate, .arriving 0 501 .iterate, .arriving 0 1001 .iterate,
      .arriving 2 1001 (.read "P" none), .arriving 0 1001 (.answer true)]
    let w := ((Node.run .metering moves begun.1).run begun.2).2
    let l := (Node.deals .metering moves begun.1 begun.2).foldl Ledger.deal {}
    begun.2.1 = { counting := true } ∧ w.2.1 = 7 ∧ w.1.count = 0 ∧ l.taken = 7 ∧ l.answered = 5 ∧
      l.excess = 2 + l.arrears := by
  intro begun moves w l
  have hfacts : begun.2.1 = { counting := true } ∧ begun.2.2.1 = 0 ∧ w.2.1 = 7 ∧ w.1.count = 0 ∧
      l.answered = 5 := by decide +kernel
  obtain ⟨hfresh, hnone, hedges, hcount, hanswered⟩ := hfacts
  have hw : ((Node.run .metering moves begun.1).run begun.2).2 = w := rfl
  have hl : (Node.deals .metering moves begun.1 begun.2).foldl Ledger.deal {} = l := rfl
  have haccounted := pulses_accounted Devices.metering_pulsing begun.1 moves begun.2 hfresh
    (by decide +kernel)
    (by
      intro m hm w
      simp only [moves, List.mem_cons, List.not_mem_nil, or_false] at hm
      rcases hm with rfl | rfl | rfl | rfl | rfl <;> exact ⟨_, rfl, rfl⟩)
    (by decide +kernel)
  dsimp only at haccounted
  clear_value w l begun
  have hget : Part.first.get w = w.1 := rfl
  rw [hw, hl, hget, hnone, hedges, hcount, hanswered] at haccounted
  obtain ⟨htaken, -, -, hframes⟩ := haccounted
  have hzero : (0 : UInt32).toNat = 0 := rfl
  exact ⟨hfresh, hedges, hcount, by omega, hanswered, by omega⟩

end Telemetry
