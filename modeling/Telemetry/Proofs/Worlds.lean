import Telemetry.Proofs.Runs

/-!
# How far the world moves

What a node does to its world it does through its devices. If each request moves
the world along some relation that is reflexive and transitive, a `Drift`, then
so does all that is made of requests, up to whole operations; `performBy_within`
is where this file ends. A clock that only goes forward is such a drift, and so
are notes that are only added to.

One rule for pure answers and one for what follows another are all there is to
it; every function is walked through once, and its branches do not matter.
-/

namespace Telemetry

/-- Where the world may move to from where it is. -/
structure Drift (W : Type) where
  leads : W → W → Prop
  refl : ∀ w, leads w w
  trans : ∀ {w w' w'' : W}, leads w w' → leads w' w'' → leads w w''

variable {W α β : Type} {r : Drift W}

namespace Action

/-- An action moves the world along a drift only, whatever the world is. -/
def Within (r : Drift W) (a : Action W α) : Prop := ∀ w, r.leads w (a.run w).2

namespace Within

protected theorem pure (x : α) : (pure x : Action W α).Within r := fun w => r.refl w

protected theorem bind {a : Action W α} {f : α → Action W β} (ha : a.Within r)
    (hf : ∀ x, (f x).Within r) : (a >>= f).Within r :=
  fun w => r.trans (ha w) (hf _ _)

protected theorem map {a : Action W α} (f : α → β) (ha : a.Within r) : (f <$> a).Within r :=
  fun w => ha w

end Within

end Action

/-- Devices every request to which moves the world along a drift only. -/
structure Devices.Within (r : Drift W) (d : Devices W) : Prop where
  valueKind : ∀ m, (d.sensors.valueKind m).Within r
  collectionTime : ∀ m, (d.sensors.collectionTime m).Within r
  start : ∀ m alone, (d.sensors.start m alone).Within r
  poll : ∀ m, (d.sensors.poll m).Within r
  collect : ∀ m, (d.sensors.collect m).Within r
  power : ∀ m on, (d.sensors.power m on).Within r
  powered : ∀ m, (d.sensors.powered m).Within r
  delivered : ∀ m, (d.sensors.delivered m).Within r
  openFrame : d.radio.openFrame.Within r
  append : ∀ m t, (d.radio.append m t).Within r
  appendReading : ∀ m reading, (d.radio.appendReading m reading).Within r
  send : d.radio.send.Within r
  ready : d.radio.ready.Within r
  allowed : d.radio.allowed.Within r
  connected : d.radio.connected.Within r
  reset : d.radio.reset.Within r
  onBattery : d.board.onBattery.Within r
  sleepFor : ∀ ms, (d.board.sleepFor ms).Within r
  spin : d.board.spin.Within r
  now : d.now.Within r
  log : ∀ severity text, (d.log severity text).Within r

/-- Devices that only answer leave the world as it is. -/
theorem Devices.obliging_within (took : UInt32) (r : Drift Timestamp) :
    (obliging took).Within r where
  valueKind _ := .pure _
  collectionTime _ := .pure _
  start _ _ := .pure _
  poll _ := .pure _
  collect _ := .pure _
  power _ _ := .pure _
  powered _ := .pure _
  delivered _ := .pure _
  openFrame := .pure _
  append _ _ := .pure _
  appendReading _ _ := .pure _
  send := .pure _
  ready := .pure _
  allowed := .pure _
  connected := .pure _
  reset := .pure _
  onBattery := .pure _
  sleepFor _ := .pure _
  spin := .pure _
  now := r.refl
  log _ _ := .pure _

/-- Nothing moves. -/
def Drift.still (W : Type) : Drift W where
  leads w w' := w' = w
  refl _ := rfl
  trans h h' := h'.trans h

/-- A property of worlds that is not lost. -/
def Drift.keeping (inv : W → Prop) : Drift W where
  leads w w' := inv w → inv w'
  refl _ h := h
  trans h h' hw := h' (h hw)

/-- Devices without any demand on them. -/
theorem Devices.within_of_leads {r : Drift W} (d : Devices W) (h : ∀ w w', r.leads w w') :
    d.Within r where
  valueKind _ w := h w _
  collectionTime _ w := h w _
  start _ _ w := h w _
  poll _ w := h w _
  collect _ w := h w _
  power _ _ w := h w _
  powered _ w := h w _
  delivered _ w := h w _
  openFrame w := h w _
  append _ _ w := h w _
  appendReading _ _ w := h w _
  send w := h w _
  ready w := h w _
  allowed w := h w _
  connected w := h w _
  reset w := h w _
  onBattery w := h w _
  sleepFor _ w := h w _
  spin w := h w _
  now w := h w _
  log _ _ w := h w _

/-- A request to a part of the world moves the world as the part's moves do. -/
theorem Part.run_within {V : Type} {p : Part W V} {q : Drift V}
    (hp : ∀ w v, q.leads (p.get w) v → r.leads w (p.set v w)) {a : Action V α} (ha : a.Within q) :
    (p.run a).Within r :=
  fun w => hp w _ (ha (p.get w))

/-- What leaves a part of the world as it is leaves the world as it is. -/
theorem Part.leads_of_still {V : Type} {p : Part W V} (hp : ∀ w, p.set (p.get w) w = w) (w : W)
    (v : V) (h : (Drift.still V).leads (p.get w) v) : r.leads w (p.set v w) := by
  rw [show v = p.get w from h, hp]
  exact r.refl w

theorem Devices.Within.through {V : Type} {d : Devices V} {q : Drift V} (hd : d.Within q)
    {p : Part W V} (hp : ∀ w v, q.leads (p.get w) v → r.leads w (p.set v w)) :
    (d.through p).Within r where
  valueKind m := Part.run_within hp (hd.valueKind m)
  collectionTime m := Part.run_within hp (hd.collectionTime m)
  start m alone := Part.run_within hp (hd.start m alone)
  poll m := Part.run_within hp (hd.poll m)
  collect m := Part.run_within hp (hd.collect m)
  power m on := Part.run_within hp (hd.power m on)
  powered m := Part.run_within hp (hd.powered m)
  delivered m := Part.run_within hp (hd.delivered m)
  openFrame := Part.run_within hp hd.openFrame
  append m t := Part.run_within hp (hd.append m t)
  appendReading m reading := Part.run_within hp (hd.appendReading m reading)
  send := Part.run_within hp hd.send
  ready := Part.run_within hp hd.ready
  allowed := Part.run_within hp hd.allowed
  connected := Part.run_within hp hd.connected
  reset := Part.run_within hp hd.reset
  onBattery := Part.run_within hp hd.onBattery
  sleepFor ms := Part.run_within hp (hd.sleepFor ms)
  spin := Part.run_within hp hd.spin
  now := Part.run_within hp hd.now
  log severity text := Part.run_within hp (hd.log severity text)

namespace Slot

variable {σ : Type}

theorem sweepUntil_within {visit : Entry → σ → Action W (Entry × σ × Bool)}
    (h : ∀ e s, (visit e s).Within r) (slots : List Slot) (s : σ) :
    (sweepUntil visit slots s).Within r := by
  induction slots generalizing s with
  | nil => exact .pure _
  | cons slot rest ih =>
      cases slot with
      | none => exact (ih s).bind fun _ => .pure _
      | some e =>
          refine (h e s).bind fun x => ?_
          obtain ⟨e', s', enough⟩ := x
          cases enough with
          | true => exact .pure _
          | false => exact (ih s').bind fun _ => .pure _

theorem sweep_within {visit : Entry → σ → Action W (Entry × σ)}
    (h : ∀ e s, (visit e s).Within r) (slots : List Slot) (s : σ) :
    (sweep visit slots s).Within r := by
  induction slots generalizing s with
  | nil => exact .pure _
  | cons slot rest ih =>
      cases slot with
      | none => exact (ih s).bind fun _ => .pure _
      | some e => exact (h e s).bind fun x => (ih _).bind fun _ => .pure _

end Slot

section

variable {d : Devices W} (hd : d.Within r)
include hd

/-! ## The schedule -/

theorem Devices.leadTime_within (m : Definition) (fallback : UInt32) :
    (d.leadTime m fallback).Within r := by
  refine (hd.collectionTime m).bind fun answer => ?_
  cases answer with
  | none => exact .pure _
  | some reply =>
      cases reply with
      | done ms => exact .pure _
      | busy => exact (hd.log _ _).bind fun _ => .pure _
      | failed cause => exact (hd.log _ _).bind fun _ => .pure _

theorem Tally.observe_within (t : Tally) (reading : Reading) :
    (t.observe d.log reading).Within r := by
  unfold observe
  cases t.fold reading with
  | error refusal => exact (hd.log _ _).bind fun _ => .pure _
  | ok t' =>
      simp only []
      cases t'.summary.notice with
      | none => exact .pure _
      | some text => exact (hd.log _ _).bind fun _ => .pure _

namespace Sampler

theorem start_within (m : Definition) (t : Tally) (s : SamplerStats) :
    (start d m t s).Within r := by
  unfold start
  split
  · exact (hd.log _ _).bind fun _ => .pure _
  · refine (hd.start m false).bind fun answer => ?_
    cases answer with
    | done _ => exact (hd.log _ _).bind fun _ => .pure _
    | busy => exact .pure _
    | failed cause => exact (hd.log _ _).bind fun _ => .pure _

theorem collect_within (fallback : UInt32) (m : Definition) (t : Tally) (s : SamplerStats) :
    (collect d fallback m t s).Within r := by
  unfold collect
  refine (hd.collect m).bind fun answer => ?_
  cases answer with
  | done reading =>
      refine (hd.log _ _).bind fun _ => ?_
      refine (Tally.observe_within hd _ _).bind fun _ => ?_
      exact (d.leadTime_within hd m fallback).bind fun _ => .pure _
  | busy => exact .pure _
  | failed cause => exact (hd.log _ _).bind fun _ => .pure _

theorem startTurn_within (p : Plan) (m : Definition) (t : Tally) (s : SamplerStats) :
    (startTurn d p m t s).Within r := by
  unfold startTurn giveUp
  simp only []
  split
  · refine Action.Within.bind ?_ fun _ => (start_within hd _ _ _).bind fun _ => .pure _
    split
    · exact (hd.log _ _).bind fun _ => .pure _
    · exact .pure _
  · exact .pure _

theorem collectTurn_within (fallback : UInt32) (p : Plan) (m : Definition) (collectAt : UInt64)
    (t : Tally) (s : SamplerStats) : (collectTurn d fallback p m collectAt t s).Within r := by
  unfold collectTurn
  split
  · exact .pure _
  · split
    · split
      · exact (collect_within hd fallback m t s).bind fun _ => .pure _
      · exact .pure _
    · exact (hd.log _ _).bind fun _ => .pure _

theorem visit_within (guard fallback : UInt32) (clock : TransmitClock) (now : Timestamp)
    (e : Entry) (s : SamplerStats × Option UInt64) :
    (visit d guard fallback clock now e s).Within r := by
  unfold visit attend
  split
  · refine Action.Within.bind ?_ fun _ => .pure _
    refine (startTurn_within hd _ _ _ _).bind fun _ => ?_
    exact (collectTurn_within hd fallback _ _ _ _ _).bind fun _ => .pure _
  · exact .pure _

theorem turn_within (s : Sampler) (table : Table) (clock : TransmitClock) (now : Timestamp) :
    (s.turn d table clock now).Within r :=
  (Slot.sweep_within (visit_within hd s.guard s.fallback clock now) _ _).bind fun _ => .pure _

theorem pollOne_within (e : Entry) (s : SamplerStats × UInt32) : (pollOne d e s).Within r := by
  unfold pollOne
  split
  · refine (hd.poll e.definition).bind fun answer => ?_
    cases answer with
    | done _ => exact .pure _
    | busy => exact .pure _
    | failed cause => exact (hd.log _ _).bind fun _ => .pure _
  · exact .pure _

theorem pollOpen_within (s : Sampler) (table : Table) : (s.pollOpen d table).Within r :=
  (Slot.sweep_within (pollOne_within hd) _ _).bind fun _ => .pure _

end Sampler

namespace Outgoing

omit hd in
/-- A frame is filled by appends, and the log is told of what goes wrong. -/
theorem appendOne_within (hlog : ∀ severity text, (d.log severity text).Within r)
    (happend : ∀ m t, (d.radio.append m t).Within r) (count : UInt32) (e : Entry)
    (s : UInt16 × UplinkStats) : (appendOne d count e s).Within r := by
  unfold appendOne
  split
  · exact .pure _
  · split
    · exact (hlog _ _).bind fun _ => .pure _
    · refine (happend _ _).bind fun answer => ?_
      cases answer with
      | error cause => exact (hlog _ _).bind fun _ => .pure _
      | ok _ => exact .pure _

omit hd in
theorem fill_within (hlog : ∀ severity text, (d.log severity text).Within r)
    (happend : ∀ m t, (d.radio.append m t).Within r) (o : Outgoing) : (o.fill d).Within r := by
  unfold fill
  simp only []
  split
  case' isTrue => refine (hlog _ _).bind fun _ => ?_
  all_goals
    exact (Slot.sweepUntil_within (appendOne_within hlog happend _) _ _).bind fun _ => .pure _

theorem reset_within (o : Outgoing) : (o.reset d).Within r :=
  (hd.log _ _).bind fun _ => hd.reset.bind fun _ => .pure _

theorem handOver_within (o : Outgoing) (queued : UInt16) (complete : Bool) :
    (o.handOver d queued complete).Within r := by
  unfold handOver
  refine hd.send.bind fun answer => ?_
  cases answer with
  | error cause => exact (hd.log _ _).bind fun _ => (reset_within hd _).bind fun _ => .pure _
  | ok _ => cases complete <;> exact (hd.log _ _).bind fun _ => .pure _

theorem sendFrame_within (o : Outgoing) (now : Timestamp) : (o.sendFrame d now).Within r := by
  refine (fill_within hd.log hd.append o).bind fun x => ?_
  simp only []
  split
  · exact .pure _
  · exact handOver_within hd _ _ _

theorem awaitRadio_within (o : Outgoing) (now : Timestamp) : (o.awaitRadio d now).Within r := by
  refine hd.allowed.bind fun allowed => ?_
  split
  · exact (hd.log _ _).bind fun _ => .pure _
  · split
    · split
      · exact (hd.log _ _).bind fun _ => (reset_within hd _).bind fun _ => .pure _
      · exact .pure _
    · exact .pure _

theorem loseLink_within (o : Outgoing) : (o.loseLink d).Within r := by
  unfold loseLink
  split
  · exact .pure _
  · exact (hd.log _ _).bind fun _ => .pure _

theorem send_within (o : Outgoing) (now : Timestamp) : (o.send d now).Within r := by
  refine hd.connected.bind fun connected => ?_
  split
  · exact loseLink_within hd o
  · refine hd.ready.bind fun ready => ?_
    split
    · exact awaitRadio_within hd _ now
    · refine hd.openFrame.bind fun answer => ?_
      cases answer with
      | error cause => exact (hd.log _ _).bind fun _ => .pure _
      | ok _ => exact sendFrame_within hd _ now

theorem settleOne_within (count : UInt32) (e : Entry) (s : Unit) :
    (settleOne d count e s).Within r := by
  unfold settleOne
  split
  · exact (hd.delivered _).bind fun _ => .pure _
  · exact .pure _

theorem answer_within (o : Outgoing) (good : Bool) (now : Timestamp) :
    (o.answer d good now).Within r := by
  unfold answer
  cases good with
  | false => exact (hd.log _ _).bind fun _ => .pure _
  | true =>
      refine (Slot.sweep_within (settleOne_within hd _) _ _).bind fun x => ?_
      simp only []
      split
      · exact (send_within hd _ now).bind fun _ => .pure _
      · exact .pure _

end Outgoing

theorem Sleeper.rest_within (s : Sleeper) (sampler : Sampler) (clock : TransmitClock)
    (now : Timestamp) : (s.rest d sampler clock now).Within r := by
  unfold rest permitted
  refine Action.Within.bind ?_ fun allowed => ?_
  · cases s.mode with
    | auto => exact hd.onBattery.bind fun _ => .pure _
    | battery => exact .pure _
    | plugged => exact .pure _
  · split
    · exact .pure _
    · split
      · exact .pure _
      · simp only []
        split
        case' isTrue => refine (hd.log _ _).bind fun _ => ?_
        all_goals exact (hd.log _ _).bind fun _ => (hd.sleepFor _).bind fun _ => .pure _

/-! ## Aside from the schedule -/

namespace SpotRead

theorem askUntil_within {ask : Action W (Reply α)} (hask : ask.Within r) (limit : UInt64)
    (began : Timestamp) (questions : Nat) : (askUntil d ask limit began questions).Within r := by
  induction questions with
  | zero => exact .pure _
  | succ questions ih =>
      refine hask.bind fun answer => ?_
      cases answer with
      | done value => exact .pure _
      | failed cause => exact .pure _
      | busy =>
          refine hd.now.bind fun now => ?_
          split
          · exact .pure _
          · exact hd.spin.bind fun _ => ih

theorem askFor_within {ask : Action W (Reply α)} (hask : ask.Within r) (limit : UInt64) :
    (askFor d limit ask).Within r :=
  hd.now.bind fun began => askUntil_within hd hask limit began patience

theorem await_within (m : Definition) (budget : UInt64) : (await d m budget).Within r := by
  refine hd.now.bind fun began => ?_
  refine (askFor_within hd (hd.poll m) budget).bind fun polled => ?_
  cases polled with
  | none => exact (hd.log _ _).bind fun _ => .pure _
  | some outcome =>
      cases outcome with
      | error cause => exact (hd.log _ _).bind fun _ => .pure _
      | ok _ =>
          refine hd.now.bind fun now => ?_
          refine (askFor_within hd (hd.collect m) _).bind fun collected => ?_
          refine hd.now.bind fun ended => (hd.log _ _).bind fun _ => ?_
          cases collected with
          | none => exact (hd.log _ _).bind fun _ => .pure _
          | some outcome => cases outcome <;> exact .pure _

theorem acquire_within (fallback : UInt32) (timeout : Option UInt32) (m : Definition) (t : Tally) :
    (acquire d fallback timeout m t).Within r := by
  refine (hd.start m true).bind fun answer => ?_
  cases answer with
  | busy => exact (hd.log _ _).bind fun _ => .pure _
  | failed cause => exact (hd.log _ _).bind fun _ => .pure _
  | done _ =>
      refine (d.leadTime_within hd m fallback).bind fun leadTime => ?_
      exact (await_within hd m _).bind fun _ => .pure _

end SpotRead

theorem Entry.read_within (fallback : UInt32) (timeout : Option UInt32) (e : Entry) :
    (e.read d fallback timeout).Within r := by
  unfold Entry.read
  split
  · exact (hd.log _ _).bind fun _ => .pure _
  · refine (hd.powered _).bind fun on => ?_
    have hacquire := SpotRead.acquire_within hd fallback timeout e.definition e.tally
    simp only []
    split
    · exact (hd.power _ _).bind fun _ =>
        hacquire.bind fun _ => (hd.power _ _).bind fun _ => .pure _
    · exact hacquire.bind fun _ => .pure _

namespace Table

theorem read_within (t : Table) (name : String) (timeout : Option UInt32) :
    (t.read d name timeout).Within r := by
  unfold Table.read
  split
  · exact .pure _
  · exact (Entry.read_within hd _ _ _).bind fun _ => .pure _

theorem add_within (t : Table) (m : Definition) : (t.add d m).Within r := by
  unfold add
  split
  · exact .pure _
  · simp only []
    split
    · exact (hd.log _ _).bind fun _ => .pure _
    · split
      · exact (hd.log _ _).bind fun _ => .pure _
      · refine (hd.valueKind _).bind fun kind => ?_
        cases kind with
        | none => exact (hd.log _ _).bind fun _ => .pure _
        | some kind =>
            exact (d.leadTime_within hd _ _).bind fun _ => (hd.power _ _).bind fun _ => .pure _

theorem addAll_within (t : Table) (ms : List Definition) : (t.addAll d ms).Within r := by
  induction ms generalizing t with
  | nil => exact .pure _
  | cons m rest ih =>
      unfold addAll
      split
      · exact ih t
      · refine (add_within hd t m).bind fun x => ?_
        obtain ⟨t₁, outcome⟩ := x
        cases outcome with
        | ok _ => exact ih t₁
        | error cause => exact (hd.log _ _).bind fun _ => ih t₁

theorem load_within (t : Table) (persisted defaults : List Definition) :
    (t.load d persisted defaults).Within r := by
  unfold load
  split
  all_goals exact (hd.log _ _).bind fun _ => (addAll_within hd t _).bind fun _ => .pure _

end Table

theorem Edit.apply_within (t : Table) (e : Edit) : (e.apply d t).Within r := by
  cases e with
  | add m => exact (Table.add_within hd t m).map _
  | remove name =>
      refine Action.Within.map _ ?_
      unfold Table.remove
      split
      · exact .pure _
      · exact (hd.power _ _).bind fun _ => .pure _
  | rename old new =>
      refine Action.Within.map _ ?_
      unfold Table.rename
      split
      · exact .pure _
      · split
        · exact (hd.log _ _).bind fun _ => .pure _
        · exact .pure _
  | setPeriod name period =>
      refine Action.Within.map _ ?_
      unfold Table.setPeriod
      split
      · exact .pure _
      · simp only []
        split
        · exact (hd.power _ _).bind fun _ => .pure _
        · exact .pure _
  | setSampleCount name sampleCount =>
      refine Action.Within.map _ ?_
      unfold Table.setSampleCount
      split
      · exact (hd.log _ _).bind fun _ => .pure _
      · exact .pure _
  | setImmediate name immediate =>
      exact Action.Within.pure (t.amend name fun e =>
        { e with definition := { e.definition with immediate } }).1
  | request name =>
      exact Action.Within.pure (t.amend name fun e =>
        e.withTally { e.tally with instantRequested := true }).1

namespace InstantSend

theorem serve_within (fallback : UInt32) (e : Entry) (count : UInt16) :
    (serve d fallback e count).Within r := by
  unfold serve
  split
  · exact .pure _
  · refine (Entry.read_within hd fallback none _).bind fun x => ?_
    obtain ⟨e', result⟩ := x
    cases result with
    | error cause => exact (hd.log _ _).bind fun _ => .pure _
    | ok reading =>
        refine (hd.appendReading _ reading).bind fun answer => ?_
        cases answer with
        | error cause => exact (hd.log _ _).bind fun _ => .pure _
        | ok _ => exact .pure _

theorem handOver_within (count : UInt16) : (handOver d count).Within r := by
  unfold handOver
  split
  · exact (hd.log _ _).bind fun _ => .pure _
  · exact hd.send.bind fun answer => by cases answer <;> exact .pure _

theorem run_within (guard : UInt32) (u : Uplink) (clock : TransmitClock) (t : Table) :
    (run d guard u clock t).Within r := by
  unfold run
  split
  · exact .pure _
  · split
    · exact (hd.log _ _).bind fun _ => .pure _
    · refine hd.now.bind fun now => ?_
      split
      · exact (hd.log _ _).bind fun _ => .pure _
      · refine hd.openFrame.bind fun answer => ?_
        cases answer with
        | error cause => exact (hd.log _ _).bind fun _ => .pure _
        | ok _ =>
            refine (Slot.sweepUntil_within (serve_within hd t.fallback) t.slots 0).bind fun x => ?_
            exact (handOver_within hd _).bind fun _ => .pure _

end InstantSend

namespace Node

theorem sendRequested_within (n : Node) : (n.sendRequested d).Within r := by
  refine (InstantSend.run_within hd _ _ _ _).bind fun x => ?_
  obtain ⟨table, outcome⟩ := x
  cases outcome with
  | ok sent =>
      simp only []
      split
      · exact (hd.log _ _).bind fun _ => .pure _
      · exact .pure _
  | error cause => exact (hd.log _ _).bind fun _ => .pure _

theorem setEnabled_within (n : Node) (enabled : Bool) : (n.setEnabled d enabled).Within r := by
  unfold setEnabled
  split
  · exact hd.now.bind fun _ => .pure _
  · exact .pure _

theorem read_within (n : Node) (name : String) (timeout : Option UInt32) :
    (n.read d name timeout).Within r :=
  (Table.read_within hd _ _ _).bind fun _ => .pure _

theorem collectionTimeout_within (n : Node) (name : String) :
    (n.collectionTimeout d name).Within r := by
  unfold collectionTimeout
  split
  · exact .pure _
  · exact (d.leadTime_within hd _ _).bind fun _ => .pure _

theorem sendReading_within (m : Definition) (name : String) (reading : Reading) :
    (sendReading d m name reading).Within r := by
  refine (hd.appendReading m reading).bind fun answer => ?_
  cases answer with
  | error cause => exact (hd.log _ _).bind fun _ => .pure _
  | ok _ =>
      refine hd.send.bind fun sent => ?_
      cases sent with
      | error cause => exact .pure _
      | ok _ => exact (hd.log _ _).bind fun _ => .pure _

theorem sendTest_within (n : Node) (name : String) : (n.sendTest d name).Within r := by
  refine hd.connected.bind fun connected => ?_
  split
  · exact (hd.log _ _).bind fun _ => .pure _
  · refine hd.ready.bind fun ready => ?_
    split
    · exact (hd.log _ _).bind fun _ => .pure _
    · refine hd.openFrame.bind fun answer => ?_
      cases answer with
      | error cause => exact .pure _
      | ok _ =>
          refine (read_within hd n name none).bind fun x => ?_
          obtain ⟨n', result⟩ := x
          simp only []
          split
          · exact .pure _
          · exact .pure _
          · exact (sendReading_within hd _ _ _).bind fun _ => .pure _

theorem poll_within (n : Node) : (n.poll d).Within r :=
  (Sampler.pollOpen_within hd _ _).bind fun _ => .pure _

theorem settle_within (n : Node) : (n.settle d).Within r := by
  refine (poll_within hd n).bind fun x => ?_
  simp only []
  split
  · exact hd.now.bind fun _ => (Sleeper.rest_within hd _ _ _ _).bind fun _ => .pure _
  · exact .pure _

theorem iterateOffline_within (n : Node) : (n.iterateOffline d).Within r := by
  refine Action.Within.bind ?_ fun n' => (poll_within hd n').bind fun _ => .pure _
  split
  · exact .pure _
  · exact (hd.log _ _).bind fun _ => .pure _

end Node

end

/-! ## Operations under watch -/

/-- A watch that moves the world along a drift only. -/
structure Watch.Within (r : Drift W) (o : Watch W) : Prop where
  schedule : o.schedule.Within r
  aside : o.aside.Within r
  turn : ∀ now, (o.mark (.turn now)).Within r
  sent : ∀ t t', (o.mark (.sent t t')).Within r

theorem Watch.blind_within {d : Devices W} (hd : d.Within r) : (blind d).Within r :=
  ⟨hd, hd, fun _ => .pure _, fun _ _ => .pure _⟩

namespace Node

variable {o : Watch W} (ho : o.Within r)
include ho

theorem sampleBy_within (n : Node) : (n.sampleBy o).Within r := by
  refine ho.schedule.now.bind fun now => ?_
  split
  · exact (ho.turn _).bind fun _ =>
      (Sampler.turn_within ho.schedule _ _ _ _).bind fun _ => .pure _
  · exact .pure _

theorem transmitBy_within (n : Node) : (n.transmitBy o).Within r := by
  refine ho.schedule.now.bind fun now => ?_
  split
  · refine (ho.schedule.log _ _).bind fun _ => ?_
    refine (Outgoing.send_within ho.schedule _ now).bind fun x => ?_
    exact (ho.sent _ _).bind fun _ => .pure _
  · exact .pure _

theorem iterateOnlineBy_within (n : Node) : (n.iterateOnlineBy o).Within r := by
  refine Action.Within.bind ?_ fun n₁ => ?_
  · refine ho.aside.ready.bind fun ready => ?_
    split
    · exact sendRequested_within ho.aside n
    · exact .pure _
  · refine (sampleBy_within ho n₁).bind fun n₂ => ?_
    refine (transmitBy_within ho n₂).bind fun x => ?_
    exact (settle_within ho.schedule x.1).bind fun _ => .pure _

theorem iterateBy_within (n : Node) : (n.iterateBy o).Within r := by
  unfold iterateBy
  split
  · exact .pure _
  · refine ho.schedule.connected.bind fun connected => ?_
    split
    · exact iterateOffline_within ho.schedule n
    · split
      · exact (ho.schedule.log _ _).bind fun _ => ho.schedule.now.bind fun _ => .pure _
      · exact iterateOnlineBy_within ho n

theorem answerBy_within (n : Node) (good : Bool) : (n.answerBy o good).Within r := by
  refine ho.schedule.now.bind fun now => ?_
  refine (Outgoing.answer_within ho.schedule _ good now).bind fun x => ?_
  exact (ho.sent _ _).bind fun _ => .pure _

/-- Whatever the operation is, the world moves along the drift only. -/
theorem performBy_within (n : Node) (op : Op) : (n.performBy o op).Within r := by
  cases op with
  | iterate => exact (iterateBy_within ho n).map _
  | answer good => exact (answerBy_within ho n good).map _
  | setEnabled enabled => exact setEnabled_within ho.aside n enabled
  | setPower power => exact .pure _
  | setInterval interval => exact .pure _
  | edit e => exact (Edit.apply_within ho.aside n.table e).map _
  | load persisted defaults =>
      refine Action.Within.map _ ?_
      exact (Table.load_within ho.aside n.table persisted defaults).bind fun _ => .pure _
  | read name timeout => exact (read_within ho.aside n name timeout).map _
  | collectionTimeout name => exact (collectionTimeout_within ho.aside n name).map _
  | sendTest name => exact (sendTest_within ho.aside n name).map _

end Node

end Telemetry
