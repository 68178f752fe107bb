import Telemetry.Proofs.Loops
import Telemetry.Proofs.Steady

/-!
# Devices that never fail

A sensor that always answers and a radio that takes everything leave a node few
ways through its functions. The relations that meet the functions know nothing
of that, but the notes do: on reliable devices every call in a history is noted
with a good answer (`Node.notes_fine`), and a relation whose calls are all fine
has only its good constructors left.

Three things are not calls, and are said of the plain node: that a turn of the
loop runs through and what its send may come to, and what an addition leaves in
the table.

The board is left out of all that. It may let the node sleep, and with that move
the time in the middle of a turn, so the devices are held to a fixed time without
it; a node that is plugged and has no requests never asks it
(`Node.iterateBy_boardless`).
-/

namespace Telemetry

variable {W α : Type}

/-- The devices without their board. -/
def Devices.boardless (d : Devices W) : Devices W := { d with board := {} }

/-- Sensors of numbers that cannot tell how long they take and always succeed,
and a radio that has a link and is ready at any time and takes everything, in a
world with a time that the clock reads and no request moves, but for those to
the board. -/
structure Devices.Reliable (d : Devices W) (time : W → Timestamp)
    (kind : Definition → ValueKind) : Prop where
  within : ∀ now, d.boardless.Within (.keeping fun w => time w = now)
  now : ∀ w, (d.now.run w).1 = time w
  numeric : ∀ m, kind m ≠ .text
  valueKind : ∀ m w, ∀ k ∈ ((d.sensors.valueKind m).run w).1, k = kind m
  collectionTime : ∀ m w, ((d.sensors.collectionTime m).run w).1 = none
  start : ∀ m alone w, ((d.sensors.start m alone).run w).1 = .done ()
  collect : ∀ m w, ∃ r, ((d.sensors.collect m).run w).1 = .done r ∧ r.kind = kind m
  connected : ∀ w, (d.radio.connected.run w).1 = true
  ready : ∀ w, (d.radio.ready.run w).1 = true
  opens : ∀ w, (d.radio.openFrame.run w).1 = .ok ()
  appends : ∀ m t w, ((d.radio.append m t).run w).1 = .ok ()
  sends : ∀ w, (d.radio.send.run w).1 = .ok ()

/-- A call with a good answer, if one was asked for by the schedule. -/
def Call.Fine (kind : Definition → ValueKind) : Call → Prop
  | .collectionTime _ answer => answer = none
  | .start _ _ answer => answer = .done ()
  | .collect m answer => ∃ r, answer = .done r ∧ r.kind = kind m
  | .openFrame answer | .append _ _ answer | .send answer => answer = .ok ()
  | _ => True

/-! ## Without a board -/

theorem Sleeper.rest_plugged (d : Devices W) {s : Sleeper} (h : s.mode = .plugged)
    (sampler : Sampler) (clock : TransmitClock) (now : Timestamp) :
    s.rest d sampler clock now = pure (s, .powerPolicy) := by
  unfold rest permitted
  rw [h]
  rfl

namespace Node

variable (d : Devices W) (n : Node)

theorem sendRequested_idle {n : Node} (h : n.table.hasRequests = false) :
    n.sendRequested d = pure n := by
  rw [sendRequested, InstantSend.run, h]
  rfl

theorem sampleBy_sleeper (o : Watch W) (w : W) :
    ((n.sampleBy o).run w).1.sleeper = n.sleeper := by
  unfold sampleBy
  rw [Action.run_bind, Action.run_ite]
  split <;> rfl

theorem transmitBy_sleeper (o : Watch W) (w : W) :
    ((n.transmitBy o).run w).1.1.sleeper = n.sleeper := by
  unfold transmitBy
  rw [Action.run_bind, Action.run_ite]
  split <;> rfl

variable {n}

theorem settle_boardless (v : Voice) (h : n.sleeper.mode = .plugged) :
    n.settle (d.boardless.voiced v) = n.settle (d.voiced v) := by
  have hpoll : n.poll (d.boardless.voiced v) = n.poll (d.voiced v) := rfl
  ext w : 1
  rw [settle, settle, hpoll, Action.run_bind, Action.run_bind]
  have hsleeper : ((n.poll (d.voiced v)).run w).1.1.sleeper = n.sleeper := rfl
  generalize (n.poll (d.voiced v)).run w = x at hsleeper ⊢
  obtain ⟨⟨n', polled⟩, w'⟩ := x
  have hplugged : n'.sleeper.mode = .plugged := by rw [show n'.sleeper = _ from hsleeper, h]
  simp only [Sleeper.rest_plugged _ hplugged]
  rfl

/-- A plugged node without requests has no use for its board. -/
theorem iterateBy_boardless (hplugged : n.sleeper.mode = .plugged)
    (hidle : n.table.hasRequests = false) :
    n.iterateBy (.full d.boardless) = n.iterateBy (.full d) := by
  have honline : n.iterateOnlineBy (.full d.boardless) = n.iterateOnlineBy (.full d) := by
    have hparts : ∀ d' : Devices W, n.iterateOnlineBy (.full d') = (do
        let _ ← (d'.voiced .aside).radio.ready
        let n ← n.sampleBy (.full d')
        let x ← n.transmitBy (.full d')
        let y ← x.1.settle (d'.voiced .schedule)
        pure (y.1, .ran x.2 y.2)) := by
      intro d'
      have hrequested : n.sendRequested (Watch.full d').aside = pure n := sendRequested_idle _ hidle
      simp only [iterateOnlineBy, hrequested, ite_self, bind_assoc, pure_bind]
      rfl
    rw [hparts, hparts]
    ext w : 1
    simp only [Action.run_bind]
    have hsample : ∀ n' : Node, n'.sampleBy (.full d.boardless) = n'.sampleBy (.full d) :=
      fun _ => rfl
    have htransmit : ∀ n' : Node, n'.transmitBy (.full d.boardless) = n'.transmitBy (.full d) :=
      fun _ => rfl
    have hready : (d.boardless.voiced .aside).radio.ready = (d.voiced .aside).radio.ready := rfl
    rw [hready, hsample, htransmit, settle_boardless]
    rw [transmitBy_sleeper, sampleBy_sleeper, hplugged]
  unfold iterateBy
  rw [honline]
  rfl

end Node

/-! ## Notes of fine calls -/

/-- Notes are only added, and all calls that are noted are fine. -/
def Drift.noting (fine : Call → Prop) : Drift (W × List Note) where
  leads w w' := ∃ new, w'.2 = w.2 ++ new ∧ ∀ v c, Note.call v c ∈ new → fine c
  refl _ := ⟨[], (List.append_nil _).symm, fun _ _ h => absurd h List.not_mem_nil⟩
  trans := by
    intro w w' w'' ⟨new, hnew, hfine⟩ ⟨more, hmore, hfine'⟩
    refine ⟨new ++ more, by rw [hmore, hnew, List.append_assoc], fun v c hc => ?_⟩
    rcases List.mem_append.mp hc with hc | hc
    · exact hfine v c hc
    · exact hfine' v c hc

namespace Action

variable {v : Voice} {fine : Call → Prop}

theorem quiet_within (a : Action W α) : (Part.first.run a).Within (.noting fine) :=
  fun _ => ⟨[], (List.append_nil _).symm, fun _ _ h => absurd h List.not_mem_nil⟩

theorem noting_within (a : Action W α) {call : α → Call} (h : ∀ w, fine (call (a.run w).1)) :
    ((Part.first.run a).noting v.write call).Within (.noting fine) := by
  intro w
  refine ⟨[.call v (call (a.run w.1).1)], rfl, fun v' c hc => ?_⟩
  cases List.mem_singleton.mp hc
  exact h w.1

theorem announced_within (a : Action W α) {c : Call} (h : fine c) :
    ((Part.first.run a).announced v.write c).Within (.noting fine) := by
  intro w
  refine ⟨[.call v c], rfl, fun v' c' hc => ?_⟩
  cases List.mem_singleton.mp hc
  exact h

end Action

section

variable {d : Devices W} {time : W → Timestamp} {kind : Definition → ValueKind}
  (hd : d.Reliable time kind)
include hd

theorem Devices.Reliable.voiced_within (v : Voice) :
    (d.voiced v).Within (.noting (Call.Fine kind)) where
  valueKind _ := Action.quiet_within _
  collectionTime m := Action.noting_within _ fun w => hd.collectionTime m w
  start m alone := Action.noting_within _ fun w => hd.start m alone w
  poll _ := Action.noting_within _ fun _ => trivial
  collect m := Action.noting_within _ fun w => hd.collect m w
  power _ _ := Action.announced_within _ trivial
  powered _ := Action.quiet_within _
  delivered _ := Action.announced_within _ trivial
  openFrame := Action.noting_within _ fun w => hd.opens w
  append m t := Action.noting_within _ fun w => hd.appends m t w
  appendReading _ _ := Action.noting_within _ fun _ => trivial
  send := Action.noting_within _ fun w => hd.sends w
  ready := Action.quiet_within _
  allowed := Action.quiet_within _
  connected := Action.quiet_within _
  reset := Action.announced_within _ trivial
  onBattery := Action.announced_within _ trivial
  sleepFor _ := Action.announced_within _ trivial
  spin := Action.announced_within _ trivial
  now := Action.quiet_within _
  log _ _ := Action.quiet_within _

theorem Devices.Reliable.full_within : (Watch.full d).Within (.noting (Call.Fine kind)) where
  schedule := hd.voiced_within .schedule
  aside := hd.voiced_within .aside
  turn now w := ⟨[.turn now], rfl, fun v c hc => by simp at hc⟩
  sent t t' w := ⟨[.sent t t'], rfl, fun v c hc => by simp at hc⟩

theorem Devices.Reliable.boardless : d.boardless.Reliable time kind := { hd with within := hd.within }

theorem Devices.Reliable.steady (offered : List Entry) : d.Steady (fun _ => True) offered where
  within := d.within_of_leads fun _ _ _ => trivial
  connected w _ := hd.connected w
  ready w _ := hd.ready w
  opens w _ := hd.opens w
  sends w _ := hd.sends w
  accepts w _ e _ := hd.appends e.definition e.tally w

namespace Node

/-- Every call in a history is fine. -/
theorem notes_fine (n : Node) (op : Op) (w : W) :
    ∀ v c, .call v c ∈ ((n.performBy (.full d) op).run (w, [])).2.2 → c.Fine kind := by
  obtain ⟨new, hnew, hfine⟩ := performBy_within hd.full_within n op (w, [])
  rw [List.nil_append] at hnew
  rw [hnew]
  exact hfine

/-! ## What is not a call -/

theorem transmit_steadily (n : Node) (w : W) :
    ∀ outcome ∈ ((n.transmit d).run w).1.2, ∃ o, Outgoing.Steadily (o, outcome) := by
  intro outcome houtcome
  simp only [transmit, Action.run_bind, Action.run_ite] at houtcome
  split at houtcome
  · cases houtcome
    exact ⟨_, Outgoing.send_steady (hd.steady _) _ trivial⟩
  · cases houtcome

/-- A turn of the loop runs through, and a send in it fills a frame. -/
theorem iterate_ran (n : Node) (henabled : n.enabled = true) (hoffline : n.offline = false)
    (w : W) :
    ∃ send sleep, ((n.iterate d).run w).1.2 = .ran send sleep ∧
      ∀ outcome ∈ send, ∃ o, Outgoing.Steadily (o, outcome) := by
  have honline : (n.iterate d).run w = (n.iterateOnline d).run (d.radio.connected.run w).2 := by
    simp only [iterate, henabled, Bool.not_true, Bool.false_eq_true, if_false, Action.run_bind,
      hd.connected, hoffline]
  rw [honline]
  simp only [iterateOnline, Action.run_bind, Action.run_pure]
  exact ⟨_, _, rfl, transmit_steadily hd _ _⟩

end Node

theorem Devices.leadTime_reliable (m : Definition) (fallback : UInt32) (w : W) :
    ((d.leadTime m fallback).run w).1 = 0 := by
  simp only [leadTime, Action.run_bind, hd.collectionTime]
  rfl

/-- An addition leaves the table as it is, or a fresh tally more. -/
theorem Table.add_reliable (t : Table) (m : Definition) (w : W) :
    ((t.add d m).run w).1.1 = t ∨ ∃ i m', t.firstFree = some i ∧
      ((t.add d m).run w).1.1 =
        t.put i (some { definition := m', tally := Tally.fresh (kind m') 0 }) := by
  unfold add
  split
  · exact .inl rfl
  · next name _ =>
      simp only [Action.run_ite]
      split
      · exact .inl rfl
      · split
        · exact .inl rfl
        · next i hfree =>
            rw [Action.run_bind]
            have hkind := hd.valueKind { m with name } w
            cases hvalue : ((d.sensors.valueKind { m with name }).run w).1 with
            | none => exact .inl rfl
            | some k =>
                rw [hvalue] at hkind
                refine .inr ⟨i, { m with name }, hfree, ?_⟩
                simp only [Action.run_bind, Action.run_pure, d.leadTime_reliable hd, hkind k rfl]

end

end Telemetry
