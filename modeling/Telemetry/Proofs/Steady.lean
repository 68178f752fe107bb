import Telemetry.Proofs.Frames
import Telemetry.Proofs.Rollback
import Telemetry.Proofs.Worlds

/-!
# Steady radios

A cycle goes through if the radio has a link, is ready and takes every frame,
and does not refuse the first measurement of any. How much that is depends on
where it is asked. A radio that writes frames into a buffer has nothing to send
before one is opened, and no buffer has room for every measurement there could
be. So a steady radio has to take frames in the worlds in which one is being
filled, and of the measurements only those that a cycle has to offer
(`Devices.Steady`). A send over it comes to one of three things
(`Outgoing.send_steady`).

The radio that writes frames is one of them, if its link is steady and its
buffer has room for each of the measurements alone (`Station.equip_steady`).
-/

namespace Telemetry

variable {W : Type}

namespace Devices

variable (d : Devices W) (calm : W → Prop)

/-- The worlds in which the radio's frame has just been opened, in a calm one. -/
inductive Fresh : W → Prop where
  | opened {w : W} (h : calm w) : Fresh (d.radio.openFrame.run w).2
  | logged (severity : Severity) (text : String) {w : W} (h : Fresh w) :
      Fresh ((d.log severity text).run w).2

/-- The worlds in which that frame is being filled. -/
inductive Filling : W → Prop where
  | fresh {w : W} (h : d.Fresh calm w) : Filling w
  | appended (m : Definition) (t : Tally) {w : W} (h : Filling w) :
      Filling ((d.radio.append m t).run w).2
  | logged (severity : Severity) (text : String) {w : W} (h : Filling w) :
      Filling ((d.log severity text).run w).2

/-- In calm worlds, out of which no request leads, the radio has a link and is
ready and opens frames. It takes a frame that has been filled, and a frame that
has just been opened takes each of the measurements on offer. -/
structure Steady (offered : List Entry) : Prop where
  within : d.Within (.keeping calm)
  connected : ∀ w, calm w → (d.radio.connected.run w).1 = true
  ready : ∀ w, calm w → (d.radio.ready.run w).1 = true
  opens : ∀ w, calm w → (d.radio.openFrame.run w).1 = .ok ()
  sends : ∀ w, d.Filling calm w → (d.radio.send.run w).1 = .ok ()
  accepts : ∀ w, d.Fresh calm w → ∀ e ∈ offered,
    ((d.radio.append e.definition e.tally).run w).1 = .ok ()

variable {d : Devices W} {calm : W → Prop} {offered fewer : List Entry} {w : W}

theorem Fresh.keeps (hd : d.Within (.keeping calm)) (h : d.Fresh calm w) : calm w := by
  induction h with
  | opened h => exact hd.openFrame _ h
  | logged severity text h ih => exact hd.log severity text _ ih

theorem Filling.keeps (hd : d.Within (.keeping calm)) (h : d.Filling calm w) : calm w := by
  induction h with
  | fresh h => exact h.keeps hd
  | appended m t h ih => exact hd.append m t _ ih
  | logged severity text h ih => exact hd.log severity text _ ih

theorem Steady.offer (hd : d.Steady calm offered) (h : fewer ⊆ offered) : d.Steady calm fewer :=
  { hd with accepts := fun w hw e he => hd.accepts w hw e (h he) }

end Devices

namespace Outgoing

variable {d : Devices W} {calm : W → Prop} {offered : List Entry} {o : Outgoing} {w : W}

/-- The measurements that the next frame is offered. -/
def offers (o : Outgoing) : List Entry :=
  Slot.ready o.clock.count (o.table.window o.uplink.start o.uplink.capacity)

/-- What is offered is what is ready of the stretch that is still to be sent. -/
theorem Faces.offers {count : UInt32} {before todo beyond : List Slot}
    (h : o.Faces count before todo beyond) : o.offers = Slot.ready count todo := by
  rw [Outgoing.offers, h.clock, h.start, Table.window_append h.slots h.bound]

/-! ## Sends over a steady radio -/

/-- What a walk has in the frame already stays there. -/
theorem sweepUntil_keeps (d : Devices W) (count : UInt32) (slots : List Slot)
    {s : UInt16 × UplinkStats} (hs : s.1 ≠ 0) (w : W) :
    ((Slot.sweepUntil (appendOne d count) slots s).run w).1.2.1.1 ≠ 0 := by
  obtain ⟨_, _, calls, _, h⟩ := Slot.sweepUntil_speaks (v := .schedule)
    (appendOne_speaks d count) slots s w []
  obtain ⟨pre, rest, more, -, -, hsize, -⟩ := Appends.passes_stretch h
  intro hzero
  rw [hzero, UInt16.toNat_zero] at hsize
  have hpos : s.1.toNat ≠ 0 := fun h => hs (UInt16.toNat_inj.mp h)
  simp only [UInt16.size] at hsize
  omega

/-- A walk with a new frame comes to the end or has something in the frame. -/
theorem sweepUntil_fresh (hd : d.Steady calm offered) (count : UInt32) {slots : List Slot}
    (hoffered : Slot.ready count slots ⊆ offered) (stats : UplinkStats) (hw : d.Fresh calm w) :
    let x := ((Slot.sweepUntil (appendOne d count) slots (0, stats)).run w).1
    x.2.2 = none ∨ x.2.1.1 ≠ 0 := by
  induction slots generalizing stats w with
  | nil => exact .inl rfl
  | cons slot rest ih =>
      have hbehind {stop : Option Nat} (h : stop = none) : stop.map (· + 1) = none := by
        rw [h, Option.map_none]
      cases slot with
      | none =>
          exact (ih hoffered stats hw).imp_left hbehind
      | some e =>
          have hrest : Slot.ready count rest ⊆ offered := by
            intro x hx
            refine hoffered ?_
            rw [Slot.ready_cons]
            split
            · exact List.mem_cons_of_mem e hx
            · exact hx
          simp only [Slot.sweepUntil, appendOne]
          by_cases hdue : e.definition.due count = true
          · by_cases hs : e.tally.samples = 0
            · simp only [hdue, hs, Bool.not_true, Bool.false_eq_true, ↓reduceIte,
                Action.run_bind, Action.run_pure]
              exact (ih hrest { stats with skippedUnsampled := stats.skippedUnsampled + 1 }
                (hw.logged .error _)).imp_left hbehind
            · have he : e ∈ offered := by
                refine hoffered ?_
                rw [Slot.ready_cons, if_pos (Entry.ready_of_due hdue hs)]
                exact List.mem_cons_self
              simp only [hdue, hs, Bool.not_true, Bool.false_eq_true, ↓reduceIte,
                Action.run_bind, hd.accepts w hw e he, Action.run_pure]
              exact .inr (sweepUntil_keeps d count rest (show Saturating.succ16 0 ≠ 0 by decide) _)
          · simp only [hdue, Bool.not_false, ↓reduceIte, Action.run_bind, Action.run_pure,
              Bool.false_eq_true]
            exact (ih hrest stats hw).imp_left hbehind

/-- Filling a new frame is a walk with it. -/
theorem fill_eq_filled (o : Outgoing) (hw : d.Fresh calm w) :
    ∃ w', d.Fresh calm w' ∧
      let x := ((Slot.sweepUntil (appendOne d o.clock.count)
        (o.table.window o.uplink.start o.uplink.capacity) (0, o.uplink.stats)).run w').1
      ((o.fill d).run w).1 = o.filled x.1 x.2.1 x.2.2 := by
  by_cases hstart : o.uplink.start = 0
  · refine ⟨w, hw, ?_⟩
    simp only [fill, filled, hstart, ne_eq, not_true_eq_false, ↓reduceIte, Action.run_bind,
      Action.run_pure]
    split
    · next heq => rw [heq]; rfl
    · next heq => rw [heq]; rfl
  · have hlogged : d.Fresh calm ((d.log.debug "Resuming previous measurements send.").run w).2 :=
      hw.logged _ _
    refine ⟨_, hlogged, ?_⟩
    simp only [fill, filled, hstart, ne_eq, not_false_eq_true, ↓reduceIte, Action.run_bind,
      Action.run_pure]
    split
    · next heq => rw [heq]; rfl
    · next heq => rw [heq]; rfl

/-- A frame that stays empty has not been kept from anything. -/
theorem fill_fresh (hd : d.Steady calm o.offers) (hw : d.Fresh calm w) :
    let x := ((o.fill d).run w).1
    x.2.1 = 0 → x.1.uplink.cursor = x.1.uplink.capacity := by
  obtain ⟨w', hw', heq⟩ := fill_eq_filled o hw
  intro x hzero
  rw [show x = _ from heq] at hzero ⊢
  rcases sweepUntil_fresh hd o.clock.count (List.Subset.refl _) o.uplink.stats hw' with h | h
  · rw [filled, h]
    rfl
  · exact absurd hzero h

/-- The world stays one in which the frame is being filled. -/
theorem fill_filling (o : Outgoing) (hw : d.Filling calm w) :
    d.Filling calm ((o.fill d).run w).2 := by
  have hlog : ∀ severity text, (d.log severity text).Within (.keeping (d.Filling calm)) :=
    fun severity text _ h => h.logged severity text
  have happend : ∀ m t, (d.radio.append m t).Within (.keeping (d.Filling calm)) :=
    fun m t _ h => h.appended m t
  exact fill_within hlog happend o w hw

theorem handOver_steady (hd : d.Steady calm offered) (o : Outgoing) (queued : UInt16)
    (complete : Bool) (hw : d.Filling calm w) :
    Steadily ((o.handOver d queued complete).run w).1 := by
  simp only [handOver, Action.run_bind, hd.sends w hw]
  cases complete with
  | true => exact .complete queued
  | false => exact .fragment queued

theorem send_steady (hd : d.Steady calm o.offers) (now : Timestamp) (hw : calm w) :
    Steadily ((o.send d now).run w).1 := by
  have hlinked : calm (d.radio.connected.run w).2 := hd.within.connected w hw
  have hready := hd.within.ready _ hlinked
  have hfresh := Devices.Fresh.opened (d := d) hready
  simp only [send, Action.run_bind, hd.connected w hw, hd.ready _ hlinked, hd.opens _ hready,
    Bool.not_true, Bool.false_eq_true, ↓reduceIte, sendFrame, Action.run_ite]
  split
  · next hzero =>
      have hcursor := fill_fresh (o := o.online) hd hfresh hzero
      rw [Action.run_pure]
      refine .nothing ?_
      split
      · exact hcursor
      · exact hcursor
  · exact handOver_steady hd _ _ _ (fill_filling _ (.fresh hfresh))

end Outgoing

/-! ## Radios without memory of what is in a frame -/

/-- A radio whose frames have room for some measurements, in a world that is
the number of those in the frame. -/
def Devices.narrow (room : Nat) : Devices Nat where
  sensors := {
    valueKind := fun _ => pure none
    collect := fun _ => pure .busy }
  radio := {
    openFrame := Action.step fun _ => (.ok (), 0)
    append := fun _ _ => Action.step fun taken =>
      if taken < room then (.ok (), taken + 1) else (.error .bufferFull, taken)
    appendReading := fun _ _ => pure (.error .bufferFull)
    send := pure (.ok ())
    ready := pure true
    connected := pure true }
  board := {}
  now := pure 0
  log := fun _ _ => pure ()

theorem Devices.narrow_steady (room : Nat) (offered : List Entry) :
    (narrow (room + 1)).Steady (fun _ => True) offered where
  within := (narrow (room + 1)).within_of_leads fun _ _ _ => trivial
  connected _ _ := rfl
  ready _ _ := rfl
  opens _ _ := rfl
  sends _ _ := rfl
  accepts w hw e _ := by
    have hempty : w = 0 := by
      induction hw with
      | opened h => rfl
      | logged severity text h ih => exact ih
    rw [hempty]
    rfl

/-! ## The radio that writes frames -/

namespace Frame

open Json

variable {V : Type}

/-- A link that is there, is ready and takes every frame in calm worlds, which
nothing it is asked for leads out of. -/
structure Transport.Steady (link : Transport V) (calm : V → Prop) : Prop where
  transmits : ∀ frame v, calm v → ((link.transmit frame).run v).1 = .ok ()
  isReady : ∀ v, calm v → (link.ready.run v).1 = true
  isConnected : ∀ v, calm v → (link.connected.run v).1 = true
  transmit : ∀ frame, (link.transmit frame).Within (.keeping calm)
  ready : link.ready.Within (.keeping calm)
  allowed : link.allowed.Within (.keeping calm)
  connected : link.connected.Within (.keeping calm)
  reset : link.reset.Within (.keeping calm)

namespace Station

variable {d : Devices V} {link : Transport V} {calm : V → Prop} {capacity : Nat}
  {offered : List Entry} {st : Station V}

/-- The devices of a link's world, with a radio that writes frames for the link. -/
def equip (d : Devices V) (link : Transport V) : Devices (Station V) :=
  { d.through linkPart with radio := radio d.log link }

/-- The link is in a calm world, and the buffer of a size. -/
def Calm (calm : V → Prop) (capacity : Nat) (st : Station V) : Prop :=
  calm st.link ∧ st.draft.capacity = capacity

theorem linkPart_leads (st : Station V) (v : V) (h : (Drift.keeping calm).leads st.link v) :
    (Drift.keeping (Calm calm capacity)).leads st (linkPart.set v st) :=
  fun hst => ⟨h hst.1, hst.2⟩

/-- What is done to the draft alone leaves its size as it is. -/
theorem draftPart_within {α : Type} {a : Action Draft α}
    (ha : ∀ f, (a.run f).2.capacity = f.capacity) :
    (draftPart.run a).Within (.keeping (Calm calm capacity)) :=
  fun st hst => ⟨hst.1, (ha st.draft).trans hst.2⟩

theorem capacity_of_close {f g : Draft} (h : f.close = some g) : g.capacity = f.capacity := by
  unfold Draft.close at h
  split at h
  · cases h
  · exact (Option.some.inj h) ▸ rfl

theorem send_within (hlink : link.Steady calm) (log : Logger V) :
    (radio log link).send.Within (.keeping (Calm calm capacity)) := by
  intro st hst
  rw [send_run]
  cases hclose : st.draft.close with
  | none => exact hst
  | some g => exact ⟨hlink.transmit _ _ hst.1, (capacity_of_close hclose).trans hst.2⟩

theorem equip_within (hd : d.Within (.keeping calm)) (hlink : link.Steady calm) :
    (equip d link).Within (.keeping (Calm calm capacity)) :=
  have hrest : (d.through linkPart).Within (.keeping (Calm calm capacity)) :=
    hd.through linkPart_leads
  { hrest with
    openFrame := draftPart_within Draft.openStep_capacity
    append := fun m t => draftPart_within (Draft.appendStep_capacity m t)
    appendReading := fun m reading =>
      ((Tally.observe_within hrest _ reading).map Prod.fst).bind fun t =>
        draftPart_within (Draft.appendStep_capacity m t)
    send := send_within hlink d.log
    ready := Part.run_within linkPart_leads hlink.ready
    allowed := Part.run_within linkPart_leads hlink.allowed
    connected := Part.run_within linkPart_leads hlink.connected
    reset := Action.Within.bind (fun _ hst => hst) fun _ =>
      Part.run_within linkPart_leads hlink.reset }

/-- A buffer of some size can begin a frame. -/
theorem openStep_eq {f : Draft} (h : 1 + Draft.reserve < f.capacity) :
    f.openStep = (.ok (), ⟨f.capacity, "\x7b"⟩) := by
  have hstart : f.start = some ⟨f.capacity, "\x7b"⟩ := Draft.push_eq_some.mpr ⟨h, rfl⟩
  rw [Draft.openStep, hstart]

/-- A frame that has just been opened has nothing in it. -/
theorem fresh_draft (hroom : 1 + Draft.reserve < capacity)
    (h : (equip d link).Fresh (Calm calm capacity) st) : st.draft = ⟨capacity, "\x7b"⟩ := by
  induction h with
  | @opened before h =>
      obtain ⟨-, rfl⟩ := h
      show before.draft.openStep.2 = _
      rw [openStep_eq hroom]
  | logged severity text h ih => exact ih

theorem fresh_shows (hroom : 1 + Draft.reserve < capacity)
    (h : (equip d link).Fresh (Calm calm capacity) st) : Sheet.Shows st.draft (.writing []) := by
  rw [fresh_draft hroom h]
  exact ⟨by simp [listed], hroom⟩

/-- A frame that is being filled can be closed. -/
theorem filling_shows (hroom : 1 + Draft.reserve < capacity)
    (h : (equip d link).Filling (Calm calm capacity) st) :
    ∃ fields, Sheet.Shows st.draft (.writing fields) := by
  induction h with
  | fresh h => exact ⟨[], fresh_shows hroom h⟩
  | @appended m t before h ih =>
      obtain ⟨fields, hshows⟩ := ih
      have hafter := appendStep_shows hshows m t
      change ∃ fields, Sheet.Shows (before.draft.appendStep m t).2 (.writing fields)
      revert hafter
      cases (before.draft.appendStep m t).1 <;> exact fun hafter => ⟨_, hafter⟩
  | logged severity text h ih => exact ih

/-- The radio that writes frames is steady over a steady link, if its buffer has room for each of
the measurements alone. -/
theorem equip_steady (hd : d.Within (.keeping calm)) (hlink : link.Steady calm)
    (hroom : 1 + Draft.reserve < capacity)
    (hfits : ∀ e ∈ offered,
      1 + (entryText "\x7b" e.name e.tally).utf8ByteSize + Draft.reserve < capacity) :
    (equip d link).Steady (Calm calm capacity) offered where
  within := equip_within hd hlink
  connected st hst := hlink.isConnected st.link hst.1
  ready st hst := hlink.isReady st.link hst.1
  opens st hst := by
    obtain ⟨-, rfl⟩ := hst
    exact congrArg Prod.fst (openStep_eq hroom)
  sends st hst := by
    obtain ⟨fields, hshows⟩ := filling_shows hroom hst
    have hcalm := hst.keeps (equip_within hd hlink)
    show ((radio d.log link).send.run st).1 = _
    rw [send_run, Draft.close_eq hshows]
    show Except.mapError refusal ((link.transmit _).run st.link).1 = _
    rw [hlink.transmits _ _ hcalm.1]
    rfl
  accepts st hst e he := by
    show (st.draft.appendStep e.definition e.tally).1 = _
    rw [Draft.appendStep_eq (fresh_shows hroom hst), fresh_draft hroom hst, if_pos]
    exact hfits e he

end Station

/-- A link that takes every frame, in a world that is the time. -/
def Transport.clocked : Transport Timestamp where
  transmit _ := pure (.ok ())
  ready := pure true
  connected := pure true

theorem Transport.clocked_steady : clocked.Steady fun _ => True where
  transmits _ _ _ := rfl
  isReady _ _ := rfl
  isConnected _ _ := rfl
  transmit _ := .pure _
  ready := .pure _
  allowed := .pure _
  connected := .pure _
  reset := .pure _

end Frame

end Telemetry
