import Telemetry.Proofs.Loops

/-!
# Sensors that stay on

Three edits and a load of the table may switch a sensor. Besides them there is
one place where a node does: a read on the spot switches a sensor on that is
off, and off again. Where every sensor is on that is never done, and a node
then behaves as if its sensors had no switch at all.

That is a congruence argument. Two actions agree in the worlds with a property
if they come to the same there, sequencing respects it as long as the property
is not lost, and only at a read is there something to see.
`Node.performBy_unswitched` carries it up to whole operations.
-/

namespace Telemetry

variable {W α β σ : Type} {inv : W → Prop}

/-- Two actions come to the same in the worlds with a property. -/
def Action.Agrees (inv : W → Prop) (a b : Action W α) : Prop := ∀ w, inv w → a.run w = b.run w

namespace Action.Agrees

variable {a b : Action W α} {f g : α → Action W β}

protected theorem refl (a : Action W α) : Agrees inv a a := fun _ _ => rfl

protected theorem bind (ha : Agrees inv a b) (hkeeps : b.Within (.keeping inv))
    (hf : ∀ x, Agrees inv (f x) (g x)) : Agrees inv (a >>= f) (b >>= g) := by
  intro w hw
  rw [run_bind, run_bind, ha w hw]
  exact hf _ _ (hkeeps w hw)

/-- What follows may be anything if it is the same for both. -/
theorem head (ha : Agrees inv a b) : Agrees inv (a >>= f) (b >>= f) := by
  intro w hw
  rw [run_bind, run_bind, ha w hw]

protected theorem map (f : α → β) (ha : Agrees inv a b) : Agrees inv (f <$> a) (f <$> b) := by
  intro w hw
  rw [run_map, run_map, ha w hw]

end Action.Agrees

theorem Slot.sweepUntil_agrees {visit visit' : Entry → σ → Action W (Entry × σ × Bool)}
    (h : ∀ e s, (visit e s).Agrees inv (visit' e s))
    (hkeeps : ∀ e s, (visit' e s).Within (.keeping inv)) (slots : List Slot) (s : σ) :
    (sweepUntil visit slots s).Agrees inv (sweepUntil visit' slots s) := by
  induction slots generalizing s with
  | nil => exact .refl _
  | cons slot rest ih =>
      cases slot with
      | none => exact (ih s).head
      | some e =>
          refine (h e s).bind (hkeeps e s) fun x => ?_
          obtain ⟨e', s', enough⟩ := x
          cases enough with
          | true => exact .refl _
          | false => exact (ih s').head

/-- The devices with sensors that cannot be switched. -/
def Devices.unswitched (d : Devices W) : Devices W :=
  { d with sensors := { d.sensors with power := fun _ _ => pure () } }

def Watch.unswitched (o : Watch W) : Watch W where
  schedule := o.schedule.unswitched
  aside := o.aside.unswitched
  mark := o.mark

namespace SpotRead

variable (d : Devices W)

theorem askUntil_unswitched (ask : Action W (Reply α)) (limit : UInt64) (began : Timestamp)
    (questions : Nat) :
    askUntil d.unswitched ask limit began questions = askUntil d ask limit began questions := by
  induction questions with
  | zero => rfl
  | succ questions ih =>
      rw [askUntil, askUntil, ih]
      rfl

theorem askFor_unswitched (limit : UInt64) (ask : Action W (Reply α)) :
    askFor d.unswitched limit ask = askFor d limit ask := by
  unfold askFor
  simp only [askUntil_unswitched]
  rfl

-- By `rfl` alone this would count the patience of a read down to zero.
theorem acquire_unswitched : acquire d.unswitched = acquire d := by
  have hawait : ∀ m budget, await d.unswitched m budget = await d m budget := by
    intro m budget
    unfold await
    simp only [askFor_unswitched]
    rfl
  funext fallback timeout m t
  unfold acquire
  simp only [hawait]
  rfl

end SpotRead

/-- Worlds in which no sensor is off, and which only a switch leads out of. -/
structure Devices.StayOn (inv : W → Prop) (d : Devices W) : Prop where
  within : d.unswitched.Within (.keeping inv)
  powered : ∀ m w, inv w → ((d.sensors.powered m).run w).1 ≠ some false

structure Watch.StayOn (inv : W → Prop) (o : Watch W) : Prop where
  within : o.unswitched.Within (.keeping inv)
  powered : ∀ m w, inv w → ((o.aside.sensors.powered m).run w).1 ≠ some false

theorem Watch.StayOn.aside {o : Watch W} (ho : o.StayOn inv) : o.aside.StayOn inv :=
  ⟨ho.within.aside, ho.powered⟩

section

variable {d : Devices W} (hd : d.StayOn inv)
include hd

theorem Entry.read_unswitched (fallback : UInt32) (timeout : Option UInt32) (e : Entry) :
    (e.read d fallback timeout).Agrees inv (e.read d.unswitched fallback timeout) := by
  unfold Entry.read
  split
  · exact .refl _
  · intro w hw
    have hon : (((d.sensors.powered e.definition).run w).1 == some false) = false :=
      beq_eq_false_iff_ne.mpr (hd.powered e.definition w hw)
    have hpowered : d.unswitched.sensors.powered = d.sensors.powered := rfl
    simp only [Action.run_bind, hpowered, SpotRead.acquire_unswitched, hon, Bool.false_eq_true,
      if_false]

theorem Table.read_unswitched (t : Table) (name : String) (timeout : Option UInt32) :
    (t.read d name timeout).Agrees inv (t.read d.unswitched name timeout) := by
  unfold Table.read
  split
  · exact .refl _
  · exact (Entry.read_unswitched hd _ _ _).head

theorem InstantSend.serve_unswitched (fallback : UInt32) (e : Entry) (count : UInt16) :
    (serve d fallback e count).Agrees inv (serve d.unswitched fallback e count) := by
  unfold serve
  split
  · exact .refl _
  · exact (Entry.read_unswitched hd fallback none _).head

theorem InstantSend.run_unswitched (guard : UInt32) (u : Uplink) (clock : TransmitClock)
    (t : Table) : (run d guard u clock t).Agrees inv (run d.unswitched guard u clock t) := by
  unfold run
  split
  · exact .refl _
  · split
    · exact .refl _
    · refine .bind (.refl d.now) hd.within.now fun now => ?_
      split
      · exact .refl _
      · refine .bind (.refl d.radio.openFrame) hd.within.openFrame fun answer => ?_
        cases answer with
        | error cause => exact .refl _
        | ok _ =>
            have hserve := serve_unswitched hd t.fallback
            exact (Slot.sweepUntil_agrees hserve (serve_within hd.within t.fallback) t.slots 0).head

namespace Node

variable (n : Node)

theorem sendRequested_unswitched :
    (n.sendRequested d).Agrees inv (n.sendRequested d.unswitched) :=
  (InstantSend.run_unswitched hd _ _ _ _).head

theorem read_unswitched (name : String) (timeout : Option UInt32) :
    (n.read d name timeout).Agrees inv (n.read d.unswitched name timeout) :=
  (Table.read_unswitched hd _ _ _).head

theorem sendTest_unswitched (name : String) :
    (n.sendTest d name).Agrees inv (n.sendTest d.unswitched name) := by
  unfold sendTest
  refine .bind (.refl d.radio.connected) hd.within.connected fun connected => ?_
  split
  · exact .refl _
  · refine .bind (.refl d.radio.ready) hd.within.ready fun ready => ?_
    split
    · exact .refl _
    · refine .bind (.refl d.radio.openFrame) hd.within.openFrame fun answer => ?_
      cases answer with
      | error cause => exact .refl _
      | ok _ => exact (read_unswitched hd n name none).head

end Node

end

/-- Whether an operation may switch a sensor for longer than a read. -/
def Op.switches : Op → Bool
  | .edit (.add _) | .edit (.remove _) | .edit (.setPeriod _ _) | .load _ _ => true
  | _ => false

namespace Node

variable {o : Watch W} (ho : o.StayOn inv) (n : Node)
include ho

theorem iterateOnlineBy_unswitched :
    (n.iterateOnlineBy o).Agrees inv (n.iterateOnlineBy o.unswitched) := by
  unfold iterateOnlineBy
  have hready := ho.within.aside.ready
  refine Action.Agrees.head (.bind (.refl o.aside.radio.ready) hready fun ready => ?_)
  split
  · exact sendRequested_unswitched ho.aside n
  · exact .refl _

theorem iterateBy_unswitched : (n.iterateBy o).Agrees inv (n.iterateBy o.unswitched) := by
  unfold iterateBy
  split
  · exact .refl _
  · refine .bind (.refl o.schedule.radio.connected) ho.within.schedule.connected fun connected => ?_
    split
    · exact .refl _
    · split
      · exact .refl _
      · exact iterateOnlineBy_unswitched ho n

/-- Where every sensor is on, a node does as if it could not be switched. -/
theorem performBy_unswitched {op : Op} (hop : op.switches = false) :
    (n.performBy o op).Agrees inv (n.performBy o.unswitched op) := by
  cases op with
  | iterate => exact (iterateBy_unswitched ho n).map _
  | answer good => exact .refl _
  | setEnabled enabled => exact .refl _
  | setPower power => exact .refl _
  | setInterval interval => exact .refl _
  | edit e =>
      cases e with
      | add m => cases hop
      | remove name => cases hop
      | setPeriod name period => cases hop
      | rename old new => exact .refl _
      | setSampleCount name sampleCount => exact .refl _
      | setImmediate name immediate => exact .refl _
      | request name => exact .refl _
  | load persisted defaults => cases hop
  | read name timeout => exact (read_unswitched ho.aside n name timeout).map _
  | collectionTimeout name => exact .refl _
  | sendTest name => exact (sendTest_unswitched ho.aside n name).map _

end Node

end Telemetry
