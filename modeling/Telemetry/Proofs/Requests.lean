import Telemetry.Proofs.Restoring
import Telemetry.Proofs.Steady

/-!
# What becomes of a request

A request for a send outside the schedule waits in the table until a round of
such sends takes it up, and a round that is refused, or gets no frame, leaves
all requests as they are. Otherwise the round takes them up one by one, in the
order of the slots, and stops where its frame is full.

A request that is taken up is cleared at once, before its sensor is read, its
reading is put into the frame and the frame is handed over. So it is spent
whatever comes of that. `Fate` lists all that may come of it: the read fails, or
its reading goes out, or the full frame refuses the reading, or the radio does not
send the frame it is in. In the last two cases the reading is lost and nothing is
tried again, though the sensor did its part; only the requests behind a full frame
wait for the next round.
-/

namespace Telemetry.InstantSend

variable {W : Type} {v : Voice}

/-- What comes of the measurement of slot `i` in a round that has a frame, stops at the slot `stop`
if its frame is full there, comes to `outcome` and makes `final` as its last call: the measurement
afterwards, and the calls made for it. -/
inductive Fate (fallback : UInt32) (stop : Option Nat) (outcome : Except SendError UInt16)
    (final : Option Call) (i : Nat) (e : Entry) : Entry → List Call → Prop where
  | unasked (h : e.tally.instantRequested = false) : Fate fallback stop outcome final i e e []
  /-- The round stops before it comes to the request. -/
  | kept {k : Nat} (hstop : stop = some k) (hk : k < i) : Fate fallback stop outcome final i e e []
  /-- Its own read fails. -/
  | unread (h : e.tally.instantRequested = true) (hreached : ∀ k, stop = some k → i < k)
      {wasOff : Bool} {e' : Entry} {cause : ReadError} {calls : List Call}
      (hread : (unrequested e).Reads fallback wasOff (e', .error cause) calls) :
      Fate fallback stop outcome final i e e' calls
  /-- Its reading is in a frame that goes out. -/
  | sent (h : e.tally.instantRequested = true) (hreached : ∀ k, stop = some k → i < k)
      {wasOff : Bool} {e' : Entry} {r : Reading} {calls : List Call}
      (hread : (unrequested e).Reads fallback wasOff (e', .ok r) calls)
      {count : UInt16} (houtcome : outcome = .ok count) (hfinal : final = some (.send (.ok ()))) :
      Fate fallback stop outcome final i e e' (calls ++ [.appendReading e.definition r (.ok ())])
  /-- Its reading is in a frame that does not go out. -/
  | unsent (h : e.tally.instantRequested = true) (hreached : ∀ k, stop = some k → i < k)
      {wasOff : Bool} {e' : Entry} {r : Reading} {calls : List Call}
      (hread : (unrequested e).Reads fallback wasOff (e', .ok r) calls)
      {cause : FrameError} (houtcome : outcome = .error (.frame cause))
      (hfinal : final = some (.send (.error cause))) :
      Fate fallback stop outcome final i e e' (calls ++ [.appendReading e.definition r (.ok ())])
  /-- Its reading does not fit into the frame, and the round ends here. -/
  | full (h : e.tally.instantRequested = true) (hstop : stop = some i)
      {wasOff : Bool} {e' : Entry} {r : Reading} {calls : List Call}
      (hread : (unrequested e).Reads fallback wasOff (e', .ok r) calls) (cause : FrameError) :
      Fate fallback stop outcome final i e e'
        (calls ++ [.appendReading e.definition r (.error cause)])

section

variable {fallback : UInt32} {stop : Option Nat} {outcome : Except SendError UInt16}
  {final : Option Call} {i : Nat} {e e' : Entry} {own : List Call}

theorem instantRequested_of_reads {wasOff : Bool} {result : Except ReadError Reading}
    (h : (unrequested e).Reads fallback wasOff (e', result) own) :
    e'.tally.instantRequested = false := by
  obtain ⟨leadTime, rfl⟩ : (unrequested e).Restored e' := h.readTo.restored
  rfl

/-- Only a round that stops before it comes to a request leaves it. -/
theorem Fate.instantRequested_iff (h : Fate fallback stop outcome final i e e' own) :
    e'.tally.instantRequested = true ↔
      e.tally.instantRequested = true ∧ ∃ k, stop = some k ∧ k < i := by
  have hcleared : e'.tally.instantRequested = false → (∀ k, stop = some k → i ≤ k) →
      (e'.tally.instantRequested = true ↔
        e.tally.instantRequested = true ∧ ∃ k, stop = some k ∧ k < i) := by
    rintro hfalse hreached
    refine iff_of_false (by rw [hfalse]; exact Bool.false_ne_true) ?_
    rintro ⟨-, k, hstop, hk⟩
    exact absurd (hreached k hstop) (Nat.not_le_of_lt hk)
  cases h with
  | unasked h => rw [h]; exact iff_of_false Bool.false_ne_true fun h => Bool.false_ne_true h.1
  | kept hstop hk => exact ⟨fun h => ⟨h, _, hstop, hk⟩, And.left⟩
  | unread h hreached hread =>
      exact hcleared (instantRequested_of_reads hread) fun k hk => Nat.le_of_lt (hreached k hk)
  | sent h hreached hread houtcome hfinal =>
      exact hcleared (instantRequested_of_reads hread) fun k hk => Nat.le_of_lt (hreached k hk)
  | unsent h hreached hread houtcome hfinal =>
      exact hcleared (instantRequested_of_reads hread) fun k hk => Nat.le_of_lt (hreached k hk)
  | full h hstop hread cause =>
      refine hcleared (instantRequested_of_reads hread) fun k hk => ?_
      rw [hstop] at hk
      cases hk
      exact Nat.le_refl i

end

/-- A round with a frame takes up all requests up to the slot at which its frame is full, and then
hands the frame over. -/
structure TakesUp (t : Table) (x : Table × Except SendError UInt16) (calls : List Call)
    (stop : Option Nat) : Prop where
  opened : calls.head? = some (.openFrame (.ok ()))
  handed : ∃ count more, Hands count x.2 more ∧ more <:+ calls
  full : ∀ k, stop = some k → ∃ e, t.get? k = some e ∧ e.tally.instantRequested = true
  fate : ∀ i e, t.get? i = some e → ∃ e' own, x.1.get? i = some e' ∧ own <:+: calls ∧
    Fate t.fallback stop x.2 calls.getLast? i e e' own ∧
      (e'.tally.instantRequested = true ↔
        e.tally.instantRequested = true ∧ ∃ k, stop = some k ∧ k < i)

/-! ## The frame of a round -/

theorem succ16_ne_zero (count : UInt16) : Saturating.succ16 count ≠ 0 := by
  intro h
  have hsucc := Saturating.toNat_succ16 count
  rw [h, UInt16.toNat_zero, UInt16.size] at hsucc
  omega

/-- A frame that holds a reading does not become empty again. -/
theorem Serves.ne_zero {fallback : UInt32} {e e' : Entry} {count count' : UInt16} {stop : Bool}
    {calls : List Call} (h : Serves fallback e count (e', count', stop) calls)
    (hcount : count ≠ 0) : count' ≠ 0 := by
  cases h with
  | idle h => exact hcount
  | unread h hread => exact hcount
  | full h hread cause => exact hcount
  | queued h hread => exact succ16_ne_zero count

/-- What comes of a request that the round has come to. -/
theorem fate_of_serves {fallback : UInt32} {stop : Option Nat} {i : Nat} {e e' : Entry}
    {count count' total : UInt16} {stops : Bool} {own more : List Call}
    {outcome : Except SendError UInt16} (calls : List Call)
    (h : Serves fallback e count (e', count', stops) own) (hreached : ∀ k, stop = some k → i ≤ k)
    (hstops : stops = true ↔ stop = some i) (htotal : count' ≠ 0 → total ≠ 0)
    (hhand : Hands total outcome more) :
    Fate fallback stop outcome (calls ++ more).getLast? i e e' own := by
  have hbefore : stops = false → ∀ k, stop = some k → i < k := by
    intro hfalse k hk
    refine Nat.lt_of_le_of_ne (hreached k hk) ?_
    rintro rfl
    exact Bool.false_ne_true (hfalse.symm.trans (hstops.mpr hk))
  cases h with
  | idle h => exact .unasked h
  | unread h hread => exact .unread h (hbefore rfl) hread
  | full h hread cause => exact .full h (hstops.mp rfl) hread cause
  | queued h hread =>
      -- the frame holds this reading, so it is handed over
      cases hhand with
      | nothing hzero => exact absurd hzero (htotal (succ16_ne_zero count))
      | failed hsome cause =>
          exact .unsent h (hbefore rfl) hread rfl List.getLast?_concat
      | sent hsome => exact .sent h (hbefore rfl) hread rfl List.getLast?_concat

theorem Rounds.takesUp {guard : UInt32} {u : Uplink} {clock : TransmitClock} {now : Timestamp}
    {t : Table} {x : Table × Except SendError UInt16} {calls : List Call}
    (h : Rounds guard u clock now t x calls) :
    x.1 = t ∧ Declines guard u clock now t x.2 calls ∨ ∃ stop, TakesUp t x calls stop := by
  cases h with
  | declined h => exact .inl ⟨rfl, h⟩
  | @served slots count stop outcome calls more h hhand =>
      obtain ⟨-, hvisits⟩ := h.at_reached (fun count count' => count ≠ 0 → count' ≠ 0)
        (fun _ => id) (fun _ _ _ h h' hne => h' (h hne)) fun _ _ _ _ _ _ hserve => hserve.ne_zero
      refine .inr ⟨stop, rfl, ?_, ?_, ?_⟩
      · exact ⟨count, more, hhand, .openFrame (.ok ()) :: calls, rfl⟩
      · intro k hstop
        obtain ⟨e, hslot⟩ := h.at_stop hstop
        obtain ⟨e', s₁, s₂, stops, before, own, after, -, -, hserve, -, hstops⟩ :=
          hvisits k e hslot fun k' hk' => Nat.le_of_eq (Option.some.inj (hstop.symm.trans hk'))
        cases hstops.mpr hstop
        cases hserve with
        | full hasked hread cause => exact ⟨e, Table.get?_eq_some.mpr hslot, hasked⟩
      · intro i e hi
        have hslot := Table.get?_eq_some.mp hi
        rcases Slot.Swept.reached_or_behind stop i with hreached | ⟨k, hstop, hk⟩
        · obtain ⟨e', s₁, s₂, stops, before, own, after, hi', rfl, hserve, hlater, hstops⟩ :=
            hvisits i e hslot hreached
          have hfate := fate_of_serves (.openFrame (.ok ()) :: (before ++ own ++ after)) hserve
            hreached hstops hlater hhand
          refine ⟨e', own, Table.get?_eq_some.mpr hi', ?_, hfate, hfate.instantRequested_iff⟩
          refine ⟨.openFrame (.ok ()) :: before, after ++ more, ?_⟩
          simp only [List.cons_append, List.append_assoc]
        · refine ⟨e, [], ?_, List.nil_infix, .kept hstop hk, fun hasked => ?_, And.left⟩
          · exact Table.get?_eq_some.mpr ((h.at_rest hstop hk).trans hslot)
          · exact ⟨hasked, k, hstop, hk⟩

/-- Whatever the table, its requests, the uplink, the sensors and the radio are: a round of sends
outside the schedule is declined for a reason and changes nothing, or it takes up the requests up to
the slot at which its frame is full, and none behind it. What it takes up is cleared, whether or not
it goes out. -/
theorem run_takesUp (d : Devices W) (guard : UInt32) (u : Uplink) (clock : TransmitClock)
    (t : Table) (w : W) :
    Action.SpeaksAt v (run (d.voiced v) guard u clock t) (run d guard u clock t) w
      fun x _ calls => x.1 = t ∧ Declines guard u clock (d.now.run w).1 t x.2 calls ∨
        ∃ stop, TakesUp t x calls stop :=
  (run_rounds d guard u clock t w).imp fun _ _ _ h => h.takesUp

end Telemetry.InstantSend

namespace Telemetry

/-! ## A frame that is too small -/

/-- Sensors that answer at once, and a radio whose frames have room for some readings. -/
def Devices.snug (room : Nat) : Devices Nat :=
  let rest := Devices.narrow room
  { rest with
    sensors := { rest.sensors with collect := fun _ => pure (.done (.integer 1)) }
    radio := { rest.radio with
      appendReading := fun _ _ => Action.step fun taken =>
        if taken < room then (.ok (), taken + 1) else (.error .bufferFull, taken) } }

/-- Three measurements that are all asked for. -/
def Table.wanted : Table where
  slots := ["A", "B", "C"].map fun name =>
    some ⟨⟨name, .custom0, 1, 1, false⟩, { instantRequested := true }⟩

/-- With room for one reading the first goes out, the third waits, and the second is lost. -/
theorem InstantSend.run_takesUp_snug :
    let r := (run ((Devices.snug 1).voiced .aside) 100 { capacity := 3 }
      { interval := 1000, began := 0 } .wanted).run (0, [])
    r.1.2 = .ok 1 ∧
      r.1.1.entries.map (·.tally.instantRequested) = [false, false, true] ∧
      ∃ calls, r.2.2 = Voice.aside.notes calls ∧ TakesUp .wanted r.1 calls (some 1) := by
  intro r
  have hsecond : (r.1.1.get? 1).map (·.tally.instantRequested) = some false := by decide +kernel
  have hthird : (r.1.1.get? 2).map (·.tally.instantRequested) = some true := by decide +kernel
  refine ⟨by decide +kernel, by decide +kernel, ?_⟩
  obtain ⟨calls, hrun, h⟩ := run_takesUp (v := .aside) (Devices.snug 1) 100
    { capacity := 3 } { interval := 1000, began := 0 } .wanted 0 []
  rw [← congrArg Prod.fst hrun] at h
  refine ⟨calls, congrArg (·.2.2) hrun, ?_⟩
  obtain ⟨hsame, -⟩ | ⟨stop, h⟩ := h
  · rw [hsame] at hsecond
    cases hsecond
  · obtain ⟨_, _, hget, -, -, hkept⟩ := h.fate 2 _ rfl
    rw [hget] at hthird
    obtain ⟨-, k, rfl, hk⟩ := hkept.mp (Option.some.inj hthird)
    obtain ⟨_, _, hget, -, -, hkept⟩ := h.fate 1 _ rfl
    rw [hget] at hsecond
    have hcleared := Option.some.inj hsecond
    have hge : 1 ≤ k := Nat.le_of_not_lt fun hlt =>
      Bool.false_ne_true (hcleared.symm.trans (hkept.mpr ⟨rfl, k, rfl, hlt⟩))
    obtain rfl : k = 1 := by omega
    exact h

end Telemetry
