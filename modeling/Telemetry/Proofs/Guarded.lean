import Telemetry.Proofs.Budgets
import Telemetry.Proofs.Restoring
import Telemetry.Proofs.TickEnds

/-!
# How far the guard of a round reaches

A round of sends outside the schedule asks once, before it does anything, whether
more than a guard is left of the running tick. Then it reads its measurements, one
after the other, and only then it hands its frame over. What was true at the
question need not be true at the hand-over: it is exactly if the reads took no
more than what was left beyond the guard (`Guarded`), and nothing in the round sees
to that. The other question, whether a fragmented cycle is under way, is settled
for the whole round, as it has no way to touch the uplink.

How long the reads take is up to the sensors, but they say so. Where only passing
a moment moves the clock, a read is over within the time its sensor has named and
the length of a moment, and so `allowances` adds up what a whole round may take.
-/

namespace Telemetry

variable {W : Type} {v : Voice} {time : W → Timestamp}

namespace InstantSend

/-- What a round does once it is clear to go, up to the hand-over of its frame. -/
def gather (d : Devices W) (t : Table) : Action W (List Slot × UInt16 × Option Nat) := do
  let _ ← d.now
  let _ ← d.radio.openFrame
  Slot.sweepUntil (serve d t.fallback) t.slots 0

/-- A round that asks in one world and hands its frame over in another. -/
structure Guarded (time : W → Timestamp) (guard : UInt32) (u : Uplink) (clock : TransmitClock)
    (w w₁ : W) : Prop where
  whole : u.midFragment = false
  clear : guard.toUInt64 < clock.remaining (time w)
  later : time w ≤ time w₁
  /-- It is still clear if the tick has not gone on for too long in between. -/
  clear_iff : guard.toUInt64 < clock.remaining (time w₁) ↔
    guard.toNat + ((clock.elapsed (time w₁)).toNat - (clock.elapsed (time w)).toNat) <
      (clock.remaining (time w)).toNat

end InstantSend

/-! ## The tick while a round goes on -/

namespace TransmitClock

theorem toNat_elapsed (c : TransmitClock) (now : Timestamp) :
    (c.elapsed now).toNat = now.toNat - c.began.toNat :=
  Saturating.toNat_sub now c.began

theorem toNat_remaining (c : TransmitClock) (now : Timestamp) :
    (c.remaining now).toNat = c.interval.toNat - (now.toNat - c.began.toNat) := by
  rw [remaining, Saturating.toNat_sub, toNat_elapsed, UInt32.toNat_toUInt64]

/-- What is left beyond a guard shrinks by as much as the tick goes on. -/
theorem clear_iff (c : TransmitClock) (guard : UInt32) {now later : Timestamp} (h : now ≤ later) :
    guard.toUInt64 < c.remaining later ↔
      guard.toNat + ((c.elapsed later).toNat - (c.elapsed now).toNat) <
        (c.remaining now).toNat := by
  have hle := UInt64.le_iff_toNat_le.mp h
  rw [UInt64.lt_iff_toNat_lt, UInt32.toNat_toUInt64, toNat_remaining, toNat_remaining,
    toNat_elapsed, toNat_elapsed]
  omega

/-- A tick that has enough left beyond a guard stays clear for as long as that. -/
theorem clear_of_le (c : TransmitClock) (guard : UInt32) {now later : Timestamp} {spent : Nat}
    (hlater : later.toNat ≤ now.toNat + spent)
    (hclear : guard.toNat + spent < (c.remaining now).toNat) :
    guard.toUInt64 < c.remaining later := by
  rw [toNat_remaining] at hclear
  rw [UInt64.lt_iff_toNat_lt, UInt32.toNat_toUInt64, toNat_remaining]
  omega

end TransmitClock

/-! ## What the reads may take -/

/-- How long the read may take in which a call is made, by what the sensor says: a moment more
than the time it names. -/
def Call.allowance (fallback : UInt32) (span : Nat) : Call → Nat
  | .collectionTime _ answer => (Reply.leadTime fallback answer).toNat + span
  | _ => 0

def allowances (fallback : UInt32) (span : Nat) : List Call → Nat
  | [] => 0
  | c :: rest => c.allowance fallback span + allowances fallback span rest

theorem allowances_append (fallback : UInt32) (span : Nat) (calls more : List Call) :
    allowances fallback span (calls ++ more) =
      allowances fallback span calls + allowances fallback span more := by
  induction calls with
  | nil => exact (Nat.zero_add _).symm
  | cons c rest ih => rw [List.cons_append, allowances, allowances, ih, Nat.add_assoc]

/-- No more time goes by than the calls allow, as far as the clock goes on that long. -/
def Takes (fallback : UInt32) (span last : Nat) (start finish : Timestamp) (calls : List Call) :
    Prop :=
  start.toNat + allowances fallback span calls ≤ last →
    finish.toNat ≤ start.toNat + allowances fallback span calls

section

variable {fallback : UInt32} {span last : Nat}

theorem Takes.of_eq {start finish : Timestamp} {calls : List Call} (h : finish = start) :
    Takes fallback span last start finish calls := by
  intro _
  rw [h]
  exact Nat.le_add_right _ _

theorem Takes.trans {start mid finish : Timestamp} {calls more : List Call}
    (h : Takes fallback span last start mid calls)
    (hmore : Takes fallback span last mid finish more) :
    Takes fallback span last start finish (calls ++ more) := by
  intro hlast
  rw [allowances_append] at hlast ⊢
  have hfirst := h (by omega)
  have hsecond := hmore (by omega)
  omega

/-- A read that has the time its sensor names takes no more than is allowed. -/
theorem SpotRead.Course.takes {m : Definition} {start finish : Timestamp}
    {x : Except ReadError Reading} {calls : List Call}
    (h : Course m (budgetOf fallback none) span last start.toNat x calls finish.toNat) :
    Takes fallback span last start finish calls := by
  unfold Takes
  generalize finish.toNat = finish at h
  cases h with
  | unstarted answer h => exact fun _ => Nat.le_add_right _ _
  | @started own finish answer h =>
      intro hlast
      have hnamed : allowances fallback span (.start m true (.done ()) ::
          .collectionTime m answer :: own) =
          budgetOf fallback none answer + span + allowances fallback span own := Nat.zero_add _
      rw [hnamed] at hlast ⊢
      have hkeeps := (h (by omega)).finish_lt
      omega

theorem allowances_powering (m : Definition) (wasOff : Bool) (calls : List Call) :
    allowances fallback span (SpotRead.powering m wasOff calls) =
      allowances fallback span calls := by
  unfold SpotRead.powering
  split
  · rw [allowances, allowances_append]
    exact Nat.zero_add _
  · rfl

variable {d : Devices W} (hd : d.Paced time span last) (hspan : 0 < span)
include hd hspan

theorem Entry.read_takes (fallback : UInt32) (e : Entry) (w : W) :
    Action.SpeaksAt v (e.read (d.voiced v) fallback none) (e.read d fallback none) w
      fun _ w' calls => Takes fallback span last (time w) (time w') calls := by
  have hacquire : ∀ w, Action.SpeaksAt v
      (SpotRead.acquire (d.voiced v) fallback none e.definition e.tally)
      (SpotRead.acquire d fallback none e.definition e.tally) w
      fun _ w' calls => Takes fallback span last (time w) (time w') calls := by
    intro w
    have hcourse := SpotRead.acquire_course hd (v := v) fallback none e.definition e.tally hspan w
    exact hcourse.imp fun _ _ _ h => h.takes
  refine (e.read_around hd fallback none w
    (fun start _ own finish => Takes fallback span last start finish own) hacquire).imp ?_
  rintro x w' calls (⟨-, -, htime⟩ | ⟨own, rfl, h⟩)
  · exact .of_eq htime
  · rw [Takes, allowances_powering]
    exact h

namespace InstantSend

theorem serve_takes (fallback : UInt32) (e : Entry) (count : UInt16) (w : W) :
    Action.SpeaksAt v (serve (d.voiced v) fallback e count) (serve d fallback e count) w
      fun _ w' calls => Takes fallback span last (time w) (time w') calls := by
  have hlog : ∀ severity text now, (d.log severity text).Within (.keeping fun w => time w = now) :=
    fun severity text now => (hd.still now).log severity text
  unfold serve
  split
  · exact .pure (.of_eq rfl)
  · refine ((unrequested e).read_takes hd hspan fallback w).bind ?_
    intro x w₁ calls h
    obtain ⟨e', result⟩ := x
    cases result with
    | error cause =>
        refine .passing (d.log_speaks _ _) (hlog _ _) fun w' htime => .pure ?_
        exact h.trans (.of_eq htime)
    | ok r =>
        refine (Action.SpeaksAt.still (d.appendReading_speaks _ r)
          (fun now => (hd.still now).appendReading _ r) w₁).bind ?_
        intro answer w₂ own happend
        cases answer with
        | error cause =>
            refine .passing (d.log_speaks _ _) (hlog _ _) fun w' htime => .pure ?_
            exact h.trans (.of_eq (htime.trans happend.1))
        | ok _ => exact .pure (h.trans (.of_eq happend.1))

theorem sweep_takes (t : Table) (w : W) :
    Action.SpeaksAt v (Slot.sweepUntil (serve (d.voiced v) t.fallback) t.slots 0)
      (Slot.sweepUntil (serve d t.fallback) t.slots 0) w
      fun _ w' calls => Takes t.fallback span last (time w) (time w') calls :=
  Slot.sweepUntil_speaksAt
    (fun w w' calls => Takes t.fallback span last (time w) (time w') calls)
    (fun _ => .of_eq rfl) (fun _ _ _ _ _ => Takes.trans)
    (fun e count w => serve_takes hd hspan t.fallback e count w) t.slots 0 w

end InstantSend

end

/-! ## The hand-over -/

namespace InstantSend

theorem not_send_of_reads {e : Entry} {fallback : UInt32} {wasOff : Bool}
    {x : Entry × Except ReadError Reading} {calls : List Call} (h : e.Reads fallback wasOff x calls)
    (answer : Except FrameError Unit) : .send answer ∉ calls := by
  intro hmem
  cases h with
  | refused h => exact List.not_mem_nil hmem
  | made h hacquire =>
      rcases SpotRead.mem_powering hmem with hown | ⟨on, heq⟩
      · cases hacquire.ofRead _ hown with
        | waiting hwait => cases hwait
      · cases heq

/-- Serving requests hands nothing over. -/
theorem Serves.not_send {fallback : UInt32} {e : Entry} {count : UInt16}
    {x : Entry × UInt16 × Bool} {calls : List Call} (h : Serves fallback e count x calls)
    (answer : Except FrameError Unit) : .send answer ∉ calls := by
  have happended : ∀ {calls : List Call} {m : Definition} {r : Reading}
      {accepted : Except FrameError Unit}, .send answer ∉ calls →
        .send answer ∉ calls ++ [.appendReading m r accepted] := by
    intro calls m r accepted hnone hmem
    rcases List.mem_append.mp hmem with hmem | hmem
    · exact hnone hmem
    · cases List.mem_singleton.mp hmem
  cases h with
  | idle h => exact List.not_mem_nil
  | unread h hread => exact not_send_of_reads hread answer
  | full h hread cause => exact happended (not_send_of_reads hread answer)
  | queued h hread => exact happended (not_send_of_reads hread answer)

theorem sweep_not_send (d : Devices W) (t : Table) :
    Action.Speaks v (Slot.sweepUntil (serve (d.voiced v) t.fallback) t.slots 0)
      (Slot.sweepUntil (serve d t.fallback) t.slots 0)
      fun _ calls => ∀ answer, .send answer ∉ calls := by
  refine (Slot.sweepUntil_speaks (serve_speaks d t.fallback) t.slots 0).imp ?_
  intro x calls h answer hmem
  obtain ⟨j, e, count, y, own, -, hserve, hown⟩ := h.calls_of _ hmem
  exact hserve.not_send answer hown

theorem handOver_speaksAt (d : Devices W) (count : UInt16) (w : W) :
    Action.SpeaksAt v (handOver (d.voiced v) count) (handOver d count) w
      fun _ w' calls => ∀ answer, .send answer ∈ calls →
        calls = [.send answer] ∧ d.radio.send.run w = (answer, w') := by
  unfold handOver
  split
  · exact .after (d.log_speaks _ _) (.pure fun _ h => absurd h List.not_mem_nil)
  · refine (Action.SpeaksAt.of_speaks d.send_speaks w).bind ?_
    intro answer w' _ h
    obtain ⟨hanswer, hworld, rfl⟩ := h
    have hsent : ∀ answer', Call.send answer' ∈ [Call.send answer] →
        [Call.send answer] = [.send answer'] ∧ d.radio.send.run w = (answer', w') := by
      intro answer' hmem
      cases List.mem_singleton.mp hmem
      exact ⟨rfl, by rw [hanswer, hworld]⟩
    cases answer with
    | error cause => exact .pure hsent
    | ok _ => exact .pure hsent

/-- A round that hands its frame over was clear to go at its beginning, and hands it over in the
world that its reads have left. -/
theorem run_hands (d : Devices W) (guard : UInt32) (u : Uplink) (clock : TransmitClock) (t : Table)
    (w : W) {along : W → W → List Call → Prop}
    (hsweep : ∀ w, Action.SpeaksAt v (Slot.sweepUntil (serve (d.voiced v) t.fallback) t.slots 0)
      (Slot.sweepUntil (serve d t.fallback) t.slots 0) w fun _ w' calls => along w w' calls) :
    Action.SpeaksAt v (run (d.voiced v) guard u clock t) (run d guard u clock t) w
      fun _ w' calls => ∀ answer, .send answer ∈ calls →
        u.midFragment = false ∧ guard.toUInt64 < clock.remaining (d.now.run w).1 ∧
        d.radio.send.run ((gather d t).run w).2 = (answer, w') ∧
        ∃ own, calls = .openFrame (.ok ()) :: (own ++ [.send answer]) ∧
          along (d.radio.openFrame.run (d.now.run w).2).2 ((gather d t).run w).2 own := by
  unfold run
  split
  · exact .pure fun _ h => absurd h List.not_mem_nil
  · split
    · exact .after (d.log_speaks _ _) (.pure fun _ h => absurd h List.not_mem_nil)
    · next hwhole =>
        refine .after d.now_speaks ?_
        split
        · exact .after (d.log_speaks _ _) (.pure fun _ h => absurd h List.not_mem_nil)
        · next hclear =>
            refine (Action.SpeaksAt.of_speaks d.openFrame_speaks _).bind ?_
            intro opened w₁ _ h
            obtain ⟨-, rfl, rfl⟩ := h
            cases opened with
            | error cause =>
                refine .after (d.log_speaks _ _) (.pure ?_)
                intro answer hmem
                cases List.mem_singleton.mp hmem
            | ok _ =>
                refine ((Action.SpeaksAt.of_speaks (sweep_not_send d t) _).and (hsweep _)).bind ?_
                intro x w₂ own h
                obtain ⟨⟨-, rfl, hnone⟩, halong⟩ := h
                obtain ⟨slots, count, stop⟩ := x
                refine (handOver_speaksAt d count _).bind ?_
                intro outcome w' more hhand
                refine .pure fun answer hmem => ?_
                have hlast : .send answer ∈ more := by
                  rw [List.append_nil, List.singleton_append, List.mem_cons,
                    List.mem_append] at hmem
                  rcases hmem with heq | hmem | hmem
                  · cases heq
                  · exact absurd hmem (hnone answer)
                  · exact hmem
                obtain ⟨rfl, hsend⟩ := hhand answer hlast
                have hcalls : [Call.openFrame (.ok ())] ++ (own ++ ([.send answer] ++ [])) =
                    .openFrame (.ok ()) :: (own ++ [.send answer]) := rfl
                exact ⟨Bool.eq_false_iff.mpr hwhole, UInt64.not_le.mp hclear, hsend, own, hcalls,
                  halong⟩

/-- What counts as sent has been handed over. -/
theorem Rounds.send_of_ok {guard : UInt32} {u : Uplink} {clock : TransmitClock} {now : Timestamp}
    {t : Table} {x : Table × Except SendError UInt16} {calls : List Call} {count : UInt16}
    (h : Rounds guard u clock now t x calls) (houtcome : x.2 = .ok count) (hcount : count ≠ 0) :
    .send (.ok ()) ∈ calls := by
  cases h with
  | declined h =>
      cases h with
      | idle h =>
          cases houtcome
          exact absurd rfl hcount
      | underway h => cases houtcome
      | imminent h => cases houtcome
      | unopened cause => cases houtcome
  | served h hhand =>
      cases hhand with
      | nothing hzero => cases houtcome
      | failed hsome cause => cases houtcome
      | sent hsome =>
          exact List.mem_cons_of_mem _ (List.mem_append_right _ List.mem_cons_self)

theorem gather_within {d : Devices W} {r : Drift W} (hd : d.Within r) (t : Table) :
    (gather d t).Within r :=
  hd.now.bind fun _ => hd.openFrame.bind fun _ =>
    Slot.sweepUntil_within (serve_within hd t.fallback) t.slots 0

/-- A round that hands its frame over was clear to go when it began, and is still clear at the
hand-over exactly if the tick has not gone on, in between, for as long as there was left beyond the
guard. Where only passing a moment moves the clock it is, if there was more left than the sensors
have said that their reads take. -/
theorem run_guarded {d : Devices W} (hd : d.Forward time) (guard : UInt32) (u : Uplink)
    (clock : TransmitClock) (t : Table) (w : W) :
    (Action.SpeaksAt v (run (d.voiced v) guard u clock t) (run d guard u clock t) w
      fun _ w' calls => ∀ answer, .send answer ∈ calls →
        d.radio.send.run ((gather d t).run w).2 = (answer, w') ∧
          Guarded time guard u clock w ((gather d t).run w).2) ∧
    ∀ span last, d.Paced time span last → 0 < span →
      Action.SpeaksAt v (run (d.voiced v) guard u clock t) (run d guard u clock t) w
        fun _ _ calls => ∀ answer, .send answer ∈ calls →
          (time w).toNat + allowances t.fallback span calls ≤ last →
          guard.toNat + allowances t.fallback span calls < (clock.remaining (time w)).toNat →
          guard.toUInt64 < clock.remaining (time ((gather d t).run w).2) := by
  constructor
  · have hany : ∀ w, Action.SpeaksAt v (Slot.sweepUntil (serve (d.voiced v) t.fallback) t.slots 0)
        (Slot.sweepUntil (serve d t.fallback) t.slots 0) w fun _ _ _ => True :=
      fun w => (Action.SpeaksAt.of_speaks (sweep_not_send d t) w).imp fun _ _ _ _ => trivial
    refine (run_hands d guard u clock t w hany).imp ?_
    intro x w' calls h answer hmem
    obtain ⟨hwhole, hclear, hsend, -⟩ := h answer hmem
    rw [hd.now] at hclear
    have hlater := (gather_within hd.within t).time_le w
    exact ⟨hsend, hwhole, hclear, hlater, clock.clear_iff guard hlater⟩
  · intro span last hpaced hspan
    refine (run_hands d guard u clock t w fun w => sweep_takes hpaced hspan t w).imp ?_
    intro x w' calls h answer hmem hlast hroom
    obtain ⟨-, -, -, own, rfl, htakes⟩ := h answer hmem
    have hbegan : time (d.radio.openFrame.run (d.now.run w).2).2 = time w :=
      ((hpaced.still _).openFrame _ rfl).trans ((hpaced.still _).now w rfl)
    have hcalls : allowances t.fallback span (.openFrame (.ok ()) :: (own ++ [.send answer])) =
        allowances t.fallback span own := by
      rw [allowances, allowances_append]
      exact Nat.zero_add _
    rw [hcalls] at hlast hroom
    rw [Takes, hbegan] at htakes
    exact clock.clear_of_le guard (htakes hlast) hroom

end InstantSend

/-! ## A round that takes too long -/

theorem Devices.sluggish_forward (took : UInt32) (ready step : Timestamp) :
    (sluggish took ready step).Forward id where
  within :=
    { Devices.obliging_within took (.forward id) with
      collect := fun _ w => UInt64.le_refl _
      spin := fun w => by
        have hw := w.toNat_lt
        have hadd := Saturating.toNat_add w step
        rw [UInt64.size] at hadd
        refine UInt64.le_iff_toNat_le.mpr ?_
        change w.toNat ≤ (Saturating.add w step).toNat
        omega }
  now _ := rfl

/-- Half of a tick of a second is left and the guard is 100 ms, but the read takes 800 ms: the frame
is handed over long after the tick is over. -/
theorem InstantSend.run_guarded_sluggish :
    let d := Devices.sluggish 900 1300 400
    let clock : TransmitClock := { interval := 1000, began := 0 }
    let e : Entry := ⟨⟨"A", .custom0, 1, 1, false⟩, { instantRequested := true }⟩
    let t : Table := { slots := [some e] }
    let r := (run (d.voiced .aside) 100 { capacity := 1 } clock t).run (500, [])
    r.1.2 = .ok 1 ∧ ((gather d t).run 500).2 = 1300 ∧
      Guarded id 100 { capacity := 1 } clock 500 1300 ∧
      ¬ (100 : UInt32).toUInt64 < clock.remaining 1300 := by
  intro d clock e t r
  have houtcome : ((run d 100 { capacity := 1 } clock t).run 500).1.2 = .ok 1 := by decide +kernel
  have hworld : ((gather d t).run 500).2 = 1300 := by decide +kernel
  obtain ⟨calls, hrun, hround, hguarded⟩ :=
    ((run_rounds d 100 { capacity := 1 } clock t 500).and
      (run_guarded (v := .aside) (Devices.sluggish_forward 900 1300 400) 100 { capacity := 1 }
        clock t 500).1) []
  have hsent : Call.send (.ok ()) ∈ calls :=
    hround.send_of_ok houtcome (by decide)
  rw [hworld] at hguarded
  have hanswer : r.1.2 = .ok 1 := by rw [show r = _ from hrun, houtcome]
  exact ⟨hanswer, hworld, (hguarded _ hsent).2, by decide⟩

end Telemetry
