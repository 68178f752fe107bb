import Telemetry.Proofs.Reliable

/-!
# How long a read on the spot takes

A read waits twice, for the sensor to be ready and for its value, and asks again
and again in between. What stops it is the clock: both waits share one budget,
the caller's or else the sensor's own time, and nothing is asked again once it
is used up. So the clock must move. `Devices.Paced` demands that it does
whenever the board passes a moment, by a millisecond at least and by some span
at most, and that nothing else moves it. A word of a clock cannot go up for
ever; it has to do so until `last` only, and a read has to fit in before.

The moment until which a wait may ask is what its induction is about
(`askUntil_asked`): a moment passes only before it, and each brings it nearer.
That bounds the moments and the time, and it shows that no wait ends because it
has asked too often, which is what a loop that ends by itself comes to: the last
question was answered, or the time was up (`Asked`).
-/

namespace Telemetry

variable {W α : Type} {v : Voice} {time : W → Timestamp} {span last : Nat}

/-! ## A clock that moves while a read waits -/

/-- Devices in a world with a time that the clock reads. Only passing a moment moves it, and does,
up to some time. -/
structure Devices.Paced (d : Devices W) (time : W → Timestamp) (span last : Nat) : Prop where
  still : ∀ now, d.boardless.Within (.keeping fun w => time w = now)
  now : ∀ w, (d.now.run w).1 = time w
  spin : ∀ w, (time w).toNat < last →
    (time w).toNat < (time (d.board.spin.run w).2).toNat ∧
      (time (d.board.spin.run w).2).toNat ≤ (time w).toNat + span

namespace Action.SpeaksAt

variable {a' : Action (W × List Note) α} {a : Action W α} {w : W}

/-- An action that takes no time. -/
theorem still {fit : α → List Call → Prop} (ha : Speaks v a' a fit)
    (hstill : ∀ now, a.Within (.keeping fun w => time w = now)) (w : W) :
    SpeaksAt v a' a w fun x w' calls => time w' = time w ∧ fit x calls :=
  (of_speaks ha w).imp fun _ _ _ h => ⟨h.2.1 ▸ hstill (time w) w rfl, h.2.2⟩

/-- An action that takes no time and makes no calls is passed over. -/
theorem passing {β : Type} {f' : α → Action (W × List Note) β} {f : α → Action W β}
    {fit : β → W → List Call → Prop} (ha : Speaks v a' a fun _ calls => calls = [])
    (hstill : ∀ now, a.Within (.keeping fun w => time w = now))
    (hf : ∀ w', time w' = time w → SpeaksAt v (f' (a.run w).1) (f (a.run w).1) w' fit) :
    SpeaksAt v (a' >>= f') (a >>= f) w fit :=
  .after ha (hf _ (hstill (time w) w rfl))

end Action.SpeaksAt

/-! ## One wait -/

/-- Whether a call passes a moment. -/
def Call.isSpin : Call → Bool
  | .spin => true
  | _ => false

/-- What an answer means for a wait that ends with it. -/
def Reply.outcome : Reply α → Option (Except SensorError α)
  | .done value => some (.ok value)
  | .busy => none
  | .failed cause => some (.error cause)

namespace SpotRead

/-- The calls of a wait: so many times a busy answer and a moment, and then the last answer. -/
def asking (call : Reply α → Call) (answer : Reply α) : Nat → List Call
  | 0 => [call answer]
  | moments + 1 => call .busy :: .spin :: asking call answer moments

theorem countP_asking {call : Reply α → Call} (hcall : ∀ answer, (call answer).isSpin = false)
    (answer : Reply α) (moments : Nat) :
    (asking call answer moments).countP Call.isSpin = moments := by
  induction moments with
  | zero => rw [asking, List.countP_singleton, hcall, if_neg Bool.false_ne_true]
  | succ moments ih =>
      rw [asking, List.countP_cons_of_neg (by rw [hcall]; exact Bool.false_ne_true),
        List.countP_cons_of_pos rfl, ih]

/-- A wait from a start to a finish that may go on asking until a deadline, with its last answer and
its calls. -/
structure Asked (call : Reply α → Call) (deadline span start : Nat) (answer : Reply α)
    (moments : Nat) (calls : List Call) (finish : Nat) : Prop where
  calls_eq : calls = asking call answer moments
  moments_le : moments ≤ deadline - start
  moved : start + moments ≤ finish
  /-- A moment passes only while there is time, so not much more than that is used. -/
  ends : finish = start ∨ start < deadline ∧ finish < deadline + span
  /-- Nobody stops asking before the time is up. -/
  patient : answer.outcome = none → deadline ≤ finish

end SpotRead

/-! ## A whole read -/

/-- What the answer to the last question after a value means for the read. -/
def Reply.result : Reply Reading → Except ReadError Reading
  | .done r => .ok r
  | .busy => .error .timedOut
  | .failed cause => .error (.failed cause)

theorem Reply.outcome_of_late {answer : Reply Reading} (h : answer.result = .error .timedOut) :
    answer.outcome = none := by
  cases answer with
  | done r => cases h
  | busy => rfl
  | failed cause => cases h

namespace SpotRead

/-- The ways of waiting for a started acquisition: it is polled, again and again, and if that ends
well it is collected, again and again. -/
inductive Waits (m : Definition) : Except ReadError Reading → List Call → Prop where
  | pollLate (moments : Nat) : Waits m (.error .timedOut) (asking (.poll m) .busy moments)
  | pollFailed (moments : Nat) (cause : SensorError) :
      Waits m (.error (.failed cause)) (asking (.poll m) (.failed cause) moments)
  | collected (moments more : Nat) (answer : Reply Reading) :
      Waits m answer.result
        (asking (.poll m) (.done ()) moments ++ asking (.collect m) answer more)

/-- A wait from a start to a finish that keeps to a budget. -/
structure KeepsTo (budget span start : Nat) (m : Definition) (x : Except ReadError Reading)
    (calls : List Call) (finish : Nat) : Prop where
  waits : Waits m x calls
  moments_le : calls.countP Call.isSpin ≤ budget
  finish_lt : finish < start + budget + span
  /-- It is too late only when the budget is used up. -/
  patient : x = .error .timedOut → start + budget ≤ finish

/-- The time a read may take: what the caller says, or else what the sensor answers. -/
def budgetOf (fallback : UInt32) (timeout : Option UInt32) (answer : Option (Reply UInt32)) : Nat :=
  (timeout.getD (Reply.leadTime fallback answer)).toNat

/-- A read from a start to a finish, with its calls while the sensor is on: the sensor does not
start, or it is waited for within a budget that depends on its answer, as far as the clock goes on
that long. -/
inductive Course (m : Definition) (budget : Option (Reply UInt32) → Nat) (span last start : Nat) :
    Except ReadError Reading → List Call → Nat → Prop where
  | unstarted {x : Except ReadError Reading} (answer : Reply Unit) (h : answer ≠ .done ()) :
      Course m budget span last start x [.start m true answer] start
  | started {x : Except ReadError Reading} {own : List Call} {finish : Nat}
      (answer : Option (Reply UInt32))
      (h : start + budget answer ≤ last → KeepsTo (budget answer) span start m x own finish) :
      Course m budget span last start x
        (.start m true (.done ()) :: .collectionTime m answer :: own) finish

end SpotRead

section

variable {d : Devices W} (hd : d.Paced time span last)
include hd

theorem Devices.Paced.spin_speaks (w : W) :
    Action.SpeaksAt v (d.voiced v).board.spin d.board.spin w fun _ w' calls =>
      calls = [.spin] ∧ ((time w).toNat < last → (time w).toNat < (time w').toNat ∧
        (time w').toNat ≤ (time w).toNat + span) :=
  (Action.SpeaksAt.of_speaks d.spin_speaks w).imp fun _ _ _ h =>
    ⟨h.2.2, h.2.1 ▸ hd.spin w⟩

namespace SpotRead

theorem askUntil_asked {call : Reply α → Call} {ask' : Action (W × List Note) (Reply α)}
    {ask : Action W (Reply α)}
    (hask : Action.Speaks v ask' ask fun answer calls => calls = [call answer])
    (hstill : ∀ now, ask.Within (.keeping fun w => time w = now)) (limit : UInt64)
    (began : Timestamp) (questions : Nat) (w : W) (hbegan : began.toNat ≤ (time w).toNat)
    (hlast : (time w).toNat < began.toNat + limit.toNat → began.toNat + limit.toNat ≤ last)
    (hquestions : began.toNat + limit.toNat - (time w).toNat < questions) :
    Action.SpeaksAt v (askUntil (d.voiced v) ask' limit began questions)
      (askUntil d ask limit began questions) w fun x w' calls =>
        ∃ answer moments, x = answer.outcome ∧
          Asked call (began.toNat + limit.toNat) span (time w).toNat answer moments calls
            (time w').toNat := by
  induction questions generalizing w with
  | zero => omega
  | succ questions ih =>
      refine (Action.SpeaksAt.still hask hstill w).bind ?_
      intro answer w₁ _ h
      obtain ⟨htime, rfl⟩ := h
      -- an answer that ends the wait at once
      have hends : (answer.outcome = none → began.toNat + limit.toNat ≤ (time w₁).toNat) →
          Asked call (began.toNat + limit.toNat) span (time w).toNat answer 0 ([call answer] ++ [])
            (time w₁).toNat := by
        intro hpatient
        rw [htime] at hpatient ⊢
        exact ⟨rfl, Nat.zero_le _, Nat.le_refl _, .inl rfl, hpatient⟩
      cases answer with
      | done value =>
          exact .pure ⟨.done value, 0, rfl, hends fun h => absurd h (Option.some_ne_none _)⟩
      | failed cause =>
          exact .pure ⟨.failed cause, 0, rfl, hends fun h => absurd h (Option.some_ne_none _)⟩
      | busy =>
          refine .passing d.now_speaks (fun now => (hd.still now).now) fun w₂ htime₂ => ?_
          rw [hd.now]
          have hover : limit ≤ elapsed began (time w₁) ↔
              began.toNat + limit.toNat ≤ (time w).toNat := by
            rw [UInt64.le_iff_toNat_le, elapsed, Saturating.toNat_sub, htime]
            omega
          split
          · next h =>
              refine .pure ⟨.busy, 0, rfl, ?_⟩
              rw [htime₂]
              exact hends fun _ => by rw [htime]; exact hover.mp h
          · next h =>
              have hearly : (time w).toNat < began.toNat + limit.toNat :=
                Nat.lt_of_not_le fun hle => h (hover.mpr hle)
              refine (hd.spin_speaks w₂).bind ?_
              intro _ w₃ _ hspin
              obtain ⟨rfl, hmoves⟩ := hspin
              rw [htime₂, htime] at hmoves
              have hroom := hlast hearly
              obtain ⟨hup, hspan⟩ := hmoves (by omega)
              refine (ih w₃ (by omega) (fun _ => hroom) (by omega)).imp ?_
              intro x w' more hrest
              obtain ⟨answer, moments, rfl, hasked⟩ := hrest
              refine ⟨answer, moments + 1, rfl, ?_, ?_, ?_, ?_, hasked.patient⟩
              · rw [hasked.calls_eq]
                rfl
              · have := hasked.moments_le
                omega
              · have := hasked.moved
                omega
              · refine .inr ⟨hearly, ?_⟩
                rcases hasked.ends with heq | ⟨-, hlt⟩
                · omega
                · exact hlt

theorem askFor_asked {call : Reply α → Call} {ask' : Action (W × List Note) (Reply α)}
    {ask : Action W (Reply α)}
    (hask : Action.Speaks v ask' ask fun answer calls => calls = [call answer])
    (hstill : ∀ now, ask.Within (.keeping fun w => time w = now)) {limit : UInt64}
    (hlimit : limit.toNat < patience) (w : W)
    (hlast : 0 < limit.toNat → (time w).toNat + limit.toNat ≤ last) :
    Action.SpeaksAt v (askFor (d.voiced v) limit ask') (askFor d limit ask) w fun x w' calls =>
      ∃ answer moments, x = answer.outcome ∧
        Asked call ((time w).toNat + limit.toNat) span (time w).toNat answer moments calls
          (time w').toNat := by
  refine .passing d.now_speaks (fun now => (hd.still now).now) fun w₁ htime => ?_
  rw [hd.now]
  have hasked := askUntil_asked hd hask hstill limit (time w) patience w₁
    (Nat.le_of_eq (by rw [htime])) (by rw [htime]; intro h; exact hlast (by omega))
    (by rw [htime]; omega)
  rwa [htime] at hasked

/-- A started acquisition is waited for within the budget. -/
theorem await_keepsTo (m : Definition) {budget : UInt64} (hbudget : budget.toNat < patience)
    (hspan : 0 < span) (w : W) (hlast : (time w).toNat + budget.toNat ≤ last) :
    Action.SpeaksAt v (await (d.voiced v) m budget) (await d m budget) w fun x w' calls =>
      KeepsTo budget.toNat span (time w).toNat m x calls (time w').toNat := by
  have hpoll : ∀ answer, (Call.poll m answer).isSpin = false := fun _ => rfl
  have hcollect : ∀ answer, (Call.collect m answer).isSpin = false := fun _ => rfl
  have hlog : ∀ severity text now, (d.log severity text).Within (.keeping fun w => time w = now) :=
    fun severity text now => (hd.still now).log severity text
  unfold await
  refine .passing d.now_speaks (fun now => (hd.still now).now) fun w₀ htime₀ => ?_
  rw [hd.now]
  have hpolled := askFor_asked hd (d.poll_speaks (v := v) m) (fun now => (hd.still now).poll m)
    hbudget w₀ (by rw [htime₀]; exact fun _ => hlast)
  rw [htime₀] at hpolled
  refine hpolled.bind ?_
  intro x w₁ calls h
  obtain ⟨answer, moments, rfl, rfl, hmoments, hmoved, hends, hpatient⟩ := h
  cases answer with
  | busy =>
      refine .passing (d.log_speaks _ _) (hlog _ _) fun w' htime => .pure ?_
      rw [← htime] at hends hpatient
      rw [List.append_nil]
      exact ⟨.pollLate moments, by rw [countP_asking hpoll]; omega, by omega, fun _ => hpatient rfl⟩
  | failed cause =>
      refine .passing (d.log_speaks _ _) (hlog _ _) fun w' htime => .pure ?_
      rw [← htime] at hends
      rw [List.append_nil]
      exact ⟨.pollFailed moments cause, by rw [countP_asking hpoll]; omega, by omega, by rintro ⟨⟩⟩
  | done value =>
      refine .passing d.now_speaks (fun now => (hd.still now).now) fun w₂ htime₂ => ?_
      rw [hd.now]
      have hrest : (Saturating.sub budget (elapsed (time w) (time w₁))).toNat =
          budget.toNat - ((time w₁).toNat - (time w).toNat) := by
        rw [Saturating.toNat_sub, elapsed, Saturating.toNat_sub]
      generalize Saturating.sub budget (elapsed (time w) (time w₁)) = rest at hrest
      have hpatience : rest.toNat < patience := by omega
      have hcollected := askFor_asked hd (d.collect_speaks (v := v) m)
        (fun now => (hd.still now).collect m) hpatience w₂ (by rw [htime₂]; omega)
      rw [htime₂] at hcollected
      refine hcollected.bind ?_
      intro x w₃ calls h
      obtain ⟨answer, more, rfl, rfl, hmore, hmoved', hends', hpatient'⟩ := h
      have hspins : (asking (.poll m) (.done ()) moments ++
          asking (.collect m) answer more).countP Call.isSpin = moments + more := by
        rw [List.countP_append, countP_asking hpoll, countP_asking hcollect]
      refine .passing d.now_speaks (fun now => (hd.still now).now) fun w₄ htime₄ => ?_
      refine .passing (d.log_speaks _ _) (hlog _ _) fun w₅ htime₅ => ?_
      rw [← htime₄, ← htime₅] at hmoved' hends' hpatient'
      have hkeeps : KeepsTo budget.toNat span (time w).toNat m answer.result
          (asking (.poll m) (.done ()) moments ++ asking (.collect m) answer more)
          (time w₅).toNat := by
        refine ⟨.collected moments more answer, by rw [hspins]; omega, by omega, ?_⟩
        intro hlate
        have := hpatient' (Reply.outcome_of_late hlate)
        omega
      cases answer with
      | done r =>
          refine .pure ?_
          rw [List.append_nil]
          exact hkeeps
      | failed cause =>
          refine .pure ?_
          rw [List.append_nil]
          exact hkeeps
      | busy =>
          refine .passing (d.log_speaks _ _) (hlog _ _) fun w₆ htime₆ => .pure ?_
          rw [List.append_nil, htime₆]
          exact hkeeps

/-- Where a sensor does not start nothing is waited for, and otherwise it is within the budget. -/
theorem acquire_course (fallback : UInt32) (timeout : Option UInt32) (m : Definition) (t : Tally)
    (hspan : 0 < span) (w : W) :
    Action.SpeaksAt v (acquire (d.voiced v) fallback timeout m t) (acquire d fallback timeout m t) w
      fun x w' calls => Course m (budgetOf fallback timeout) span last (time w).toNat x.2 calls
        (time w').toNat := by
  have hlog : ∀ severity text now, (d.log severity text).Within (.keeping fun w => time w = now) :=
    fun severity text now => (hd.still now).log severity text
  unfold acquire
  refine (Action.SpeaksAt.still (d.start_speaks m true) (fun now => (hd.still now).start m true)
    w).bind ?_
  intro answer w₁ _ h
  obtain ⟨htime₁, rfl⟩ := h
  cases answer with
  | busy =>
      refine .passing (d.log_speaks _ _) (hlog _ _) fun w' htime => .pure ?_
      rw [htime, htime₁]
      exact .unstarted .busy (by rintro ⟨⟩)
  | failed cause =>
      refine .passing (d.log_speaks _ _) (hlog _ _) fun w' htime => .pure ?_
      rw [htime, htime₁]
      exact .unstarted (.failed cause) (by rintro ⟨⟩)
  | done _ =>
      refine (Action.SpeaksAt.still (d.leadTime_speaks m fallback)
        (fun now => Devices.leadTime_within (hd.still now) m fallback) w₁).bind ?_
      intro leadTime w₂ _ h
      obtain ⟨htime₂, answer, rfl, rfl⟩ := h
      rw [htime₁] at htime₂
      -- a clock that gives up before the budget is used up bounds nothing
      by_cases hroom : (time w).toNat + budgetOf fallback timeout answer ≤ last
      · have hpatience :
            (timeout.getD (Reply.leadTime fallback answer)).toUInt64.toNat < patience := by
          rw [UInt32.toNat_toUInt64]
          exact UInt32.toNat_lt _
        have hkeeps := await_keepsTo hd (v := v) m hpatience hspan w₂
          (by rw [htime₂, UInt32.toNat_toUInt64]; exact hroom)
        rw [htime₂, UInt32.toNat_toUInt64] at hkeeps
        refine hkeeps.bind ?_
        intro x w' own h
        refine .pure ?_
        rw [List.append_nil]
        exact .started answer fun _ => h
      · refine (Action.SpeaksAt.of_speaks (await_speaks d m _) w₂).bind ?_
        intro x w' own h
        refine .pure ?_
        rw [List.append_nil]
        exact .started answer fun h => absurd h hroom

end SpotRead

/-- What is so of starting a sensor and waiting for it, between two times, is so of the calls that a
read makes while the sensor is on. -/
theorem Entry.read_around (fallback : UInt32) (timeout : Option UInt32) (e : Entry) (w : W)
    (fit : Timestamp → Except ReadError Reading → List Call → Timestamp → Prop)
    (hacquire : ∀ w, Action.SpeaksAt v
      (SpotRead.acquire (d.voiced v) fallback timeout e.definition e.tally)
      (SpotRead.acquire d fallback timeout e.definition e.tally) w
      fun x w' calls => fit (time w) x.2 calls (time w')) :
    Action.SpeaksAt v (e.read (d.voiced v) fallback timeout) (e.read d fallback timeout) w
      fun x w' calls =>
        (e.tally.acquiring = true ∧ calls = [] ∧ time w' = time w) ∨
        ∃ own, calls = SpotRead.powering e.definition (e.sensorOff d w) own ∧
          fit (time w) x.2 own (time w') := by
  have hpower : ∀ on now,
      (d.sensors.power e.definition on).Within (.keeping fun w => time w = now) :=
    fun on now => (hd.still now).power e.definition on
  unfold Entry.read
  split
  · next h =>
      refine .passing (d.log_speaks _ _) (fun now => (hd.still now).log _ _) fun w' htime => ?_
      exact .pure (.inl ⟨h, rfl, htime⟩)
  · refine .passing (d.powered_speaks _) (fun now => (hd.still now).powered _) fun w₀ htime₀ => ?_
    simp only []
    split
    · next hoff =>
        have hwas : e.sensorOff d w = true := hoff
        rw [hwas]
        refine (Action.SpeaksAt.still (d.power_speaks e.definition true) (hpower true) w₀).bind ?_
        intro _ w₁ _ h
        obtain ⟨htime₁, rfl⟩ := h
        refine (hacquire w₁).bind ?_
        intro x w₂ own h
        rw [htime₁, htime₀] at h
        refine (Action.SpeaksAt.still (d.power_speaks e.definition false) (hpower false) w₂).bind ?_
        intro _ w₃ _ hlast
        obtain ⟨htime₃, rfl⟩ := hlast
        rw [← htime₃] at h
        exact .pure (.inr ⟨own, rfl, h⟩)
    · next hon =>
        have hwas : e.sensorOff d w = false := Bool.eq_false_iff.mpr hon
        rw [hwas]
        refine (hacquire w₀).bind ?_
        intro x w' own h
        rw [htime₀] at h
        refine .pure (.inr ⟨own, ?_, h⟩)
        rw [List.append_nil]
        rfl

/-- A read on the spot of any sensor, on a clock that moves by at least a millisecond and at most
some span whenever the board passes a moment: if it is neither refused nor fails to start, the
sensor is polled at least once and collected at least once after a good poll, however small the
budget is; at most as many moments pass as the budget has milliseconds; the read is over less than
a span after the budget is used up; and it is called too late only if the budget is used up. -/
theorem Entry.read_keepsTo (hspan : 0 < span) (fallback : UInt32) (timeout : Option UInt32)
    (e : Entry) (w : W) :
    Action.SpeaksAt v (e.read (d.voiced v) fallback timeout) (e.read d fallback timeout) w
      fun x w' calls =>
        (e.tally.acquiring = true ∧ calls = [] ∧ time w' = time w) ∨
        ∃ own, calls = SpotRead.powering e.definition (e.sensorOff d w) own ∧
          SpotRead.Course e.definition (SpotRead.budgetOf fallback timeout) span last
            (time w).toNat x.2 own (time w').toNat := by
  refine e.read_around hd fallback timeout w
    (fun start x own finish => SpotRead.Course e.definition (SpotRead.budgetOf fallback timeout)
      span last start.toNat x own finish.toNat) ?_
  exact SpotRead.acquire_course hd fallback timeout e.definition e.tally hspan

end

/-! ## A sensor that is too slow -/

/-- Devices in a world that is a clock: a sensor whose reading is there from some time on, and a
board that passes some milliseconds at a time. -/
def Devices.sluggish (took : UInt32) (ready step : Timestamp) : Devices Timestamp :=
  let rest := Devices.obliging took
  { rest with
    sensors := { rest.sensors with
      collect := fun _ => Action.look fun now =>
        if now < ready then .busy else .done (.integer 1) }
    board := { spin := Action.change fun now => Saturating.add now step } }

theorem Devices.sluggish_paced (took : UInt32) (ready : Timestamp) {step : Timestamp}
    (hstep : 0 < step.toNat) :
    (sluggish took ready step).Paced id step.toNat (UInt64.size - 1) where
  still now :=
    let r := Drift.keeping fun w => id w = now
    { Devices.obliging_within took r with collect := fun _ => r.refl }
  now _ := rfl
  spin w hw := by
    have hadd : ((sluggish took ready step).board.spin.run w).2.toNat =
        min (w.toNat + step.toNat) (UInt64.size - 1) := Saturating.toNat_add w step
    simp only [id_eq] at hw ⊢
    omega

/-- A reading that takes a second, waited for 25 ms and asked for every 10 ms: the read gives up at
30 ms. -/
theorem Entry.read_keepsTo_sluggish :
    let d := Devices.sluggish 900 1000 10
    let e : Entry := ⟨⟨"A", .custom0, 1, 1, false⟩, {}⟩
    let r := (e.read (d.voiced .aside) 0 (some 25)).run (0, [])
    r.1.2.isOk = false ∧ r.2.1 = 30 ∧ ∃ answer own,
      r.2.2 = Voice.aside.notes (.start e.definition true (.done ()) ::
        .collectionTime e.definition answer :: own) ∧
      SpotRead.KeepsTo 25 10 0 e.definition r.1.2 own 30 := by
  intro d e r
  have hfinish : r.2.1 = 30 := by decide +kernel
  have hstep : 0 < (10 : Timestamp).toNat := by decide
  obtain ⟨calls, hrun, h⟩ := e.read_keepsTo (v := .aside) (Devices.sluggish_paced 900 1000 hstep)
    (by decide) 0 (some 25) 0 []
  have hworld : ((e.read d 0 (some 25)).run 0).2 = 30 := (congrArg (·.2.1) hrun).symm.trans hfinish
  have hanswer : ((e.read d 0 (some 25)).run 0).1.2 = r.1.2 := (congrArg (·.1.2) hrun).symm
  refine ⟨by decide +kernel, hfinish, ?_⟩
  rw [hworld, hanswer] at h
  obtain ⟨hbusy, -⟩ | ⟨_, rfl, hcourse⟩ := h
  · cases hbusy
  · cases hcourse with
    | started answer h =>
        have hnotes := congrArg (·.2.2) hrun
        have hroom : 0 + SpotRead.budgetOf 0 (some 25) answer ≤ UInt64.size - 1 := by
          change 0 + 25 ≤ _
          decide
        exact ⟨answer, _, hnotes, h hroom⟩

end Telemetry
