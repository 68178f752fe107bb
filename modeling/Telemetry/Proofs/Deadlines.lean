import Telemetry.Proofs.Waits

/-!
# How long a turn of the sampler is good for

A measurement's next start point is the moment at which the sampler has to begin
the next acquisition: its target less the lead time of the sensor
(`Entry.startsAt`). The wait that a turn of the sampler comes to reaches no
further than the start points as the turn leaves them, if the sensor takes no
longer than a slice. This is all that the wait promises about starts, and it is
promised for the clock and the table of that turn.

What a turn waits for within the period is told in the file on waits. Here it is
told by the clock, and what keeps its sums and numbers within their words is that
there are fewer turns than numbers and that the clock is not at its end.
-/

namespace Telemetry

namespace Entry

variable (e : Entry) (guard : UInt32) (clock : TransmitClock)

/-- The moment at which the next acquisition has to begin. -/
def startsAt : Nat :=
  clock.began.toNat +
      (e.definition.targetAt clock.interval guard e.tally.started.toNat - e.tally.leadTime.toNat) -
    clock.count.toNat % e.definition.period.toNat * clock.interval.toNat

/-- What is waited from a position in the period is waited from the moment itself. -/
theorem add_le_startsAt {now : Timestamp} {wait : Nat}
    (h : e.definition.positionAt clock now + wait ≤
      e.definition.targetAt clock.interval guard e.tally.started.toNat - e.tally.leadTime.toNat) :
    now.toNat + wait ≤ e.startsAt guard clock := by
  unfold Definition.positionAt at h
  unfold startsAt
  omega

/-- An active measurement whose sensor takes no longer than a slice, and whose next target is a
number of 64 bits. -/
structure Regular : Prop where
  active : e.definition.active = true
  leadTime : e.tally.leadTime.toNat ≤ (Plan.spacingOf e.definition clock.interval).toNat
  target : e.definition.targetAt clock.interval guard e.tally.started.toNat < UInt64.size

instance : Decidable (e.Regular guard clock) :=
  decidable_of_iff
    (e.definition.active = true ∧
      e.tally.leadTime.toNat ≤ (Plan.spacingOf e.definition clock.interval).toNat ∧
      e.definition.targetAt clock.interval guard e.tally.started.toNat < UInt64.size)
    ⟨fun h => ⟨h.1, h.2.1, h.2.2⟩, fun h => ⟨h.active, h.leadTime, h.target⟩⟩

end Entry

namespace Sampler

variable {m : Definition} {guard : UInt32} {clock : TransmitClock} {now : Timestamp}
  {t t' : Tally} {s s' : SamplerStats} {s₁ s₁' : Sampler} {calls : List Call}

/-- As long as there are numbers left, acquisitions are numbered upwards. -/
theorem Attends.started_le {p : Plan} {wait : UInt64} {k : Nat}
    (h : Attends p m t s (t', s', wait) calls) (ht : t.Paced k) (hlimit : k + 1 < UInt32.size) :
    t.started ≤ t'.started := by
  cases h with
  | turn hstart hcollect =>
      rw [hcollect.waits.1, ← (capLead_counters p t).1]
      rcases hstart.waits (capLead_inStep p ht.1) (capLead_le p t) with
        ⟨-, hsame⟩ | ⟨rfl, -⟩ | ⟨-, hsucc, -⟩
      · rw [hsame]
        exact UInt32.le_refl _
      · exact UInt32.le_refl _
      · have hstarted := ht.2
        rw [hsucc, (capLead_counters p t).1, UInt32.le_iff_toNat_le,
          Tally.toNat_succ (by omega)]
        exact Nat.le_succ _

/-- A turn of the sampler allows a wait that every measurement can bear, as the turn leaves it. -/
theorem Turns.waits {table table' : Table} {k : Nat}
    (h : s₁.Turns table clock now (s₁', table') calls)
    (ht : ∀ i e, table.get? i = some e → e.tally.Paced k) (hlimit : k + 1 < UInt32.size)
    (hnow : now.toNat < 0x8000000000000000) {i : Nat} {e : Entry} (hi : table'.get? i = some e)
    (he : e.Regular s₁'.guard clock) :
    s₁'.wait = 0 ∨ s₁'.lastTurn.toNat + s₁'.wait.toNat ≤ e.startsAt s₁'.guard clock := by
  obtain ⟨hguard, hlast⟩ : s₁'.guard = s₁.guard ∧ s₁'.lastTurn = now := by
    cases h with
    | turn h => exact ⟨rfl, rfl⟩
  cases hi₀ : table.get? i with
  | none =>
      rw [h.passes.hole i hi₀] at hi
      cases hi
  | some e₀ =>
      obtain ⟨e₁, own, hi₁, hturned, -⟩ := h.passes.entry i e₀ hi₀
      have hactive : e₀.definition.active = true := by
        have hm := hturned.definition_eq
        cases hi.symm.trans hi₁
        rw [← hm]
        exact he.active
      obtain ⟨tally, stats, stats', wait, more, hi₂, hattends, hle, -⟩ := h.attends hi₀ hactive
      cases hi.symm.trans hi₂
      rw [hguard] at he ⊢
      rw [hlast]
      have hposition : e₀.definition.positionAt clock now < 0x8000000000000000 + 0x10000000000 :=
        Definition.positionAt_lt hnow hactive
      have hfew := hattends.started_le (ht i e₀ hi₀) hlimit
      have hfits : e₀.Fits s₁.guard clock now := by
        refine ⟨Nat.lt_trans hposition (by decide), Nat.lt_of_le_of_lt ?_ he.target⟩
        exact targetAt_mono _ _ _ (UInt32.le_iff_toNat_le.mp hfew)
      have hbound := hattends.wait_le_untilStart (ht i e₀ hi₀).1 hactive hfits ?_ he.leadTime
        (.inl (Nat.lt_of_le_of_lt (Nat.succ_le_succ (ht i e₀ hi₀).2) hlimit))
      · have hwait := Nat.le_trans (UInt64.le_iff_toNat_le.mp hle) hbound
        rcases Nat.eq_zero_or_pos s₁'.wait.toNat with hzero | hpos
        · exact .inl (UInt64.toNat_inj.mp hzero)
        · refine .inr (Entry.add_le_startsAt _ _ _ ?_)
          unfold Entry.untilStart at hwait
          omega
      · intro r _
        have hlead := tally.leadTime.toNat_lt
        unfold UInt64.size
        omega

end Sampler

end Telemetry
