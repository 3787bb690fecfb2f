import RewardVesting.Proofs.Ledger.Conservation

namespace RewardVesting.Ledger

open RewardVesting.Action

variable {ledger remaining : Ledger} {epoch later released : Int}

/-! Sweeps of a ledger in place, against sweeps of a copy of it. -/

/-- A sweep takes exactly the tranches before its epoch and leaves the others as they
stood. -/
structure Swept (before : Ledger) (epoch : Int) (remaining : Ledger) (released : Int) :
    Prop where
  kept : remaining.tranches = before.tranches.filter fun tranche => epoch ≤ tranche.epoch
  unlocked : remaining.unlocked = before.unlocked
  released : released = sumOf (before.tranches.filter fun tranche => tranche.epoch < epoch)

theorem WellFormed.swept (hformed : ledger.WellFormed) (epoch : Int) :
    Swept ledger epoch (ledger.sweep epoch).1 (ledger.sweep epoch).2 where
  kept := dropWhile_eq_filter hformed.ordered epoch
  unlocked := rfl
  released := hformed.sweep_released epoch

theorem yields_sweep :
    (Movement.sweep epoch).perform.Yields ledger released remaining ↔
      ledger.sweep epoch = (remaining, released) := by
  simp only [Movement.perform, Movement.release, yields_bind, yields_read, yields_write,
    yields_pure, Prod.ext_iff]
  constructor
  · rintro ⟨_, _, ⟨rfl, rfl⟩, _, _, hremaining, hreleased, rfl⟩
    exact ⟨hremaining, hreleased⟩
  · rintro ⟨hremaining, hreleased⟩
    exact ⟨ledger, ledger, ⟨rfl, rfl⟩, (), remaining, hremaining, hreleased, rfl⟩

/-- Sweeping what an earlier sweep has left releases the rest of what the later sweep
would. -/
theorem yields_sweep_later (hle : epoch ≤ later)
    (hearlier : (Movement.sweep epoch).perform.Yields ledger released remaining) :
    ∃ last rest, (Movement.sweep later).perform.Yields remaining rest last ∧
      (Movement.sweep later).perform.Yields ledger (released + rest) last := by
  obtain ⟨hleft, hreleased⟩ := ledger.sweep_sweep hle
  have hswept := yields_sweep.mp hearlier
  refine ⟨(remaining.sweep later).1, (remaining.sweep later).2, yields_sweep.mpr rfl, ?_⟩
  rw [hswept] at hleft hreleased
  exact yields_sweep.mpr (Prod.ext hleft.symm hreleased.symm)

/-- A sweep selects by epoch, is the same in place and on a copy, and two sweeps come to the
later one; so a repeated sweep comes to nothing. -/
theorem sweep_selects (hformed : ledger.WellFormed) (epoch : Int) :
    ∃ remaining released, (Movement.sweep epoch).perform.Yields ledger released remaining ∧
      ledger.sweep epoch = (remaining, released) ∧
      Swept ledger epoch remaining released ∧
      (Movement.sweep epoch).perform.Yields remaining 0 remaining ∧
      ∀ later, epoch ≤ later →
        ∃ last rest, (Movement.sweep later).perform.Yields remaining rest last ∧
          (Movement.sweep later).perform.Yields ledger (released + rest) last := by
  have hsweep : (Movement.sweep epoch).perform.Yields ledger (ledger.sweep epoch).2
      (ledger.sweep epoch).1 := yields_sweep.mpr rfl
  refine ⟨_, _, hsweep, rfl, hformed.swept epoch, ?_, fun later hle => ?_⟩
  · exact yields_sweep.mpr (ledger.sweep_self epoch)
  · exact yields_sweep_later hle hsweep

def spacedLedger : Ledger := ⟨[⟨2, 20⟩, ⟨4, 15⟩, ⟨6, 0⟩, ⟨8, 30⟩], 7⟩

theorem sweep_selects_spaced :
    spacedLedger.WellFormed ∧
      Swept spacedLedger 4 ⟨[⟨4, 15⟩, ⟨6, 0⟩, ⟨8, 30⟩], 7⟩ 20 ∧
      (Movement.sweep 4).perform.Yields ⟨[⟨4, 15⟩, ⟨6, 0⟩, ⟨8, 30⟩], 7⟩ 0
        ⟨[⟨4, 15⟩, ⟨6, 0⟩, ⟨8, 30⟩], 7⟩ ∧
      (Movement.sweep 8).perform.Yields ⟨[⟨4, 15⟩, ⟨6, 0⟩, ⟨8, 30⟩], 7⟩ 15 ⟨[⟨8, 30⟩], 7⟩ ∧
      (Movement.sweep 8).perform.Yields spacedLedger 35 ⟨[⟨8, 30⟩], 7⟩ := by
  have hformed : spacedLedger.WellFormed := defect?_eq_none.mp (by decide)
  obtain ⟨_, _, _, heq, hswept, hagain, hlater⟩ := sweep_selects hformed 4
  cases heq
  obtain ⟨_, _, hrest, hwhole⟩ := hlater 8 (by decide)
  cases yields_sweep.mp hrest
  exact ⟨hformed, hswept, hagain, hrest, hwhole⟩

end RewardVesting.Ledger
