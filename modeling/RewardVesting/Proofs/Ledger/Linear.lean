import RewardVesting.Proofs.Ledger.Availability
import RewardVesting.Proofs.Ledger.Reach

namespace RewardVesting

namespace VestSpec

variable {spec : VestSpec} {locked amount earlier later elapsed epoch : Int}

/-- What a line without steps has vested `elapsed` epochs after its start, rounded down. -/
def linear (spec : VestSpec) (amount elapsed : Int) : Int :=
  amount * max 0 (min elapsed spec.vestPeriod) / spec.vestPeriod

section Line

variable (hperiod : 0 < spec.vestPeriod) (hamount : 0 ≤ amount)

include hperiod

theorem linear_of_nonpos (helapsed : elapsed ≤ 0) : spec.linear amount elapsed = 0 := by
  have hclamp : max 0 (min elapsed spec.vestPeriod) = 0 := by omega
  rw [linear, hclamp, Int.mul_zero, Int.zero_ediv]

include hamount

theorem linear_mono (hle : earlier ≤ later) :
    spec.linear amount earlier ≤ spec.linear amount later := by
  have hclamp : max 0 (min earlier spec.vestPeriod) ≤
      max 0 (min later spec.vestPeriod) := by
    omega
  exact Int.ediv_le_ediv hperiod (Int.mul_le_mul_of_nonneg_left hclamp hamount)

theorem linear_nonneg (elapsed : Int) : 0 ≤ spec.linear amount elapsed :=
  Int.ediv_nonneg (Int.mul_nonneg hamount (Int.le_max_left _ _)) (Int.le_of_lt hperiod)

/-- A step vests what the line asks for at the epoch of the step. -/
theorem vestedAfter_eq_linear (helapsed : 0 ≤ elapsed) :
    spec.vestedAfter amount elapsed = spec.linear amount elapsed := by
  rw [vestedAfter_eq hamount helapsed, linear]
  split
  · rename_i hlate
    have hclamp : max 0 (min elapsed spec.vestPeriod) = spec.vestPeriod := by omega
    rw [hclamp, Int.mul_ediv_cancel _ (Int.ne_of_gt hperiod)]
  · have hclamp : max 0 (min elapsed spec.vestPeriod) = elapsed := by omega
    rw [hclamp]

end Line

section Steps

variable (hstep : 0 < spec.stepDuration)

include hstep

/-- The last step that has passed is behind by less than a step and a quantum. -/
theorem sub_lt_lastStep (start epoch : Int) :
    epoch - start - spec.stepDuration - spec.quantum <
      spec.lastStep start epoch * spec.stepDuration := by
  have hnext : ¬spec.stepEpoch start (spec.lastStep start epoch + 1) < epoch :=
    mt (le_lastStep_iff hstep (Nat.succ_pos _)).mpr (Nat.not_succ_le_self _)
  have hrounded := Epoch.ceiling_lt_add_max
    (start + (spec.lastStep start epoch + 1 : Nat) * spec.stepDuration) spec.quantization
  rw [← stepEpoch, ← quantum, Int.natCast_add, Int.add_mul, Int.natCast_one,
    Int.one_mul] at hrounded
  omega

variable (hperiod : 0 < spec.vestPeriod) (hamount : 0 ≤ amount)

include hperiod hamount

theorem vestedBy_eq_linear (hsome : spec.lastStep (locked + spec.initialDelay) epoch ≠ 0) :
    spec.vestedBy locked amount epoch = spec.linear amount
      (spec.stepEpoch (locked + spec.initialDelay)
        (spec.lastStep (locked + spec.initialDelay) epoch) -
          (locked + spec.initialDelay)) := by
  have hreach := start_add_le_stepEpoch hstep (locked + spec.initialDelay)
    (spec.lastStep (locked + spec.initialDelay) epoch)
  have helapsed : 0 ≤ spec.stepEpoch (locked + spec.initialDelay)
      (spec.lastStep (locked + spec.initialDelay) epoch) -
          (locked + spec.initialDelay) := by
    omega
  rw [← vestedAfter_eq_linear hperiod hamount helapsed,
    vestedAfter_eq hamount helapsed, vestedBy, if_neg hsome]

/-- A lock is never ahead of the line. -/
theorem vestedBy_le_linear (locked epoch : Int) :
    spec.vestedBy locked amount epoch ≤
      spec.linear amount (epoch - 1 - (locked + spec.initialDelay)) := by
  by_cases hnone : spec.lastStep (locked + spec.initialDelay) epoch = 0
  · rw [vestedBy, if_pos hnone]
    exact linear_nonneg hperiod hamount _
  · rw [vestedBy_eq_linear hstep hperiod hamount hnone]
    have hpassed : spec.stepEpoch (locked + spec.initialDelay)
        (spec.lastStep (locked + spec.initialDelay) epoch) < epoch :=
      (le_lastStep_iff hstep (Nat.pos_of_ne_zero hnone)).mp (Nat.le_refl _)
    apply linear_mono hperiod hamount
    omega

/-- A lock lags the line by less than a step and a quantum. -/
theorem linear_le_vestedBy (locked epoch : Int) :
    spec.linear amount (epoch - (locked + spec.initialDelay) - spec.stepDuration -
      spec.quantum + 1) ≤ spec.vestedBy locked amount epoch := by
  have hlag := sub_lt_lastStep hstep (locked + spec.initialDelay) epoch
  by_cases hnone : spec.lastStep (locked + spec.initialDelay) epoch = 0
  · rw [hnone, Int.natCast_zero, Int.zero_mul] at hlag
    exact Int.le_of_eq ((linear_of_nonpos hperiod (by omega)).trans (if_pos hnone).symm)
  · rw [vestedBy_eq_linear hstep hperiod hamount hnone]
    have hrounded := Epoch.le_ceiling (locked + spec.initialDelay +
      spec.lastStep (locked + spec.initialDelay) epoch * spec.stepDuration)
        spec.quantization
    rw [← stepEpoch] at hrounded
    apply linear_mono hperiod hamount
    omega

end Steps

end VestSpec

namespace Ledger

open RewardVesting.Action

variable {spec : VestSpec} {locked amount : Int}

/-- What a lock on an empty ledger releases follows the line: it is never ahead, and it lags
by less than a step and a quantum. -/
theorem lock_follows_line (hstep : 0 < spec.stepDuration) (hperiod : 0 < spec.vestPeriod)
    (hamount : 0 ≤ amount)
    (hruns : ∀ fault, lock locked amount spec .empty ≠ .error fault) :
    ∃ ledger, lock locked amount spec .empty = .ok (.ok (), ledger) ∧ ∀ epoch,
      (ledger.sweep epoch).2 = ledger.lockedBefore epoch ∧
      ledger.lockedBefore epoch ≤
        spec.linear amount (epoch - 1 - (locked + spec.initialDelay)) ∧
      spec.linear amount (epoch - (locked + spec.initialDelay) - spec.stepDuration -
        spec.quantum + 1) ≤ ledger.lockedBefore epoch := by
  rcases (halts_iff.mpr hruns).yields_or_refuses with
    ⟨_, ledger, hyields⟩ | ⟨cause, ledger, hrefuses⟩
  · refine ⟨ledger, hyields, ?_⟩
    intro epoch
    obtain ⟨_, additions, hadditions, rfl⟩ := yields_lock.mp hyields
    have hscheduled := VestSpec.scheduled_of_tranches hstep hperiod hamount hadditions
    have hformed := wellFormed_empty.merge hscheduled.rising hscheduled.nonneg
    have hvested : (empty.merge additions).lockedBefore epoch =
        spec.vestedBy locked amount epoch := by
      have hadded := VestSpec.sumWhere_tranches hstep hperiod hamount hadditions epoch
      change sumWhere (fun other => other < epoch) (empty.merge additions).tranches = _
      rw [sumWhere_merge, hadded]
      exact Int.zero_add _
    rw [hvested]
    exact ⟨(hformed.sweep_released epoch).trans hvested,
      VestSpec.vestedBy_le_linear hstep hperiod hamount locked epoch,
      VestSpec.linear_le_vestedBy hstep hperiod hamount locked epoch⟩
  · exact absurd hrefuses (not_refuses_lock hstep hperiod hamount)

def sharedLock : Ledger := ⟨[⟨5, 30⟩, ⟨10, 50⟩, ⟨15, 20⟩], 0⟩

theorem sharedLock_run : lock 0 100 sharedSchedule .empty = .ok (.ok (), sharedLock) := by
  decide +kernel

theorem lock_follows_line_shared :
    (∀ fault, lock 0 100 sharedSchedule .empty ≠ .error fault) ∧
      ∀ epoch, (sharedLock.sweep epoch).2 = sharedLock.lockedBefore epoch ∧
        sharedLock.lockedBefore epoch ≤ sharedSchedule.linear 100 (epoch - 3) ∧
        sharedSchedule.linear 100 (epoch - 9) ≤ sharedLock.lockedBefore epoch := by
  have hruns : ∀ fault, lock 0 100 sharedSchedule .empty ≠ .error fault := by
    intro fault hfault
    cases sharedLock_run.symm.trans hfault
  obtain ⟨ledger, hlock, hfollows⟩ :=
    lock_follows_line (by decide) (by decide) (by decide) hruns
  cases sharedLock_run.symm.trans hlock
  refine ⟨hruns, fun epoch => ?_⟩
  obtain ⟨hreleased, hahead, hbehind⟩ := hfollows epoch
  have hstart : (0 : Int) + sharedSchedule.initialDelay = 2 := rfl
  have hstep : sharedSchedule.stepDuration = 3 := rfl
  have hquantum : sharedSchedule.quantum = 5 := rfl
  rw [hstart] at hahead
  rw [hstart, hstep, hquantum] at hbehind
  have hearlier : epoch - 1 - 2 = epoch - 3 := by omega
  have hlater : epoch - 2 - 3 - 5 + 1 = epoch - 9 := by omega
  rw [hearlier] at hahead
  rw [hlater] at hbehind
  exact ⟨hreleased, hahead, hbehind⟩

end Ledger

end RewardVesting
