import RewardVesting.Proofs.Ledger.Availability
import RewardVesting.Proofs.Ledger.Order

namespace RewardVesting

namespace VestSpec

variable {spec : VestSpec} {locked amount : Int}

/-- Of an amount locked at `locked`, what vests with a tranche at `epoch`. -/
def vestedAt (spec : VestSpec) (locked amount epoch : Int) : Int :=
  spec.vestedBy locked amount (epoch + 1) - spec.vestedBy locked amount epoch

end VestSpec

namespace Ledger

open RewardVesting.Action

theorem sumWhere_eq_sub (tranches : List Tranche) (epoch : Int) :
    sumWhere (fun other => other = epoch) tranches =
      sumWhere (fun other => other < epoch + 1) tranches -
        sumWhere (fun other => other < epoch) tranches := by
  induction tranches with
  | nil => rfl
  | cons head rest ih =>
      rw [sumWhere_cons, sumWhere_cons, sumWhere_cons, ih]
      simp only [decide_eq_true_eq]
      split <;> split <;> split <;> omega

theorem rising_of_tranches {spec : VestSpec} {locked amount : Int}
    {additions : List Tranche}
    (hchecks : 0 ≤ amount ∧ 0 < spec.stepDuration ∧ 0 < spec.vestPeriod)
    (hadditions : spec.tranches locked amount = .ok additions) :
    additions.Pairwise fun earlier later => earlier.epoch ≤ later.epoch := by
  obtain ⟨hamount, hstep, hperiod⟩ := hchecks
  exact (VestSpec.scheduled_of_tranches hstep hperiod hamount hadditions).rising

variable {ledger one two : Ledger} {spec firstSpec secondSpec : VestSpec}
  {locked amount firstEpoch firstAmount secondEpoch secondAmount : Int}

theorem lockedAt_eq (ledger : Ledger) (epoch : Int) :
    ledger.lockedAt epoch = sumWhere (fun other => other = epoch) ledger.tranches := rfl

/-- A lock adds to every epoch what vests there. -/
theorem lockedAt_lock {after : Ledger} {answer : Unit}
    (hlock : (lock locked amount spec).Yields ledger answer after) (epoch : Int) :
    after.lockedAt epoch = ledger.lockedAt epoch + spec.vestedAt locked amount epoch := by
  obtain ⟨⟨hamount, hstep, hperiod⟩, additions, hadditions, rfl⟩ := yields_lock.mp hlock
  have hvested := VestSpec.sumWhere_tranches hstep hperiod hamount hadditions
  rw [lockedAt_eq, lockedAt_eq, sumWhere_merge, sumWhere_eq_sub additions, hvested, hvested,
    VestSpec.vestedAt]

/-- Two locks on a table of distinct epochs can change places: what the table holds at an
epoch is what it held there before and what vests there of either lock. -/
theorem lock_comm (hdistinct : ledger.tranches.Pairwise fun tranche other =>
      tranche.epoch ≠ other.epoch)
    (hfirst : (lock firstEpoch firstAmount firstSpec).Yields ledger () one)
    (hsecond : (lock secondEpoch secondAmount secondSpec).Yields ledger () two) :
    ∃ both, (lock secondEpoch secondAmount secondSpec).Yields one () both ∧
      (lock firstEpoch firstAmount firstSpec).Yields two () both ∧
      ∀ epoch, both.lockedAt epoch = ledger.lockedAt epoch +
        firstSpec.vestedAt firstEpoch firstAmount epoch +
        secondSpec.vestedAt secondEpoch secondAmount epoch := by
  have hadded := lockedAt_lock hfirst
  obtain ⟨hfirstChecks, firsts, hfirsts, rfl⟩ := yields_lock.mp hfirst
  obtain ⟨hsecondChecks, seconds, hseconds, rfl⟩ := yields_lock.mp hsecond
  have hfirstRising := rising_of_tranches hfirstChecks hfirsts
  have hsecondRising := rising_of_tranches hsecondChecks hseconds
  have hboth : (lock secondEpoch secondAmount secondSpec).Yields (ledger.merge firsts) ()
      ((ledger.merge firsts).merge seconds) :=
    yields_lock.mpr ⟨hsecondChecks, seconds, hseconds, rfl⟩
  refine ⟨(ledger.merge firsts).merge seconds, hboth, ?_, fun epoch => ?_⟩
  · rw [merge_right_comm hdistinct hfirstRising hsecondRising]
    exact yields_lock.mpr ⟨hfirstChecks, firsts, hfirsts, rfl⟩
  · rw [lockedAt_lock hboth, hadded]

def shortSchedule : VestSpec := ⟨0, 6, 2, 1⟩

def scattered : Ledger := ⟨[⟨15, 7⟩, ⟨4, -2⟩, ⟨10, 1⟩], 3⟩

def scatteredShared : Ledger := ⟨[⟨4, -2⟩, ⟨5, 30⟩, ⟨10, 51⟩, ⟨15, 27⟩], 3⟩

def scatteredShort : Ledger := ⟨[⟨4, -2⟩, ⟨6, 3⟩, ⟨8, 3⟩, ⟨10, 4⟩, ⟨15, 7⟩], 3⟩

def scatteredBoth : Ledger := ⟨[⟨4, -2⟩, ⟨5, 30⟩, ⟨6, 3⟩, ⟨8, 3⟩, ⟨10, 54⟩, ⟨15, 27⟩], 3⟩

theorem lock_comm_scattered :
    scattered.tranches.Pairwise (fun tranche other => tranche.epoch ≠ other.epoch) ∧
      (lock 0 100 sharedSchedule).Yields scattered () scatteredShared ∧
      (lock 4 9 shortSchedule).Yields scattered () scatteredShort ∧
      (lock 4 9 shortSchedule).Yields scatteredShared () scatteredBoth ∧
      (lock 0 100 sharedSchedule).Yields scatteredShort () scatteredBoth ∧
      scatteredBoth.lockedAt 10 = scattered.lockedAt 10 + sharedSchedule.vestedAt 0 100 10 +
        shortSchedule.vestedAt 4 9 10 := by
  have hdistinct : scattered.tranches.Pairwise
      fun tranche other => tranche.epoch ≠ other.epoch := by
    decide
  have hfirst : (lock 0 100 sharedSchedule).Yields scattered () scatteredShared := rfl
  have hsecond : (lock 4 9 shortSchedule).Yields scattered () scatteredShort := rfl
  have hrun : (lock 4 9 shortSchedule).Yields scatteredShared () scatteredBoth := rfl
  obtain ⟨both, hlast, hother, hamounts⟩ := lock_comm hdistinct hfirst hsecond
  cases hrun.symm.trans hlast
  exact ⟨hdistinct, hfirst, hsecond, hrun, hother, hamounts 10⟩

end Ledger

end RewardVesting
