import Mathlib.Tactic.Ring
import RewardVesting.Proofs.ExpertFund.Consistency

namespace RewardVesting.ExpertFund

/-! Earnings without rounding: everything is scaled by the multiplier of the pool. -/

/-- What an expert has earned beyond its debt, not rounded. -/
def unsettled (policy : Policy) (pool : Pool) (info : Expert) : Int :=
  pool.accPerShare * info.weight.toNat - policy.accPerShareMultiplier * info.rewardDebt

/-- What the debt of a weight is rounded by. -/
def roundedOff (policy : Policy) (pool : Pool) (weight : UInt64) : Int :=
  pool.accPerShare * weight.toNat % policy.accPerShareMultiplier

namespace Fund

variable {policy : Policy} {epoch balance : Int} {before after : Fund} {pool later : Pool}

theorem unsettled_add (pool later : Pool) (info : Expert) :
    unsettled policy later info =
      unsettled policy pool info +
        (later.accPerShare - pool.accPerShare) * info.weight.toNat := by
  rw [unsettled, unsettled]
  ring

theorem unsettled_mono (hpool : pool.accPerShare ≤ later.accPerShare) (info : Expert) :
    unsettled policy pool info ≤ unsettled policy later info := by
  have hgain : 0 ≤ (later.accPerShare - pool.accPerShare) * (info.weight.toNat : Int) :=
    Int.mul_nonneg (Int.sub_nonneg_of_le hpool) (Int.natCast_nonneg _)
  rw [unsettled_add pool later]
  omega

theorem mul_earned (hpool : 0 ≤ pool.accPerShare) (weight : UInt64) :
    policy.accPerShareMultiplier * earned policy pool weight =
      pool.accPerShare * weight.toNat - roundedOff policy pool weight := by
  have hsplit := Int.mul_ediv_add_emod (pool.accPerShare * weight.toNat)
    policy.accPerShareMultiplier
  rw [earned_eq hpool, roundedOff]
  omega

/-- A record whose debt has just been taken is left with what was rounded off. -/
theorem unsettled_earned {info : Expert} (hpool : 0 ≤ pool.accPerShare)
    (hdebt : info.rewardDebt = earned policy pool info.weight) :
    unsettled policy pool info = roundedOff policy pool info.weight := by
  rw [unsettled, hdebt, mul_earned hpool]
  omega

theorem roundedOff_nonneg (hmultiplier : 0 < policy.accPerShareMultiplier) (pool : Pool)
    (weight : UInt64) :
    0 ≤ roundedOff policy pool weight :=
  Int.emod_nonneg _ (by omega)

theorem roundedOff_lt (hmultiplier : 0 < policy.accPerShareMultiplier) (pool : Pool)
    (weight : UInt64) :
    roundedOff policy pool weight < policy.accPerShareMultiplier :=
  Int.emod_lt_of_pos _ (by omega)

theorem rewardDebt_le_earned_iff (hmultiplier : 0 < policy.accPerShareMultiplier)
    (hpool : 0 ≤ pool.accPerShare) (info : Expert) :
    info.rewardDebt ≤ earned policy pool info.weight ↔ 0 ≤ unsettled policy pool info := by
  rw [earned_eq hpool, Int.le_ediv_iff_mul_le (Int.natCast_pos.mpr hmultiplier), unsettled,
    Int.mul_comm info.rewardDebt]
  exact Int.sub_nonneg.symm

theorem Spread.lastBalance_le (hspread : Spread policy epoch balance before after)
    (hbefore : before.lastBalance ≤ balance) : after.lastBalance ≤ balance := by
  rcases hspread.inflow with ⟨_, _, hlast⟩ | ⟨_, _, hlast, _⟩
  · rw [hlast]
    exact hbefore
  · exact Int.le_of_eq hlast

/-- A fund that can always go on: the balance has not fallen below the last one, and no debt
is beyond what has been earned. -/
structure Steady (policy : Policy) (fund : Fund) (experts : AddressMap Expert)
    (balance : Int) : Prop where
  sound : Sound fund experts
  unsettled_nonneg : ∀ info ∈ experts.values, 0 ≤ unsettled policy fund.pool info
  lastBalance_le : fund.lastBalance ≤ balance

section Steps

variable {experts : AddressMap Expert} {expert : Address}

theorem steady_empty (hbalance : 0 ≤ balance) : Steady policy .empty .empty balance where
  sound := sound_empty
  unsettled_nonneg := nofun
  lastBalance_le := hbalance

namespace Steady

variable (hsteady : Steady policy before experts balance)

include hsteady

theorem mono {more : Int} (hmore : balance ≤ more) : Steady policy before experts more :=
  { hsteady with lastBalance_le := hsteady.lastBalance_le.trans hmore }

theorem unsettled_nonneg_of_le (hpool : before.pool.accPerShare ≤ later.accPerShare) :
    ∀ info ∈ experts.values, 0 ≤ unsettled policy later info :=
  fun info hmem => (hsteady.unsettled_nonneg info hmem).trans (unsettled_mono hpool info)

theorem unsettled_record (expert : Address) :
    0 ≤ unsettled policy before.pool (record experts expert) := by
  rw [Fund.record]
  cases hfind : experts.find? (.address expert) with
  | none => simp [unsettled, Expert.unregistered]
  | some info => exact hsteady.unsettled_nonneg info (AddressMap.mem_values_of_find? hfind)

theorem deposit (hmultiplier : 0 < policy.accPerShareMultiplier) {added : UInt64}
    {answer : Unit}
    (hyields : (deposit policy epoch balance expert added).Yields before answer after) :
    ∃ revised, Steady policy after revised balance := by
  obtain ⟨revised, hrevised⟩ := hsteady.sound.deposit hyields
  obtain ⟨held, updated, settled, hheld, hspread, hsettled, _, _, rfl⟩ :=
    deposit_yields hyields
  cases hsteady.sound.held.symm.trans hheld
  cases hrevised.held
  have hpool := hspread.accPerShare_le
  refine ⟨_, hrevised, ?_, hspread.lastBalance_le hsteady.lastBalance_le⟩
  refine AddressMap.forall_mem_values_insert (hsteady.unsettled_nonneg_of_le hpool) ?_
  rw [unsettled_earned (hsteady.sound.accPerShare_nonneg.trans hpool) rfl]
  exact roundedOff_nonneg hmultiplier _ _

theorem claim (hmultiplier : 0 < policy.accPerShareMultiplier) {amount : Int}
    {answer : Unit}
    (hyields : (claim policy epoch balance expert amount).Yields before answer after) :
    ∃ revised, Steady policy after revised (balance - amount) := by
  obtain ⟨revised, hrevised⟩ := hsteady.sound.claim hyields
  obtain ⟨held, info, updated, settled, hheld, hfind, hspread, hsettled, _, rfl⟩ :=
    claim_yields hyields
  cases hsteady.sound.held.symm.trans hheld
  cases hrevised.held
  have hpool := hspread.accPerShare_le
  refine ⟨_, hrevised, ?_,
    Int.sub_le_sub_right (hspread.lastBalance_le hsteady.lastBalance_le) amount⟩
  refine AddressMap.forall_mem_values_insert (hsteady.unsettled_nonneg_of_le hpool) ?_
  rw [unsettled_earned (hsteady.sound.accPerShare_nonneg.trans hpool) rfl]
  exact roundedOff_nonneg hmultiplier _ _

theorem reset {forfeited : Int}
    (hyields : (reset policy epoch balance expert).Yields before forfeited after) :
    ∃ revised, Steady policy after revised balance := by
  obtain ⟨revised, hrevised⟩ := hsteady.sound.reset hyields
  obtain ⟨held, info, updated, settled, hheld, hfind, hweight, hspread, hsettled, _, rfl⟩ :=
    reset_yields hyields
  cases hsteady.sound.held.symm.trans hheld
  cases hrevised.held
  refine ⟨_, hrevised, ?_, hspread.lastBalance_le hsteady.lastBalance_le⟩
  refine AddressMap.forall_mem_values_insert
    (hsteady.unsettled_nonneg_of_le hspread.accPerShare_le) ?_
  simp [unsettled, Expert.unregistered]

theorem changeVotes {change : Int} {answer : Unit}
    (hyields : (changeVotes expert change).Yields before answer after) :
    Steady policy after experts balance := by
  have hsound := hsteady.sound.changeVotes hyields
  obtain ⟨_, _, _, _, rfl⟩ := changeVotes_yields hyields
  exact ⟨hsound, hsteady.unsettled_nonneg, hsteady.lastBalance_le⟩

end Steady

end Steps

end Fund

end RewardVesting.ExpertFund
