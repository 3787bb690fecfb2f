import Mathlib.Tactic.Linarith
import Mathlib.Tactic.Ring
import RewardVesting.Proofs.ExpertFund.Entitlement
import RewardVesting.Proofs.ExpertFund.Steady

namespace RewardVesting.ExpertFund

open Host

/-- What an expert has been given, and what it has earned beyond its debt. -/
def holdings (policy : Policy) (pool : Pool) (info : Expert) : Int :=
  policy.accPerShareMultiplier * (info.locked + info.unlocked) + unsettled policy pool info

/-- What is left of an inflow when it cannot be spread evenly over a weight. -/
def remainder (policy : Policy) (inflow : Int) (total : UInt64) : Int :=
  if total = 0 then 0 else inflow * policy.accPerShareMultiplier % total.toNat

namespace Fund

variable {policy : Policy} {epoch balance : Int} {before after : Fund} {pool later : Pool}

theorem remainder_nonneg (policy : Policy) (inflow : Int) (total : UInt64) :
    0 ≤ remainder policy inflow total := by
  rw [remainder]
  split
  · exact Int.le_refl 0
  · rename_i hsome
    refine Int.emod_nonneg _ ?_
    intro hzero
    exact hsome (UInt64.toNat_inj.mp (Int.ofNat_inj.mp hzero))

theorem Spread.scaled (hspread : Spread policy epoch balance before after) :
    policy.accPerShareMultiplier * (after.lastBalance - before.lastBalance) =
      (after.pool.accPerShare - before.pool.accPerShare) * before.totalWeight.toNat +
        remainder policy (balance - before.lastBalance) before.totalWeight := by
  rcases hspread.inflow with ⟨hempty, hpool, hlast⟩ | ⟨hweight, hinflow, hlast, hpool⟩
  · rw [hpool, hlast, remainder, if_pos hempty, Int.sub_self, Int.sub_self]
    omega
  · have hscaled : 0 ≤ (balance - before.lastBalance) * policy.accPerShareMultiplier :=
      Int.mul_nonneg (by omega) (Int.natCast_nonneg _)
    have hsplit := Int.mul_ediv_add_emod
      ((balance - before.lastBalance) * policy.accPerShareMultiplier)
        before.totalWeight.toNat
    rw [hpool, hlast, remainder, if_neg hweight, Int.tdiv_eq_ediv_of_nonneg hscaled]
    linarith

theorem holdings_unregistered : holdings policy pool .unregistered = 0 := by
  simp [holdings, unsettled, Expert.unregistered]

theorem holdings_add (pool later : Pool) (info : Expert) :
    holdings policy later info =
      holdings policy pool info +
        (later.accPerShare - pool.accPerShare) * info.weight.toNat := by
  rw [holdings, holdings, unsettled_add pool later, Int.add_assoc]

theorem sumOf_holdings_add (pool later : Pool) (experts : AddressMap Expert) :
    experts.sumOf (holdings policy later) = experts.sumOf (holdings policy pool) +
      (later.accPerShare - pool.accPerShare) * experts.sumOf fun info =>
        info.weight.toNat := by
  rw [← AddressMap.sumOf_add_mul]
  exact congrArg experts.sumOf (funext (holdings_add pool later))

/-- Settling moves holdings from one place to another; only the roundings of the two debts
differ. -/
theorem holdings_settled {info settled : Expert} (hpool : 0 ≤ pool.accPerShare)
    (hsettled : Settled policy epoch pool info settled) (weight : UInt64) (paid : Int) :
    holdings policy pool { settled with
        weight := weight
        rewardDebt := earned policy pool weight
        unlocked := settled.unlocked - paid } =
      holdings policy pool info + (roundedOff policy pool weight -
        roundedOff policy pool info.weight) - policy.accPerShareMultiplier * paid := by
  have hfunds := hsettled.funds
  have hearned : policy.accPerShareMultiplier * earned policy pool info.weight =
      pool.accPerShare * info.weight.toNat - roundedOff policy pool info.weight :=
    mul_earned hpool info.weight
  rw [holdings, unsettled_earned hpool rfl, holdings, unsettled]
  dsimp only
  have htotal : settled.locked + (settled.unlocked - paid) =
      info.locked + info.unlocked + (earned policy pool info.weight - info.rewardDebt) -
          paid := by
    omega
  rw [htotal]
  linarith

/-- Nothing that has just begun to vest is unlocked by the same settlement. -/
theorem Settled.unlocked_le {info settled : Expert}
    (hsettled : Settled policy epoch pool info settled) (hinfo : Consistent info)
    (hdelay : 0 ≤ policy.rewardVestingSpec.initialDelay) :
    settled.unlocked ≤ info.locked + info.unlocked := by
  obtain ⟨vested, hvested, _, hunlocked⟩ := hsettled.ledger
  have hreleased : (vested.sweep (epoch - policy.rewardVestingSpec.vestPeriod)).2 =
      (info.vesting.sweep (epoch - policy.rewardVestingSpec.vestPeriod)).2 := by
    rw [(hvested.wellFormed hinfo.vesting).sweep_released, hinfo.vesting.sweep_released]
    cases hvested with
    | nothing _ => rfl
    | scheduled hpending hstep hperiod hadditions =>
        have hscheduled :=
          VestSpec.scheduled_of_tranches hstep hperiod (Int.le_of_lt hpending) hadditions
        rw [Ledger.sumWhere_merge, add_eq_left]
        refine Ledger.sumWhere_of_forall_not fun addition hmem => ?_
        have hlater := hscheduled.later addition hmem
        rw [decide_eq_true_eq]
        omega
  have hbound := hinfo.vesting.released_le_lockedTotal
    (epoch - policy.rewardVestingSpec.vestPeriod)
  have hlocked := hinfo.locked
  omega

/-- The books of a fund: the last balance, and what roundings have given away, are accounted
for by what experts hold and by what the fund has kept. -/
structure Solid (policy : Policy) (fund : Fund) (experts : AddressMap Expert)
    (balance kept rounded : Int) : Prop where
  sound : Sound fund experts
  unsettled_nonneg : ∀ info ∈ experts.values, 0 ≤ unsettled policy fund.pool info
  kept_nonneg : 0 ≤ kept
  lastBalance_le : fund.lastBalance ≤ balance
  accounts : policy.accPerShareMultiplier * fund.lastBalance + rounded =
    experts.sumOf (holdings policy fund.pool) + kept

section Steps

variable {experts : AddressMap Expert} {kept rounded : Int} {expert : Address}

theorem solid_empty (hbalance : 0 ≤ balance) : Solid policy .empty .empty balance 0 0 where
  sound := sound_empty
  unsettled_nonneg := nofun
  kept_nonneg := Int.le_refl 0
  lastBalance_le := hbalance
  accounts := by
    rw [Int.add_zero, Int.add_zero]
    exact Int.mul_zero _

theorem Solid.steady (hsolid : Solid policy before experts balance kept rounded) :
    Steady policy before experts balance :=
  ⟨hsolid.sound, hsolid.unsettled_nonneg, hsolid.lastBalance_le⟩

theorem sumOf_holdings_insert (pool later : Pool) (experts : AddressMap Expert)
    (expert : Address) (info : Expert) :
    (experts.insert (.address expert) info).sumOf (holdings policy later) =
      experts.sumOf (holdings policy pool) +
        (later.accPerShare - pool.accPerShare) *
          experts.sumOf (fun info => info.weight.toNat) -
        holdings policy later (record experts expert) + holdings policy later info := by
  rw [sumOf_insert_record holdings_unregistered, sumOf_holdings_add pool later]

theorem solid_deposit (hsolid : Solid policy before experts balance kept rounded)
    (hmultiplier : 0 < policy.accPerShareMultiplier) {added : UInt64} {answer : Unit}
    (hyields : (deposit policy epoch balance expert added).Yields before answer after) :
    ∃ revised, Solid policy after revised balance
      (kept + remainder policy (balance - before.lastBalance) before.totalWeight)
      (rounded + (roundedOff policy after.pool (record revised expert).weight -
        roundedOff policy after.pool (record experts expert).weight)) := by
  obtain ⟨revised, hrevised⟩ := hsolid.steady.deposit hmultiplier hyields
  obtain ⟨held, updated, settled, hheld, hspread, hsettled, _, _, rfl⟩ :=
    deposit_yields hyields
  cases hsolid.sound.held.symm.trans hheld
  cases hrevised.sound.held
  have hpool := hspread.accPerShare_le
  have hnonneg := hsolid.sound.accPerShare_nonneg.trans hpool
  have hsettle := holdings_settled hnonneg hsettled (settled.weight + added) 0
  have hscaled := hspread.scaled
  have haccounts := hsolid.accounts
  have htotal := hsolid.sound.totalWeight
  refine ⟨_, hrevised.sound, hrevised.unsettled_nonneg,
    add_nonneg hsolid.kept_nonneg (remainder_nonneg _ _ _), hrevised.lastBalance_le, ?_⟩
  rw [Int.sub_zero, Int.mul_zero, Int.sub_zero] at hsettle
  rw [record_insert, if_pos rfl]
  dsimp only
  rw [sumOf_holdings_insert before.pool, ← htotal, hsettle]
  linarith

theorem solid_claim (hsolid : Solid policy before experts balance kept rounded)
    (hmultiplier : 0 < policy.accPerShareMultiplier) {amount : Int} {answer : Unit}
    (hyields : (claim policy epoch balance expert amount).Yields before answer after) :
    ∃ revised, Solid policy after revised (balance - amount)
      (kept + remainder policy (balance - before.lastBalance) before.totalWeight)
        rounded := by
  obtain ⟨revised, hrevised⟩ := hsolid.steady.claim hmultiplier hyields
  obtain ⟨held, info, updated, settled, hheld, hfind, hspread, hsettled, _, rfl⟩ :=
    claim_yields hyields
  cases hsolid.sound.held.symm.trans hheld
  cases hrevised.sound.held
  have hpool := hspread.accPerShare_le
  have hnonneg := hsolid.sound.accPerShare_nonneg.trans hpool
  have hsettle := holdings_settled hnonneg hsettled settled.weight amount
  have hscaled := hspread.scaled
  have haccounts := hsolid.accounts
  have htotal := hsolid.sound.totalWeight
  refine ⟨_, hrevised.sound, hrevised.unsettled_nonneg,
    add_nonneg hsolid.kept_nonneg (remainder_nonneg _ _ _), hrevised.lastBalance_le, ?_⟩
  rw [hsettled.weight, Int.sub_self, Int.add_zero, ← hsettled.weight] at hsettle
  dsimp only
  rw [sumOf_holdings_insert before.pool, ← htotal, hsettle, record_of_find? hfind]
  linarith

/-- A reset forfeits what its expert held and does not keep. -/
theorem solid_reset (hsolid : Solid policy before experts balance kept rounded)
    (hdelay : 0 ≤ policy.rewardVestingSpec.initialDelay) {forfeited : Int}
    (hyields : (reset policy epoch balance expert).Yields before forfeited after) :
    ∃ revised, Solid policy after revised balance
      (kept + remainder policy (balance - before.lastBalance)
          (before.totalWeight - (record experts expert).weight) +
        (holdings policy before.pool (record experts expert) -
          holdings policy after.pool (record revised expert))) rounded := by
  obtain ⟨revised, hrevised⟩ := hsolid.steady.reset hyields
  have hconsistent := hsolid.sound.record expert
  obtain ⟨held, info, updated, settled, hheld, hfind, hweight, hspread, hsettled, _, rfl⟩ :=
    reset_yields hyields
  cases hsolid.sound.held.symm.trans hheld
  cases hrevised.sound.held
  have hscaled := hspread.scaled
  have hrecord := record_of_find? hfind
  rw [hrecord] at hconsistent
  have hleft : holdings policy updated.pool { Expert.unregistered with
      unlocked := settled.unlocked } = policy.accPerShareMultiplier * settled.unlocked := by
    simp [holdings, unsettled, Expert.unregistered]
  have hforfeited : 0 ≤ holdings policy before.pool info -
      policy.accPerShareMultiplier * settled.unlocked := by
    have hunsettled := hsolid.unsettled_nonneg info (AddressMap.mem_values_of_find? hfind)
    have hunlocked := Int.mul_le_mul_of_nonneg_left
      (hsettled.unlocked_le hconsistent hdelay)
        (Int.natCast_nonneg policy.accPerShareMultiplier)
    rw [holdings]
    omega
  refine ⟨_, hrevised.sound, hrevised.unsettled_nonneg, ?_, hrevised.lastBalance_le, ?_⟩
  · rw [record_insert, if_pos rfl, hrecord]
    dsimp only
    rw [hleft]
    exact add_nonneg (add_nonneg hsolid.kept_nonneg (remainder_nonneg _ _ _)) hforfeited
  · have haccounts := hsolid.accounts
    have htotal := hsolid.sound.totalWeight
    have hgain : holdings policy updated.pool info = holdings policy before.pool info +
        (updated.pool.accPerShare - before.pool.accPerShare) * info.weight.toNat :=
      holdings_add before.pool updated.pool info
    rw [UInt64.toNat_sub_of_le _ _ hweight,
      Int.natCast_sub (UInt64.le_iff_toNat_le.mp hweight)] at hscaled
    rw [record_insert, if_pos rfl, hrecord]
    dsimp only at hscaled ⊢
    rw [sumOf_holdings_insert before.pool, ← htotal, hrecord, hleft, hgain]
    linarith

theorem solid_changeVotes (hsolid : Solid policy before experts balance kept rounded)
    {change : Int} {answer : Unit}
    (hyields : (changeVotes expert change).Yields before answer after) :
    Solid policy after experts balance kept rounded := by
  have hsteady := hsolid.steady.changeVotes hyields
  obtain ⟨_, _, _, _, rfl⟩ := changeVotes_yields hyields
  exact ⟨hsteady.sound, hsteady.unsettled_nonneg, hsolid.kept_nonneg,
    hsteady.lastBalance_le, hsolid.accounts⟩

end Steps

end Fund

end RewardVesting.ExpertFund
