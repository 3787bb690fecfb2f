import RewardVesting.Proofs.ExpertFund.Effect
import RewardVesting.Proofs.Ledger.Schedule

namespace RewardVesting.ExpertFund

open RewardVesting.Action

/-- What holds of every record of an expert. -/
structure Consistent (info : Expert) : Prop where
  vesting : info.vesting.WellFormed
  vesting_unlocked : info.vesting.unlocked = 0
  locked : info.locked = info.vesting.lockedTotal
  unlocked_nonneg : 0 ≤ info.unlocked
  rewardDebt_nonneg : 0 ≤ info.rewardDebt

theorem consistent_unregistered : Consistent .unregistered where
  vesting := Ledger.wellFormed_empty
  vesting_unlocked := rfl
  locked := rfl
  unlocked_nonneg := Int.le_refl 0
  rewardDebt_nonneg := Int.le_refl 0

theorem Consistent.locked_nonneg {info : Expert} (hinfo : Consistent info) :
    0 ≤ info.locked := by
  rw [hinfo.locked, Ledger.lockedTotal]
  exact Ledger.sumOf_nonneg hinfo.vesting.tranches_nonneg

namespace Fund

variable {policy : Policy} {epoch balance : Int} {before after : Fund}

theorem Vested.wellFormed {spec : VestSpec} {pending : Int} {ledger vested : Ledger}
    (hvested : Vested spec epoch pending ledger vested) (hformed : ledger.WellFormed) :
    vested.WellFormed := by
  cases hvested with
  | nothing _ => exact hformed
  | scheduled hpending hstep hperiod hadditions =>
      have hscheduled :=
        VestSpec.scheduled_of_tranches hstep hperiod (Int.le_of_lt hpending) hadditions
      exact hformed.merge hscheduled.rising hscheduled.nonneg

theorem Vested.lockedTotal {spec : VestSpec} {pending : Int} {ledger vested : Ledger}
    (hvested : Vested spec epoch pending ledger vested) (hpending : 0 ≤ pending) :
    vested.lockedTotal = ledger.lockedTotal + pending := by
  cases hvested with
  | nothing hnone => omega
  | scheduled hpositive hstep hperiod hadditions =>
      have hscheduled := VestSpec.scheduled_of_tranches hstep hperiod hpending hadditions
      rw [Ledger.lockedTotal_merge, hscheduled.sumOf]

theorem Vested.unlocked {spec : VestSpec} {pending : Int} {ledger vested : Ledger}
    (hvested : Vested spec epoch pending ledger vested) :
    vested.unlocked = ledger.unlocked := by
  cases hvested with
  | nothing _ => rfl
  | scheduled _ _ _ _ => rfl

theorem Settled.consistent {pool : Pool} {info settled : Expert}
    (hsettled : Settled policy epoch pool info settled) (hinfo : Consistent info) :
    Consistent settled := by
  obtain ⟨vested, hvested, hvesting, hunlocked⟩ := hsettled.ledger
  have hpending := Int.sub_nonneg_of_le hsettled.rewardDebt_le
  have hformed := hvested.wellFormed hinfo.vesting
  have hlocked := hvested.lockedTotal hpending
  have hsweep := vested.lockedTotal_sweep (epoch - policy.rewardVestingSpec.vestPeriod)
  have hreleased := hformed.released_nonneg (epoch - policy.rewardVestingSpec.vestPeriod)
  have hfunds := hsettled.funds
  have hwas := hinfo.locked
  constructor
  · rw [hvesting]
    exact hformed.sweep _
  · rw [hvesting, Ledger.sweep_unlocked, hvested.unlocked]
    exact hinfo.vesting_unlocked
  · rw [hvesting]
    omega
  · have hnonneg := hinfo.unlocked_nonneg
    omega
  · rw [hsettled.rewardDebt]
    exact hinfo.rewardDebt_nonneg

theorem Spread.accPerShare_le (hspread : Spread policy epoch balance before after) :
    before.pool.accPerShare ≤ after.pool.accPerShare := by
  rcases hspread.inflow with ⟨_, hkept, _⟩ | ⟨_, hinflow, _, hgain⟩
  · omega
  · have hscaled : 0 ≤ (balance - before.lastBalance) * policy.accPerShareMultiplier :=
      Int.mul_nonneg (by omega) (Int.natCast_nonneg _)
    have hnonneg := Int.tdiv_nonneg hscaled (Int.natCast_nonneg before.totalWeight.toNat)
    omega

/-- Without any weight nothing is accumulated. -/
theorem Spread.accPerShare_eq (hspread : Spread policy epoch balance before after)
    (hnone : before.totalWeight = 0) :
    after.pool.accPerShare = before.pool.accPerShare := by
  rcases hspread.inflow with ⟨_, hkept, _⟩ | ⟨hsome, _⟩
  · exact hkept
  · exact absurd hnone hsome

theorem earned_eq {pool : Pool} (hpool : 0 ≤ pool.accPerShare) (weight : UInt64) :
    earned policy pool weight =
      pool.accPerShare * weight.toNat / policy.accPerShareMultiplier :=
  Int.tdiv_eq_ediv_of_nonneg (Int.mul_nonneg hpool (Int.natCast_nonneg _))

theorem earned_nonneg {pool : Pool} (hpool : 0 ≤ pool.accPerShare) (weight : UInt64) :
    0 ≤ earned policy pool weight :=
  Int.tdiv_nonneg (Int.mul_nonneg hpool (Int.natCast_nonneg _)) (Int.natCast_nonneg _)

/-- What holds of a fund at all times, with these experts. -/
structure Sound (fund : Fund) (experts : AddressMap Expert) : Prop where
  held : fund.experts = .held experts
  totalWeight : (fund.totalWeight.toNat : Int) = experts.sumOf fun info => info.weight.toNat
  accPerShare_nonneg : 0 ≤ fund.pool.accPerShare
  consistent : ∀ info ∈ experts.values, Consistent info

theorem sound_empty : Sound .empty .empty where
  held := rfl
  totalWeight := rfl
  accPerShare_nonneg := Int.le_refl 0
  consistent := nofun

theorem Sound.record {experts : AddressMap Expert} (hsound : Sound before experts)
    (expert : Address) : Consistent (record experts expert) := by
  rw [Fund.record]
  cases hfind : experts.find? (.address expert) with
  | none => exact consistent_unregistered
  | some info => exact hsound.consistent info (AddressMap.mem_values_of_find? hfind)

/-- A quantity of which an unknown expert has none changes by what the expert's record
changes. -/
theorem sumOf_insert_record {quantity : Expert → Int} (hnone : quantity .unregistered = 0)
    (experts : AddressMap Expert) (expert : Address) (info : Expert) :
    (experts.insert (.address expert) info).sumOf quantity =
      experts.sumOf quantity - quantity (record experts expert) + quantity info :=
  AddressMap.sumOf_insert_getD experts _ info hnone

theorem sumOf_weight_insert (experts : AddressMap Expert) (expert : Address)
    (info : Expert) :
    (experts.insert (.address expert) info).sumOf (fun info => info.weight.toNat) =
      experts.sumOf (fun info => info.weight.toNat) - (record experts expert).weight.toNat +
        info.weight.toNat :=
  sumOf_insert_record rfl experts expert info

theorem Spread.sound {experts : AddressMap Expert}
    (hspread : Spread policy epoch balance before after) (hsound : Sound before experts) :
    Sound after experts where
  held := hspread.experts.trans hsound.held
  totalWeight := by rw [hspread.totalWeight, hsound.totalWeight]
  accPerShare_nonneg := Int.le_trans hsound.accPerShare_nonneg hspread.accPerShare_le
  consistent := hsound.consistent

theorem Sound.deposit {experts : AddressMap Expert} (hsound : Sound before experts)
    {expert : Address} {added : UInt64} {answer : Unit}
    (hyields : (deposit policy epoch balance expert added).Yields before answer after) :
    ∃ revised, Sound after revised := by
  obtain ⟨held, updated, settled, hheld, hspread, hsettled, hweight, htotal, rfl⟩ :=
    deposit_yields hyields
  cases hsound.held.symm.trans hheld
  have hupdated := hspread.sound hsound
  have hrecord := hsettled.consistent (hsound.record expert)
  refine ⟨_, ⟨rfl, ?_, hupdated.accPerShare_nonneg, AddressMap.forall_mem_values_insert
    hsound.consistent ⟨hrecord.vesting, hrecord.vesting_unlocked, hrecord.locked,
      hrecord.unlocked_nonneg, earned_nonneg hupdated.accPerShare_nonneg _⟩⟩⟩
  have hsame := hsettled.weight
  have hsum := hsound.totalWeight
  rw [sumOf_weight_insert, ← hsum, ← hsame, UInt64.toNat_add, UInt64.toNat_add,
    Nat.mod_eq_of_lt hweight, Nat.mod_eq_of_lt htotal]
  omega

theorem Sound.claim {experts : AddressMap Expert} (hsound : Sound before experts)
    {expert : Address} {amount : Int} {answer : Unit}
    (hyields : (claim policy epoch balance expert amount).Yields before answer after) :
    ∃ revised, Sound after revised := by
  obtain ⟨held, info, updated, settled, hheld, hfind, hspread, hsettled, hamount, rfl⟩ :=
    claim_yields hyields
  cases hsound.held.symm.trans hheld
  have hupdated := hspread.sound hsound
  have hrecord := hsettled.consistent (record_of_find? hfind ▸ hsound.record expert)
  refine ⟨_, ⟨rfl, ?_, hupdated.accPerShare_nonneg, AddressMap.forall_mem_values_insert
    hsound.consistent ⟨hrecord.vesting, hrecord.vesting_unlocked, hrecord.locked,
      Int.sub_nonneg_of_le hamount, earned_nonneg hupdated.accPerShare_nonneg _⟩⟩⟩
  rw [sumOf_weight_insert, record_of_find? hfind, hsettled.weight, ← hupdated.totalWeight]
  exact (Int.sub_add_cancel _ _).symm

theorem Sound.reset {experts : AddressMap Expert} (hsound : Sound before experts)
    {expert : Address} {forfeited : Int}
    (hyields : (reset policy epoch balance expert).Yields before forfeited after) :
    ∃ revised, Sound after revised := by
  obtain ⟨held, info, updated, settled, hheld, hfind, hweight, hspread, hsettled, _, rfl⟩ :=
    reset_yields hyields
  cases hsound.held.symm.trans hheld
  have hrecord := hsettled.consistent (record_of_find? hfind ▸ hsound.record expert)
  refine ⟨_, ⟨rfl, ?_, Int.le_trans hsound.accPerShare_nonneg hspread.accPerShare_le,
    AddressMap.forall_mem_values_insert hsound.consistent
      ⟨Ledger.wellFormed_empty, rfl, rfl, hrecord.unlocked_nonneg, Int.le_refl 0⟩⟩⟩
  have hsum := hsound.totalWeight
  have hle := UInt64.le_iff_toNat_le.mp hweight
  rw [sumOf_weight_insert, record_of_find? hfind, ← hsum]
  simp only [hspread.totalWeight, UInt64.toNat_sub_of_le _ _ hweight]
  rw [Int.natCast_sub hle]
  exact (Int.add_zero _).symm

theorem Sound.changeVotes {experts : AddressMap Expert} (hsound : Sound before experts)
    {expert : Address} {change : Int} {answer : Unit}
    (hyields : (changeVotes expert change).Yields before answer after) :
    Sound after experts := by
  obtain ⟨_, _, _, _, rfl⟩ := changeVotes_yields hyields
  exact ⟨hsound.held, hsound.totalWeight, hsound.accPerShare_nonneg, hsound.consistent⟩

end Fund

open Host

theorem sound_of_history {moves : Host Fund → Host Fund → Prop} {start host : Host Fund}
    {calls : List (Invocation Fund)} (history : History code moves start calls host)
    (hmoves : ∀ before after, moves before after → Elsewhere before after)
    (hstart : start.state = none) :
    ∀ fund, host.state = some (.held fund) → ∃ experts, Fund.Sound fund experts := by
  refine history.state_invariant
    (fun stored => ∀ fund, stored = some (.held fund) → ∃ experts, Fund.Sound fund experts)
    hmoves ?_ ?_
  · intro fund hfund
    rw [hstart] at hfund
    cases hfund
  · intro before method params returned after hyields hbefore fund hfund
    cases code_yields hyields with
    | constructed _ _ _ hafter _ =>
        cases hafter.symm.trans hfund
        exact ⟨_, Fund.sound_empty⟩
    | watched _ hafter _ => exact hbefore fund (hafter ▸ hfund)
    | deposited _ _ _ hold hchange hafter _ =>
        cases hafter.symm.trans hfund
        obtain ⟨experts, hsound⟩ := hbefore _ hold
        exact hsound.deposit hchange
    | claimed _ _ _ hold hchange hafter _ =>
        cases hafter.symm.trans hfund
        obtain ⟨experts, hsound⟩ := hbefore _ hold
        exact hsound.claim hchange
    | cleared _ _ hold hchange hafter _ =>
        cases hafter.symm.trans hfund
        obtain ⟨experts, hsound⟩ := hbefore _ hold
        exact hsound.reset hchange
    | voted _ _ _ hold hchange hafter _ =>
        cases hafter.symm.trans hfund
        obtain ⟨experts, hsound⟩ := hbefore _ hold
        exact ⟨experts, hsound.changeVotes hchange⟩

end RewardVesting.ExpertFund
