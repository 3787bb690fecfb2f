import RewardVesting.Proofs.ExpertFund.Steady
import RewardVesting.Proofs.Ledger.Availability
import RewardVesting.Proofs.Ledger.Reach
import RewardVesting.Proofs.Ledger.WellFormed
import RewardVesting.Proofs.Wire.Writable

namespace RewardVesting.ExpertFund

open RewardVesting.Action

/-- No epoch that a settlement comes across is beyond what can be represented. -/
structure Timely (policy : Policy) (epoch : Int) : Prop where
  now : Epoch.Representable epoch
  ripe : Epoch.lowest < epoch - policy.rewardVestingSpec.vestPeriod
  schedule : policy.rewardVestingSpec.Timely epoch

namespace Fund

/-- The refusals that would meet every later request as well. -/
inductive Refusal.Bricking : Refusal → Prop
  | balanceFell (balance lastBalance : Int) : Bricking (.balanceFell balance lastBalance)
  | negativePending (pending : Int) (weight : UInt64) (debt : Int) :
      Bricking (.negativePending pending weight debt)
  | notVested (cause : Ledger.LockRefusal) : Bricking (.notVested cause)
  | weightAboveTotal (expert : Address) (weight total : UInt64) :
      Bricking (.weightAboveTotal expert weight total)

variable {policy : Policy} {epoch balance : Int} {before after : Fund} {cause : Refusal}
  {experts : AddressMap Expert} {expert : Address} {info : Expert}

theorem not_refuses_accumulated {weight : UInt64} :
    ¬(accumulated policy weight).Refuses before cause after := by
  simp [accumulated]

theorem not_refuses_updatePool (hbalance : before.lastBalance ≤ balance) :
    ¬(updatePool policy epoch balance).Refuses before cause after := by
  intro hrefuses
  simp only [updatePool, refuses_bind, not_refuses_read, yields_read, refuses_ite,
    not_refuses_write, refuses_require, not_refuses_checked, and_false,
    exists_false, or_false, false_or] at hrefuses
  obtain ⟨_, _, ⟨rfl, rfl⟩, _, hfell, _⟩ := hrefuses
  exact hfell (Int.sub_nonneg_of_le hbalance)

theorem get_refuses (hheld : before.experts = .held experts)
    (hrefuses : (get expert).Refuses before cause after) :
    experts.find? (.address expert) = none ∧ cause = .unknownExpert expert := by
  have hfound : before.find? expert = .ok (experts.find? (.address expert)) :=
    find?_eq_ok.mpr ⟨experts, hheld, rfl⟩
  simp only [get, refuses_bind, not_refuses_read, yields_read, refuses_ofExcept,
    yields_ofExcept, false_or] at hrefuses
  obtain ⟨_, _, ⟨rfl, rfl⟩, ⟨hnone, _⟩ | ⟨known, _, ⟨hknown, rfl⟩, hmatch⟩⟩ := hrefuses
  · cases hnone.symm.trans hfound
  · cases hknown.symm.trans hfound
    split at hmatch
    · exact absurd hmatch not_refuses_pure
    · rename_i hunknown
      exact ⟨hunknown, (refuses_refuse.mp hmatch).1.symm⟩

theorem put_refuses {key : Key} (hrefuses : (put key info).Refuses before cause after)
    (hheld : before.experts = .held experts) :
    ¬(Expert.format.write info).isSome ∧ cause = .unstorable := by
  have hmap : before.expertMap = .ok experts := expertMap_eq_ok.mpr hheld
  simp only [put, refuses_bind, not_refuses_read, yields_read, refuses_ofExcept,
    yields_ofExcept, refuses_require, not_refuses_modify, and_false, exists_false, or_false,
    false_or] at hrefuses
  obtain ⟨_, _, ⟨rfl, rfl⟩, ⟨hnone, _⟩ | ⟨_, _, _, hunwritable, rfl, _⟩⟩ := hrefuses
  · cases hnone.symm.trans hmap
  · exact ⟨hunwritable, rfl⟩

theorem weight_le_totalWeight (hsound : Sound before experts)
    (hfind : experts.find? (.address expert) = some info) :
    info.weight ≤ before.totalWeight := by
  have hle : (info.weight.toNat : Int) ≤ experts.sumOf fun other => other.weight.toNat :=
    AddressMap.le_sumOf (fun other _ => Int.natCast_nonneg other.weight.toNat) hfind
  rw [← hsound.totalWeight] at hle
  rw [UInt64.le_iff_toNat_le]
  exact Int.ofNat_le.mp hle

section Fair

variable (hmultiplier : 0 < policy.accPerShareMultiplier)
  (hstep : 0 < policy.rewardVestingSpec.stepDuration)
  (hperiod : 0 < policy.rewardVestingSpec.vestPeriod)

include hstep hperiod

theorem not_refuses_vest {pending : Int} :
    ¬(vest policy epoch pending info).Refuses before cause after := by
  intro hrefuses
  simp only [vest, refuses_ite, refuses_bind, refuses_runOn, refuses_mapError,
    not_refuses_pure, and_false, exists_false, or_false] at hrefuses
  obtain ⟨hpending, _, ⟨_, hlock, _⟩, _⟩ := hrefuses
  exact Ledger.not_refuses_lock hstep hperiod (Int.le_of_lt hpending) hlock

include hmultiplier

theorem not_refuses_settle (hpool : 0 ≤ before.pool.accPerShare)
    (hunsettled : 0 ≤ unsettled policy before.pool info) :
    ¬(settle policy epoch info).Refuses before cause after := by
  intro hrefuses
  simp only [settle, refuses_bind, not_refuses_accumulated, refuses_require, yields_require,
    not_refuses_vest hstep hperiod, not_refuses_checked, not_refuses_pure, and_false,
    exists_false, or_false, false_or] at hrefuses
  obtain ⟨_, _, hvalue, hpending, _⟩ := hrefuses
  obtain ⟨_, rfl, rfl⟩ := accumulated_yields hvalue
  exact hpending (Int.sub_nonneg_of_le
    ((rewardDebt_le_earned_iff hmultiplier hpool info).mpr hunsettled))

/-! A deposit is refused if it overflows a weight, a claim if it goes beyond what is
unlocked, and each of the three if its record cannot be stored. -/

theorem deposit_refuses (hsteady : Steady policy before experts balance) {added : UInt64}
    (hrefuses : (deposit policy epoch balance expert added).Refuses before cause after) :
    UInt64.size ≤ (record experts expert).weight.toNat + added.toNat ∧
        cause = .weightTooLarge expert added ∨
      UInt64.size ≤ before.totalWeight.toNat + added.toNat ∧
        cause = .totalWeightTooLarge added ∨
      (∃ updated settled, Spread policy epoch balance before updated ∧
        Settled policy epoch updated.pool (record experts expert) settled ∧
        ¬(Expert.format.write { settled with
          weight := settled.weight + added
          rewardDebt := earned policy updated.pool (settled.weight + added) }).isSome) ∧
        cause = .unstorable := by
  simp only [deposit, refuses_bind, not_refuses_updatePool hsteady.lastBalance_le,
    not_refuses_read, refuses_ofExcept, refuses_require, not_refuses_modify,
    not_refuses_accumulated, yields_read, yields_ofExcept, yields_require, yields_modify,
    false_or] at hrefuses
  obtain ⟨_, _, hupdate, _, _, ⟨rfl, rfl⟩, hsettling⟩ := hrefuses
  have hspread := updatePool_yields hupdate
  have hheld := hspread.experts.trans hsteady.sound.held
  have hpool := hspread.accPerShare_le
  obtain ⟨hunfound, _⟩ | ⟨known, updated, ⟨hknown, rfl⟩, hrest⟩ := hsettling
  · cases hunfound.symm.trans (find?_eq_ok.mpr ⟨experts, hheld, rfl⟩)
  · obtain ⟨_, hfound, rfl⟩ := find?_eq_ok.mp hknown
    cases hfound.symm.trans hheld
    rw [← record] at hrest
    have hunsettled := (hsteady.unsettled_record expert).trans (unsettled_mono hpool _)
    have hnonneg := hsteady.sound.accPerShare_nonneg.trans hpool
    obtain hrefused | ⟨settled, _, hsettle, hlate⟩ := hrest
    · exact absurd hrefused
        (not_refuses_settle hmultiplier hstep hperiod hnonneg hunsettled)
    · obtain ⟨rfl, hsettled⟩ := settle_yields hsettle
      obtain ⟨hweight, rfl, _⟩ | ⟨_, _, ⟨_, rfl⟩, _, _, ⟨rfl, rfl⟩, ⟨htotal, rfl, _⟩ |
        ⟨_, _, ⟨_, rfl⟩, _, _, rfl, debt, _, hdebt, hput⟩⟩ := hlate
      · rw [hsettled.weight] at hweight
        exact .inl ⟨Nat.not_lt.mp hweight, rfl⟩
      · rw [hspread.totalWeight] at htotal
        exact .inr (.inl ⟨Nat.not_lt.mp htotal, rfl⟩)
      · obtain ⟨_, rfl, rfl⟩ := accumulated_yields hdebt
        obtain ⟨hunwritable, rfl⟩ := put_refuses hput hheld
        exact .inr (.inr ⟨⟨_, settled, hspread, hsettled, hunwritable⟩, rfl⟩)

theorem claim_refuses (hsteady : Steady policy before experts balance) {amount : Int}
    (hrefuses : (claim policy epoch balance expert amount).Refuses before cause after) :
    experts.find? (.address expert) = none ∧ cause = .unknownExpert expert ∨
      ∃ info updated settled, experts.find? (.address expert) = some info ∧
        Spread policy epoch balance before updated ∧
        Settled policy epoch updated.pool info settled ∧
        (settled.unlocked < amount ∧ cause = .insufficientFunds settled.unlocked amount ∨
          amount ≤ settled.unlocked ∧ ¬(Expert.format.write { settled with
            rewardDebt := earned policy updated.pool settled.weight
            unlocked := settled.unlocked - amount }).isSome ∧ cause = .unstorable) := by
  simp only [claim, refuses_bind, not_refuses_updatePool hsteady.lastBalance_le,
    refuses_require, not_refuses_modify, not_refuses_accumulated, yields_require,
    yields_modify, false_or] at hrefuses
  obtain ⟨_, _, hupdate, hgetting⟩ := hrefuses
  have hspread := updatePool_yields hupdate
  have hheld := hspread.experts.trans hsteady.sound.held
  have hpool := hspread.accPerShare_le
  obtain hunknown | ⟨info, _, hget, hrest⟩ := hgetting
  · exact .inl (get_refuses hheld hunknown)
  · obtain ⟨rfl, hfound⟩ := get_yields hget
    obtain ⟨_, hfund, hfind⟩ := find?_eq_ok.mp hfound
    cases hfund.symm.trans hheld
    have hunsettled := hsteady.unsettled_nonneg_of_le hpool info
      (AddressMap.mem_values_of_find? hfind)
    have hnonneg := hsteady.sound.accPerShare_nonneg.trans hpool
    obtain hrefused | ⟨settled, _, hsettle, debt, _, hdebt, hlate⟩ := hrest
    · exact absurd hrefused
        (not_refuses_settle hmultiplier hstep hperiod hnonneg hunsettled)
    · obtain ⟨rfl, hsettled⟩ := settle_yields hsettle
      obtain ⟨_, rfl, rfl⟩ := accumulated_yields hdebt
      refine .inr ⟨info, _, settled, hfind, hspread, hsettled, ?_⟩
      obtain ⟨hamount, rfl, _⟩ | ⟨_, _, ⟨hamount, rfl⟩, _, _, rfl, hput⟩ := hlate
      · exact .inl ⟨Int.not_le.mp hamount, rfl⟩
      · exact .inr ⟨hamount, put_refuses hput hheld⟩

theorem reset_refuses (hsteady : Steady policy before experts balance)
    (hrefuses : (reset policy epoch balance expert).Refuses before cause after) :
    experts.find? (.address expert) = none ∧ cause = .unknownExpert expert ∨
      ∃ info updated settled, experts.find? (.address expert) = some info ∧
        Spread policy epoch balance
          { before with totalWeight := before.totalWeight - info.weight } updated ∧
        Settled policy epoch updated.pool info settled ∧
        ¬(Expert.format.write
          { Expert.unregistered with unlocked := settled.unlocked }).isSome ∧
        cause = .unstorable := by
  simp only [reset, refuses_bind, refuses_require, not_refuses_read, not_refuses_modify,
    not_refuses_pure, yields_read, yields_require, yields_modify, and_false,
    exists_false, or_false, false_or] at hrefuses
  obtain hunknown | ⟨info, _, hget, _, _, ⟨rfl, rfl⟩, hrest⟩ := hrefuses
  · exact .inl (get_refuses hsteady.sound.held hunknown)
  · obtain ⟨rfl, hfound⟩ := get_yields hget
    obtain ⟨_, hfund, hfind⟩ := find?_eq_ok.mp hfound
    cases hfund.symm.trans hsteady.sound.held
    obtain ⟨habove, _⟩ | ⟨_, _, ⟨_, rfl⟩, _, _, rfl, hupdating⟩ := hrest
    · exact absurd (weight_le_totalWeight hsteady.sound hfind) habove
    · obtain hrefused | ⟨_, _, hupdate, hsettling⟩ := hupdating
      · exact absurd hrefused (not_refuses_updatePool hsteady.lastBalance_le)
      · have hspread := updatePool_yields hupdate
        have hheld := hspread.experts.trans hsteady.sound.held
        have hpool := hspread.accPerShare_le
        have hunsettled := hsteady.unsettled_nonneg_of_le hpool info
          (AddressMap.mem_values_of_find? hfind)
        have hnonneg := hsteady.sound.accPerShare_nonneg.trans hpool
        obtain hrefused | ⟨settled, _, hsettle, hput⟩ := hsettling
        · exact absurd hrefused
            (not_refuses_settle hmultiplier hstep hperiod hnonneg hunsettled)
        · obtain ⟨rfl, hsettled⟩ := settle_yields hsettle
          exact .inr ⟨info, _, settled, hfind, hspread, hsettled, put_refuses hput hheld⟩

theorem not_bricking_of_deposit (hsteady : Steady policy before experts balance)
    {added : UInt64}
    (hrefuses : (deposit policy epoch balance expert added).Refuses before cause after) :
    ¬cause.Bricking := by
  obtain ⟨_, rfl⟩ | ⟨_, rfl⟩ | ⟨_, rfl⟩ :=
    deposit_refuses hmultiplier hstep hperiod hsteady hrefuses
  · exact nofun
  · exact nofun
  · exact nofun

theorem not_bricking_of_claim (hsteady : Steady policy before experts balance)
    {amount : Int}
    (hrefuses : (claim policy epoch balance expert amount).Refuses before cause after) :
    ¬cause.Bricking := by
  obtain ⟨_, rfl⟩ | ⟨_, _, _, _, _, _, ⟨_, rfl⟩ | ⟨_, _, rfl⟩⟩ :=
    claim_refuses hmultiplier hstep hperiod hsteady hrefuses
  · exact nofun
  · exact nofun
  · exact nofun

theorem not_bricking_of_reset (hsteady : Steady policy before experts balance)
    (hrefuses : (reset policy epoch balance expert).Refuses before cause after) :
    ¬cause.Bricking := by
  obtain ⟨_, rfl⟩ | ⟨_, _, _, _, _, _, _, rfl⟩ :=
    reset_refuses hmultiplier hstep hperiod hsteady hrefuses
  · exact nofun
  · exact nofun

end Fair

section Prompt

theorem halts_updatePool : (updatePool policy epoch balance).Halts before := by
  refine halts_read.bind fun fund _ _ => Halts.ite (fun _ => halts_write) fun hweight => ?_
  have hdivisor : (fund.totalWeight.toNat : Int) ≠ 0 := by
    intro hzero
    exact hweight (UInt64.toNat_inj.mp (Int.ofNat_inj.mp hzero))
  refine halts_require.bind fun _ _ _ => Halts.bind ?_ fun _ _ _ => halts_write
  exact halts_checked.mpr ⟨_, divide_of_ne_zero hdivisor⟩

theorem halts_get : (get expert).Halts before := by
  refine halts_read.bind fun _ _ _ => halts_ofExcept.bind fun known _ _ => ?_
  cases known with
  | none => exact halts_refuse
  | some info => exact halts_pure

theorem halts_put {key : Key} : (put key info).Halts before :=
  halts_read.bind fun _ _ _ => halts_ofExcept.bind fun _ _ _ =>
    halts_require.bind fun _ _ _ => halts_modify

variable (hmultiplier : 0 < policy.accPerShareMultiplier)
  (hstep : 0 < policy.rewardVestingSpec.stepDuration)
  (hperiod : 0 < policy.rewardVestingSpec.vestPeriod) (htimely : Timely policy epoch)

include hmultiplier in
theorem halts_accumulated {weight : UInt64} : (accumulated policy weight).Halts before := by
  have hdivisor : (policy.accPerShareMultiplier : Int) ≠ 0 := by omega
  exact halts_read.bind fun _ _ _ => halts_checked.mpr ⟨_, divide_of_ne_zero hdivisor⟩

include hstep hperiod htimely

theorem halts_vest {pending : Int} : (vest policy epoch pending info).Halts before := by
  refine Halts.ite (fun _ => ?_) fun _ => halts_pure
  refine Halts.bind ?_ fun _ _ _ => halts_pure
  refine halts_runOn.mpr (halts_mapError.mpr ?_)
  refine halts_require.bind fun _ _ _ => halts_require.bind fun _ _ _ => ?_
  refine Halts.bind ?_ fun _ _ _ => halts_modify
  exact halts_checked.mpr (VestSpec.exists_tranches hstep hperiod htimely.schedule pending)

include hmultiplier

theorem halts_settle : (settle policy epoch info).Halts before := by
  refine (halts_accumulated hmultiplier).bind fun _ _ _ =>
    halts_require.bind fun _ _ _ => ?_
  refine (halts_vest hstep hperiod htimely).bind fun _ _ _ => Halts.bind ?_ fun _ _ _ =>
    halts_pure
  obtain ⟨_, hnow⟩ := htimely.now
  have hripe := htimely.ripe
  exact halts_checked.mpr ⟨_, Epoch.sub_of_representable ⟨by omega, by omega⟩⟩

theorem halts_deposit {added : UInt64} :
    (deposit policy epoch balance expert added).Halts before := by
  refine halts_updatePool.bind fun _ _ _ => halts_read.bind fun _ _ _ =>
    halts_ofExcept.bind fun _ _ _ => ?_
  refine (halts_settle hmultiplier hstep hperiod htimely).bind fun _ _ _ => ?_
  refine halts_require.bind fun _ _ _ => halts_read.bind fun _ _ _ =>
    halts_require.bind fun _ _ _ => halts_modify.bind fun _ _ _ => ?_
  exact (halts_accumulated hmultiplier).bind fun _ _ _ => halts_put

theorem halts_claim {amount : Int} :
    (claim policy epoch balance expert amount).Halts before := by
  refine halts_updatePool.bind fun _ _ _ => halts_get.bind fun _ _ _ => ?_
  refine (halts_settle hmultiplier hstep hperiod htimely).bind fun _ _ _ => ?_
  refine (halts_accumulated hmultiplier).bind fun _ _ _ => ?_
  exact halts_require.bind fun _ _ _ => halts_modify.bind fun _ _ _ => halts_put

theorem halts_reset : (reset policy epoch balance expert).Halts before := by
  refine halts_get.bind fun _ _ _ => halts_read.bind fun _ _ _ =>
    halts_require.bind fun _ _ _ => ?_
  refine halts_modify.bind fun _ _ _ => halts_updatePool.bind fun _ _ _ => ?_
  refine (halts_settle hmultiplier hstep hperiod htimely).bind fun _ _ _ => ?_
  exact halts_put.bind fun _ _ _ => halts_pure

end Prompt

end Fund

end RewardVesting.ExpertFund
