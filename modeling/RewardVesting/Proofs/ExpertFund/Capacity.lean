import RewardVesting.Proofs.ExpertFund.Service

namespace RewardVesting.ExpertFund

/-- The tranches of an expert are at epochs that can be stored. -/
def Dated (info : Expert) : Prop :=
  ∀ tranche ∈ info.vesting.tranches, Epoch.Representable tranche.epoch

theorem dated_of_vesting_eq_empty {info : Expert} (hempty : info.vesting = .empty) :
    Dated info := by
  rw [Dated, hempty]
  exact nofun

namespace Fund

variable {policy : Policy} {epoch balance : Int} {before after : Fund} {pool : Pool}
  {info settled : Expert} {experts : AddressMap Expert} {expert : Address}

theorem Vested.representable {spec : VestSpec} {pending : Int} {ledger vested : Ledger}
    (hvested : Vested spec epoch pending ledger vested) (hformed : ledger.WellFormed)
    (hledger : ∀ tranche ∈ ledger.tranches, Epoch.Representable tranche.epoch) :
    ∀ tranche ∈ vested.tranches, Epoch.Representable tranche.epoch := by
  cases hvested with
  | nothing _ => exact hledger
  | scheduled hpending hstep hperiod hadditions =>
      have hscheduled :=
        VestSpec.scheduled_of_tranches hstep hperiod (Int.le_of_lt hpending) hadditions
      exact hformed.forall_mem_merge (fun _ _ _ hfirst _ => hfirst) hledger
        hscheduled.representable

theorem Settled.dated (hsettled : Settled policy epoch pool info settled)
    (hinfo : Consistent info) (hdated : Dated info) : Dated settled := by
  obtain ⟨vested, hvested, hvesting, _⟩ := hsettled.ledger
  have hrepresentable := hvested.representable hinfo.vesting hdated
  rw [Dated, hvesting]
  intro tranche hmem
  exact hrepresentable tranche (List.dropWhile_subset _ hmem)

theorem Spread.accPerShare_le_add (hspread : Spread policy epoch balance before after)
    (hbalance : before.lastBalance ≤ balance) :
    after.pool.accPerShare ≤ before.pool.accPerShare +
      (balance - before.lastBalance) * policy.accPerShareMultiplier := by
  have hinflow : 0 ≤ (balance - before.lastBalance) * policy.accPerShareMultiplier :=
    Int.mul_nonneg (Int.sub_nonneg_of_le hbalance) (Int.natCast_nonneg _)
  rcases hspread.inflow with ⟨_, hkept, _⟩ | ⟨_, _, _, hgain⟩
  · omega
  · have hquotient := Int.ediv_le_self (before.totalWeight.toNat : Int) hinflow
    rw [← Int.tdiv_eq_ediv_of_nonneg hinflow] at hquotient
    omega

theorem earned_le (hpool : 0 ≤ pool.accPerShare) (weight : UInt64) :
    earned policy pool weight ≤ pool.accPerShare * UInt64.size := by
  have hweight : (weight.toNat : Int) ≤ UInt64.size := Int.ofNat_le.mpr weight.toNat_lt.le
  rw [earned_eq hpool]
  exact (Int.ediv_le_self _ (Int.mul_nonneg hpool (Int.natCast_nonneg _))).trans
    (Int.mul_le_mul_of_nonneg_left hweight hpool)

theorem Settled.funds_le (hsettled : Settled policy epoch pool info settled)
    (hinfo : Consistent info) (hpool : 0 ≤ pool.accPerShare) :
    settled.locked + settled.unlocked ≤
      pool.accPerShare * UInt64.size + (info.locked + info.unlocked) := by
  have hfunds := hsettled.funds
  have hdebt := hinfo.rewardDebt_nonneg
  have hearned : earned policy pool info.weight ≤ pool.accPerShare * UInt64.size :=
    earned_le hpool info.weight
  omega

theorem Settled.length_lt (hsettled : Settled policy epoch pool info settled)
    (hinfo : Consistent info) (hdated : Dated info)
    (hperiod : 0 < policy.rewardVestingSpec.vestPeriod) (htimely : Timely policy epoch) :
    settled.vesting.tranches.length < Wire.Head.argumentLimit := by
  obtain ⟨vested, hvested, hvesting, _⟩ := hsettled.ledger
  obtain ⟨_, hnow⟩ := htimely.now
  have hripe := htimely.ripe
  have hordered := (hvested.wellFormed hinfo.vesting).ordered
  have hkept := (hsettled.consistent hinfo).vesting.ordered
  have hepochs := hsettled.dated hinfo hdated
  have hlength : (settled.vesting.tranches.length : Int) ≤
      Epoch.highest + 1 - (epoch - policy.rewardVestingSpec.vestPeriod) := by
    refine Ledger.length_le_of_ordered hkept (fun tranche hmem => ⟨?_, ?_⟩) (by omega)
    · rw [hvesting] at hmem
      exact Ledger.le_of_mem_dropWhile hordered tranche hmem
    · exact (hepochs tranche hmem).2
  -- An array may be as long as there are epochs, and the lowest of them has been swept.
  have hlimit : (Wire.Head.argumentLimit : Int) = Epoch.highest - Epoch.lowest + 1 := by
    decide
  omega

/-- A steady fund whose tranches can all be stored. -/
structure Lasting (policy : Policy) (fund : Fund) (experts : AddressMap Expert)
    (balance : Int) : Prop extends Steady policy fund experts balance where
  dated : ∀ info ∈ experts.values, Dated info

theorem lasting_empty (hbalance : 0 ≤ balance) : Lasting policy .empty .empty balance where
  toSteady := steady_empty hbalance
  dated := nofun

namespace Lasting

variable (hlasting : Lasting policy before experts balance)

include hlasting

theorem mono {more : Int} (hmore : balance ≤ more) :
    Lasting policy before experts more where
  toSteady := hlasting.toSteady.mono hmore
  dated := hlasting.dated

theorem dated_record (expert : Address) : Dated (record experts expert) := by
  rw [Fund.record]
  cases hfind : experts.find? (.address expert) with
  | none => exact dated_of_vesting_eq_empty rfl
  | some info => exact hlasting.dated info (AddressMap.mem_values_of_find? hfind)

theorem deposit (hmultiplier : 0 < policy.accPerShareMultiplier) {added : UInt64}
    {answer : Unit}
    (hyields : (deposit policy epoch balance expert added).Yields before answer after) :
    ∃ revised, Lasting policy after revised balance := by
  obtain ⟨revised, hrevised⟩ := hlasting.toSteady.deposit hmultiplier hyields
  obtain ⟨held, updated, settled, hheld, _, hsettled, _, _, rfl⟩ := deposit_yields hyields
  cases hlasting.sound.held.symm.trans hheld
  cases hrevised.sound.held
  exact ⟨_, hrevised, AddressMap.forall_mem_values_insert hlasting.dated
    (hsettled.dated (hlasting.sound.record expert) (hlasting.dated_record expert))⟩

theorem claim (hmultiplier : 0 < policy.accPerShareMultiplier) {amount : Int}
    {answer : Unit}
    (hyields : (claim policy epoch balance expert amount).Yields before answer after) :
    ∃ revised, Lasting policy after revised (balance - amount) := by
  obtain ⟨revised, hrevised⟩ := hlasting.toSteady.claim hmultiplier hyields
  obtain ⟨held, info, updated, settled, hheld, hfind, _, hsettled, _, rfl⟩ :=
    claim_yields hyields
  cases hlasting.sound.held.symm.trans hheld
  cases hrevised.sound.held
  have hmem := AddressMap.mem_values_of_find? hfind
  exact ⟨_, hrevised, AddressMap.forall_mem_values_insert hlasting.dated
    (hsettled.dated (hlasting.sound.consistent info hmem) (hlasting.dated info hmem))⟩

theorem reset {forfeited : Int}
    (hyields : (reset policy epoch balance expert).Yields before forfeited after) :
    ∃ revised, Lasting policy after revised balance := by
  obtain ⟨revised, hrevised⟩ := hlasting.toSteady.reset hyields
  obtain ⟨held, info, updated, settled, hheld, _, _, _, _, _, rfl⟩ := reset_yields hyields
  cases hlasting.sound.held.symm.trans hheld
  cases hrevised.sound.held
  exact ⟨_, hrevised, AddressMap.forall_mem_values_insert hlasting.dated
    (dated_of_vesting_eq_empty rfl)⟩

theorem changeVotes {change : Int} {answer : Unit}
    (hyields : (changeVotes expert change).Yields before answer after) :
    Lasting policy after experts balance where
  toSteady := hlasting.toSteady.changeVotes hyields
  dated := hlasting.dated

end Lasting

/-! With room for it, everything that a fund comes to is stored. -/

/-- The most that an expert can hold, whatever its weight, once the pool has taken in a
balance. -/
def exposure (policy : Policy) (balance : Int) (fund : Fund) (info : Expert) : Int :=
  (fund.pool.accPerShare + (balance - fund.lastBalance) * policy.accPerShareMultiplier) *
    UInt64.size + (info.locked + info.unlocked)

/-- No amount of the fund, or of this expert, comes to be more than can be stored. -/
structure Roomy (policy : Policy) (balance : Int) (fund : Fund) (info : Expert) : Prop where
  balance_storable : Amount.Storable balance
  lastBalance_storable : Amount.Storable fund.lastBalance
  exposure_lt : exposure policy balance fund info < Amount.storageLimit

instance (policy : Policy) (balance : Int) (fund : Fund) (info : Expert) :
    Decidable (Roomy policy balance fund info) :=
  decidable_of_iff
    (Amount.Storable balance ∧ Amount.Storable fund.lastBalance ∧
      exposure policy balance fund info < Amount.storageLimit)
    ⟨fun ⟨hbalance, hlast, hexposure⟩ => ⟨hbalance, hlast, hexposure⟩,
      fun ⟨hbalance, hlast, hexposure⟩ => ⟨hbalance, hlast, hexposure⟩⟩

theorem Roomy.reweigh (hroomy : Roomy policy balance before info) (total : UInt64) :
    Roomy policy balance { before with totalWeight := total } info :=
  ⟨hroomy.balance_storable, hroomy.lastBalance_storable, hroomy.exposure_lt⟩

namespace Roomy

variable {base updated : Fund} (hroomy : Roomy policy balance base info)
  (hspread : Spread policy epoch balance base updated)
  (hbalance : base.lastBalance ≤ balance)

include hroomy hspread hbalance

theorem earnings_lt :
    updated.pool.accPerShare * UInt64.size + (info.locked + info.unlocked) <
      Amount.storageLimit := by
  have hgain := Int.mul_le_mul_of_nonneg_right (hspread.accPerShare_le_add hbalance)
    (Int.natCast_nonneg UInt64.size)
  have hexposure := hroomy.exposure_lt
  rw [exposure] at hexposure
  omega

theorem storable (hpool : 0 ≤ base.pool.accPerShare) (hinfo : Consistent info) :
    Amount.Storable updated.pool.accPerShare ∧ Amount.Storable updated.lastBalance := by
  constructor
  · have hgained := hpool.trans hspread.accPerShare_le
    have hearnings := hroomy.earnings_lt hspread hbalance
    have hlocked := hinfo.locked_nonneg
    have hunlocked := hinfo.unlocked_nonneg
    have hscaled : updated.pool.accPerShare * 1 ≤ updated.pool.accPerShare * UInt64.size :=
      Int.mul_le_mul_of_nonneg_left (by decide) hgained
    exact Amount.storable_of_nonneg hgained (by omega)
  · rcases hspread.inflow with ⟨_, _, hlast⟩ | ⟨_, _, hlast, _⟩
    · rw [hlast]
      exact hroomy.lastBalance_storable
    · rw [hlast]
      exact hroomy.balance_storable

end Roomy

/-- The record of a settled expert is written, whatever weight it goes on with. -/
theorem Settled.isSome_write (hsettled : Settled policy epoch pool info settled)
    (hinfo : Consistent info) (hdated : Dated info) (hpool : 0 ≤ pool.accPerShare)
    (hperiod : 0 < policy.rewardVestingSpec.vestPeriod) (htimely : Timely policy epoch)
    (hearnings : pool.accPerShare * UInt64.size + (info.locked + info.unlocked) <
      Amount.storageLimit) (weight : UInt64) {unlocked : Int} (hunlocked : 0 ≤ unlocked)
    (hle : unlocked ≤ settled.unlocked) :
    (Expert.format.write { settled with
      weight := weight
      rewardDebt := earned policy pool weight
      unlocked := unlocked }).isSome := by
  have hconsistent := hsettled.consistent hinfo
  have hfunds := hsettled.funds_le hinfo hpool
  have hlocked := hconsistent.locked_nonneg
  have hdebt : Amount.Storable (earned policy pool weight) := by
    have hearned : earned policy pool weight ≤ pool.accPerShare * UInt64.size :=
      earned_le hpool weight
    have hlockedBefore := hinfo.locked_nonneg
    have hunlockedBefore := hinfo.unlocked_nonneg
    exact Amount.storable_of_nonneg (earned_nonneg hpool weight) (by omega)
  have hstored : Amount.Storable settled.locked ∧ Amount.Storable unlocked :=
    ⟨Amount.storable_of_nonneg hlocked (by omega),
      Amount.storable_of_nonneg hunlocked (by omega)⟩
  have hvesting : (Ledger.format.write settled.vesting).isSome := by
    refine Ledger.isSome_write.mpr
      ⟨⟨hsettled.length_lt hinfo hdated hperiod htimely, ?_⟩, ?_⟩
    · intro tranche hmem
      have hnonneg := hconsistent.vesting.tranches_nonneg
      have hamount := Ledger.amount_le_sumOf hnonneg hmem
      rw [← Ledger.lockedTotal, ← hconsistent.locked] at hamount
      exact ⟨hsettled.dated hinfo hdated tranche hmem,
        Amount.storable_of_nonneg (hnonneg tranche hmem) (by omega)⟩
    · rw [hconsistent.vesting_unlocked]
      exact Amount.storable_zero
  exact Expert.isSome_write.mpr ⟨hdebt, hstored.1, hvesting, hstored.2⟩

theorem Settled.isSome_write_unlocked (hsettled : Settled policy epoch pool info settled)
    (hinfo : Consistent info) (hpool : 0 ≤ pool.accPerShare)
    (hearnings : pool.accPerShare * UInt64.size + (info.locked + info.unlocked) <
      Amount.storageLimit) :
    (Expert.format.write
      { Expert.unregistered with unlocked := settled.unlocked }).isSome := by
  have hconsistent := hsettled.consistent hinfo
  have hfunds := hsettled.funds_le hinfo hpool
  have hlocked := hconsistent.locked_nonneg
  have hvesting : (Ledger.format.write .empty).isSome :=
    Ledger.isSome_write.mpr ⟨⟨by decide, nofun⟩, Amount.storable_zero⟩
  have hunlocked : Amount.Storable settled.unlocked :=
    Amount.storable_of_nonneg hconsistent.unlocked_nonneg (by omega)
  exact Expert.isSome_write.mpr
    ⟨Amount.storable_zero, Amount.storable_zero, hvesting, hunlocked⟩

/-- A change that the state of the fund is no hindrance to: it is not refused for it, and
what comes of it is stored. -/
structure Withstands (fund : Fund) {α : Type} (change : Operation α) : Prop where
  refused : ∀ cause changed, change.Refuses fund cause changed →
    cause.failure.code ≠ .illegalState
  storable : ∀ value changed, change.Yields fund value changed → Storage.Storable changed

section Served

variable {cause : Refusal} (hlasting : Lasting policy before experts balance)
  (hroomy : Roomy policy balance before (record experts expert))

include hlasting hroomy

theorem storable_of_deposit {added : UInt64} {answer : Unit}
    (hyields : (deposit policy epoch balance expert added).Yields before answer after) :
    Storage.Storable after := by
  obtain ⟨_, updated, settled, _, hspread, _, _, _, rfl⟩ := deposit_yields hyields
  have hupdated := hroomy.storable hspread hlasting.lastBalance_le
    hlasting.sound.accPerShare_nonneg (hlasting.sound.record expert)
  exact hupdated

theorem storable_of_claim {answer : Unit}
    (hyields : (claim policy epoch balance expert 0).Yields before answer after) :
    Storage.Storable after := by
  obtain ⟨_, _, updated, settled, _, _, hspread, _, _, rfl⟩ := claim_yields hyields
  obtain ⟨hpool, hlast⟩ := hroomy.storable hspread hlasting.lastBalance_le
    hlasting.sound.accPerShare_nonneg (hlasting.sound.record expert)
  rw [← Int.sub_zero updated.lastBalance] at hlast
  exact ⟨hpool, hlast⟩

theorem storable_of_reset {forfeited : Int}
    (hyields : (reset policy epoch balance expert).Yields before forfeited after) :
    Storage.Storable after := by
  obtain ⟨_, info, updated, settled, _, _, _, hspread, _, _, rfl⟩ := reset_yields hyields
  have hupdated := (hroomy.reweigh _).storable hspread hlasting.lastBalance_le
    hlasting.sound.accPerShare_nonneg (hlasting.sound.record expert)
  exact hupdated

variable (hmultiplier : 0 < policy.accPerShareMultiplier)
  (hstep : 0 < policy.rewardVestingSpec.stepDuration)
  (hperiod : 0 < policy.rewardVestingSpec.vestPeriod)

include hmultiplier hstep hperiod

theorem cause_of_reset
    (hrefuses : (reset policy epoch balance expert).Refuses before cause after) :
    experts.find? (.address expert) = none ∧ cause = .unknownExpert expert := by
  obtain hunknown | ⟨info, updated, settled, hfind, hspread, hsettled, hunwritable, _⟩ :=
    reset_refuses hmultiplier hstep hperiod hlasting.toSteady hrefuses
  · exact hunknown
  · rw [record_of_find? hfind] at hroomy
    have hinfo := hlasting.sound.consistent info (AddressMap.mem_values_of_find? hfind)
    have hpool := hlasting.sound.accPerShare_nonneg.trans hspread.accPerShare_le
    exact absurd (hsettled.isSome_write_unlocked hinfo hpool
      ((hroomy.reweigh _).earnings_lt hspread hlasting.lastBalance_le)) hunwritable

variable (htimely : Timely policy epoch)

include htimely

theorem cause_of_deposit {added : UInt64}
    (hrefuses : (deposit policy epoch balance expert added).Refuses before cause after) :
    UInt64.size ≤ (record experts expert).weight.toNat + added.toNat ∧
        cause = .weightTooLarge expert added ∨
      UInt64.size ≤ before.totalWeight.toNat + added.toNat ∧
        cause = .totalWeightTooLarge added := by
  obtain hweight | htotal | ⟨⟨updated, settled, hspread, hsettled, hunwritable⟩, _⟩ :=
    deposit_refuses hmultiplier hstep hperiod hlasting.toSteady hrefuses
  · exact .inl hweight
  · exact .inr htotal
  · have hinfo := hlasting.sound.record expert
    have hpool := hlasting.sound.accPerShare_nonneg.trans hspread.accPerShare_le
    exact absurd (hsettled.isSome_write hinfo
      (hlasting.dated_record expert) hpool hperiod htimely
      (hroomy.earnings_lt hspread hlasting.lastBalance_le) _
      (hsettled.consistent hinfo).unlocked_nonneg (Int.le_refl _)) hunwritable

theorem cause_of_claim {amount : Int} (hamount : 0 ≤ amount)
    (hrefuses : (claim policy epoch balance expert amount).Refuses before cause after) :
    experts.find? (.address expert) = none ∧ cause = .unknownExpert expert ∨
      ∃ unlocked, 0 ≤ unlocked ∧ unlocked < amount ∧
        cause = .insufficientFunds unlocked amount := by
  obtain hunknown | ⟨info, updated, settled, hfind, hspread, hsettled, hlate⟩ :=
    claim_refuses hmultiplier hstep hperiod hlasting.toSteady hrefuses
  · exact .inl hunknown
  · rw [record_of_find? hfind] at hroomy
    have hmem := AddressMap.mem_values_of_find? hfind
    have hinfo := hlasting.sound.consistent info hmem
    have hpool := hlasting.sound.accPerShare_nonneg.trans hspread.accPerShare_le
    obtain ⟨hshort, rfl⟩ | ⟨hcovered, hunwritable, _⟩ := hlate
    · exact .inr ⟨_, (hsettled.consistent hinfo).unlocked_nonneg, hshort, rfl⟩
    · exact absurd (hsettled.isSome_write hinfo (hlasting.dated info hmem) hpool
        hperiod htimely (hroomy.earnings_lt hspread hlasting.lastBalance_le) _ (by omega)
        (by omega)) hunwritable

theorem exists_deposit {added : UInt64}
    (hweight : (record experts expert).weight.toNat + added.toNat < UInt64.size)
    (htotal : before.totalWeight.toNat + added.toNat < UInt64.size) :
    ∃ after, (deposit policy epoch balance expert added).Yields before () after ∧
      Storage.Storable after := by
  have hhalts : (deposit policy epoch balance expert added).Halts before :=
    halts_deposit hmultiplier hstep hperiod htimely
  obtain ⟨answer, after, hyields⟩ | ⟨cause, after, hrefuses⟩ := hhalts.yields_or_refuses
  · exact ⟨after, hyields, storable_of_deposit hlasting hroomy hyields⟩
  · obtain ⟨hover, _⟩ | ⟨hover, _⟩ :=
      cause_of_deposit hlasting hroomy hmultiplier hstep hperiod htimely hrefuses
    · exact absurd hweight (Nat.not_lt.mpr hover)
    · exact absurd htotal (Nat.not_lt.mpr hover)

theorem exists_claim (hfind : experts.find? (.address expert) = some info) :
    ∃ after, (claim policy epoch balance expert 0).Yields before () after ∧
      Storage.Storable after := by
  have hhalts : (claim policy epoch balance expert 0).Halts before :=
    halts_claim hmultiplier hstep hperiod htimely
  obtain ⟨answer, after, hyields⟩ | ⟨cause, after, hrefuses⟩ := hhalts.yields_or_refuses
  · exact ⟨after, hyields, storable_of_claim hlasting hroomy hyields⟩
  · obtain ⟨hunknown, _⟩ | ⟨unlocked, hnonneg, hless, _⟩ :=
      cause_of_claim hlasting hroomy hmultiplier hstep hperiod htimely
        (Int.le_refl 0) hrefuses
    · cases hunknown.symm.trans hfind
    · omega

theorem exists_reset (hfind : experts.find? (.address expert) = some info) :
    ∃ forfeited after, (reset policy epoch balance expert).Yields before forfeited after ∧
      Storage.Storable after := by
  have hhalts : (reset policy epoch balance expert).Halts before :=
    halts_reset hmultiplier hstep hperiod htimely
  obtain ⟨forfeited, after, hyields⟩ | ⟨cause, after, hrefuses⟩ := hhalts.yields_or_refuses
  · exact ⟨forfeited, after, hyields, storable_of_reset hlasting hroomy hyields⟩
  · cases (cause_of_reset hlasting hroomy hmultiplier hstep hperiod hrefuses).1.symm.trans
      hfind

theorem withstands_deposit (added : UInt64) :
    before.Withstands (deposit policy epoch balance expert added) where
  refused cause after hrefuses := by
    obtain ⟨_, rfl⟩ | ⟨_, rfl⟩ :=
      cause_of_deposit hlasting hroomy hmultiplier hstep hperiod htimely hrefuses
    · exact nofun
    · exact nofun
  storable _ _ hyields := storable_of_deposit hlasting hroomy hyields

theorem withstands_claim : before.Withstands (claim policy epoch balance expert 0) where
  refused cause after hrefuses := by
    obtain ⟨_, rfl⟩ | ⟨unlocked, hnonneg, hless, _⟩ :=
      cause_of_claim hlasting hroomy hmultiplier hstep hperiod htimely
        (Int.le_refl 0) hrefuses
    · exact nofun
    · omega
  storable _ _ hyields := storable_of_claim hlasting hroomy hyields

omit htimely in
theorem withstands_reset : before.Withstands (reset policy epoch balance expert) where
  refused cause after hrefuses := by
    obtain ⟨_, rfl⟩ := cause_of_reset hlasting hroomy hmultiplier hstep hperiod hrefuses
    exact nofun
  storable _ _ hyields := storable_of_reset hlasting hroomy hyields

end Served

end Fund

end RewardVesting.ExpertFund
