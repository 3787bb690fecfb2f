import RewardVesting.AddressMap.Lemmas
import RewardVesting.ExpertFund.Fund
import RewardVesting.Proofs.Ledger.Lock

namespace RewardVesting.ExpertFund.Fund

open RewardVesting.Action

variable {policy : Policy} {epoch balance : Int} {before after : Fund} {answer : Unit}

/-- What an update of the pool does to a fund. -/
structure Spread (policy : Policy) (epoch balance : Int) (before after : Fund) : Prop where
  experts : after.experts = before.experts
  totalWeight : after.totalWeight = before.totalWeight
  votes : after.votes = before.votes
  lastEpoch : after.pool.lastEpoch = epoch
  /-- Without any weight the inflow waits; else all of it is spread. -/
  inflow :
    (before.totalWeight = 0 ∧ after.pool.accPerShare = before.pool.accPerShare ∧
      after.lastBalance = before.lastBalance) ∨
    (before.totalWeight ≠ 0 ∧ before.lastBalance ≤ balance ∧ after.lastBalance = balance ∧
      after.pool.accPerShare = before.pool.accPerShare +
        ((balance - before.lastBalance) * policy.accPerShareMultiplier).tdiv
          before.totalWeight.toNat)

theorem updatePool_yields
    (hyields : (updatePool policy epoch balance).Yields before answer after) :
    Spread policy epoch balance before after := by
  simp only [updatePool, yields_bind, yields_read] at hyields
  obtain ⟨fund, _, ⟨rfl, rfl⟩, hcases⟩ := hyields
  rw [yields_ite] at hcases
  cases hcases with
  | inl hwaits =>
      obtain ⟨hempty, hwritten⟩ := hwaits
      rw [yields_write] at hwritten
      subst hwritten
      exact ⟨rfl, rfl, rfl, rfl, .inl ⟨hempty, rfl, rfl⟩⟩
  | inr hspreads =>
      obtain ⟨hweight, hwritten⟩ := hspreads
      simp only [yields_bind, yields_require, yields_checked, yields_write] at hwritten
      obtain ⟨_, _, ⟨hinflow, rfl⟩, gain, _, ⟨hgain, rfl⟩, rfl⟩ := hwritten
      rw [divide] at hgain
      split at hgain
      · cases hgain
      · cases hgain
        exact ⟨rfl, rfl, rfl, rfl, .inr ⟨hweight, Int.sub_nonneg.mp hinflow, rfl, rfl⟩⟩

/-- What a weight has earned since the pool began, rounded. -/
def earned (policy : Policy) (pool : Pool) (weight : UInt64) : Int :=
  (pool.accPerShare * weight.toNat).tdiv policy.accPerShareMultiplier

theorem accumulated_yields {weight : UInt64} {value : Int}
    (hyields : (accumulated policy weight).Yields before value after) :
    (policy.accPerShareMultiplier : Int) ≠ 0 ∧
      value = earned policy before.pool weight ∧ after = before := by
  simp only [accumulated, yields_bind, yields_read, yields_checked] at hyields
  obtain ⟨fund, _, ⟨rfl, rfl⟩, hvalue, rfl⟩ := hyields
  rw [Pool.accumulated, divide] at hvalue
  split at hvalue
  · cases hvalue
  · rename_i hmultiplier
    cases hvalue
    exact ⟨hmultiplier, rfl, rfl⟩

/-- The ledger with a pending reward under the schedule, if there is one. -/
inductive Vested (spec : VestSpec) (epoch pending : Int) (ledger : Ledger) : Ledger → Prop
  | nothing (hpending : ¬0 < pending) : Vested spec epoch pending ledger ledger
  | scheduled {additions : List Tranche} (hpending : 0 < pending)
      (hstep : 0 < spec.stepDuration) (hperiod : 0 < spec.vestPeriod)
      (hadditions : spec.tranches epoch pending = .ok additions) :
      Vested spec epoch pending ledger (ledger.merge additions)

/-- What settling does to the record of an expert. -/
structure Settled (policy : Policy) (epoch : Int) (pool : Pool) (info settled : Expert) :
    Prop where
  weight : settled.weight = info.weight
  rewardDebt : settled.rewardDebt = info.rewardDebt
  rewardDebt_le : info.rewardDebt ≤ earned policy pool info.weight
  ledger : ∃ vested : Ledger,
    Vested policy.rewardVestingSpec epoch (earned policy pool info.weight - info.rewardDebt)
      info.vesting vested ∧
    settled.vesting = (vested.sweep (epoch - policy.rewardVestingSpec.vestPeriod)).1 ∧
    settled.unlocked = info.unlocked +
      (vested.sweep (epoch - policy.rewardVestingSpec.vestPeriod)).2
  funds : settled.locked + settled.unlocked = info.locked + info.unlocked +
    (earned policy pool info.weight - info.rewardDebt)

theorem vest_yields {pending : Int} {info vested : Expert}
    (hyields : (vest policy epoch pending info).Yields before vested after)
    (hpending : 0 ≤ pending) :
    after = before ∧
      ∃ ledger, Vested policy.rewardVestingSpec epoch pending info.vesting ledger ∧
      vested = { info with vesting := ledger, locked := info.locked + pending } := by
  rw [vest, yields_ite] at hyields
  cases hyields with
  | inl hlocked =>
      obtain ⟨hpositive, hlocked⟩ := hlocked
      simp only [yields_bind, yields_runOn, yields_mapError, yields_pure] at hlocked
      obtain ⟨⟨_, ledger⟩, _, ⟨hlock, rfl⟩, rfl, rfl⟩ := hlocked
      obtain ⟨⟨_, hstep, hperiod⟩, additions, hadditions, rfl⟩ :=
        Ledger.yields_lock.mp hlock
      exact ⟨rfl, _, .scheduled hpositive hstep hperiod hadditions, rfl⟩
  | inr hnothing =>
      obtain ⟨hzero, hkept⟩ := hnothing
      obtain ⟨rfl, rfl⟩ := yields_pure.mp hkept
      refine ⟨rfl, info.vesting, .nothing hzero, ?_⟩
      rw [show pending = 0 by omega, Int.add_zero]

theorem settle_yields {info settled : Expert}
    (hyields : (settle policy epoch info).Yields before settled after) :
    after = before ∧ Settled policy epoch before.pool info settled := by
  simp only [settle, yields_bind, yields_require, yields_checked, yields_pure] at hyields
  obtain ⟨value, _, hvalue, _, _, ⟨hpending, rfl⟩, vested, _, hvested, ripe, _,
    ⟨hripe, rfl⟩, rfl, rfl⟩ := hyields
  obtain ⟨_, rfl, rfl⟩ := accumulated_yields hvalue
  obtain ⟨rfl, ledger, hledger, rfl⟩ := vest_yields hvested hpending
  rw [Epoch.sub] at hripe
  split at hripe
  · cases hripe
    refine ⟨rfl, ⟨rfl, rfl, Int.sub_nonneg.mp hpending, ⟨ledger, hledger, rfl, rfl⟩, ?_⟩⟩
    dsimp only
    omega
  · cases hripe

theorem get_yields {expert : Address} {info : Expert}
    (hyields : (get expert).Yields before info after) :
    after = before ∧ before.find? expert = .ok (some info) := by
  simp only [get, yields_bind, yields_read, yields_ofExcept] at hyields
  obtain ⟨_, _, ⟨rfl, rfl⟩, known, _, ⟨hknown, rfl⟩, hmatch⟩ := hyields
  split at hmatch
  · rename_i found
    obtain ⟨rfl, rfl⟩ := yields_pure.mp hmatch
    exact ⟨rfl, hknown⟩
  · exact absurd hmatch not_yields_refuse

theorem expertMap_eq_ok {experts : AddressMap Expert} :
    before.expertMap = .ok experts ↔ before.experts = .held experts := by
  rw [expertMap]
  cases before.experts with
  | held value => simp
  | missing => simp

theorem put_yields {key : Key} {info : Expert}
    (hyields : (put key info).Yields before answer after) :
    ∃ experts, before.experts = .held experts ∧
      after = { before with experts := .held (experts.insert key info) } := by
  simp only [put, yields_bind, yields_read, yields_ofExcept, yields_require,
    yields_modify] at hyields
  obtain ⟨_, _, ⟨rfl, rfl⟩, experts, _, ⟨hexperts, rfl⟩, _, _, ⟨_, rfl⟩, rfl⟩ := hyields
  exact ⟨experts, expertMap_eq_ok.mp hexperts, rfl⟩

theorem find?_eq_ok {expert : Address} {known : Option Expert} :
    before.find? expert = .ok known ↔
      ∃ experts, before.experts = .held experts ∧
        experts.find? (.address expert) = known := by
  rw [find?, expertMap]
  cases before.experts with
  | held experts =>
      change Except.ok (experts.find? (.address expert)) = Except.ok known ↔ _
      simp
  | missing =>
      change Except.error Refusal.unreachable = Except.ok known ↔ _
      simp

/-- What the fund holds for an expert; one that is not known holds nothing. -/
def record (experts : AddressMap Expert) (expert : Address) : Expert :=
  (experts.find? (.address expert)).getD .unregistered

theorem record_of_find? {experts : AddressMap Expert} {expert : Address} {info : Expert}
    (hfind : experts.find? (.address expert) = some info) :
    record experts expert = info := by
  rw [record, hfind, Option.getD_some]

theorem record_insert (experts : AddressMap Expert) (expert other : Address)
    (info : Expert) :
    record (experts.insert (.address expert) info) other =
      if expert = other then info else record experts other := by
  rw [record, AddressMap.find?_insert_address]
  split
  · rfl
  · rfl

theorem deposit_yields {expert : Address} {added : UInt64}
    (hyields : (deposit policy epoch balance expert added).Yields before answer after) :
    ∃ experts updated settled, before.experts = .held experts ∧
      Spread policy epoch balance before updated ∧
      Settled policy epoch updated.pool (record experts expert) settled ∧
      settled.weight.toNat + added.toNat < UInt64.size ∧
      before.totalWeight.toNat + added.toNat < UInt64.size ∧
      after = { updated with
        totalWeight := before.totalWeight + added
        experts := .held (experts.insert (.address expert) { settled with
          weight := settled.weight + added
          rewardDebt := earned policy updated.pool (settled.weight + added) }) } := by
  simp only [deposit, yields_bind, yields_read, yields_ofExcept, yields_require,
    yields_modify] at hyields
  obtain ⟨_, _, hupdate, _, _, ⟨rfl, rfl⟩, known, _, ⟨hknown, rfl⟩, settled, updated,
    hsettle, _, _, ⟨hweight, rfl⟩, _, _, ⟨rfl, rfl⟩, _, _, ⟨htotal, rfl⟩, _, _, rfl, debt,
    _, hdebt, hput⟩ := hyields
  have hspread := updatePool_yields hupdate
  obtain ⟨rfl, hsettled⟩ := settle_yields hsettle
  obtain ⟨_, rfl, rfl⟩ := accumulated_yields hdebt
  obtain ⟨experts, hexperts, rfl⟩ := put_yields hput
  obtain ⟨known, hheld, rfl⟩ := find?_eq_ok.mp hknown
  cases hheld.symm.trans hexperts
  refine ⟨experts, updated, settled, hspread.experts ▸ hexperts, hspread, hsettled, hweight,
    hspread.totalWeight ▸ htotal, ?_⟩
  rw [← hspread.totalWeight]

theorem claim_yields {expert : Address} {amount : Int}
    (hyields : (claim policy epoch balance expert amount).Yields before answer after) :
    ∃ experts info updated settled, before.experts = .held experts ∧
      experts.find? (.address expert) = some info ∧
      Spread policy epoch balance before updated ∧
      Settled policy epoch updated.pool info settled ∧
      amount ≤ settled.unlocked ∧
      after = { updated with
        lastBalance := updated.lastBalance - amount
        experts := .held (experts.insert (.address expert) { settled with
          rewardDebt := earned policy updated.pool settled.weight
          unlocked := settled.unlocked - amount }) } := by
  simp only [claim, yields_bind, yields_require, yields_modify] at hyields
  obtain ⟨_, _, hupdate, info, _, hget, settled, _, hsettle, debt, updated, hdebt, _, _,
    ⟨hamount, rfl⟩, _, _, rfl, hput⟩ := hyields
  have hspread := updatePool_yields hupdate
  obtain ⟨rfl, hfind⟩ := get_yields hget
  obtain ⟨rfl, hsettled⟩ := settle_yields hsettle
  obtain ⟨_, rfl, rfl⟩ := accumulated_yields hdebt
  obtain ⟨experts, hexperts, rfl⟩ := put_yields hput
  obtain ⟨known, hheld, hinfo⟩ := find?_eq_ok.mp hfind
  cases hheld.symm.trans hexperts
  exact ⟨experts, info, updated, settled, hspread.experts ▸ hexperts, hinfo,
    hspread, hsettled, hamount, rfl⟩

theorem reset_yields {expert : Address} {forfeited : Int}
    (hyields : (reset policy epoch balance expert).Yields before forfeited after) :
    ∃ experts info updated settled, before.experts = .held experts ∧
      experts.find? (.address expert) = some info ∧
      info.weight ≤ before.totalWeight ∧
      Spread policy epoch balance
        { before with totalWeight := before.totalWeight - info.weight } updated ∧
      Settled policy epoch updated.pool info settled ∧
      forfeited = settled.locked ∧
      after = { updated with
        experts := .held (experts.insert (.address expert)
          { Expert.unregistered with unlocked := settled.unlocked }) } := by
  simp only [reset, yields_bind, yields_read, yields_require, yields_modify,
    yields_pure] at hyields
  obtain ⟨info, _, hget, _, _, ⟨rfl, rfl⟩, _, _, ⟨hweight, rfl⟩, _, _, rfl, _, _, hupdate,
    settled, updated, hsettle, _, _, hput, rfl, rfl⟩ := hyields
  have hspread := updatePool_yields hupdate
  obtain ⟨rfl, hfind⟩ := get_yields hget
  obtain ⟨rfl, hsettled⟩ := settle_yields hsettle
  obtain ⟨experts, hexperts, rfl⟩ := put_yields hput
  obtain ⟨known, hheld, hinfo⟩ := find?_eq_ok.mp hfind
  cases hheld.symm.trans (hspread.experts.symm.trans hexperts)
  exact ⟨experts, info, updated, settled, hheld, hinfo, hweight, hspread,
    hsettled, rfl, rfl⟩

theorem tally_eq_ok {tally : Tally} :
    before.tally = .ok tally ↔ before.votes = .held tally := by
  rw [Fund.tally]
  cases before.votes with
  | held value =>
      change Except.ok value = Except.ok tally ↔ _
      simp
  | missing =>
      change Except.error (Refusal.votes .unreachable) = Except.ok tally ↔ _
      simp

theorem storeTally_yields {tally : Tally}
    (hyields : (storeTally tally).Yields before answer after) :
    after = { before with votes := .held tally } := by
  simp only [storeTally, yields_bind, yields_ofExcept, yields_modify,
    Tally.store] at hyields
  obtain ⟨stored, _, ⟨hstored, rfl⟩, rfl⟩ := hyields
  split at hstored
  · cases hstored
    rfl
  · cases hstored

theorem changeVotes_yields {expert : Address} {change : Int}
    (hyields : (changeVotes expert change).Yields before answer after) :
    ∃ tally changed, before.votes = .held tally ∧ tally.add expert change = .ok changed ∧
      after = { before with votes := .held changed } := by
  simp only [changeVotes, yields_bind, yields_read, yields_ofExcept] at hyields
  obtain ⟨_, _, ⟨rfl, rfl⟩, tally, _, ⟨htally, rfl⟩, changed, _, ⟨hadd, rfl⟩, hstore⟩ :=
    hyields
  obtain rfl := storeTally_yields hstore
  refine ⟨tally, changed, tally_eq_ok.mp htally, ?_, rfl⟩
  cases hresult : tally.add expert change with
  | error refusal =>
      rw [hresult] at hadd
      cases hadd
  | ok revised =>
      rw [hresult] at hadd
      cases hadd
      rfl

end RewardVesting.ExpertFund.Fund
