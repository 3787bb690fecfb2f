import RewardVesting.Proofs.ExpertFund.Holdings

namespace RewardVesting.ExpertFund

open Host

def fundOf (host : Host Fund) : Fund :=
  match host.state with
  | some (.held fund) => fund
  | _ => .empty

def infoOf (fund : Fund) (expert : Address) : Expert :=
  match fund.experts with
  | .held experts => Fund.record experts expert
  | .missing => .unregistered

/-- What the rounding of the new debt gives a depositor, and that of the old debt takes
away. -/
def roundedBy (call : Invocation Fund) : Int :=
  if call.method = Method.deposit then
    let policy := call.before.policy
    let pool := (fundOf call.after).pool
    roundedOff policy pool (infoOf (fundOf call.after) call.before.caller).weight -
      roundedOff policy pool (infoOf (fundOf call.before) call.before.caller).weight
  else 0

/-- What a call could not spread. -/
def leftBy (call : Invocation Fund) : Int :=
  match call.result, target? call with
  | .ok _, some expert =>
    let fund := fundOf call.before
    let total :=
      if call.method = Method.reset then fund.totalWeight - (infoOf fund expert).weight
      else fund.totalWeight
    remainder call.before.policy (call.before.balance - fund.lastBalance) total
  | _, _ => 0

/-- What the expert of a reset loses by it. -/
def forfeitedBy (call : Invocation Fund) : Int :=
  if call.method = Method.reset then
    let lost := fun expert =>
      holdings call.before.policy (fundOf call.before).pool
          (infoOf (fundOf call.before) expert) -
        holdings call.before.policy (fundOf call.after).pool
          (infoOf (fundOf call.after) expert)
    ((target? call).map lost).getD 0
  else 0

def rounded (calls : List (Invocation Fund)) : Int := (calls.map roundedBy).sum

def kept (calls : List (Invocation Fund)) : Int :=
  (calls.map fun call => leftBy call + forfeitedBy call).sum

section Calls

variable {policy : Policy} {call : Invocation Fund} {fund : Fund} {host : Host Fund}
  {calls : List (Invocation Fund)}

theorem fundOf_eq (hstate : host.state = some (.held fund)) : fundOf host = fund := by
  rw [fundOf, hstate]

theorem infoOf_eq {experts : AddressMap Expert} (hheld : fund.experts = .held experts)
    (expert : Address) : infoOf fund expert = Fund.record experts expert := by
  rw [infoOf, hheld]

theorem rounded_append (calls : List (Invocation Fund)) (call : Invocation Fund) :
    rounded (calls ++ [call]) = rounded calls + roundedBy call := by
  simp [rounded]

theorem kept_append (calls : List (Invocation Fund)) (call : Invocation Fund) :
    kept (calls ++ [call]) = kept calls + (leftBy call + forfeitedBy call) := by
  simp [kept]

theorem roundedBy_of_other (hmethod : call.method ≠ Method.deposit) : roundedBy call = 0 :=
  if_neg hmethod

theorem forfeitedBy_of_other (hmethod : call.method ≠ Method.reset) :
    forfeitedBy call = 0 :=
  if_neg hmethod

theorem roundedBy_of_deposit {changed : Fund} {experts revised : AddressMap Expert}
    (hmethod : call.method = Method.deposit)
    (hbefore : call.before.state = some (.held fund))
    (hafter : call.after.state = some (.held changed))
    (hheld : fund.experts = .held experts) (hrevised : changed.experts = .held revised) :
    roundedBy call =
      roundedOff call.before.policy changed.pool
        (Fund.record revised call.before.caller).weight -
        roundedOff call.before.policy changed.pool
          (Fund.record experts call.before.caller).weight := by
  rw [roundedBy, if_pos hmethod, fundOf_eq hbefore, fundOf_eq hafter, infoOf_eq hheld,
    infoOf_eq hrevised]

theorem leftBy_of_other {returned : Bytes} {expert : Address}
    (hresult : call.result = .ok returned) (htarget : target? call = some expert)
    (hmethod : call.method ≠ Method.reset)
    (hbefore : call.before.state = some (.held fund)) :
    leftBy call = remainder call.before.policy (call.before.balance - fund.lastBalance)
      fund.totalWeight := by
  simp only [leftBy, hresult, htarget, if_neg hmethod, fundOf_eq hbefore]

theorem leftBy_of_reset {returned : Bytes} {expert : Address} {experts : AddressMap Expert}
    (hresult : call.result = .ok returned) (htarget : target? call = some expert)
    (hmethod : call.method = Method.reset) (hbefore : call.before.state = some (.held fund))
    (hheld : fund.experts = .held experts) :
    leftBy call = remainder call.before.policy (call.before.balance - fund.lastBalance)
      (fund.totalWeight - (Fund.record experts expert).weight) := by
  simp only [leftBy, hresult, htarget, if_pos hmethod, fundOf_eq hbefore, infoOf_eq hheld]

theorem forfeitedBy_of_reset {changed : Fund} {expert : Address}
    {experts revised : AddressMap Expert} (htarget : target? call = some expert)
    (hmethod : call.method = Method.reset) (hbefore : call.before.state = some (.held fund))
    (hafter : call.after.state = some (.held changed))
    (hheld : fund.experts = .held experts) (hrevised : changed.experts = .held revised) :
    forfeitedBy call =
      holdings call.before.policy fund.pool (Fund.record experts expert) -
        holdings call.before.policy changed.pool (Fund.record revised expert) := by
  rw [forfeitedBy, if_pos hmethod, htarget, fundOf_eq hbefore, fundOf_eq hafter]
  simp only [Option.map_some, Option.getD_some, infoOf_eq hheld, infoOf_eq hrevised]

theorem unbooked_of_refused {failure : Failure} (hruns : call.Runs code)
    (hresult : call.result = .error failure) :
    roundedBy call = 0 ∧ leftBy call + forfeitedBy call = 0 := by
  have hstate := (hruns.refused hresult).1
  have hfund : fundOf call.after = fundOf call.before := by rw [fundOf, fundOf, hstate]
  constructor
  · rw [roundedBy]
    split
    · rw [hfund]
      exact Int.sub_self _
    · rfl
  · have hleft : leftBy call = 0 := by simp [leftBy, hresult]
    rw [hleft, Int.zero_add, forfeitedBy, hfund]
    split
    · cases target? call with
      | none => rfl
      | some expert => exact Int.sub_self _
    · rfl

theorem unbooked_of_target?_eq_none (htarget : target? call = none)
    (hmethod : call.method ≠ Method.deposit) :
    roundedBy call = 0 ∧ leftBy call + forfeitedBy call = 0 := by
  refine ⟨roundedBy_of_other hmethod, ?_⟩
  rw [leftBy, forfeitedBy, htarget]
  cases call.result <;> simp

/-- The books of a host after these calls. -/
def Booked (policy : Policy) (calls : List (Invocation Fund)) (host : Host Fund) : Prop :=
  match host.state with
  | some (.held fund) =>
    ∃ experts, Fund.Solid policy fund experts host.balance (kept calls) (rounded calls)
  | some .missing => False
  | none => 0 ≤ host.balance ∧ kept calls = 0 ∧ rounded calls = 0

theorem booked_of_solid (experts : AddressMap Expert)
    (hstate : host.state = some (.held fund))
    (hsolid : Fund.Solid policy fund experts host.balance (kept calls) (rounded calls)) :
    Booked policy calls host := by
  rw [Booked, hstate]
  exact ⟨experts, hsolid⟩

theorem solid_of_booked (hbooked : Booked policy calls host)
    (hstate : host.state = some (.held fund)) :
    ∃ experts, Fund.Solid policy fund experts host.balance (kept calls)
      (rounded calls) := by
  rwa [Booked, hstate] at hbooked

theorem booked_of_onward {next : Host Fund} (hbooked : Booked policy calls host)
    (hmove : Onward host next) : Booked policy calls next := by
  rw [Booked] at hbooked
  rw [Booked, hmove.state]
  split at hbooked
  · obtain ⟨experts, hsolid⟩ := hbooked
    exact ⟨experts, { hsolid with
      lastBalance_le := hsolid.lastBalance_le.trans hmove.balance }⟩
  · exact hbooked
  · exact ⟨hbooked.1.trans hmove.balance, hbooked.2⟩

theorem booked_append (hunbooked : roundedBy call = 0 ∧ leftBy call + forfeitedBy call = 0)
    (hstate : host.state = call.before.state)
    (hbalance : host.balance = call.before.balance)
    (hbooked : Booked policy calls call.before) : Booked policy (calls ++ [call]) host := by
  rw [Booked] at hbooked ⊢
  rw [rounded_append, kept_append, hunbooked.1, hunbooked.2, Int.add_zero,
    Int.add_zero, hstate, hbalance]
  exact hbooked

theorem booked_of_effect (hmultiplier : 0 < call.before.policy.accPerShareMultiplier)
    (hdelay : 0 ≤ call.before.policy.rewardVestingSpec.initialDelay) {returned : Bytes}
    (hresult : call.result = .ok returned)
    (heffect : Effect (call.before.entered call.replies) call.method call.params
      call.after.state call.after.balance)
    (hbooked : Booked call.before.policy calls call.before) :
    Booked call.before.policy (calls ++ [call]) call.after := by
  cases heffect with
  | constructed hmethod _ hnone hstored hbalance =>
      have htarget : target? call = none := target?_of_other (by rw [hmethod]; decide)
      obtain ⟨hrounded, hkept⟩ :=
        unbooked_of_target?_eq_none htarget (by rw [hmethod]; decide)
      have hnothing : call.before.state = none := hnone
      rw [Booked, hnothing] at hbooked
      obtain ⟨hfunded, hkeptBefore, hroundedBefore⟩ := hbooked
      refine booked_of_solid .empty hstored ?_
      rw [rounded_append, kept_append, hrounded, hkept, hkeptBefore,
        hroundedBefore, hbalance]
      exact Fund.solid_empty hfunded
  | watched hmethod hkept hbalance =>
      have htarget := target?_of_watched hmethod
      have hdeposit : call.method ≠ Method.deposit := by
        rcases hmethod with hmethod | hmethod <;> rw [hmethod] <;> decide
      exact booked_append (unbooked_of_target?_eq_none htarget hdeposit) hkept
        hbalance hbooked
  | voted hmethod _ _ hold hchange hstored hbalance =>
      have htarget : target? call = none := target?_of_other (by rw [hmethod]; decide)
      obtain ⟨hrounded, hkept⟩ :=
        unbooked_of_target?_eq_none htarget (by rw [hmethod]; decide)
      obtain ⟨experts, hsolid⟩ := solid_of_booked hbooked hold
      refine booked_of_solid experts hstored ?_
      rw [rounded_append, kept_append, hrounded, hkept, Int.add_zero,
        Int.add_zero, hbalance]
      exact Fund.solid_changeVotes hsolid hchange
  | deposited hmethod _ _ hold hchange hstored hbalance =>
      obtain ⟨experts, hsolid⟩ := solid_of_booked hbooked hold
      obtain ⟨revised, hrevised⟩ := Fund.solid_deposit hsolid hmultiplier hchange
      have hreset : call.method ≠ Method.reset := by rw [hmethod]; decide
      refine booked_of_solid revised hstored ?_
      rw [rounded_append, kept_append, forfeitedBy_of_other hreset, Int.add_zero,
        leftBy_of_other hresult (target?_of_deposit hmethod) hreset hold,
        roundedBy_of_deposit hmethod hold hstored hsolid.sound.held hrevised.sound.held,
        hbalance]
      exact hrevised
  | claimed hmethod hrequest _ hold hchange hstored hbalance =>
      obtain ⟨experts, hsolid⟩ := solid_of_booked hbooked hold
      obtain ⟨revised, hrevised⟩ := Fund.solid_claim hsolid hmultiplier hchange
      have hreset : call.method ≠ Method.reset := by rw [hmethod]; decide
      refine booked_of_solid revised hstored ?_
      rw [rounded_append, kept_append, forfeitedBy_of_other hreset, Int.add_zero,
        leftBy_of_other hresult (target?_of_claim hmethod hrequest) hreset hold,
        roundedBy_of_other (by rw [hmethod]; decide), Int.add_zero, hbalance]
      exact hrevised
  | cleared hmethod hrequest hold hchange hstored hbalance =>
      obtain ⟨experts, hsolid⟩ := solid_of_booked hbooked hold
      obtain ⟨revised, hrevised⟩ := Fund.solid_reset hsolid hdelay hchange
      have htarget := target?_of_reset hmethod hrequest
      refine booked_of_solid revised hstored ?_
      rw [rounded_append, kept_append,
        leftBy_of_reset hresult htarget hmethod hold hsolid.sound.held,
        forfeitedBy_of_reset htarget hmethod hold hstored hsolid.sound.held
          hrevised.sound.held,
        roundedBy_of_other (by rw [hmethod]; decide), Int.add_zero, hbalance,
        ← Int.add_assoc]
      exact hrevised

theorem booked_of_history {start : Host Fund}
    (hmultiplier : 0 < policy.accPerShareMultiplier)
    (hdelay : 0 ≤ policy.rewardVestingSpec.initialDelay) (hstart : start.state = none)
    (hfunded : 0 ≤ start.balance) (history : History code Onward start calls host)
    (hpolicy : ∀ call ∈ calls, call.before.policy = policy) : Booked policy calls host := by
  induction history with
  | begun =>
      rw [Booked, hstart]
      exact ⟨hfunded, rfl, rfl⟩
  | moved past hmove ih => exact booked_of_onward (ih hpolicy) hmove
  | @called calls call past hruns ih =>
      obtain ⟨hpast, hcall⟩ := List.forall_mem_append.mp hpolicy
      obtain rfl := hcall call List.mem_cons_self
      have hbooked := ih hpast
      cases hresult : call.result with
      | error failure =>
          have hunbooked := unbooked_of_refused hruns hresult
          obtain ⟨hstate, hbalance⟩ := hruns.refused hresult
          exact booked_append hunbooked hstate hbalance hbooked
      | ok returned =>
          exact booked_of_effect hmultiplier hdelay hresult
            (effect_of_runs hruns hresult) hbooked

/-! What is owed, and what it takes for it to be covered. -/

def owed (info : Expert) : Int := info.locked + info.unlocked

def depositCount (calls : List (Invocation Fund)) : Nat :=
  calls.countP fun call => call.method = Method.deposit

theorem rounded_le (hmultiplier : 0 < policy.accPerShareMultiplier)
    (hpolicy : ∀ call ∈ calls, call.before.policy = policy) :
    rounded calls ≤ (policy.accPerShareMultiplier - 1 : Int) * depositCount calls := by
  induction calls with
  | nil => simp [rounded, depositCount]
  | cons call rest ih =>
      obtain ⟨rfl, hrest⟩ := List.forall_mem_cons.mp hpolicy
      have htail := ih hrest
      rw [rounded] at htail
      rw [rounded, List.map_cons, List.sum_cons, depositCount, List.countP_cons]
      by_cases hmethod : call.method = Method.deposit
      · have hnew := Fund.roundedOff_lt hmultiplier (fundOf call.after).pool
          (infoOf (fundOf call.after) call.before.caller).weight
        have hold := Fund.roundedOff_nonneg hmultiplier (fundOf call.after).pool
          (infoOf (fundOf call.before) call.before.caller).weight
        have hcall : roundedBy call ≤ call.before.policy.accPerShareMultiplier - 1 := by
          rw [roundedBy, if_pos hmethod]
          dsimp only
          omega
        simp only [hmethod, decide_true, if_true]
        push_cast
        rw [depositCount] at htail
        linarith
      · rw [roundedBy_of_other hmethod]
        simp only [hmethod, decide_false, Bool.false_eq_true, if_false, Nat.add_zero]
        rw [depositCount] at htail
        linarith

theorem sumOf_holdings (policy : Policy) (pool : Pool) (experts : AddressMap Expert) :
    experts.sumOf (holdings policy pool) =
      experts.sumOf (unsettled policy pool) +
        policy.accPerShareMultiplier * experts.sumOf owed := by
  rw [← AddressMap.sumOf_add_mul]
  refine congrArg experts.sumOf (funext fun info => ?_)
  rw [holdings, owed, Int.add_comm]

/-- What is owed is covered exactly as long as the roundings of debts have not given away
more than the fund has kept and has yet to settle.  It never falls short by as much as one
for each deposit. -/
theorem owed_le_lastBalance_iff {policy : Policy} {start host : Host Fund}
    {calls : List (Invocation Fund)} {fund : Fund}
    (hmultiplier : 0 < policy.accPerShareMultiplier)
    (hdelay : 0 ≤ policy.rewardVestingSpec.initialDelay) (hstart : start.state = none)
    (hfunded : 0 ≤ start.balance) (history : History code Onward start calls host)
    (hpolicy : ∀ call ∈ calls, call.before.policy = policy)
    (hheld : host.state = some (.held fund)) :
    ∃ experts, fund.experts = .held experts ∧ fund.lastBalance ≤ host.balance ∧
      0 ≤ kept calls ∧ 0 ≤ experts.sumOf (unsettled policy fund.pool) ∧
      (experts.sumOf owed ≤ fund.lastBalance ↔
        rounded calls ≤ kept calls + experts.sumOf (unsettled policy fund.pool)) ∧
      experts.sumOf owed ≤ fund.lastBalance + (depositCount calls - 1 : Nat) := by
  have hbooked := booked_of_history hmultiplier hdelay hstart hfunded history hpolicy
  obtain ⟨experts, hsolid⟩ := solid_of_booked hbooked hheld
  have haccounts := hsolid.accounts
  have hrounded := rounded_le hmultiplier hpolicy
  have hunsettled := AddressMap.sumOf_nonneg hsolid.unsettled_nonneg
  have hkept := hsolid.kept_nonneg
  have hscale : (0 : Int) < policy.accPerShareMultiplier := Int.natCast_pos.mpr hmultiplier
  rw [sumOf_holdings] at haccounts
  refine ⟨experts, hsolid.sound.held, hsolid.lastBalance_le, hkept, hunsettled, ?_, ?_⟩
  · constructor
    · intro hcovered
      have hscaled := Int.mul_le_mul_of_nonneg_left hcovered hscale.le
      linarith
    · intro hroundings
      refine le_of_mul_le_mul_left ?_ hscale
      linarith
  · -- A shortfall of one for each deposit would take a full unit of rounding for each.
    rcases Nat.eq_zero_or_pos (depositCount calls) with hnone | hsome
    · rw [hnone, Int.natCast_zero, Int.mul_zero] at hrounded
      rw [hnone]
      refine le_of_mul_le_mul_left ?_ hscale
      simp only [Nat.zero_sub, Int.natCast_zero, Int.add_zero]
      linarith
    · have hshort : policy.accPerShareMultiplier * experts.sumOf owed <
          policy.accPerShareMultiplier * (fund.lastBalance + depositCount calls) := by
        have hcount : (0 : Int) < depositCount calls := Int.natCast_pos.mpr hsome
        linarith
      have hlt := lt_of_mul_lt_mul_left hshort hscale.le
      omega

/-- A run in which roundings give away more than the fund keeps: a first expert earns half a
unit for each unit of its weight, and two more join at that point with nothing to their
debt. -/
def overdrawingSteps : List (Step Fund) :=
  [constructStep, depositStep (.id 1001) 2 0, claimStep (.id 1001) (.id 2000) 0 1,
    depositStep (.id 1002) 1 0, depositStep (.id 1003) 1 0,
    claimStep (.id 1001) (.id 2000) 0 2, claimStep (.id 1002) (.id 2000) 0 0,
    claimStep (.id 1003) (.id 2000) 0 0]

def overdrawingRun : List (Invocation Fund) × Host Fund :=
  replay code (.init .expertFund .standard) overdrawingSteps

theorem overdrawingRun_history :
    History code Onward (.init .expertFund .standard) overdrawingRun.1
      overdrawingRun.2 := by
  refine history_replay code _ ?_
  simp only [overdrawingSteps, List.forall_mem_cons, List.not_mem_nil, false_imp_iff,
    implies_true, and_true]
  exact ⟨onward_constructStep, onward_depositStep _ _ _, onward_claimStep _ _ _ _,
    onward_depositStep _ _ _, onward_depositStep _ _ _, onward_claimStep _ _ _ _,
    onward_claimStep _ _ _ _, onward_claimStep _ _ _ _⟩

theorem overdrawingRun_policy :
    ∀ call ∈ overdrawingRun.1, call.before.policy = .standard := by
  decide +kernel

/-- The last balance of a host's fund, and all that the fund owes. -/
def standingOf (host : Host Fund) : Option (Int × Int) :=
  match host.state with
  | some (.held fund) =>
      fund.experts.get?.map fun experts => (fund.lastBalance, experts.sumOf owed)
  | _ => none

theorem standingOf_eq_some {last total : Int}
    (hstanding : standingOf host = some (last, total)) :
    ∃ fund experts, host.state = some (.held fund) ∧ fund.experts = .held experts ∧
      fund.lastBalance = last ∧ experts.sumOf owed = total := by
  rw [standingOf] at hstanding
  split at hstanding
  · rename_i fund hfund
    obtain ⟨experts, hget, hpair⟩ := Option.map_eq_some_iff.mp hstanding
    cases hpair
    exact ⟨fund, experts, hfund, Link.get?_eq_some.mp hget, rfl, rfl⟩
  · cases hstanding

theorem overdrawingRun_standing : standingOf overdrawingRun.2 = some (3, 4) := by
  decide +kernel

theorem owed_exceeds_lastBalance :
    ∃ (calls : List (Invocation Fund)) (host : Host Fund) (fund : Fund)
      (experts : AddressMap Expert),
      History code Onward (.init .expertFund .standard) calls host ∧
        (∀ call ∈ calls, call.before.policy = .standard) ∧
        host.state = some (.held fund) ∧ fund.experts = .held experts ∧
        fund.lastBalance < experts.sumOf owed := by
  obtain ⟨fund, experts, hfund, hexperts, hlast, htotal⟩ :=
    standingOf_eq_some overdrawingRun_standing
  exact ⟨_, _, fund, experts, overdrawingRun_history, overdrawingRun_policy,
    hfund, hexperts, by omega⟩

theorem owed_le_lastBalance_iff_overdrawing :
    ∃ fund experts, overdrawingRun.2.state = some (.held fund) ∧
      fund.experts = .held experts ∧
      ¬ rounded overdrawingRun.1 ≤
        kept overdrawingRun.1 + experts.sumOf (unsettled .standard fund.pool) := by
  obtain ⟨fund, experts, hfund, hexperts, hlast, htotal⟩ :=
    standingOf_eq_some overdrawingRun_standing
  obtain ⟨held, hheld, _, _, _, hcovered, _⟩ :=
    owed_le_lastBalance_iff (by decide) (by decide)
    rfl (Int.le_refl 0) overdrawingRun_history overdrawingRun_policy hfund
  cases hexperts.symm.trans hheld
  refine ⟨fund, experts, hfund, hexperts, fun hroundings => ?_⟩
  have hsolvent := hcovered.mpr hroundings
  omega

end Calls

end RewardVesting.ExpertFund
