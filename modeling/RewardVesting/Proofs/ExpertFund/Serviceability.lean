import RewardVesting.Proofs.ExpertFund.Capacity
import RewardVesting.Proofs.ExpertFund.Solvency
import RewardVesting.Proofs.Host.Refusal

namespace RewardVesting.ExpertFund

open RewardVesting.Action Host

section Refusals

variable {before after : Host Fund} {params : Bytes} {failure : Failure} {fund : Fund}

theorem change_refuses {α : Type} {change : Fund.Operation α}
    (hrefuses : (transaction (change.mapError Fund.Refusal.failure)).Refuses before
      failure after)
    (hheld : before.state = some (.held fund)) (hwithstands : fund.Withstands change) :
    failure.code ≠ .illegalState := by
  cases transaction_refuses hrefuses with
  | nested _ hcode =>
      rw [hcode]
      decide
  | unconstructed hstate _ => exact absurd hheld (hstate fund)
  | refused hstate hchange =>
      cases hheld.symm.trans hstate
      obtain ⟨cause, hrefused, rfl⟩ := refuses_mapError.mp hchange
      exact hwithstands.refused cause _ hrefused
  | unstorable hstate hchange hunstorable _ =>
      cases hheld.symm.trans hstate
      exact absurd (hwithstands.storable _ _ (yields_mapError.mp hchange)) hunstorable

theorem deposit_refuses {request : Deposit}
    (hrefuses : (deposit request).Refuses before failure after)
    (hheld : before.state = some (.held fund))
    (hwithstands : fund.Withstands (Fund.deposit before.policy before.epoch before.balance
      before.caller request.weight)) : failure.code ≠ .illegalState := by
  simp only [deposit, refuses_bind, not_refuses_currentCaller, not_refuses_currentEpoch,
    not_refuses_currentBalance, not_refuses_currentPolicy, yields_currentCaller,
    yields_currentEpoch, yields_currentBalance, yields_currentPolicy, false_or] at hrefuses
  obtain hvalidate | ⟨_, validated, hvalidate, _, _, ⟨_, rfl, rfl⟩, _, _,
    ⟨_, rfl, rfl⟩, _, _, ⟨_, rfl, rfl⟩, _, _, ⟨rfl, rfl⟩, htransaction⟩ := hrefuses
  · rw [validateKind_refuses hvalidate]
    decide
  · have halike := alike_of_bare_eq ((keeps_bare_validateKind _).yields hvalidate)
    rw [halike.policy, halike.epoch, halike.balance, halike.caller] at htransaction
    exact change_refuses htransaction (halike.state.trans hheld) hwithstands

theorem queryOwner_refuses {expert : Address}
    (hrefuses : (queryOwner expert).Refuses before failure after)
    (hreply : ∀ reply, before.repliesAtHand.head? = some reply → reply.code.IsSuccess) :
    failure.code ≠ .illegalState := by
  simp only [queryOwner, refuses_bind, refuses_mapError, refuses_ofExcept, not_refuses_pure,
    and_false, exists_false, or_false] at hrefuses
  obtain ⟨failed, hsend, rfl⟩ | ⟨_, _, _, hdecode, _⟩ := hrefuses
  · rw [Failure.code_wrap]
    cases send_refuses hsend with
    | nested _ hcode =>
        rw [hcode]
        decide
    | answered hfirst hcode =>
        intro hillegal
        have hsuccess := hreply _ hfirst
        rw [← hcode, hillegal] at hsuccess
        exact absurd hsuccess (by decide)
    | unfunded _ hcode =>
        rw [hcode]
        decide
  · obtain ⟨_, _, rfl⟩ := mapError_eq_error.mp hdecode
    intro hillegal
    cases hillegal

theorem claim_refuses {request : Claim}
    (hrefuses : (claim request).Refuses before failure after)
    (hamount : request.amount = 0) (hheld : before.state = some (.held fund))
    (hwithstands : fund.Withstands (Fund.claim before.policy before.epoch before.balance
      request.expert 0))
    (hreply : ∀ reply, before.repliesAtHand.head? = some reply → reply.code.IsSuccess) :
    failure.code ≠ .illegalState := by
  simp only [claim, hamount, Int.lt_irrefl, if_false, refuses_bind, refuses_ofExcept,
    not_refuses_currentEpoch, not_refuses_currentBalance, not_refuses_currentPolicy,
    not_refuses_pure, yields_ofExcept, yields_currentEpoch, yields_currentBalance,
    yields_currentPolicy, and_false, exists_false, or_false, false_or] at hrefuses
  obtain ⟨hnegative, _⟩ | ⟨_, _, ⟨_, rfl⟩, hquery | ⟨owner, queried, hquery, hvalidate |
    ⟨_, validated, hvalidate, _, _, ⟨_, rfl, rfl⟩, _, _, ⟨_, rfl, rfl⟩, _, _, ⟨rfl, rfl⟩,
      htransaction⟩⟩⟩ := hrefuses
  · rw [(code_of_requireNonNegative hnegative).2]
    decide
  · exact queryOwner_refuses hquery hreply
  · rw [validateIs_refuses hvalidate]
    decide
  · have halike := alike_of_bare_eq
      (((keeps_bare_validateIs _).yields hvalidate).trans (queryOwner_yields hquery))
    rw [halike.policy, halike.epoch, halike.balance] at htransaction
    exact change_refuses htransaction (halike.state.trans hheld) hwithstands

theorem reset_refuses {request : Reset}
    (hrefuses : (reset request).Refuses before failure after)
    (hheld : before.state = some (.held fund))
    (hwithstands : fund.Withstands (Fund.reset before.policy before.epoch before.balance
      request.expert)) : failure.code ≠ .illegalState := by
  simp only [reset, refuses_bind, refuses_require, not_refuses_validateAny,
    not_refuses_holdsGrant, not_refuses_notice, not_refuses_currentCaller,
    not_refuses_currentEpoch, not_refuses_currentBalance, not_refuses_currentPolicy,
    yields_require, yields_currentCaller, yields_currentEpoch, yields_currentBalance,
    yields_currentPolicy, and_false, exists_false, or_false, false_or] at hrefuses
  obtain ⟨_, validated, hvalidate, _, _, ⟨_, rfl, rfl⟩, _, granted, hgrant, ⟨_, rfl, _⟩ |
    ⟨_, _, ⟨_, rfl⟩, _, _, ⟨_, rfl, rfl⟩, _, _, ⟨_, rfl, rfl⟩, _, _, ⟨rfl, rfl⟩,
      htransaction⟩⟩ := hrefuses
  · intro hillegal
    cases hillegal
  · have halike := alike_of_bare_eq
      (((keeps_bare_holdsGrant _).yields hgrant).trans
        (keeps_bare_validateAny.yields hvalidate))
    rw [halike.policy, halike.epoch, halike.balance] at htransaction
    exact change_refuses htransaction (halike.state.trans hheld) hwithstands

theorem invoke_refuses {Request : Type} {format : Wire.Format Request}
    {action : Request → Run Fund Unit}
    (hrefuses : (invoke format params action).Refuses before failure after) :
    failure.code = .serialization ∨
      ∃ request, format.methodParameters params = .ok request ∧
        (action request).Refuses before failure after := by
  simp only [invoke, refuses_bind, refuses_ofExcept, yields_ofExcept, not_refuses_pure,
    and_false, exists_false, or_false] at hrefuses
  obtain ⟨hparams, _⟩ | ⟨request, _, ⟨hrequest, rfl⟩, haction⟩ := hrefuses
  · exact .inl (Wire.Format.code_of_methodParameters hparams)
  · exact .inr ⟨request, hrequest, haction⟩

end Refusals

namespace Fund

/-- With this balance or more, a fund never gets into a state that it cannot get out of, and
serves every expert it knows. -/
structure Serviceable (policy : Policy) (fund : Fund) (experts : AddressMap Expert)
    (balance : Int) : Prop where
  held : fund.experts = .held experts
  lastBalance_le : fund.lastBalance ≤ balance
  rewardDebt_le : ∀ info ∈ experts.values, info.rewardDebt ≤
    fund.pool.accPerShare * info.weight.toNat / policy.accPerShareMultiplier
  not_bricking : ∀ (epoch more : Int) (expert : Address) (cause : Refusal) (changed : Fund),
    balance ≤ more → cause.Bricking →
      (∀ added, ¬(Fund.deposit policy epoch more expert added).Refuses fund cause changed) ∧
      (∀ amount, ¬(Fund.claim policy epoch more expert amount).Refuses fund cause changed) ∧
      ¬(Fund.reset policy epoch more expert).Refuses fund cause changed
  deposits : ∀ (epoch more : Int) (expert : Address) (added : UInt64),
    balance ≤ more → Timely policy epoch → Roomy policy more fund (record experts expert) →
      (record experts expert).weight.toNat + added.toNat < UInt64.size →
      fund.totalWeight.toNat + added.toNat < UInt64.size →
        ∃ changed, (Fund.deposit policy epoch more expert added).Yields fund () changed ∧
          Storage.Storable changed
  claims : ∀ (epoch more : Int) (expert : Address) (info : Expert),
    balance ≤ more → Timely policy epoch → experts.find? (.address expert) = some info →
      Roomy policy more fund info →
        ∃ changed, (Fund.claim policy epoch more expert 0).Yields fund () changed ∧
          Storage.Storable changed
  resets : ∀ (epoch more : Int) (expert : Address) (info : Expert),
    balance ≤ more → Timely policy epoch → experts.find? (.address expert) = some info →
      Roomy policy more fund info →
        ∃ forfeited changed,
          (Fund.reset policy epoch more expert).Yields fund forfeited changed ∧
          Storage.Storable changed

theorem Lasting.serviceable {policy : Policy} {fund : Fund} {experts : AddressMap Expert}
    {balance : Int} (hlasting : Lasting policy fund experts balance)
    (hmultiplier : 0 < policy.accPerShareMultiplier)
    (hstep : 0 < policy.rewardVestingSpec.stepDuration)
    (hperiod : 0 < policy.rewardVestingSpec.vestPeriod) :
    Serviceable policy fund experts balance where
  held := hlasting.sound.held
  lastBalance_le := hlasting.lastBalance_le
  rewardDebt_le info hmem := by
    have hpool := hlasting.sound.accPerShare_nonneg
    rw [← earned_eq hpool, rewardDebt_le_earned_iff hmultiplier hpool]
    exact hlasting.unsettled_nonneg info hmem
  not_bricking epoch more expert cause changed hmore hbricking := by
    have hsteady := hlasting.toSteady.mono hmore
    refine ⟨fun added hrefuses => ?_, fun amount hrefuses => ?_, fun hrefuses => ?_⟩
    · exact not_bricking_of_deposit hmultiplier hstep hperiod hsteady hrefuses hbricking
    · exact not_bricking_of_claim hmultiplier hstep hperiod hsteady hrefuses hbricking
    · exact not_bricking_of_reset hmultiplier hstep hperiod hsteady hrefuses hbricking
  deposits epoch more expert added hmore htimely hroomy hweight htotal :=
    exists_deposit (hlasting.mono hmore) hroomy hmultiplier hstep hperiod htimely
      hweight htotal
  claims epoch more expert info hmore htimely hfind hroomy := by
    rw [← record_of_find? hfind] at hroomy
    exact exists_claim (hlasting.mono hmore) hroomy hmultiplier hstep hperiod htimely hfind
  resets epoch more expert info hmore htimely hfind hroomy := by
    rw [← record_of_find? hfind] at hroomy
    exact exists_reset (hlasting.mono hmore) hroomy hmultiplier hstep hperiod htimely hfind

end Fund

/-! The accumulator of the pool, call by call. -/

/-- The weight that a call spreads what has come in over, if it spreads anything.  A reset
takes that of its expert out before. -/
def spreadWeight (call : Invocation Fund) (fund : Fund) : UInt64 :=
  if call.method = Method.reset then
    fund.totalWeight - ((target? call).map fun expert => (infoOf fund expert).weight).getD 0
  else fund.totalWeight

section Calls

variable {policy : Policy} {call : Invocation Fund} {fund : Fund} {host next : Host Fund}
  {experts : AddressMap Expert} {calls : List (Invocation Fund)}

theorem spreadWeight_of_other (hmethod : call.method ≠ Method.reset) :
    spreadWeight call fund = fund.totalWeight :=
  if_neg hmethod

theorem spreadWeight_of_reset {expert : Address} (hmethod : call.method = Method.reset)
    (htarget : target? call = some expert) (hheld : fund.experts = .held experts) :
    spreadWeight call fund = fund.totalWeight - (Fund.record experts expert).weight := by
  rw [spreadWeight, if_pos hmethod, htarget, Option.map_some, Option.getD_some,
    infoOf_eq hheld]

/-- No call takes anything back from the accumulator, and none adds to it without any
weight. -/
theorem accPerShare_of_runs (hruns : call.Runs code)
    (hbefore : call.before.state = some (.held fund)) :
    ∃ changed, call.after.state = some (.held changed) ∧
      fund.pool.accPerShare ≤ changed.pool.accPerShare ∧
      (spreadWeight call fund = 0 → changed.pool.accPerShare = fund.pool.accPerShare) := by
  cases hresult : call.result with
  | error failure =>
      exact ⟨fund, (hruns.refused hresult).1.trans hbefore, Int.le_refl _, fun _ => rfl⟩
  | ok returned =>
      cases effect_of_runs hruns hresult with
      | constructed _ _ hnone _ _ => cases hbefore.symm.trans hnone
      | watched _ hafter _ =>
          exact ⟨fund, hafter.trans hbefore, Int.le_refl _, fun _ => rfl⟩
      | voted _ _ _ hold hchange hafter _ =>
          cases hbefore.symm.trans hold
          obtain ⟨_, _, _, _, rfl⟩ := Fund.changeVotes_yields hchange
          exact ⟨_, hafter, Int.le_refl _, fun _ => rfl⟩
      | deposited hmethod _ _ hold hchange hafter _ =>
          cases hbefore.symm.trans hold
          obtain ⟨_, _, _, _, hspread, _, _, _, rfl⟩ := Fund.deposit_yields hchange
          refine ⟨_, hafter, hspread.accPerShare_le, fun hzero => ?_⟩
          rw [spreadWeight_of_other (by rw [hmethod]; decide)] at hzero
          exact hspread.accPerShare_eq hzero
      | claimed hmethod _ _ hold hchange hafter _ =>
          cases hbefore.symm.trans hold
          obtain ⟨_, _, _, _, _, _, hspread, _, _, rfl⟩ := Fund.claim_yields hchange
          refine ⟨_, hafter, hspread.accPerShare_le, fun hzero => ?_⟩
          rw [spreadWeight_of_other (by rw [hmethod]; decide)] at hzero
          exact hspread.accPerShare_eq hzero
      | cleared hmethod hrequest hold hchange hafter _ =>
          cases hbefore.symm.trans hold
          obtain ⟨_, _, _, _, hheld, hfind, _, hspread, _, _, rfl⟩ :=
            Fund.reset_yields hchange
          refine ⟨_, hafter, hspread.accPerShare_le, fun hzero => ?_⟩
          rw [spreadWeight_of_reset hmethod (target?_of_reset hmethod hrequest) hheld,
            Fund.record_of_find? hfind] at hzero
          exact hspread.accPerShare_eq hzero

/-- How a host stands: it has no fund yet, or one that lasts. -/
inductive Stands (policy : Policy) (host : Host Fund) : Prop
  | unopened (hstate : host.state = none) (hfunded : 0 ≤ host.balance)
  | opened {fund : Fund} {experts : AddressMap Expert}
      (hstate : host.state = some (.held fund))
      (hlasting : Fund.Lasting policy fund experts host.balance)

theorem Stands.mono (hstands : Stands policy host) (hstate : next.state = host.state)
    (hbalance : host.balance ≤ next.balance) : Stands policy next := by
  cases hstands with
  | unopened hnone hfunded => exact .unopened (hstate.trans hnone) (hfunded.trans hbalance)
  | opened hheld hlasting => exact .opened (hstate.trans hheld) (hlasting.mono hbalance)

theorem Stands.lasting (hstands : Stands policy host)
    (hheld : host.state = some (.held fund)) :
    ∃ experts, Fund.Lasting policy fund experts host.balance := by
  cases hstands with
  | unopened hnone _ => cases hnone.symm.trans hheld
  | opened hstate hlasting =>
      cases hstate.symm.trans hheld
      exact ⟨_, hlasting⟩

theorem stands_of_effect (hmultiplier : 0 < call.before.policy.accPerShareMultiplier)
    (heffect : Effect (call.before.entered call.replies) call.method call.params
      call.after.state call.after.balance)
    (hstands : Stands call.before.policy call.before) :
    Stands call.before.policy call.after := by
  cases heffect with
  | constructed _ _ hnone hafter hbalance =>
      cases hstands with
      | unopened _ hfunded =>
          exact .opened hafter
            (Fund.lasting_empty (hfunded.trans (Int.le_of_eq hbalance.symm)))
      | opened hstate _ => cases hstate.symm.trans hnone
  | watched _ hafter hbalance => exact hstands.mono hafter (Int.le_of_eq hbalance.symm)
  | deposited _ _ _ hold hchange hafter hbalance =>
      obtain ⟨experts, hlasting⟩ := hstands.lasting hold
      obtain ⟨revised, hrevised⟩ := hlasting.deposit hmultiplier hchange
      exact .opened hafter (hrevised.mono (Int.le_of_eq hbalance.symm))
  | claimed _ _ _ hold hchange hafter hbalance =>
      obtain ⟨experts, hlasting⟩ := hstands.lasting hold
      obtain ⟨revised, hrevised⟩ := hlasting.claim hmultiplier hchange
      exact .opened hafter (hrevised.mono (Int.le_of_eq hbalance.symm))
  | cleared _ _ hold hchange hafter hbalance =>
      obtain ⟨experts, hlasting⟩ := hstands.lasting hold
      obtain ⟨revised, hrevised⟩ := hlasting.reset hchange
      exact .opened hafter (hrevised.mono (Int.le_of_eq hbalance.symm))
  | voted _ _ _ hold hchange hafter hbalance =>
      obtain ⟨experts, hlasting⟩ := hstands.lasting hold
      exact .opened hafter
        ((hlasting.changeVotes hchange).mono (Int.le_of_eq hbalance.symm))

theorem stands_of_history {start : Host Fund}
    (hmultiplier : 0 < policy.accPerShareMultiplier)
    (hstart : start.state = none) (hfunded : 0 ≤ start.balance)
    (history : History code Onward start calls host)
    (hpolicy : ∀ call ∈ calls, call.before.policy = policy) : Stands policy host := by
  induction history with
  | begun => exact .unopened hstart hfunded
  | moved past hmove ih => exact (ih hpolicy).mono hmove.state hmove.balance
  | @called calls call past hruns ih =>
      obtain ⟨hpast, hcall⟩ := List.forall_mem_append.mp hpolicy
      obtain rfl := hcall call List.mem_cons_self
      cases hresult : call.result with
      | error failure =>
          obtain ⟨hstate, hbalance⟩ := hruns.refused hresult
          exact (ih hpast).mono hstate (Int.le_of_eq hbalance.symm)
      | ok returned =>
          exact stands_of_effect hmultiplier (effect_of_runs hruns hresult) (ih hpast)

theorem code_ne_illegalState_of_runs {failure : Failure}
    (hmultiplier : 0 < policy.accPerShareMultiplier)
    (hstep : 0 < policy.rewardVestingSpec.stepDuration)
    (hperiod : 0 < policy.rewardVestingSpec.vestPeriod)
    (hlasting : Fund.Lasting policy fund experts call.before.balance)
    (hheld : call.before.state = some (.held fund)) (hpolicy : call.before.policy = policy)
    (htimely : Timely policy call.before.epoch)
    (hroomy : ∀ expert, target? call = some expert →
      Fund.Roomy policy call.before.balance fund (Fund.record experts expert))
    (hmethod : call.method ∈ [Method.deposit, Method.claim, Method.reset])
    (hrequested : requested call = 0)
    (hreply : call.method = Method.claim →
      ∀ reply, call.repliesAtHand.head? = some reply → reply.code.IsSuccess)
    (hruns : call.Runs code) (hresult : call.result = .error failure) :
    failure.code ≠ .illegalState := by
  subst hpolicy
  obtain ⟨final, hrefuses⟩ := hruns.refuses hresult
  simp only [List.mem_cons, List.not_mem_nil, or_false] at hmethod
  obtain hdeposit | hclaim | hreset := hmethod
  · rw [hdeposit] at hrefuses
    obtain hparams | ⟨request, _, hrefused⟩ := invoke_refuses hrefuses
    · rw [hparams]
      decide
    · exact deposit_refuses hrefused hheld (Fund.withstands_deposit hlasting
        (hroomy _ (target?_of_deposit hdeposit)) hmultiplier hstep hperiod htimely _)
  · rw [hclaim] at hrefuses
    obtain hparams | ⟨request, hrequest, hrefused⟩ := invoke_refuses hrefuses
    · rw [hparams]
      decide
    · have hamount : request.amount = 0 :=
        (requested_of_claim hclaim hrequest).symm.trans hrequested
      exact claim_refuses hrefused hamount hheld (Fund.withstands_claim hlasting
        (hroomy _ (target?_of_claim hclaim hrequest)) hmultiplier hstep hperiod htimely)
        (hreply hclaim)
  · rw [hreset] at hrefuses
    obtain hparams | ⟨request, hrequest, hrefused⟩ := invoke_refuses hrefuses
    · rw [hparams]
      decide
    · exact reset_refuses hrefused hheld (Fund.withstands_reset hlasting
        (hroomy _ (target?_of_reset hreset hrequest)) hmultiplier hstep hperiod)

/-- Whatever calls are made of a fund under one policy, its accumulator never falls, and it
goes on to serve: nothing that is asked of it in good order ever fails for the state that it
is in. -/
theorem serviceable_of_history {policy : Policy} {start host : Host Fund}
    {calls : List (Invocation Fund)} {fund : Fund}
    (hmultiplier : 0 < policy.accPerShareMultiplier)
    (hstep : 0 < policy.rewardVestingSpec.stepDuration)
    (hperiod : 0 < policy.rewardVestingSpec.vestPeriod) (hstart : start.state = none)
    (hfunded : 0 ≤ start.balance) (history : History code Onward start calls host)
    (hpolicy : ∀ call ∈ calls, call.before.policy = policy)
    (hheld : host.state = some (.held fund)) :
    (∀ call ∈ calls, ∀ before, call.before.state = some (.held before) →
      ∃ after, call.after.state = some (.held after) ∧
        before.pool.accPerShare ≤ after.pool.accPerShare ∧
        (spreadWeight call before = 0 → after.pool.accPerShare = before.pool.accPerShare)) ∧
    ∃ experts, Fund.Serviceable policy fund experts host.balance ∧
      ∀ (call : Invocation Fund) (failure : Failure), Onward host call.before →
        call.before.policy = policy → Timely policy call.before.epoch →
        (∀ expert, target? call = some expert →
          Fund.Roomy policy call.before.balance fund (Fund.record experts expert)) →
        call.method ∈ [Method.deposit, Method.claim, Method.reset] → requested call = 0 →
        (call.method = Method.claim →
          ∀ reply, call.repliesAtHand.head? = some reply → reply.code.IsSuccess) →
        call.Runs code → call.result = .error failure → failure.code ≠ .illegalState := by
  constructor
  · intro call hmem before hbefore
    exact accPerShare_of_runs (history.runs_of_mem call hmem) hbefore
  · have hstands := stands_of_history hmultiplier hstart hfunded history hpolicy
    obtain ⟨experts, hlasting⟩ := hstands.lasting hheld
    refine ⟨experts, hlasting.serviceable hmultiplier hstep hperiod, ?_⟩
    intro call failure honward hsame htimely hroomy hmethod hrequested hreply hruns hresult
    exact code_ne_illegalState_of_runs hmultiplier hstep hperiod
      (hlasting.mono honward.balance)
      (honward.state.trans hheld) hsame htimely hroomy hmethod hrequested hreply
        hruns hresult

end Calls

def servedSteps : List (Step Fund) :=
  [constructStep, depositStep (.id 1001) 2 5, depositStep (.id 1002) 1 1,
    claimStep (.id 1001) (.id 2000) 0 7, resetStep (.id 1002) (.id 3000)]

def servedRun : List (Invocation Fund) × Host Fund :=
  replay code (.init .expertFund .standard) servedSteps

theorem servedRun_history :
    History code Onward (.init .expertFund .standard) servedRun.1 servedRun.2 := by
  refine history_replay code _ ?_
  simp only [servedSteps, List.forall_mem_cons, List.not_mem_nil, false_imp_iff,
    implies_true, and_true]
  exact ⟨onward_constructStep, onward_depositStep _ _ _, onward_depositStep _ _ _,
    onward_claimStep _ _ _ _, onward_resetStep _ _⟩

theorem servedRun_policy : ∀ call ∈ servedRun.1, call.before.policy = .standard := by
  decide +kernel

/-- The fund of a host, and what it holds for an expert that it knows. -/
def known? (host : Host Fund) (expert : Address) : Option (Fund × Expert) :=
  match host.state with
  | some (.held fund) =>
    (fund.experts.get?.bind fun experts => experts.find? (.address expert)).map fun info =>
      (fund, info)
  | _ => none

theorem known?_eq_some {host : Host Fund} {expert : Address} {fund : Fund} {info : Expert}
    (hknown : known? host expert = some (fund, info)) :
    host.state = some (.held fund) ∧ ∃ experts, fund.experts = .held experts ∧
      experts.find? (.address expert) = some info := by
  rw [known?] at hknown
  split at hknown
  · rename_i held hstate
    obtain ⟨_, hfind, hpair⟩ := Option.map_eq_some_iff.mp hknown
    cases hpair
    obtain ⟨experts, hget, hinfo⟩ := Option.bind_eq_some_iff.mp hfind
    exact ⟨hstate, experts, Link.get?_eq_some.mp hget, hinfo⟩
  · cases hknown

theorem servedRun_known :
    servedRun.2.balance = 13 ∧ ∃ known ∈ known? servedRun.2 (.id 1001),
    known.1.lastBalance = 13 ∧ Fund.Roomy .standard 13 known.1 known.2 := by
  decide +kernel

theorem timely_standard : Timely .standard 0 where
  now := by decide
  ripe := by decide
  schedule := ⟨by decide, by decide, by decide, by decide⟩

theorem serviceable_of_history_served :
    ∃ fund experts, servedRun.2.state = some (.held fund) ∧ fund.experts = .held experts ∧
      fund.lastBalance = 13 ∧ servedRun.2.balance = 13 ∧
      (∃ changed, (Fund.claim .standard 0 13 (.id 1001) 0).Yields fund () changed) ∧
      ∃ forfeited changed,
        (Fund.reset .standard 0 13 (.id 1001)).Yields fund forfeited changed := by
  obtain ⟨hbalance, ⟨fund, info⟩, hknown, hlast, hroomy⟩ := servedRun_known
  obtain ⟨hstate, experts, hheld, hfind⟩ := known?_eq_some hknown
  obtain ⟨_, held, hserviceable, _⟩ :=
    serviceable_of_history (by decide) (by decide) (by decide)
    rfl (Int.le_refl 0) servedRun_history servedRun_policy hstate
  cases hheld.symm.trans hserviceable.held
  rw [hbalance] at hserviceable
  obtain ⟨claimed, hclaim, _⟩ :=
    hserviceable.claims 0 13 (.id 1001) info (Int.le_refl 13) timely_standard hfind hroomy
  obtain ⟨forfeited, cleared, hreset, _⟩ :=
    hserviceable.resets 0 13 (.id 1001) info (Int.le_refl 13) timely_standard hfind hroomy
  exact ⟨fund, experts, hstate, hheld, hlast, hbalance, ⟨claimed, hclaim⟩,
    forfeited, cleared, hreset⟩

end RewardVesting.ExpertFund
