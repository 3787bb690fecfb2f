import RewardVesting.ExpertFund.Actor
import RewardVesting.Proofs.ExpertFund.Settlement
import RewardVesting.Proofs.Host.History
import RewardVesting.Proofs.Parameter

namespace RewardVesting.ExpertFund

open RewardVesting.Action Host

variable {before after : Host Fund} {method : Nat} {params returned : Bytes}

/-- What a call of the expert fund that answers has done to its state and balance. -/
inductive Effect (before : Host Fund) (method : Nat) (params : Bytes)
    (stored : Option (Link Fund)) (balance : Int) : Prop
  | constructed (hmethod : method = RewardVesting.Method.construct)
      (hcaller : before.caller = .system) (hbefore : before.state = none)
      (hafter : stored = some (.held .empty)) (hbalance : balance = before.balance)
  | watched (hmethod : method = Method.receive ∨ method = Method.standing)
      (hafter : stored = before.state) (hbalance : balance = before.balance)
  | deposited (hmethod : method = Method.deposit) (hkind : before.callerKind = .expert)
      {request : Deposit} {fund changed : Fund}
      (hrequest : Deposit.format.methodParameters params = .ok request)
      (hbefore : before.state = some (.held fund))
      (hchange : (Fund.deposit before.policy before.epoch before.balance before.caller
        request.weight).Yields fund () changed)
      (hafter : stored = some (.held changed)) (hbalance : balance = before.balance)
  | claimed (hmethod : method = Method.claim) {request : Claim} {fund changed : Fund}
      (hrequest : Claim.format.methodParameters params = .ok request)
      (hamount : 0 ≤ request.amount) (hbefore : before.state = some (.held fund))
      (hchange : (Fund.claim before.policy before.epoch before.balance request.expert
        request.amount).Yields fund () changed)
      (hafter : stored = some (.held changed))
      (hbalance : balance = before.balance - request.amount)
  | cleared (hmethod : method = Method.reset) {request : Reset} {fund changed : Fund}
      {forfeited : Int} (hrequest : Reset.format.methodParameters params = .ok request)
      (hbefore : before.state = some (.held fund))
      (hchange :
        (Fund.reset before.policy before.epoch before.balance request.expert).Yields
        fund forfeited changed)
      (hafter : stored = some (.held changed)) (hbalance : balance = before.balance)
  | voted (hmethod : method = Method.changeVotes) (hkind : before.callerKind = .vote)
      {request : VoteChange} {fund changed : Fund}
      (hrequest : VoteChange.format.methodParameters params = .ok request)
      (hbefore : before.state = some (.held fund))
      (hchange : (Fund.changeVotes request.expert request.amount).Yields fund () changed)
      (hafter : stored = some (.held changed)) (hbalance : balance = before.balance)

theorem construct_yields {answer : Unit} (hyields : construct.Yields before answer after) :
    before.caller = .system ∧ before.state = none ∧ after.state = some (.held .empty) ∧
      after.balance = before.balance := by
  rw [construct, yields_bind] at hyields
  obtain ⟨_, validated, hvalidate, hcreate⟩ := hyields
  obtain ⟨hnone, rfl⟩ := create_yields hcreate
  have halike := alike_of_bare_eq ((keeps_bare_validateIs _).yields hvalidate)
  exact ⟨List.mem_singleton.mp (caller_of_validateIs hvalidate), halike.state ▸ hnone, rfl,
    halike.balance⟩

theorem deposit_yields {request : Deposit} {answer : Unit}
    (hyields : (deposit request).Yields before answer after) :
    before.callerKind = .expert ∧ ∃ fund changed, before.state = some (.held fund) ∧
      (Fund.deposit before.policy before.epoch before.balance before.caller
        request.weight).Yields fund () changed ∧
      after.state = some (.held changed) ∧ after.balance = before.balance := by
  simp only [deposit, yields_bind, yields_currentCaller, yields_currentEpoch,
    yields_currentBalance, yields_currentPolicy] at hyields
  obtain ⟨_, validated, hvalidate, _, _, ⟨_, rfl, rfl⟩, _, _, ⟨_, rfl, rfl⟩, _, _,
    ⟨_, rfl, rfl⟩, _, _, ⟨rfl, rfl⟩, htransaction⟩ := hyields
  obtain ⟨fund, changed, hstate, hchange, _, rfl⟩ := transaction_yields htransaction
  rw [yields_mapError] at hchange
  have halike := alike_of_bare_eq ((keeps_bare_validateKind _).yields hvalidate)
  rw [halike.caller, halike.epoch, halike.balance, halike.policy] at hchange
  exact ⟨List.mem_singleton.mp (callerKind_of_validateKind hvalidate), fund, changed,
    halike.state ▸ hstate, hchange, rfl, halike.balance⟩

theorem queryOwner_yields {expert owner : Address}
    (hyields : (queryOwner expert).Yields before owner after) :
    after.bare = before.bare := by
  simp only [queryOwner, yields_bind, yields_mapError, yields_ofExcept,
    yields_pure] at hyields
  obtain ⟨_, sent, hsend, _, _, ⟨_, rfl⟩, _, rfl⟩ := hyields
  rw [(send_yields hsend).2, Int.sub_zero]
  rfl

theorem claim_yields {request : Claim} {answer : Unit}
    (hyields : (claim request).Yields before answer after) :
    0 ≤ request.amount ∧ ∃ fund changed, before.state = some (.held fund) ∧
      (Fund.claim before.policy before.epoch before.balance request.expert
        request.amount).Yields fund () changed ∧
      after.state = some (.held changed) ∧
      after.balance = before.balance - request.amount := by
  simp only [claim, yields_bind, yields_ofExcept, yields_currentEpoch,
    yields_currentBalance, yields_currentPolicy] at hyields
  obtain ⟨_, _, ⟨hnonneg, rfl⟩, owner, queried, hquery, _, validated, hvalidate, _, _,
    ⟨_, rfl, rfl⟩, _, _, ⟨_, rfl, rfl⟩, _, _, ⟨rfl, rfl⟩, _, settled, htransaction, hpay⟩ :=
      hyields
  obtain ⟨fund, changed, hstate, hchange, _, rfl⟩ := transaction_yields htransaction
  rw [yields_mapError] at hchange
  have halike := alike_of_bare_eq
    (((keeps_bare_validateIs _).yields hvalidate).trans (queryOwner_yields hquery))
  rw [halike.epoch, halike.balance, halike.policy] at hchange
  have hamount := nonneg_of_requireNonNegative hnonneg
  refine ⟨hamount, fund, changed, halike.state ▸ hstate, hchange, ?_⟩
  rcases yields_ite.mp hpay with ⟨hpositive, hsent⟩ | ⟨hzero, hskipped⟩
  · simp only [yields_bind, yields_mapError, yields_pure] at hsent
    obtain ⟨_, paid, hsend, _, rfl⟩ := hsent
    have hfinal := (send_yields hsend).2
    have hpaid : paid.balance = validated.balance - request.amount :=
      show paid.bare.balance = _ from congrArg Host.balance hfinal
    have hstored : paid.state = some (.held changed) :=
      show paid.bare.state = _ from congrArg Host.state hfinal
    exact ⟨hstored, halike.balance ▸ hpaid⟩
  · obtain ⟨_, rfl⟩ := yields_pure.mp hskipped
    exact ⟨rfl, by rw [halike.balance]; omega⟩

theorem reset_yields {request : Reset} {answer : Unit}
    (hyields : (reset request).Yields before answer after) :
    ∃ fund changed forfeited, before.state = some (.held fund) ∧
      (Fund.reset before.policy before.epoch before.balance request.expert).Yields fund
        forfeited changed ∧
      after.state = some (.held changed) ∧ after.balance = before.balance := by
  simp only [reset, yields_bind, yields_require, yields_currentCaller, yields_currentEpoch,
    yields_currentBalance, yields_currentPolicy] at hyields
  obtain ⟨_, validated, hvalidate, _, _, ⟨_, rfl, rfl⟩, _, granted, hgrant, _, _,
    ⟨_, rfl⟩, _, _, ⟨_, rfl, rfl⟩, _, _, ⟨_, rfl, rfl⟩, _, _, ⟨rfl, rfl⟩, forfeited, _,
    htransaction, hnotice⟩ := hyields
  obtain ⟨fund, changed, hstate, hchange, _, rfl⟩ := transaction_yields htransaction
  rw [yields_mapError] at hchange
  have halike := alike_of_bare_eq
    (((keeps_bare_holdsGrant _).yields hgrant).trans
      (keeps_bare_validateAny.yields hvalidate))
  rw [halike.epoch, halike.balance, halike.policy] at hchange
  rw [notice, yields_modify] at hnotice
  subst hnotice
  exact ⟨fund, changed, forfeited, halike.state ▸ hstate, hchange, rfl, halike.balance⟩

theorem changeVotes_yields {request : VoteChange} {answer : Unit}
    (hyields : (changeVotes request).Yields before answer after) :
    before.callerKind = .vote ∧ ∃ fund changed, before.state = some (.held fund) ∧
      (Fund.changeVotes request.expert request.amount).Yields fund () changed ∧
      after.state = some (.held changed) ∧ after.balance = before.balance := by
  rw [changeVotes, yields_bind] at hyields
  obtain ⟨_, validated, hvalidate, htransaction⟩ := hyields
  obtain ⟨fund, changed, hstate, hchange, _, rfl⟩ := transaction_yields htransaction
  rw [yields_mapError] at hchange
  have halike := alike_of_bare_eq ((keeps_bare_validateKind _).yields hvalidate)
  exact ⟨List.mem_singleton.mp (callerKind_of_validateKind hvalidate), fund, changed,
    halike.state ▸ hstate, hchange, rfl, halike.balance⟩

theorem standing_yields {request : Inquiry} {answer : Standing}
    (hyields : (standing request).Yields before answer after) :
    after.bare = before.bare := by
  simp only [standing, yields_bind, yields_ofExcept, yields_currentPolicy,
    yields_pure] at hyields
  obtain ⟨_, validated, hvalidate, _, _, hread, _, _, ⟨_, rfl⟩, _, _, ⟨_, rfl⟩, _, _,
    ⟨_, rfl⟩, _, rfl⟩ := hyields
  obtain ⟨_, rfl⟩ := readState_yields hread
  exact keeps_bare_validateAny.yields hvalidate

theorem invoke_yields {Request : Type} {format : Wire.Format Request}
    {action : Request → Run Fund Unit}
    (hyields : (invoke format params action).Yields before returned after) :
    ∃ request, format.methodParameters params = .ok request ∧
      (action request).Yields before () after := by
  simp only [invoke, yields_bind, yields_ofExcept, yields_pure] at hyields
  obtain ⟨request, _, ⟨hrequest, rfl⟩, _, _, haction, _, rfl⟩ := hyields
  exact ⟨request, hrequest, haction⟩

theorem code_yields (hyields : (code method params).Yields before returned after) :
    Effect before method params after.state after.balance := by
  simp only [code, yields_ite] at hyields
  rcases hyields with ⟨hmethod, hconstruct⟩ | ⟨_, ⟨hmethod, hreceive⟩ |
    ⟨_, ⟨hmethod, hdeposit⟩ | ⟨_, ⟨hmethod, hclaim⟩ | ⟨_, ⟨hmethod, hreset⟩ |
    ⟨_, ⟨hmethod, hvotes⟩ | ⟨_, ⟨hmethod, hstanding⟩ | ⟨_, hrefused⟩⟩⟩⟩⟩⟩⟩
  · simp only [yields_bind, yields_pure] at hconstruct
    obtain ⟨_, _, hconstruct, _, rfl⟩ := hconstruct
    obtain ⟨hcaller, hbefore, hafter, hbalance⟩ := construct_yields hconstruct
    exact .constructed hmethod hcaller hbefore hafter hbalance
  · simp only [receive, yields_bind, yields_pure] at hreceive
    obtain ⟨_, _, hvalidate, _, rfl⟩ := hreceive
    have halike := alike_of_bare_eq ((keeps_bare_validateIs _).yields hvalidate)
    exact .watched (.inl hmethod) halike.state halike.balance
  · obtain ⟨request, hrequest, hdeposit⟩ := invoke_yields hdeposit
    obtain ⟨hkind, fund, changed, hbefore, hchange, hafter, hbalance⟩ :=
      deposit_yields hdeposit
    exact .deposited hmethod hkind hrequest hbefore hchange hafter hbalance
  · obtain ⟨request, hrequest, hclaim⟩ := invoke_yields hclaim
    obtain ⟨hamount, fund, changed, hbefore, hchange, hafter, hbalance⟩ :=
      claim_yields hclaim
    exact .claimed hmethod hrequest hamount hbefore hchange hafter hbalance
  · obtain ⟨request, hrequest, hreset⟩ := invoke_yields hreset
    obtain ⟨fund, changed, forfeited, hbefore, hchange, hafter, hbalance⟩ :=
      reset_yields hreset
    exact .cleared hmethod hrequest hbefore hchange hafter hbalance
  · obtain ⟨request, hrequest, hvotes⟩ := invoke_yields hvotes
    obtain ⟨hkind, fund, changed, hbefore, hchange, hafter, hbalance⟩ :=
      changeVotes_yields hvotes
    exact .voted hmethod hkind hrequest hbefore hchange hafter hbalance
  · simp only [yields_bind, yields_ofExcept] at hstanding
    obtain ⟨_, _, ⟨_, rfl⟩, _, _, hanswer, _, rfl⟩ := hstanding
    have halike := alike_of_bare_eq (standing_yields hanswer)
    exact .watched (.inr hmethod) halike.state halike.balance
  · exact absurd hrefused not_yields_refuse

theorem effect_of_runs {call : Invocation Fund} {returned : Bytes} (hruns : call.Runs code)
    (hresult : call.result = .ok returned) :
    Effect (call.before.entered call.replies) call.method call.params call.after.state
      call.after.balance :=
  hruns.answered hresult fun _ => code_yields

theorem deposit_of_runs {call : Invocation Fund} {returned : Bytes} (hruns : call.Runs code)
    (hresult : call.result = .ok returned) (hmethod : call.method = Method.deposit) :
    ∃ request fund changed, Deposit.format.methodParameters call.params = .ok request ∧
      call.before.state = some (.held fund) ∧
      (Fund.deposit call.before.policy call.before.epoch call.before.balance
        call.before.caller request.weight).Yields fund () changed ∧
      call.after.state = some (.held changed) := by
  cases effect_of_runs hruns hresult with
  | deposited _ _ hrequest hbefore hchange hafter _ =>
      exact ⟨_, _, _, hrequest, hbefore, hchange, hafter⟩
  | constructed hother | claimed hother | cleared hother | voted hother =>
      exact absurd (hother.symm.trans hmethod) (by decide)
  | watched hother =>
      rcases hother with hother | hother
      · exact absurd (hother.symm.trans hmethod) (by decide)
      · exact absurd (hother.symm.trans hmethod) (by decide)

theorem claim_of_runs {call : Invocation Fund} {returned : Bytes} (hruns : call.Runs code)
    (hresult : call.result = .ok returned) (hmethod : call.method = Method.claim) :
    ∃ request fund changed, Claim.format.methodParameters call.params = .ok request ∧
      call.before.state = some (.held fund) ∧
      (Fund.claim call.before.policy call.before.epoch call.before.balance request.expert
        request.amount).Yields fund () changed ∧
      call.after.state = some (.held changed) := by
  cases effect_of_runs hruns hresult with
  | claimed _ hrequest _ hbefore hchange hafter _ =>
      exact ⟨_, _, _, hrequest, hbefore, hchange, hafter⟩
  | constructed hother | deposited hother | cleared hother | voted hother =>
      exact absurd (hother.symm.trans hmethod) (by decide)
  | watched hother =>
      rcases hother with hother | hother
      · exact absurd (hother.symm.trans hmethod) (by decide)
      · exact absurd (hother.symm.trans hmethod) (by decide)

def constructStep : Step Fund where
  prepare host := { host with caller := .system }
  replies := some []
  method := RewardVesting.Method.construct
  params := []

def depositStep (expert : Address) (weight : UInt64) (income : Nat) : Step Fund where
  prepare host := { host with
    caller := expert
    callerKind := .expert
    balance := host.balance + income }
  replies := some []
  method := Method.deposit
  params := (Deposit.format.write ⟨weight⟩).getD []

def claimStep (expert owner : Address) (amount : Int) (income : Nat) : Step Fund where
  prepare host := { host with
    caller := owner
    callerKind := .account
    balance := host.balance + income }
  replies := some [⟨.ok, (Control.format.write ⟨owner⟩).getD []⟩]
  method := Method.claim
  params := (Claim.format.write ⟨expert, amount⟩).getD []

def resetStep (expert caller : Address) : Step Fund where
  prepare host := { host with
    caller := caller
    callerKind := .account
    grants := [⟨caller, .expertFund, Method.reset⟩] }
  replies := some []
  method := Method.reset
  params := (Reset.format.write ⟨expert⟩).getD []

theorem onward_constructStep (host : Host Fund) :
    Onward host (constructStep.prepare host) :=
  ⟨⟨rfl⟩, Int.le_refl _, Int.le_refl _⟩

theorem onward_depositStep (expert : Address) (weight : UInt64) (income : Nat)
    (host : Host Fund) : Onward host ((depositStep expert weight income).prepare host) :=
  ⟨⟨rfl⟩, Int.le_add_of_nonneg_right (Int.natCast_nonneg income), Int.le_refl _⟩

theorem onward_resetStep (expert caller : Address) (host : Host Fund) :
    Onward host ((resetStep expert caller).prepare host) :=
  ⟨⟨rfl⟩, Int.le_refl _, Int.le_refl _⟩

theorem onward_claimStep (expert owner : Address) (amount : Int) (income : Nat)
    (host : Host Fund) :
    Onward host ((claimStep expert owner amount income).prepare host) :=
  ⟨⟨rfl⟩, Int.le_add_of_nonneg_right (Int.natCast_nonneg income), Int.le_refl _⟩

end RewardVesting.ExpertFund
