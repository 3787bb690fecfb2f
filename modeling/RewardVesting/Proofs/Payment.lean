import RewardVesting.Proofs.Access
import RewardVesting.Proofs.Host.Abort
import RewardVesting.Proofs.Vesting.Withdrawal

namespace RewardVesting

open RewardVesting.Action Host

namespace Vesting

variable {before : Host Book} {params : Bytes} {request : WithdrawalRequest} {paid : Int}
  {changed : Book} {replies : List Reply}

/-- A withdrawal that passes its checks and debits a ledger by something to pay. -/
structure Debits (before : Host Book) (params : Bytes) (request : WithdrawalRequest)
    (paid : Int) (changed : Book) : Prop where
  params : WithdrawalRequest.format.methodParameters params = .ok request
  caller : before.caller = request.coinbase
  amount : 0 ≤ request.amount
  change : ∃ book, before.state = some (.held book) ∧
    (Book.withdraw request.coinbase before.epoch request.amount).Yields book paid changed
  positive : 0 < paid

theorem aborted_of_debits (hrested : before.Rested)
    (hdebits : Debits before params request paid changed)
    (hfails : ¬(nextReply replies).code.IsSuccess) :
    ∃ text after, Aborted code ⟨before, some replies, Method.withdraw, params,
      .error ⟨(nextReply replies).code, text⟩, after⟩ (some (.held changed)) := by
  obtain ⟨book, hstate, hchange⟩ := hdebits.change
  have hserves := hrested.idle.serves replies
  have hdebited := (hserves.afterCheck [request.coinbase]).afterChange changed
  obtain ⟨text, hpay⟩ := payOut_of_failure hdebited hdebits.positive hfails
  have hrefuses :=
    withdraw_of_debit hserves hdebits.caller hdebits.amount hstate hchange hpay
  have hcontinues :=
    ((hrested.continues (some replies)).afterCheck [request.coinbase]).afterChange
    changed
  exact ⟨text, aborted_of_refuses hrested (code_of_withdraw_refuses hdebits.params hrefuses)
    (hcontinues.afterSend _ _)⟩

end Vesting

namespace ExpertFund

section Serving

variable {host after : Host Fund} {replies : List Reply} {expert owner : Address}
  {request : Claim} (hserves : Serves host replies)

include hserves

theorem queryOwner_of_failure (hfails : ¬(nextReply replies).code.IsSuccess) :
    ∃ text, (queryOwner expert).Refuses host ⟨(nextReply replies).code, text⟩
      (host.afterSend replies (ownerQuery expert)) := by
  obtain ⟨text, hsent⟩ : ∃ text, (send (ownerQuery expert)).Refuses host
      ⟨(nextReply replies).code, text⟩ _ := hserves.send_fails hfails
  exact ⟨_, Ends.bind_refused (refuses_mapError.mpr ⟨_, hsent, rfl⟩)⟩

theorem queryOwner_of_success (hsuccess : (nextReply replies).code.IsSuccess)
    (hfunds : 0 ≤ host.balance)
    (howner : Control.format.decode (nextReply replies).returned = .ok ⟨owner⟩) :
    (queryOwner expert).Yields host owner (host.afterSend replies (ownerQuery expert)) := by
  have hsent : (send (ownerQuery expert)).Yields host _ _ :=
    hserves.send_succeeds hsuccess hfunds
  refine Yields.bind (yields_mapError.mpr hsent) ?_
  refine Yields.bind (yields_ofExcept.mpr ⟨mapError_eq_ok.mpr howner, rfl⟩) ?_
  exact yields_pure.mpr ⟨rfl, rfl⟩

end Serving

/-- The last part of a claim. -/
def payOwner (owner : Address) (amount : Int) : Run Fund Unit := do
  if 0 < amount then
    let _ ← (send ⟨owner, RewardVesting.Method.send, [], amount⟩).mapError
      (Failure.wrap "failed to pay claimed expert funds")

theorem payOwner_of_failure {host : Host Fund} {replies : List Reply} {owner : Address}
    {amount : Int} (hserves : Serves host replies) (hamount : 0 < amount)
    (hfails : ¬(nextReply replies).code.IsSuccess) :
    ∃ text, (payOwner owner amount).Refuses host ⟨(nextReply replies).code, text⟩
      (host.afterSend replies ⟨owner, RewardVesting.Method.send, [], amount⟩) := by
  obtain ⟨text, hsent⟩ := hserves.send_fails hfails
  rw [payOwner, if_pos hamount]
  exact ⟨_, Ends.bind_refused (refuses_mapError.mpr ⟨_, hsent, rfl⟩)⟩

theorem moved_ownerQuery (reply : Reply) (expert : Address) :
    moved reply (ownerQuery expert) = 0 := by
  rw [moved]
  split <;> rfl

section Claim

variable {host after : Host Fund} {replies : List Reply} {request : Claim}
  {fund changed : Fund} (hserves : Serves host replies) (hamount : 0 ≤ request.amount)

include hserves hamount

theorem claim_of_unanswered (hfails : ¬(nextReply replies).code.IsSuccess) :
    ∃ text, (claim request).Refuses host ⟨(nextReply replies).code, text⟩
      (host.afterSend replies (ownerQuery request.expert)) := by
  obtain ⟨text, hrefused⟩ : ∃ text, (queryOwner request.expert).Refuses host
      ⟨(nextReply replies).code, text⟩ _ := queryOwner_of_failure hserves hfails
  refine ⟨text,
    Yields.andThen (yields_ofExcept.mpr ⟨if_neg (Int.not_lt.mpr hamount), rfl⟩) ?_⟩
  exact hrefused.bind_refused

variable (hsuccess : (nextReply replies).code.IsSuccess) (hfunds : 0 ≤ host.balance)
  (howner : Control.format.decode (nextReply replies).returned = .ok ⟨host.caller⟩)

include hsuccess hfunds howner

/-- Past its checks the method changes the fund, and then pays. -/
theorem claim_of_answered {result : Except Failure Unit}
    (hrest : (do
      transaction ((Fund.claim host.policy host.epoch host.balance request.expert
        request.amount).mapError Fund.Refusal.failure)
      payOwner host.caller request.amount : Run Fund Unit).Ends
        ((host.afterSend replies (ownerQuery request.expert)).afterCheck [host.caller])
        result after) :
    (claim request).Ends host result after := by
  have hasked : (queryOwner request.expert).Yields host host.caller
      (host.afterSend replies (ownerQuery request.expert)) :=
    queryOwner_of_success hserves hsuccess hfunds howner
  have hserved := hserves.afterSend (ownerQuery request.expert)
  have hchecked := hserved.afterCheck [host.caller]
  have hkept : ((host.afterSend replies (ownerQuery request.expert)).afterCheck
      [host.caller]).balance = host.balance := by
    show host.balance - moved (nextReply replies) (ownerQuery request.expert) = host.balance
    rw [moved_ownerQuery, Int.sub_zero]
  refine Yields.andThen (yields_ofExcept.mpr ⟨if_neg (Int.not_lt.mpr hamount), rfl⟩) ?_
  refine Yields.bind hasked ((hserved.validateIs (List.mem_singleton_self _)).andThen ?_)
  refine Yields.bind (yields_currentEpoch.mpr ⟨hchecked.inCall, rfl, rfl⟩) ?_
  refine Yields.bind (yields_currentBalance.mpr ⟨hchecked.inCall, hkept, rfl⟩) ?_
  exact Yields.bind (yields_currentPolicy.mpr ⟨rfl, rfl⟩) hrest

/-- Once the debit is stored, the method ends as the payment does. -/
theorem claim_of_debit {result : Except Failure Unit}
    (hstate : host.state = some (.held fund))
    (hchange : (Fund.claim host.policy host.epoch host.balance request.expert
      request.amount).Yields fund () changed)
    (hstorable : Storage.Storable changed)
    (hpay : (payOwner host.caller request.amount).Ends
      (((host.afterSend replies (ownerQuery request.expert)).afterCheck
        [host.caller]).afterChange changed) result after) :
    (claim request).Ends host result after := by
  have hchecked := (hserves.afterSend (ownerQuery request.expert)).afterCheck [host.caller]
  refine claim_of_answered hserves hamount hsuccess hfunds howner (Yields.andThen ?_ hpay)
  exact yields_transaction hchecked.outside hstate (yields_mapError.mpr hchange) hstorable

end Claim

section Call

variable {before : Host Fund} {params : Bytes} {request : Claim} {changed : Fund}
  {replies : List Reply}

theorem code_of_claim_refuses {host after : Host Fund} {failure : Failure}
    (hparams : Claim.format.methodParameters params = .ok request)
    (hrefuses : (claim request).Refuses host failure after) :
    (code Method.claim params).Refuses host failure after := by
  rw [code, if_neg (by decide), if_neg (by decide), if_neg (by decide), if_pos rfl]
  exact Yields.bind (yields_ofExcept.mpr ⟨hparams, rfl⟩) (Ends.bind_refused hrefuses)

/-- A claim of an amount that may be asked for. -/
structure Asks (params : Bytes) (request : Claim) : Prop where
  params : Claim.format.methodParameters params = .ok request
  amount : 0 ≤ request.amount

/-- A claim that passes its checks, the expert having answered, and debits the fund by
something to pay. -/
structure Debits (before : Host Fund) (answer : Reply) (params : Bytes) (request : Claim)
    (changed : Fund) : Prop where
  params : Claim.format.methodParameters params = .ok request
  positive : 0 < request.amount
  funded : 0 ≤ before.balance
  answered : answer.code.IsSuccess
  owner : Control.format.decode answer.returned = .ok ⟨before.caller⟩
  change : ∃ fund, before.state = some (.held fund) ∧
    (Fund.claim before.policy before.epoch before.balance request.expert
      request.amount).Yields fund () changed
  storable : Storage.Storable changed

theorem aborted_of_asks (hrested : before.Rested) (hasks : Asks params request)
    (hfails : ¬(nextReply replies).code.IsSuccess) :
    ∃ text after, Aborted code ⟨before, some replies, Method.claim, params,
      .error ⟨(nextReply replies).code, text⟩, after⟩ before.state := by
  have hserves := hrested.idle.serves replies
  obtain ⟨text, hrefuses⟩ := claim_of_unanswered hserves hasks.amount hfails
  have hcontinues := (hrested.continues (some replies)).afterSend replies
    (ownerQuery request.expert)
  have haborted := aborted_of_refuses hrested (code_of_claim_refuses hasks.params hrefuses)
    hcontinues
  exact ⟨text, haborted⟩

theorem aborted_of_debits (hrested : before.Rested)
    (hdebits : Debits before (nextReply replies) params request changed)
    (hfails : ¬(nextReply replies.tail).code.IsSuccess) :
    ∃ text after, Aborted code ⟨before, some replies, Method.claim, params,
      .error ⟨(nextReply replies.tail).code, text⟩, after⟩ (some (.held changed)) := by
  obtain ⟨fund, hstate, hchange⟩ := hdebits.change
  have hserves := hrested.idle.serves replies
  have hdebited := ((hserves.afterSend (ownerQuery request.expert)).afterCheck
    [before.caller]).afterChange changed
  obtain ⟨text, hpay⟩ : ∃ text, (payOwner before.caller request.amount).Refuses _
      ⟨(nextReply replies.tail).code, text⟩ _ :=
    payOwner_of_failure hdebited hdebits.positive hfails
  have hrefuses := claim_of_debit hserves (Int.le_of_lt hdebits.positive) hdebits.answered
    hdebits.funded hdebits.owner hstate hchange hdebits.storable hpay
  have hcontinues := (((hrested.continues (some replies)).afterSend replies
    (ownerQuery request.expert)).afterCheck [before.caller]).afterChange changed
  exact ⟨text, aborted_of_refuses hrested (code_of_claim_refuses hdebits.params hrefuses)
    (hcontinues.afterSend _ _)⟩

end Call

end ExpertFund

/-- A withdrawal or a claim in which a message fails, the payment or the query for the
owner, fails with the exit code of that message and leaves nothing behind. -/
theorem aborted_of_failed_message :
    (∀ (before : Host Vesting.Book) (replies : List Reply) (params : Bytes)
        (request : Vesting.WithdrawalRequest) (paid : Int) (changed : Vesting.Book),
      before.Rested → Vesting.Debits before params request paid changed →
      ¬(nextReply replies).code.IsSuccess →
      ∃ text after,
        Aborted Vesting.code ⟨before, some replies, Vesting.Method.withdraw, params,
          .error ⟨(nextReply replies).code, text⟩, after⟩ (some (.held changed))) ∧
    (∀ (before : Host ExpertFund.Fund) (replies : List Reply) (params : Bytes)
        (request : ExpertFund.Claim),
      before.Rested → ExpertFund.Asks params request →
      ¬(nextReply replies).code.IsSuccess →
      ∃ text after,
        Aborted ExpertFund.code ⟨before, some replies, ExpertFund.Method.claim, params,
          .error ⟨(nextReply replies).code, text⟩, after⟩ before.state) ∧
    ∀ (before : Host ExpertFund.Fund) (replies : List Reply) (params : Bytes)
        (request : ExpertFund.Claim) (changed : ExpertFund.Fund),
      before.Rested → ExpertFund.Debits before (nextReply replies) params request changed →
      ¬(nextReply replies.tail).code.IsSuccess →
      ∃ text after,
        Aborted ExpertFund.code ⟨before, some replies, ExpertFund.Method.claim, params,
        .error ⟨(nextReply replies.tail).code, text⟩, after⟩ (some (.held changed)) := by
  refine ⟨?_, ?_, ?_⟩
  · intro before replies params request paid changed hrested hdebits hfails
    exact Vesting.aborted_of_debits hrested hdebits hfails
  · intro before replies params request hrested hasks hfails
    exact ExpertFund.aborted_of_asks hrested hasks hfails
  · intro before replies params request changed hrested hdebits hfails
    exact ExpertFund.aborted_of_debits hrested hdebits hfails

namespace Vesting

theorem debits_sharedRun : ∃ changed, Debits (lastStep.prepare sharedRun.2) lastStep.params
    ⟨.id 1001, 1000⟩ 90 changed := by
  obtain ⟨book, ledgers, hbook, hheld, hfind⟩ := standing?_eq_some sharedRun_standing
  exact ⟨_, {
    params := by decide +kernel
    caller := rfl
    amount := by decide
    change := ⟨book, hbook, Book.withdraw_of_writable hheld hfind (by decide +kernel)
      (by decide +kernel)⟩
    positive := by decide }⟩

end Vesting

namespace ExpertFund

def lastStep : Step Fund := atEpoch 26 (claimStep (.id 1001) (.id 2000) 50 0)

def ownerReply : Reply := ⟨.ok, (Control.format.write ⟨.id 2000⟩).getD []⟩

theorem debits_ripeningRun : ∃ changed, Debits (lastStep.prepare ripeningRun.2) ownerReply
    lastStep.params ⟨.id 1001, 50⟩ changed := by
  obtain ⟨fund, hfund⟩ : ∃ fund, ripeningRun.2.state = some (.held fund) :=
    Link.exists_held_of_isSome (by decide +kernel)
  have hanswers : (Fund.claim ripeningRun.2.policy 26 (ripeningRun.2.balance + 0) (.id 1001)
      50).answersWith (fundOf ripeningRun.2) fun changed => Storage.Storable changed := by
    decide +kernel
  rw [fundOf_eq hfund] at hanswers
  obtain ⟨_, changed, hchange, hstorable⟩ := exists_yields_of_answersWith hanswers
  exact ⟨changed, {
    params := by decide +kernel
    positive := by decide
    funded := by decide +kernel
    answered := rfl
    owner := by decide +kernel
    change := ⟨fund, hfund, hchange⟩
    storable := of_decide_eq_true hstorable }⟩

end ExpertFund

theorem aborted_of_failed_message_run :
    (∃ text after changed,
      Aborted Vesting.code ⟨Vesting.lastStep.prepare Vesting.sharedRun.2,
        some [⟨.forbidden, []⟩], Vesting.Method.withdraw, Vesting.lastStep.params,
      .error ⟨.forbidden, text⟩, after⟩ (some (.held changed))) ∧
    (∃ text after,
      Aborted ExpertFund.code ⟨ExpertFund.lastStep.prepare ExpertFund.ripeningRun.2,
        some [⟨.notFound, []⟩], ExpertFund.Method.claim, ExpertFund.lastStep.params,
      .error ⟨.notFound, text⟩, after⟩ ExpertFund.ripeningRun.2.state) ∧
    ∃ text after changed, Aborted ExpertFund.code
      ⟨ExpertFund.lastStep.prepare ExpertFund.ripeningRun.2,
      some [ExpertFund.ownerReply, ⟨.forbidden, []⟩], ExpertFund.Method.claim,
      ExpertFund.lastStep.params, .error ⟨.forbidden, text⟩, after⟩
        (some (.held changed)) := by
  obtain ⟨hwithdrawal, hquery, hclaim⟩ := aborted_of_failed_message
  obtain ⟨book, hbook⟩ := Vesting.debits_sharedRun
  obtain ⟨fund, hfund⟩ := ExpertFund.debits_ripeningRun
  have hvesting : (Vesting.lastStep.prepare Vesting.sharedRun.2).Rested :=
    ⟨by decide +kernel, by decide +kernel⟩
  have hexpert : (ExpertFund.lastStep.prepare ExpertFund.ripeningRun.2).Rested :=
    ⟨by decide +kernel, by decide +kernel⟩
  refine ⟨?_, ?_, ?_⟩
  · obtain ⟨text, after, haborted⟩ :=
      hwithdrawal _ [⟨.forbidden, []⟩] _ _ _ _ hvesting hbook (by decide)
    exact ⟨text, after, book, haborted⟩
  · exact hquery _ [⟨.notFound, []⟩] _ _ hexpert ⟨hfund.params, by decide⟩ (by decide)
  · obtain ⟨text, after, haborted⟩ :=
      hclaim _ [ExpertFund.ownerReply, ⟨.forbidden, []⟩] _ _ _ hexpert hfund (by decide)
    exact ⟨text, after, fund, haborted⟩

end RewardVesting
