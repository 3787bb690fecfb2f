import RewardVesting.Proofs.ExpertFund.TimeLock
import RewardVesting.Proofs.Host.Reply
import RewardVesting.Proofs.Reward.Bookkeeping
import RewardVesting.Proofs.Tally
import RewardVesting.Proofs.Vesting.Conservation

namespace RewardVesting

open RewardVesting.Action Host

namespace Reward

variable {call : Invocation State}

/-- The calls that may alter the reward actor, and who may make them. -/
inductive Permitted (call : Invocation State) : Prop
  | construct (hmethod : call.method = RewardVesting.Method.construct)
      (hcaller : call.before.caller = .system) (hnone : call.before.state = none)
  | award (hmethod : call.method = Method.award) (hcaller : call.before.caller = .system)
  | updateNetwork (hmethod : call.method = Method.updateNetwork)
      (hcaller : call.before.caller = .storagePower)

theorem permitted_of_alters (hruns : call.Runs code) (halters : call.Alters) :
    Permitted call := by
  obtain ⟨returned, hresult⟩ := halters.answers hruns
  cases effect_of_runs hruns hresult with
  | constructed hmethod hcaller hnone _ => exact .construct hmethod hcaller hnone
  | awarded hmethod hcaller _ _ _ => exact .award hmethod hcaller
  | updated hmethod hcaller _ _ _ _ => exact .updateNetwork hmethod hcaller
  | told _ hafter hbalance =>
      rcases halters with hchanged | hchanged
      · exact absurd hafter hchanged
      · exact absurd hbalance hchanged

end Reward

namespace Vesting

variable {call : Invocation Book}

inductive Permitted (call : Invocation Book) : Prop
  | construct (hmethod : call.method = RewardVesting.Method.construct)
      (hcaller : call.before.caller = .system) (hnone : call.before.state = none)
  | addFunds (hmethod : call.method = Method.addFunds)
      (hkind : call.before.callerKind = .miner)
  | withdraw (hmethod : call.method = Method.withdraw) {request : WithdrawalRequest}
      (hrequest : WithdrawalRequest.format.methodParameters call.params = .ok request)
      (hcaller : call.before.caller = request.coinbase)

theorem permitted_of_alters (hruns : call.Runs code) (halters : call.Alters) :
    Permitted call := by
  obtain ⟨returned, hresult⟩ := halters.answers hruns
  cases effect_of_runs hruns hresult with
  | constructed hmethod hcaller hnone _ _ => exact .construct hmethod hcaller hnone
  | locked hmethod hkind _ _ _ _ _ => exact .addFunds hmethod hkind
  | withdrawn hmethod hrequest hcaller _ _ _ _ _ _ =>
      exact .withdraw hmethod hrequest hcaller
  | watched _ _ hafter hbalance =>
      rcases halters with hchanged | hchanged
      · exact absurd hafter hchanged
      · exact absurd hbalance hchanged

end Vesting

namespace ExpertFund

/-- The same votes, and the same records of all experts but one. -/
structure ConfinedTo (expert : Address) (before after : Fund) : Prop where
  experts : ∃ old new, before.experts = .held old ∧ after.experts = .held new ∧
    ∀ key, key ≠ .address expert → new.find? key = old.find? key
  votes : after.votes = before.votes

/-- The same fund but for the votes of one expert. -/
structure RevotedFor (expert : Address) (before after : Fund) : Prop where
  votes : ∃ old new : Tally, before.votes = .held old ∧ after.votes = .held new ∧
    ∀ key, key ≠ .address expert → new.find? key = old.find? key
  rest : after = { before with votes := after.votes }

namespace Fund

variable {policy : Policy} {epoch balance : Int} {expert : Address} {before after : Fund}
  {answer : Unit}

theorem confinedTo_of_insert {experts : AddressMap Expert} {info : Expert}
    (hheld : before.experts = .held experts)
    (hrevised : after.experts = .held (experts.insert (.address expert) info))
    (hvotes : after.votes = before.votes) : ConfinedTo expert before after where
  experts := ⟨experts, _, hheld, hrevised, fun key hkey => by
    rw [AddressMap.find?_insert, if_neg hkey.symm]⟩
  votes := hvotes

theorem confinedTo_of_deposit {added : UInt64}
    (hyields : (deposit policy epoch balance expert added).Yields before answer after) :
    ConfinedTo expert before after := by
  obtain ⟨experts, updated, settled, hheld, hspread, _, _, _, rfl⟩ := deposit_yields hyields
  exact confinedTo_of_insert hheld rfl hspread.votes

theorem confinedTo_of_claim {amount : Int}
    (hyields : (claim policy epoch balance expert amount).Yields before answer after) :
    ConfinedTo expert before after := by
  obtain ⟨experts, info, updated, settled, hheld, _, hspread, _, _, rfl⟩ :=
    claim_yields hyields
  exact confinedTo_of_insert hheld rfl hspread.votes

theorem confinedTo_of_reset {forfeited : Int}
    (hyields : (reset policy epoch balance expert).Yields before forfeited after) :
    ConfinedTo expert before after := by
  obtain ⟨experts, info, updated, settled, hheld, _, _, hspread, _, _, rfl⟩ :=
    reset_yields hyields
  exact confinedTo_of_insert hheld rfl hspread.votes

theorem revotedFor_of_changeVotes {change : Int}
    (hyields : (changeVotes expert change).Yields before answer after) :
    RevotedFor expert before after := by
  obtain ⟨tally, changed, hheld, hadd, rfl⟩ := changeVotes_yields hyields
  exact ⟨⟨tally, changed, hheld, rfl, fun key hkey => Tally.find?_of_add hadd hkey⟩, rfl⟩

end Fund

variable {call : Invocation Fund} {before after : Host Fund} {answer : Unit}

def ownerQuery (expert : Address) : Message := ⟨expert, Method.controlAddress, [], 0⟩

/-- The owner that an expert names in its reply. -/
def ownerReplied? (host : Host Fund) (expert : Address) : Option Address := do
  let reply ← host.replyTo? (ownerQuery expert)
  if reply.code.IsSuccess then
    let control ← (Control.format.decode reply.returned).toOption
    return control.owner
  else none

/-- The calls that may alter the expert fund, who may make them, and what they leave
alone. -/
inductive Permitted (call : Invocation Fund) : Prop
  | construct (hmethod : call.method = RewardVesting.Method.construct)
      (hcaller : call.before.caller = .system) (hnone : call.before.state = none)
  | deposit (hmethod : call.method = Method.deposit)
      (hkind : call.before.callerKind = .expert)
      {before after : Fund} (hbefore : call.before.state = some (.held before))
      (hafter : call.after.state = some (.held after))
      (hconfined : ConfinedTo call.before.caller before after)
  | claim (hmethod : call.method = Method.claim) {request : Claim}
      (hrequest : Claim.format.methodParameters call.params = .ok request)
      (howner : ownerReplied? (call.before.entered call.replies) request.expert =
        some call.before.caller)
      {before after : Fund} (hbefore : call.before.state = some (.held before))
      (hafter : call.after.state = some (.held after))
      (hconfined : ConfinedTo request.expert before after)
  | reset (hmethod : call.method = Method.reset) {request : Reset}
      (hrequest : Reset.format.methodParameters call.params = .ok request)
      (hgranted : ⟨call.before.caller, .expertFund, Method.reset⟩ ∈ call.before.grants)
      {before after : Fund} (hbefore : call.before.state = some (.held before))
      (hafter : call.after.state = some (.held after))
      (hconfined : ConfinedTo request.expert before after)
  | changeVotes (hmethod : call.method = Method.changeVotes)
      (hkind : call.before.callerKind = .vote) {request : VoteChange}
      (hrequest : VoteChange.format.methodParameters call.params = .ok request)
      {before after : Fund} (hbefore : call.before.state = some (.held before))
      (hafter : call.after.state = some (.held after))
      (hrevoted : RevotedFor request.expert before after)
      (hbalance : call.after.balance = call.before.balance)

/-- A claim is made by the owner that the expert names in reply to the first message. -/
theorem ownerReplied?_of_claim {request : Claim}
    (hyields : (claim request).Yields before answer after) :
    ownerReplied? before request.expert = some before.caller := by
  simp only [claim, yields_bind, yields_ofExcept] at hyields
  obtain ⟨_, _, ⟨_, rfl⟩, owner, queried, hquery, _, _, hvalidate, _⟩ := hyields
  have hbare := queryOwner_yields hquery
  simp only [queryOwner, yields_bind, yields_mapError, yields_ofExcept,
    yields_pure] at hquery
  obtain ⟨returned, sent, hsend, control, _, ⟨hdecode, rfl⟩, rfl, rfl⟩ := hquery
  obtain ⟨reply, hreply, hsuccess, rfl⟩ := reply_of_send hsend
  have hcaller : before.caller = control.owner := by
    rw [← List.mem_singleton.mp (caller_of_validateIs hvalidate)]
    exact (alike_of_bare_eq hbare).caller.symm
  simp only [ownerReplied?, ownerQuery, hreply, Option.bind_eq_bind, Option.bind_some,
    if_pos hsuccess, mapError_eq_ok.mp hdecode, hcaller]
  rfl

theorem granted_of_reset {request : Reset}
    (hyields : (reset request).Yields before answer after) :
    ⟨before.caller, .expertFund, Method.reset⟩ ∈ before.grants := by
  simp only [reset, yields_bind, yields_require, yields_currentCaller] at hyields
  obtain ⟨_, validated, hvalidate, _, _, ⟨_, rfl, rfl⟩, granted, _, hgrant, _, _,
    ⟨hgranted, _⟩, _⟩ := hyields
  have hbare := keeps_bare_validateAny.yields hvalidate
  have hgrants : validated.grants = before.grants := eq_of_bare_eq (fun _ => rfl) hbare
  rw [holdsGrant_yields hgrant, decide_eq_true_eq, (alike_of_bare_eq hbare).caller,
    hgrants] at hgranted
  exact hgranted

theorem owner_of_runs {returned : Bytes} {request : Claim} (hruns : call.Runs code)
    (hresult : call.result = .ok returned) (hmethod : call.method = Method.claim)
    (hrequest : Claim.format.methodParameters call.params = .ok request) :
    ownerReplied? (call.before.entered call.replies) request.expert =
      some call.before.caller := by
  obtain ⟨final, hyields, _⟩ := hruns.yields hresult
  rw [code, hmethod, if_neg (by decide), if_neg (by decide), if_neg (by decide),
    if_pos rfl] at hyields
  obtain ⟨served, hserved, hclaim⟩ := invoke_yields hyields
  cases hrequest.symm.trans hserved
  exact ownerReplied?_of_claim hclaim

theorem granted_of_runs {returned : Bytes} (hruns : call.Runs code)
    (hresult : call.result = .ok returned) (hmethod : call.method = Method.reset) :
    ⟨call.before.caller, .expertFund, Method.reset⟩ ∈ call.before.grants := by
  obtain ⟨final, hyields, _⟩ := hruns.yields hresult
  rw [code, hmethod, if_neg (by decide), if_neg (by decide), if_neg (by decide),
    if_neg (by decide), if_pos rfl] at hyields
  obtain ⟨served, _, hreset⟩ := invoke_yields hyields
  have hgranted : ⟨(call.before.entered call.replies).caller, .expertFund, Method.reset⟩ ∈
      (call.before.entered call.replies).grants := granted_of_reset hreset
  exact hgranted

theorem permitted_of_alters (hruns : call.Runs code) (halters : call.Alters) :
    Permitted call := by
  obtain ⟨returned, hresult⟩ := halters.answers hruns
  cases effect_of_runs hruns hresult with
  | constructed hmethod hcaller hnone _ _ => exact .construct hmethod hcaller hnone
  | watched _ hafter hbalance =>
      rcases halters with hchanged | hchanged
      · exact absurd hafter hchanged
      · exact absurd hbalance hchanged
  | deposited hmethod hkind _ hbefore hchange hafter _ =>
      exact .deposit hmethod hkind hbefore hafter (Fund.confinedTo_of_deposit hchange)
  | claimed hmethod hrequest _ hbefore hchange hafter _ =>
      exact .claim hmethod hrequest
        (owner_of_runs hruns hresult hmethod hrequest) hbefore hafter
        (Fund.confinedTo_of_claim hchange)
  | cleared hmethod hrequest hbefore hchange hafter _ =>
      exact .reset hmethod hrequest (granted_of_runs hruns hresult hmethod) hbefore hafter
        (Fund.confinedTo_of_reset hchange)
  | voted hmethod hkind hrequest hbefore hchange hafter hbalance =>
      exact .changeVotes hmethod hkind hrequest hbefore hafter
        (Fund.revotedFor_of_changeVotes hchange) hbalance

end ExpertFund

/-- A call that leaves the state or the balance of an actor changed has answered, and is one
that its caller may make. -/
theorem permitted_of_altered :
    (∀ call : Invocation Reward.State, call.Runs Reward.code → call.Alters →
      (∃ returned, call.result = .ok returned) ∧ Reward.Permitted call) ∧
    (∀ call : Invocation Vesting.Book, call.Runs Vesting.code → call.Alters →
      (∃ returned, call.result = .ok returned) ∧ Vesting.Permitted call) ∧
    ∀ call : Invocation ExpertFund.Fund, call.Runs ExpertFund.code → call.Alters →
      (∃ returned, call.result = .ok returned) ∧ ExpertFund.Permitted call :=
  ⟨fun _ hruns halters => ⟨halters.answers hruns, Reward.permitted_of_alters hruns halters⟩,
    fun _ hruns halters =>
      ⟨halters.answers hruns, Vesting.permitted_of_alters hruns halters⟩,
    fun _ hruns halters =>
      ⟨halters.answers hruns, ExpertFund.permitted_of_alters hruns halters⟩⟩

/-- Each actor makes payments in some run, and by a call that its caller may make. -/
theorem permitted_of_altered_paying :
    (∃ call ∈ Reward.interleavedRun.1, call.method = Reward.Method.award ∧
      Reward.Permitted call) ∧
    (∃ call ∈ Vesting.sharedRun.1, call.method = Vesting.Method.withdraw ∧
      Vesting.Permitted call) ∧
    ∃ call ∈ ExpertFund.ripeningRun.1, call.method = ExpertFund.Method.claim ∧
      ExpertFund.Permitted call := by
  obtain ⟨hreward, hvesting, hfund⟩ := permitted_of_altered
  have hawards : ∃ call ∈ Reward.interleavedRun.1, call.method = Reward.Method.award ∧
      call.after.balance ≠ call.before.balance := by decide +kernel
  have hwithdrawals : ∃ call ∈ Vesting.sharedRun.1, call.method = Vesting.Method.withdraw ∧
      call.after.balance ≠ call.before.balance := by decide +kernel
  have hclaims : ∃ call ∈ ExpertFund.ripeningRun.1, call.method = ExpertFund.Method.claim ∧
      call.after.balance ≠ call.before.balance := by decide +kernel
  refine ⟨?_, ?_, ?_⟩
  · obtain ⟨call, hmem, hmethod, hpaid⟩ := hawards
    exact ⟨call, hmem, hmethod,
      (hreward call (runs_of_mem_replay _ _ _ call hmem) (.inr hpaid)).2⟩
  · obtain ⟨call, hmem, hmethod, hpaid⟩ := hwithdrawals
    exact ⟨call, hmem, hmethod,
      (hvesting call (runs_of_mem_replay _ _ _ call hmem) (.inr hpaid)).2⟩
  · obtain ⟨call, hmem, hmethod, hpaid⟩ := hclaims
    exact ⟨call, hmem, hmethod,
      (hfund call (runs_of_mem_replay _ _ _ call hmem) (.inr hpaid)).2⟩

end RewardVesting
