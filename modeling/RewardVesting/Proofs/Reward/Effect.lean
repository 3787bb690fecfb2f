import RewardVesting.Proofs.Host.History
import RewardVesting.Reward.Actor

namespace RewardVesting.Reward

open RewardVesting.Action Host

variable {before after : Host State} {method : Nat} {params returned : Bytes}

theorem keeps_unfunded_payMiner (policy : Policy) (request : AwardRequest)
    (delivery : Delivery) : (payMiner policy request delivery).Keeps unfunded := by
  refine Keeps.ite ?_ (keeps_pure _)
  refine (keeps_ofExcept _).bind fun params => ?_
  refine (keeps_unfunded_send _).attempt.bind fun result => ?_
  cases result with
  | ok _ => exact keeps_pure _
  | error failure =>
      exact (keeps_unfunded_of_keeps_bare (keeps_bare_notice _ _)).bind fun _ =>
        keeps_pure _

theorem keeps_unfunded_payFund (fund : Address) (part missed : Int) :
    (payFund fund part missed).Keeps unfunded := by
  refine (keeps_pure _).ite ?_
  refine (keeps_unfunded_send _).attempt.bind fun result => ?_
  cases result with
  | ok _ => exact keeps_pure _
  | error failure =>
      exact (keeps_unfunded_of_keeps_bare (keeps_bare_notice _ _)).bind fun _ =>
        keeps_pure _

theorem keeps_unfunded_payOut (policy : Policy) (request : AwardRequest)
    (split : RewardSplit) : (payOut policy request split).Keeps unfunded := by
  refine (keeps_unfunded_payMiner policy request _).bind fun _ => ?_
  refine (keeps_unfunded_payFund .voteFund _ _).bind fun _ => ?_
  refine (keeps_unfunded_payFund .expertFund _ _).bind fun _ => ?_
  refine (keeps_unfunded_payFund .knowledgeFund _ _).bind fun _ => ?_
  exact (keeps_unfunded_payFund .retrievalFund _ _).bind fun _ => keeps_pure _

/-- What a call of the reward actor that answers has done to its state, and to its balance
if it only tells. -/
inductive Effect (before : Host State) (method : Nat) (params returned : Bytes)
    (stored : Option (Link State)) (balance : Int) : Prop
  | constructed (hmethod : method = RewardVesting.Method.construct)
      (hcaller : before.caller = .system) (hbefore : before.state = none)
      (hafter : stored = some (.held .initial))
  | awarded (hmethod : method = Method.award) (hcaller : before.caller = .system)
      {state : State} {delivery : Delivery} (hbefore : before.state = some (.held state))
      (hafter : stored = some (.held (state.record delivery)))
      (hreturned : Delivery.format.encode delivery = .ok returned)
  | told (hmethod : method = Method.epochReward) (hafter : stored = before.state)
      (hbalance : balance = before.balance)
  | updated (hmethod : method = Method.updateNetwork)
      (hcaller : before.caller = .storagePower)
      {state advanced : State} {update : NetworkUpdate}
      (hbefore : before.state = some (.held state))
      (hupdate : NetworkUpdate.format.methodParameters params = .ok update)
      (hadvanced : { state with realizedPower := update.realizedPower }.advanceTo
        before.epoch = .ok advanced)
      (hafter : stored = some (.held advanced))

private theorem caller_of_validateSystem {answer : Unit}
    (hyields : (validateIs [.system]).Yields before answer after) :
    before.caller = .system :=
  List.mem_singleton.mp (caller_of_validateIs hyields)

private theorem constructed_of_yields (hmethod : method = RewardVesting.Method.construct)
    (hyields : (do construct; return [] : Run State Bytes).Yields before returned after) :
    Effect before method params returned after.state after.balance := by
  simp only [construct, yields_bind, yields_pure] at hyields
  obtain ⟨_, _, ⟨_, validated, hvalidate, hcreate⟩, _, rfl⟩ := hyields
  obtain ⟨hnone, hafter⟩ := create_yields hcreate
  have hstate : validated.state = before.state :=
    eq_of_bare_eq (fun _ => rfl) ((keeps_bare_validateIs _).yields hvalidate)
  exact .constructed hmethod (caller_of_validateSystem hvalidate) (hstate ▸ hnone)
    (congrArg Host.state hafter)

theorem award_yields {request : AwardRequest} {delivery : Delivery}
    (hyields : (award request).Yields before delivery after) :
    before.caller = .system ∧ ∃ state, before.state = some (.held state) ∧
      after.state = some (.held (state.record delivery)) := by
  simp only [award, yields_bind, yields_currentBalance, yields_currentPolicy,
    yields_currentSupply, yields_ofExcept, yields_checked, yields_pure] at hyields
  obtain ⟨_, _, hvalidate, balance, _, ⟨_, _, rfl⟩, _, _, ⟨_, rfl⟩, _, validated, hread,
    policy, _, ⟨_, rfl⟩, block, _, ⟨_, rfl⟩, circulating, _, ⟨_, rfl⟩, split, _, ⟨_, rfl⟩,
    answer, paid, hpaid, _, recorded, hrecord, rfl, rfl⟩ := hyields
  obtain ⟨_, rfl⟩ := readState_yields hread
  have hkept : paid.state = before.state :=
    calc
      paid.state = validated.state :=
        state_of_unfunded_eq ((keeps_unfunded_payOut _ _ _).yields hpaid)
      _ = before.state :=
        eq_of_bare_eq (fun _ => rfl) ((keeps_bare_validateIs _).yields hvalidate)
  obtain ⟨state, changed, hstate, hchange, _, hafter⟩ := transaction_yields hrecord
  rw [yields_modify] at hchange
  refine ⟨caller_of_validateSystem hvalidate, state, hkept ▸ hstate, ?_⟩
  rw [hafter, ← hchange]

theorem updateNetwork_yields {update : NetworkUpdate} {answer : Unit}
    (hyields : (updateNetwork update).Yields before answer after) :
    before.caller = .storagePower ∧ ∃ state advanced, before.state = some (.held state) ∧
      { state with realizedPower := update.realizedPower }.advanceTo before.epoch =
        .ok advanced ∧
      after.state = some (.held advanced) := by
  simp only [updateNetwork, yields_bind, yields_currentEpoch] at hyields
  obtain ⟨_, validated, hvalidate, _, _, ⟨_, rfl, rfl⟩, htransaction⟩ := hyields
  have halike := alike_of_bare_eq ((keeps_bare_validateIs _).yields hvalidate)
  obtain ⟨state, changed, hstate, hchange, _, hafter⟩ := transaction_yields htransaction
  simp only [yields_bind, yields_read, yields_checked, yields_write] at hchange
  obtain ⟨_, _, ⟨rfl, rfl⟩, advanced, _, ⟨hadvanced, rfl⟩, rfl⟩ := hchange
  refine ⟨List.mem_singleton.mp (caller_of_validateIs hvalidate), state, advanced,
    halike.state ▸ hstate, halike.epoch ▸ hadvanced, ?_⟩
  rw [hafter]

theorem bare_of_epochReward_yields {answer : EpochReward}
    (hyields : epochReward.Yields before answer after) : after.bare = before.bare := by
  simp only [epochReward, yields_bind, yields_pure] at hyields
  obtain ⟨_, validated, hvalidate, _, _, hread, _, rfl⟩ := hyields
  obtain ⟨_, rfl⟩ := readState_yields hread
  exact keeps_bare_validateAny.yields hvalidate

theorem code_yields (hyields : (code method params).Yields before returned after) :
    Effect before method params returned after.state after.balance := by
  rw [code] at hyields
  split at hyields
  · rename_i hmethod
    exact constructed_of_yields hmethod hyields
  · split at hyields
    · rename_i hmethod
      simp only [yields_bind, yields_ofExcept] at hyields
      obtain ⟨request, _, ⟨_, rfl⟩, delivery, _, haward, hreturned, rfl⟩ := hyields
      obtain ⟨hcaller, state, hbefore, hafter⟩ := award_yields haward
      refine .awarded hmethod hcaller hbefore hafter ?_
      cases hencode : Delivery.format.encode delivery with
      | error defect =>
          rw [hencode] at hreturned
          cases hreturned
      | ok bytes =>
          rw [hencode] at hreturned
          cases hreturned
          rfl
    · split at hyields
      · rename_i hmethod
        simp only [yields_bind, yields_ofExcept] at hyields
        obtain ⟨answer, _, hanswer, _, rfl⟩ := hyields
        have halike := alike_of_bare_eq (bare_of_epochReward_yields hanswer)
        exact .told hmethod halike.state halike.balance
      · split at hyields
        · rename_i hmethod
          simp only [yields_bind, yields_ofExcept, yields_pure] at hyields
          obtain ⟨update, _, ⟨hupdate, rfl⟩, _, _, hupdated, _, rfl⟩ := hyields
          obtain ⟨hcaller, state, advanced, hbefore, hadvanced, hafter⟩ :=
            updateNetwork_yields hupdated
          exact .updated hmethod hcaller hbefore hupdate hadvanced hafter
        · exact absurd hyields not_yields_refuse

theorem effect_of_runs {call : Invocation State} {returned : Bytes} (hruns : call.Runs code)
    (hresult : call.result = .ok returned) :
    Effect (call.before.entered call.replies) call.method call.params returned
      call.after.state call.after.balance :=
  hruns.answered hresult fun _ => code_yields

end RewardVesting.Reward
