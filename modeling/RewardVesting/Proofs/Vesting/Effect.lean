import RewardVesting.Proofs.Host.History
import RewardVesting.Proofs.Host.Refusal
import RewardVesting.Proofs.Parameter
import RewardVesting.Proofs.Vesting.Book
import RewardVesting.Vesting.Actor

namespace RewardVesting.Vesting

open RewardVesting.Action Host

variable {before after : Host Book} {method : Nat} {params returned : Bytes}
  {failure : Failure}

/-- What a call of the vesting actor that answers has done to its state and balance. -/
inductive Effect (before : Host Book) (method : Nat) (params returned : Bytes)
    (stored : Option (Link Book)) (balance : Int) : Prop
  | constructed (hmethod : method = RewardVesting.Method.construct)
      (hcaller : before.caller = .system) (hbefore : before.state = none)
      (hafter : stored = some (.held .empty)) (hbalance : balance = before.balance)
  | watched (hmethod : method = Method.addFunds) (hvalue : before.valueReceived = 0)
      (hafter : stored = before.state) (hbalance : balance = before.balance)
  | locked (hmethod : method = Method.addFunds) (hkind : before.callerKind = .miner)
      {request : AdditionRequest} {book changed : Book}
      (hrequest : AdditionRequest.format.methodParameters params = .ok request)
      (hbefore : before.state = some (.held book))
      (hchange : (Book.lock request.coinbase before.epoch before.valueReceived
        before.policy.rewardVestingSpec).Yields book () changed)
      (hafter : stored = some (.held changed)) (hbalance : balance = before.balance)
  | withdrawn (hmethod : method = Method.withdraw) {request : WithdrawalRequest}
      {book changed : Book} {paid : Int}
      (hrequest : WithdrawalRequest.format.methodParameters params = .ok request)
      (hcaller : before.caller = request.coinbase) (hamount : 0 ≤ request.amount)
      (hbefore : before.state = some (.held book))
      (hchange : (Book.withdraw request.coinbase before.epoch request.amount).Yields book
        paid changed)
      (hafter : stored = some (.held changed))
      (hbalance : balance = before.balance - max 0 paid)
      (hreturned : Withdrawal.format.encode ⟨paid⟩ = .ok returned)

theorem construct_yields {answer : Unit} (hyields : construct.Yields before answer after) :
    before.caller = .system ∧ before.state = none ∧ after.state = some (.held .empty) ∧
      after.balance = before.balance := by
  rw [construct, yields_bind] at hyields
  obtain ⟨_, validated, hvalidate, hcreate⟩ := hyields
  obtain ⟨hnone, rfl⟩ := create_yields hcreate
  have halike := alike_of_bare_eq ((keeps_bare_validateIs _).yields hvalidate)
  exact ⟨List.mem_singleton.mp (caller_of_validateIs hvalidate), halike.state ▸ hnone, rfl,
    halike.balance⟩

theorem addFunds_yields {request : AdditionRequest} {answer : Unit}
    (hyields : (addFunds request).Yields before answer after) :
    before.callerKind = .miner ∧ after.balance = before.balance ∧
      (before.valueReceived = 0 ∧ after.state = before.state ∨
        ∃ book changed, before.state = some (.held book) ∧
          (Book.lock request.coinbase before.epoch before.valueReceived
            before.policy.rewardVestingSpec).Yields book () changed ∧
          after.state = some (.held changed)) := by
  simp only [addFunds, yields_bind, yields_currentValue] at hyields
  obtain ⟨_, validated, hvalidate, _, _, ⟨_, rfl, rfl⟩, hcases⟩ := hyields
  have halike := alike_of_bare_eq ((keeps_bare_validateKind _).yields hvalidate)
  refine ⟨List.mem_singleton.mp (callerKind_of_validateKind hvalidate), ?_⟩
  rcases yields_ite.mp hcases with ⟨hzero, hnothing⟩ | ⟨_, hlocked⟩
  · obtain ⟨_, rfl⟩ := yields_pure.mp hnothing
    exact ⟨halike.balance, .inl ⟨halike.valueReceived ▸ hzero, halike.state⟩⟩
  · simp only [yields_bind, yields_currentEpoch, yields_currentPolicy] at hlocked
    obtain ⟨_, _, ⟨_, rfl, rfl⟩, _, _, ⟨rfl, rfl⟩, htransaction⟩ := hlocked
    obtain ⟨book, changed, hstate, hchange, _, rfl⟩ := transaction_yields htransaction
    rw [yields_mapError, halike.epoch, halike.valueReceived, halike.policy] at hchange
    exact ⟨halike.balance, .inr ⟨book, changed, halike.state ▸ hstate, hchange, rfl⟩⟩

theorem withdraw_yields {request : WithdrawalRequest} {answer : Withdrawal}
    (hyields : (withdraw request).Yields before answer after) :
    before.caller = request.coinbase ∧ 0 ≤ request.amount ∧
      ∃ book changed, before.state = some (.held book) ∧
        (Book.withdraw request.coinbase before.epoch request.amount).Yields book
          answer.amount
          changed ∧
        after.state = some (.held changed) ∧
        after.balance = before.balance - max 0 answer.amount := by
  simp only [withdraw, yields_bind, yields_ofExcept, yields_currentEpoch] at hyields
  obtain ⟨_, validated, hvalidate, _, _, ⟨hnonneg, rfl⟩, _, _, ⟨_, rfl, rfl⟩, paid, settled,
    htransaction, hpay⟩ := hyields
  obtain ⟨book, changed, hstate, hchange, _, rfl⟩ := transaction_yields htransaction
  have halike := alike_of_bare_eq ((keeps_bare_validateIs _).yields hvalidate)
  rw [yields_mapError, halike.epoch] at hchange
  refine ⟨List.mem_singleton.mp (caller_of_validateIs hvalidate),
    nonneg_of_requireNonNegative hnonneg, book, changed, halike.state ▸ hstate, ?_⟩
  rcases yields_ite.mp hpay with ⟨hpositive, hsent⟩ | ⟨hzero, hskipped⟩
  · simp only [yields_bind, yields_mapError, yields_pure] at hsent
    obtain ⟨_, sent, hsend, rfl, rfl⟩ := hsent
    have hfinal := (send_yields hsend).2
    have hpaid : sent.balance = validated.balance - paid :=
      show sent.bare.balance = _ from congrArg Host.balance hfinal
    have hstored : sent.state = some (.held changed) :=
      show sent.bare.state = _ from congrArg Host.state hfinal
    refine ⟨hchange, hstored, ?_⟩
    rw [hpaid, halike.balance]
    dsimp only
    omega
  · obtain ⟨rfl, rfl⟩ := yields_pure.mp hskipped
    refine ⟨hchange, rfl, ?_⟩
    dsimp only
    rw [halike.balance]
    omega

theorem code_yields (hyields : (code method params).Yields before returned after) :
    Effect before method params returned after.state after.balance := by
  simp only [code, yields_ite] at hyields
  rcases hyields with ⟨hmethod, hconstruct⟩ | ⟨_,
    ⟨hmethod, hadd⟩ | ⟨_, ⟨hmethod, hwithdraw⟩ | ⟨_, hrefused⟩⟩⟩
  · simp only [yields_bind, yields_pure] at hconstruct
    obtain ⟨_, _, hconstruct, _, rfl⟩ := hconstruct
    obtain ⟨hcaller, hbefore, hafter, hbalance⟩ := construct_yields hconstruct
    exact .constructed hmethod hcaller hbefore hafter hbalance
  · simp only [yields_bind, yields_ofExcept, yields_pure] at hadd
    obtain ⟨request, _, ⟨hrequest, rfl⟩, _, _, hadd, _, rfl⟩ := hadd
    obtain ⟨hkind, hbalance,
      ⟨hvalue, hafter⟩ | ⟨book, changed, hbefore, hchange, hafter⟩⟩ := addFunds_yields hadd
    · exact .watched hmethod hvalue hafter hbalance
    · exact .locked hmethod hkind hrequest hbefore hchange hafter hbalance
  · simp only [yields_bind, yields_ofExcept] at hwithdraw
    obtain ⟨request, _, ⟨hrequest, rfl⟩, withdrawal, _, hwithdraw, hencode, rfl⟩ :=
      hwithdraw
    obtain ⟨hcaller, hamount, book, changed, hbefore, hchange, hafter, hbalance⟩ :=
      withdraw_yields hwithdraw
    exact .withdrawn hmethod hrequest hcaller hamount hbefore hchange hafter hbalance
      (mapError_eq_ok.mp hencode)
  · exact absurd hrefused not_yields_refuse

theorem effect_of_runs {call : Invocation Book} (hruns : call.Runs code)
    (hresult : call.result = .ok returned) :
    Effect (call.before.entered call.replies) call.method call.params returned
      call.after.state call.after.balance :=
  hruns.answered hresult fun _ => code_yields

/-! A failure for lack of balance comes from a reply, or from a payment beyond the
balance. -/

theorem change_refuses {α : Type} {change : Action Book Book.Refusal α}
    (hrefuses : (transaction (change.mapError Book.Refusal.failure)).Refuses before
      failure after) :
    failure.code ≠ .insufficientBalance := by
  intro hcode
  cases transaction_refuses hrefuses with
  | nested _ hnested => cases hnested.symm.trans hcode
  | unconstructed _ hunconstructed => cases hunconstructed.symm.trans hcode
  | refused _ hchange =>
      obtain ⟨cause, _, rfl⟩ := refuses_mapError.mp hchange
      cases cause <;> cases hcode
  | unstorable _ _ hunstorable _ => exact hunstorable trivial

theorem construct_refuses (hrefuses : construct.Refuses before failure after) :
    failure.code ≠ .insufficientBalance := by
  simp only [construct, refuses_bind] at hrefuses
  rcases hrefuses with hvalidate | ⟨_, _, _, hcreate⟩
  · rw [validateIs_refuses hvalidate]
    decide
  · rw [create_refuses hcreate]
    decide

theorem addFunds_refuses {request : AdditionRequest}
    (hrefuses : (addFunds request).Refuses before failure after) :
    failure.code ≠ .insufficientBalance := by
  simp only [addFunds, refuses_bind, not_refuses_currentValue, refuses_ite,
    not_refuses_pure, not_refuses_currentEpoch, not_refuses_currentPolicy, and_false,
    false_or] at hrefuses
  obtain hvalidate | ⟨_, _, _, _, _, _, _, _, _, _, _, _, _, htransaction⟩ := hrefuses
  · rw [validateKind_refuses hvalidate]
    decide
  · exact change_refuses htransaction

theorem withdraw_refuses {request : WithdrawalRequest}
    (hrefuses : (withdraw request).Refuses before failure after)
    (hcode : failure.code = .insufficientBalance) :
    (∃ reply, before.repliesAtHand.head? = some reply ∧ reply.code = .insufficientBalance) ∨
      ∃ book changed paid, before.state = some (.held book) ∧
        (Book.withdraw request.coinbase before.epoch request.amount).Yields book
          paid changed ∧
        before.balance < paid := by
  simp only [withdraw, refuses_bind, refuses_ofExcept, yields_ofExcept,
    not_refuses_currentEpoch, yields_currentEpoch, refuses_ite, refuses_mapError,
    not_refuses_pure, and_false, exists_false, or_false, false_or] at hrefuses
  obtain hvalidate | ⟨_, validated, hvalidate,
    ⟨hnegative, _⟩ | ⟨_, _, ⟨_, rfl⟩, _, _, ⟨_, rfl, rfl⟩,
      htransaction | ⟨paid, settled, htransaction, _, failure, hsend, rfl⟩⟩⟩ := hrefuses
  · rw [validateIs_refuses hvalidate] at hcode
    cases hcode
  · rw [(code_of_requireNonNegative hnegative).2] at hcode
    cases hcode
  · exact absurd hcode (change_refuses htransaction)
  · obtain ⟨book, changed, hstate, hchange, _, rfl⟩ := transaction_yields htransaction
    have halike := alike_of_bare_eq ((keeps_bare_validateIs _).yields hvalidate)
    have hreplies := (keeps_repliesAtHand_validateIs _).yields hvalidate
    rw [yields_mapError, halike.epoch] at hchange
    cases send_refuses hsend with
    | nested _ hnested => cases hnested.symm.trans hcode
    | answered hreply hanswered =>
        exact .inl ⟨_, hreplies ▸ hreply, hanswered.symm.trans hcode⟩
    | unfunded hfunds _ =>
        exact .inr ⟨book, changed, paid, halike.state ▸ hstate, hchange,
          halike.balance ▸ hfunds⟩

theorem code_refuses (hrefuses : (code method params).Refuses before failure after)
    (hcode : failure.code = .insufficientBalance) :
    (∃ reply, before.repliesAtHand.head? = some reply ∧ reply.code = .insufficientBalance) ∨
      ∃ coinbase requested book changed paid, before.state = some (.held book) ∧
        (Book.withdraw coinbase before.epoch requested).Yields book paid changed ∧
        before.balance < paid := by
  simp only [code, refuses_ite, refuses_bind, refuses_ofExcept, yields_ofExcept,
    not_refuses_pure, refuses_refuse, and_false, exists_false, or_false] at hrefuses
  obtain ⟨_, hconstruct⟩ | ⟨_, ⟨_, hadd⟩ | ⟨_, ⟨_, hwithdraw⟩ | ⟨_, rfl, _⟩⟩⟩ := hrefuses
  · exact absurd hcode (construct_refuses hconstruct)
  · rcases hadd with ⟨hparams, _⟩ | ⟨request, _, _, hadd⟩
    · cases (Wire.Format.code_of_methodParameters hparams).symm.trans hcode
    · exact absurd hcode (addFunds_refuses hadd)
  · obtain ⟨hparams, _⟩ | ⟨request, _, ⟨_, rfl⟩, hwithdraw | ⟨_, _, _, hencode, _⟩⟩ :=
      hwithdraw
    · cases (Wire.Format.code_of_methodParameters hparams).symm.trans hcode
    · rcases withdraw_refuses hwithdraw hcode with hreply | ⟨book, changed, paid, hfailed⟩
      · exact .inl hreply
      · exact .inr ⟨_, _, book, changed, paid, hfailed⟩
    · obtain ⟨_, _, rfl⟩ := mapError_eq_error.mp hencode
      cases hcode
  · cases hcode

end RewardVesting.Vesting
