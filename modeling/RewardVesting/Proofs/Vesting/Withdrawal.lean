import RewardVesting.Proofs.Host.Serving
import RewardVesting.Proofs.Ledger.Withdrawal
import RewardVesting.Proofs.Vesting.Conservation
import RewardVesting.Proofs.Wire.Condensing

namespace RewardVesting.Vesting

open RewardVesting.Action Host

namespace Book

variable {before after : Book} {ledgers : AddressMap Ledger} {ledger : Ledger} {key : Key}
  {coinbase : Address} {epoch requested : Int}

/-- Every ledger that is kept can be written. -/
def Written (book : Book) : Prop :=
  ∀ ledgers, book.coinbases = .held ledgers →
    ∀ ledger ∈ ledgers.values, (Ledger.format.write ledger).isSome

theorem Written.put {answer : Unit} (hwritten : before.Written)
    (hyields : (put key ledger).Yields before answer after) : after.Written := by
  obtain ⟨ledgers, hheld, hwritable, rfl⟩ := put_yields hyields
  rintro _ ⟨⟩
  exact AddressMap.forall_mem_values_insert (hwritten ledgers hheld) hwritable

theorem Written.lock {amount : Int} {spec : VestSpec} {answer : Unit}
    (hwritten : before.Written)
    (hyields : (lock coinbase epoch amount spec).Yields before answer after) :
    after.Written := by
  simp only [Book.lock, yields_bind, yields_read, yields_ofExcept, yields_runOn] at hyields
  obtain ⟨_, _, ⟨rfl, rfl⟩, _, _, ⟨_, rfl⟩, _, _, ⟨_, rfl⟩, hput⟩ := hyields
  exact hwritten.put hput

theorem Written.withdraw {paid : Int} (hwritten : before.Written)
    (hyields : (withdraw coinbase epoch requested).Yields before paid after) :
    after.Written := by
  simp only [Book.withdraw, yields_bind, yields_read, yields_ofExcept] at hyields
  obtain ⟨_, _, ⟨rfl, rfl⟩, _, _, ⟨_, rfl⟩, hmatch⟩ := hyields
  split at hmatch
  · exact absurd hmatch not_yields_refuse
  · simp only [yields_bind, yields_require, yields_pure] at hmatch
    obtain ⟨_, _, ⟨_, rfl⟩, _, _, hput, _, rfl⟩ := hmatch
    exact hwritten.put hput

section Ends

variable (hheld : before.coinbases = .held ledgers)

include hheld

theorem withdraw_of_unknown (hfind : ledgers.find? (.address coinbase) = none) :
    (withdraw coinbase epoch requested).Refuses before
      (.unknownCoinbase coinbase) before := by
  have hknown : before.find? coinbase = .ok none := find?_eq_ok.mpr ⟨ledgers, hheld, hfind⟩
  refine ends_read_bind (Yields.bind (yields_ofExcept.mpr ⟨hknown, rfl⟩) ?_)
  exact refuses_refuse.mpr ⟨rfl, rfl⟩

variable (hfind : ledgers.find? (.address coinbase) = some ledger)

include hfind

/-- What is done once the ledger of a coinbase is found. -/
theorem withdraw_of_known {result : Except Refusal Int}
    (hrest : (do
      require (¬(0 < requested ∧ (ledger.withdraw epoch requested).2 = 0 ∧
        (ledger.withdraw epoch requested).1.total ≠ 0)) (.nothingVested coinbase epoch)
      put (.address coinbase) (ledger.withdraw epoch requested).1
      return (ledger.withdraw epoch requested).2 : Action Book Refusal Int).Ends
        before result after) :
    (withdraw coinbase epoch requested).Ends before result after := by
  have hknown : before.find? coinbase = .ok (some ledger) :=
    find?_eq_ok.mpr ⟨ledgers, hheld, hfind⟩
  exact ends_read_bind (Yields.bind (yields_ofExcept.mpr ⟨hknown, rfl⟩) hrest)

theorem withdraw_of_locked
    (hlocked : 0 < requested ∧ (ledger.withdraw epoch requested).2 = 0 ∧
      (ledger.withdraw epoch requested).1.total ≠ 0) :
    (withdraw coinbase epoch requested).Refuses before
      (.nothingVested coinbase epoch) before :=
  withdraw_of_known hheld hfind (ends_require_of_not (not_not_intro hlocked)).bind_refused

variable (hvested : ¬(0 < requested ∧ (ledger.withdraw epoch requested).2 = 0 ∧
  (ledger.withdraw epoch requested).1.total ≠ 0))

include hvested

theorem withdraw_of_unwritable
    (hunwritable : ¬(Ledger.format.write (ledger.withdraw epoch requested).1).isSome) :
    (withdraw coinbase epoch requested).Refuses before .unstorable before := by
  refine withdraw_of_known hheld hfind
    (Yields.andThen (yields_require.mpr ⟨hvested, rfl⟩) ?_)
  refine Ends.bind_refused (ends_read_bind ?_)
  refine Yields.bind (yields_ofExcept.mpr ⟨ledgers_eq_ok.mpr hheld, rfl⟩) ?_
  exact (ends_require_of_not hunwritable).bind_refused

theorem withdraw_of_writable
    (hwritable : (Ledger.format.write (ledger.withdraw epoch requested).1).isSome) :
    (withdraw coinbase epoch requested).Yields before (ledger.withdraw epoch requested).2
      ⟨.held (ledgers.insert (.address coinbase) (ledger.withdraw epoch requested).1)⟩ := by
  refine withdraw_of_known hheld hfind
    (Yields.andThen (yields_require.mpr ⟨hvested, rfl⟩) ?_)
  refine Yields.andThen (ends_read_bind ?_) (yields_pure.mpr ⟨rfl, rfl⟩)
  refine Yields.bind (yields_ofExcept.mpr ⟨ledgers_eq_ok.mpr hheld, rfl⟩) ?_
  exact Yields.andThen (yields_require.mpr ⟨hwritable, rfl⟩) (yields_write.mpr rfl)

end Ends

end Book

def payment (coinbase : Address) (paid : Int) : Message :=
  ⟨coinbase, RewardVesting.Method.send, [], paid⟩

/-- Sends what has been taken out of the ledger. -/
def payOut (coinbase : Address) (paid : Int) : Run Book Withdrawal := do
  if 0 < paid then
    let _ ← (send (payment coinbase paid)).mapError
      (Failure.wrap ("failed to pay vested funds to " ++ coinbase.text))
  return ⟨paid⟩

section PayOut

variable {host : Host Book} {replies : List Reply} {coinbase : Address} {paid : Int}

theorem payOut_of_nothing (hpaid : ¬0 < paid) :
    (payOut coinbase paid).Yields host ⟨paid⟩ host := by
  rw [payOut, if_neg hpaid]
  exact yields_pure.mpr ⟨rfl, rfl⟩

theorem payOut_of_success (hserves : Serves host replies) (hpaid : 0 < paid)
    (hsuccess : (nextReply replies).code.IsSuccess) (hfunds : paid ≤ host.balance) :
    (payOut coinbase paid).Yields host ⟨paid⟩
      (host.afterSend replies (payment coinbase paid)) := by
  have hsent : (send (payment coinbase paid)).Yields host _ _ :=
    hserves.send_succeeds hsuccess hfunds
  rw [payOut, if_pos hpaid]
  exact Yields.bind (yields_mapError.mpr hsent) (yields_pure.mpr ⟨rfl, rfl⟩)

theorem payOut_of_failure (hserves : Serves host replies) (hpaid : 0 < paid)
    (hfails : ¬(nextReply replies).code.IsSuccess) :
    ∃ text, (payOut coinbase paid).Refuses host ⟨(nextReply replies).code, text⟩
      (host.afterSend replies (payment coinbase paid)) := by
  obtain ⟨text, hsent⟩ : ∃ text, (send (payment coinbase paid)).Refuses host
      ⟨(nextReply replies).code, text⟩ _ := hserves.send_fails hfails
  rw [payOut, if_pos hpaid]
  exact ⟨_, Ends.bind_refused (refuses_mapError.mpr ⟨_, hsent, rfl⟩)⟩

end PayOut

/-! How the method ends in a host that serves it. -/

section Serving

variable {host after : Host Book} {replies : List Reply} {request : WithdrawalRequest}
  {book changed : Book} (hserves : Serves host replies)
  (hcaller : host.caller = request.coinbase)

include hserves hcaller

theorem withdraw_of_negative (hnegative : request.amount < 0) :
    ∃ text, (withdraw request).Refuses host ⟨.illegalArgument, text⟩
      (host.afterCheck [request.coinbase]) := by
  have hrefused : (ofExcept (requireNonNegative request.amount "withdrawal amount") :
      Run Book Unit).Refuses (host.afterCheck [request.coinbase]) _ _ :=
    refuses_ofExcept.mpr ⟨if_pos hnegative, rfl⟩
  exact ⟨_,
    (hserves.validateIs (List.mem_singleton.mpr hcaller)).andThen hrefused.bind_refused⟩

variable (hamount : 0 ≤ request.amount)

include hamount

/-- Past its checks the method changes the book, and then pays. -/
theorem withdraw_of_checked {result : Except Failure Withdrawal}
    (hrest : (do
      let paid ← transaction
        ((Book.withdraw request.coinbase host.epoch request.amount).mapError
          Book.Refusal.failure)
      payOut request.coinbase paid : Run Book Withdrawal).Ends
        (host.afterCheck [request.coinbase]) result after) :
    (withdraw request).Ends host result after := by
  refine (hserves.validateIs (List.mem_singleton.mpr hcaller)).andThen ?_
  refine Yields.andThen (yields_ofExcept.mpr ⟨if_neg (Int.not_lt.mpr hamount), rfl⟩) ?_
  exact Yields.bind (yields_currentEpoch.mpr ⟨hserves.inCall, rfl, rfl⟩) hrest

variable (hstate : host.state = some (.held book))

include hstate

theorem withdraw_of_refusal {cause : Book.Refusal}
    (hchange : (Book.withdraw request.coinbase host.epoch request.amount).Refuses
      book cause changed) :
    (withdraw request).Refuses host cause.failure
      { host.afterCheck [request.coinbase] with inTransaction := false } := by
  refine withdraw_of_checked hserves hcaller hamount (Ends.bind_refused ?_)
  exact refuses_transaction (hserves.afterCheck _).outside hstate
    (refuses_mapError.mpr ⟨cause, hchange, rfl⟩)

/-- Once the debit is stored, the method ends as the payment does. -/
theorem withdraw_of_debit {paid : Int} {result : Except Failure Withdrawal}
    (hchange : (Book.withdraw request.coinbase host.epoch request.amount).Yields
      book paid changed)
    (hpay : (payOut request.coinbase paid).Ends
      ((host.afterCheck [request.coinbase]).afterChange changed) result after) :
    (withdraw request).Ends host result after := by
  refine withdraw_of_checked hserves hcaller hamount (Yields.bind ?_ hpay)
  have houtside := (hserves.afterCheck [request.coinbase]).outside
  exact yields_transaction houtside hstate (yields_mapError.mpr hchange) trivial

end Serving

section Code

variable {host after : Host Book} {request : WithdrawalRequest} {params : Bytes}
  (hparams : WithdrawalRequest.format.methodParameters params = .ok request)

include hparams

theorem code_of_withdraw_refuses {failure : Failure}
    (hrefuses : (withdraw request).Refuses host failure after) :
    (code Method.withdraw params).Refuses host failure after := by
  rw [code, if_neg (by decide), if_neg (by decide), if_pos rfl]
  exact Yields.bind (yields_ofExcept.mpr ⟨hparams, rfl⟩) (Ends.bind_refused hrefuses)

theorem code_of_withdraw_yields {withdrawal : Withdrawal} {returned : Bytes}
    (hyields : (withdraw request).Yields host withdrawal after)
    (hreturned : Withdrawal.format.encode withdrawal = .ok returned) :
    (code Method.withdraw params).Yields host returned after := by
  rw [code, if_neg (by decide), if_neg (by decide), if_pos rfl]
  refine Yields.bind (yields_ofExcept.mpr ⟨hparams, rfl⟩) (hyields.bind ?_)
  exact yields_ofExcept.mpr ⟨mapError_eq_ok.mpr hreturned, rfl⟩

end Code

/-- What a coinbase is paid, or why it is refused. -/
def verdict (ledgers : AddressMap Ledger) (request : WithdrawalRequest) (epoch : Int) :
    Except ExitCode Int :=
  if request.amount < 0 then .error .illegalArgument
  else
    match ledgers.find? (.address request.coinbase) with
    | none => .error .notFound
    | some ledger =>
      if 0 < request.amount ∧ ledger.available epoch = 0 ∧ 0 < ledger.total then
        .error .forbidden
      else if 0 < request.amount ∧
          Amount.storageLimit ≤ ledger.available epoch - request.amount then
        .error .illegalState
      else .ok (min request.amount (ledger.available epoch))

/-- A withdrawal in keeping with its verdict.  A refused one sends and changes nothing.  One
that answers debits the ledger, the unlocked part of it alone, and sends what it pays. -/
inductive Settles (ledgers : AddressMap Ledger) (request : WithdrawalRequest)
    (before after : Host Book) : Except Failure Bytes → Except ExitCode Int → Prop
  | refused {code : ExitCode} {text : String} (hstate : after.state = before.state)
      (hbalance : after.balance = before.balance)
      (hevents : after.events = [.callerIs [request.coinbase]]) :
      Settles ledgers request before after (.error ⟨code, text⟩) (.error code)
  | paid {ledger remaining : Ledger} {paid : Int} {returned : Bytes}
      (hfind : ledgers.find? (.address request.coinbase) = some ledger)
      (hreturned : Withdrawal.format.encode ⟨paid⟩ = .ok returned)
      (hevents : after.events = .callerIs [request.coinbase] ::
        if 0 < paid then [.sent (payment request.coinbase paid) .ok] else [])
      (hstate : after.state =
        some (.held ⟨.held (ledgers.insert (.address request.coinbase) remaining)⟩))
      (hbalance : after.balance = before.balance - paid)
      (htotal : remaining.total = ledger.total - paid)
      (hlocked : (remaining.tranches.filter fun tranche => before.epoch ≤ tranche.epoch) =
        ledger.tranches.filter fun tranche => before.epoch ≤ tranche.epoch) :
      Settles ledgers request before after (.ok returned) (.ok paid)

section Verdict

variable {before : Host Book} {replies : List Reply} {request : WithdrawalRequest}
  {params : Bytes} {book : Book} {ledgers : AddressMap Ledger} {ledger : Ledger}

theorem verdict_of_past (hsound : book.Sound ledgers) {epoch : Int}
    (hfind : ledgers.find? (.address request.coinbase) = some ledger)
    (hpast : ∀ tranche ∈ ledger.tranches, tranche.epoch < epoch)
    (hall : ledger.total ≤ request.amount) :
    verdict ledgers request epoch = .ok ledger.total := by
  have hlimit : (0 : Int) < Amount.storageLimit := by decide +kernel
  have hformed := hsound.formed ledger (AddressMap.mem_values_of_find? hfind)
  have hnonneg := hformed.total_nonneg
  rw [verdict, if_neg (by omega), hfind]
  dsimp only
  rw [Ledger.available_of_past hpast, if_neg (by omega), if_neg (by omega),
    Int.min_eq_right hall]

/-- An amount that could be asked for can be answered, and so can anything less. -/
theorem encode_of_le
    (hparams : WithdrawalRequest.format.methodParameters params = .ok request)
    {paid : Int} (hnonneg : 0 ≤ paid) (hle : paid ≤ request.amount) :
    ∃ returned, Withdrawal.format.encode ⟨paid⟩ = .ok returned := by
  have hrewrites : WithdrawalRequest.format.Rewrites :=
    ((Wire.Format.condenses_address.pair Wire.Format.condenses_amount).fields 2 _).rewrites
  have hasked := hrewrites.methodParameters hparams
  rw [WithdrawalRequest.format, Wire.Format.isSome_write_record,
    Wire.Format.isSome_write_tuple (by decide), Wire.Format.isSome_write_pair,
    Wire.Format.isSome_write_amount] at hasked
  have hstorable : Amount.Storable paid :=
    Amount.storable_of_between Amount.storable_zero hasked.2 hnonneg hle
  refine Wire.Format.encode_of_isSome ?_
  rw [Withdrawal.format, Wire.Format.isSome_write_record,
    Wire.Format.isSome_write_tuple (by decide)]
  exact Wire.Format.isSome_write_amount.mpr hstorable

/-- A refusal of the method, as a call of the actor. -/
theorem settles_of_refusal {code : ExitCode} {text : String} {final : Host Book}
    (hparams : WithdrawalRequest.format.methodParameters params = .ok request)
    (hrefuses : (withdraw request).Refuses (before.entered (some replies))
      ⟨code, text⟩ final)
    (hevents : final.events = [.callerIs [request.coinbase]]) :
    ∃ result after,
      call Vesting.code (some replies) Method.withdraw params before = .ok (result, after) ∧
        Settles ledgers request before after result (.error code) :=
  ⟨_, _, call_of_refuses (code_of_withdraw_refuses hparams hrefuses),
    .refused rfl rfl hevents⟩

section Idle

variable (hidle : before.Idle) (hcaller : before.caller = request.coinbase)
  (hparams : WithdrawalRequest.format.methodParameters params = .ok request)
  (hstate : before.state = some (.held book)) (hsound : book.Sound ledgers)

include hidle hcaller hstate

/-- A debit that the balance covers is paid, if the message that it takes succeeds. -/
theorem withdraw_pays {paid : Int} {changed : Book}
    (hpayout : 0 < paid → (nextReply replies).code.IsSuccess) (hamount : 0 ≤ request.amount)
    (hchange : (Book.withdraw request.coinbase before.epoch request.amount).Yields book paid
      changed)
    (hnonneg : 0 ≤ paid) (hfunds : paid ≤ before.balance) :
    ∃ final, (withdraw request).Yields (before.entered (some replies)) ⟨paid⟩ final ∧
      final.events = .callerIs [request.coinbase] ::
        (if 0 < paid then [.sent (payment request.coinbase paid) .ok] else []) ∧
      final.state = some (.held changed) ∧ final.balance = before.balance - paid := by
  have hserves := hidle.serves replies
  have hdebited := (hserves.afterCheck [request.coinbase]).afterChange changed
  by_cases hpaid : 0 < paid
  · have hcode : (nextReply replies).code = .ok := congrArg ExitCode.mk (hpayout hpaid)
    refine ⟨_, withdraw_of_debit hserves hcaller hamount hstate hchange
      (payOut_of_success hdebited hpaid (hpayout hpaid) hfunds), ?_, rfl, ?_⟩
    · rw [if_pos hpaid, ← hcode]
      rfl
    · show before.balance - moved (nextReply replies) (payment request.coinbase paid) = _
      rw [moved, if_pos (hpayout hpaid)]
      rfl
  · refine ⟨_, withdraw_of_debit hserves hcaller hamount hstate hchange
      (payOut_of_nothing hpaid), ?_, rfl, ?_⟩
    · rw [if_neg hpaid]
      rfl
    · show before.balance = before.balance - paid
      omega

include hparams

theorem settles_of_change_refused {cause : Book.Refusal} {changed : Book}
    (hamount : 0 ≤ request.amount)
    (hchange : (Book.withdraw request.coinbase before.epoch request.amount).Refuses
      book cause changed) :
    ∃ result after,
      call code (some replies) Method.withdraw params before = .ok (result, after) ∧
        Settles ledgers request before after result (.error cause.failure.code) :=
  settles_of_refusal hparams
    (withdraw_of_refusal (hidle.serves replies) hcaller hamount hstate hchange) rfl

include hsound

theorem settles_of_debit (hamount : 0 ≤ request.amount)
    (hfind : ledgers.find? (.address request.coinbase) = some ledger)
    (hpayout : 0 < min request.amount (ledger.available before.epoch) →
      (nextReply replies).code.IsSuccess)
    (hcovered : ledger.total ≤ before.balance)
    (hchange : (Book.withdraw request.coinbase before.epoch request.amount).Yields book
      (ledger.withdraw before.epoch request.amount).2
      ⟨.held (ledgers.insert (.address request.coinbase)
        (ledger.withdraw before.epoch request.amount).1)⟩) :
    ∃ result after,
      call code (some replies) Method.withdraw params before = .ok (result, after) ∧
        Settles ledgers request before after result
          (.ok (min request.amount (ledger.available before.epoch))) := by
  have hformed := hsound.formed ledger (AddressMap.mem_values_of_find? hfind)
  have hnonneg := hformed.paid_nonneg before.epoch request.amount
  have htotal := ledger.total_withdraw before.epoch request.amount
  have hleft := (hformed.withdraw before.epoch request.amount).total_nonneg
  have hpaid : (ledger.withdraw before.epoch request.amount).2 =
      min request.amount (ledger.available before.epoch) :=
        hformed.paid_eq_min before.epoch hamount
  obtain ⟨returned, hreturned⟩ := encode_of_le hparams hnonneg (by omega)
  rw [← hpaid] at hpayout ⊢
  obtain ⟨final, hyields, hevents, hafter, hbalance⟩ :=
    withdraw_pays hidle hcaller hstate hpayout hamount hchange hnonneg (by omega)
  exact ⟨_, _, call_of_yields (code_of_withdraw_yields hparams hyields hreturned),
    .paid hfind hreturned hevents hafter hbalance (by omega) (Ledger.locked_withdraw ..)⟩

/-- Every withdrawal ends as its verdict says. -/
theorem settles_verdict {answer : Except ExitCode Int} (hwritten : book.Written)
    (hcovered : ledgers.sumOf Ledger.total ≤ before.balance)
    (hverdict : verdict ledgers request before.epoch = answer)
    (hpayout : ∀ paid, answer = .ok paid → 0 < paid → (nextReply replies).code.IsSuccess) :
    ∃ result after,
      call code (some replies) Method.withdraw params before = .ok (result, after) ∧
        Settles ledgers request before after result answer := by
  rw [verdict] at hverdict
  split at hverdict
  · rename_i hnegative
    obtain ⟨text, hrefuses⟩ := withdraw_of_negative (hidle.serves replies) hcaller hnegative
    exact hverdict ▸ settles_of_refusal hparams hrefuses rfl
  · rename_i hamount
    have hnonneg : 0 ≤ request.amount := Int.not_lt.mp hamount
    split at hverdict
    · rename_i hfind
      exact hverdict ▸ settles_of_change_refused hidle hcaller hparams hstate hnonneg
        (Book.withdraw_of_unknown hsound.held hfind)
    · rename_i ledger hfind
      have hmem := AddressMap.mem_values_of_find? hfind
      have hformed := hsound.formed ledger hmem
      have hlocked := hformed.withdraw_locked_iff before.epoch hnonneg
      have hwritable := hformed.isSome_write_withdraw before.epoch request.amount
        (hwritten ledgers hsound.held ledger hmem)
      split at hverdict
      · rename_i hblocked
        exact hverdict ▸ settles_of_change_refused hidle hcaller hparams hstate hnonneg
          (Book.withdraw_of_locked hsound.held hfind (hlocked.mpr hblocked))
      · rename_i hblocked
        have hvested := mt hlocked.mp hblocked
        split at hverdict
        · rename_i hlarge
          exact hverdict ▸ settles_of_change_refused hidle hcaller hparams hstate hnonneg
            (Book.withdraw_of_unwritable hsound.held hfind hvested
              (mt hwritable.mp (not_not_intro hlarge)))
        · rename_i hsmall
          have htotals : ∀ ledger ∈ ledgers.values, 0 ≤ ledger.total :=
            fun ledger hmem => (hsound.formed ledger hmem).total_nonneg
          subst hverdict
          refine settles_of_debit hidle hcaller hparams hstate hsound hnonneg hfind
            (hpayout _ rfl) ?_
            (Book.withdraw_of_writable hsound.held hfind hvested (hwritable.mpr hsmall))
          exact Int.le_trans (AddressMap.le_sumOf htotals hfind) hcovered

end Idle

end Verdict

variable {calls : List (Invocation Book)} {start host before : Host Book} {book : Book}

theorem written_of_deliveries (hstart : start.state = none)
    (deliveries : Deliveries code Arrives start calls host)
    (hheld : host.state = some (.held book)) : book.Written := by
  have hwritten : ∀ book, host.state = some (.held book) → book.Written := by
    refine deliveries.history.state_invariant
      (fun state => ∀ book, state = some (.held book) → book.Written)
      (fun _ _ harrives => harrives.toElsewhere) ?_ ?_
    · rw [hstart]
      exact nofun
    · intro before method params returned after hyields hbefore book hafter
      cases code_yields hyields with
      | constructed _ _ _ hempty =>
          cases hempty.symm.trans hafter
          rintro _ ⟨⟩
          exact nofun
      | watched _ _ hsame => exact hbefore book (hsame.symm.trans hafter)
      | locked _ _ _ hold hchange hnew =>
          cases hnew.symm.trans hafter
          exact (hbefore _ hold).lock hchange
      | withdrawn _ _ _ _ hold hchange hnew =>
          cases hnew.symm.trans hafter
          exact (hbefore _ hold).withdraw hchange
  exact hwritten book hheld

/-- Every withdrawal ends as its verdict says, as long as a payment that it takes succeeds.
One that asks for all once everything is past takes the whole ledger. -/
theorem withdrawal_of_deliveries {request : WithdrawalRequest} {params : Bytes}
    {replies : List Reply} (hstart : start.state = none) (hfunded : 0 ≤ start.balance)
    (deliveries : Deliveries code Arrives start calls host)
    (hheld : host.state = some (.held book)) (harrives : Arrives host before)
    (hidle : before.Idle) (hcaller : before.caller = request.coinbase)
    (hparams : WithdrawalRequest.format.methodParameters params = .ok request) :
    ∃ ledgers, book.coinbases = .held ledgers ∧
      ((∀ paid, verdict ledgers request before.epoch = .ok paid → 0 < paid →
          (nextReply replies).code.IsSuccess) →
        ∃ result after,
          call code (some replies) Method.withdraw params before = .ok (result, after) ∧
            Settles ledgers request before after result
              (verdict ledgers request before.epoch)) ∧
      ∀ ledger, ledgers.find? (.address request.coinbase) = some ledger →
        (∀ tranche ∈ ledger.tranches, tranche.epoch < before.epoch) →
        ledger.total ≤ request.amount →
          verdict ledgers request before.epoch = .ok ledger.total := by
  obtain ⟨ledgers, hsound, _, hcovered⟩ :=
    kept_opened (kept_of_deliveries hstart hfunded deliveries) hheld
  have hwritten := written_of_deliveries hstart deliveries hheld
  have hvalue := harrives.valueReceived_nonneg
  have hbalance := harrives.balance
  refine ⟨ledgers, hsound.held, ?_, fun ledger => verdict_of_past hsound⟩
  exact settles_verdict hidle hcaller hparams (harrives.state.trans hheld) hsound hwritten
    (by omega) rfl

/-- What a host keeps for a coinbase. -/
def standing? (host : Host Book) (coinbase : Address) : Option Ledger := do
  let book ← (← host.state).get?
  (← book.coinbases.get?).find? (.address coinbase)

theorem standing?_eq_some {coinbase : Address} {ledger : Ledger}
    (hstanding : standing? host coinbase = some ledger) :
    ∃ book ledgers, host.state = some (.held book) ∧ book.coinbases = .held ledgers ∧
      ledgers.find? (.address coinbase) = some ledger := by
  simp only [standing?, Option.bind_eq_bind, Option.bind_eq_some_iff,
    Link.get?_eq_some] at hstanding
  obtain ⟨_, hstate, book, rfl, ledgers, hledgers, hfind⟩ := hstanding
  exact ⟨book, ledgers, hstate, hledgers, hfind⟩

def lastStep : Step Book := withdrawalStep (.id 1001) 40 1000 .silent

def sharedStanding : Ledger := ⟨[⟨15, 20⟩, ⟨20, 25⟩, ⟨25, 25⟩], 20⟩

theorem sharedRun_standing : standing? sharedRun.2 (.id 1001) = some sharedStanding := by
  decide +kernel

theorem withdrawal_of_deliveries_shared :
    ∃ book ledgers result after, sharedRun.2.state = some (.held book) ∧
      book.coinbases = .held ledgers ∧
      call code (some [.silent]) Method.withdraw lastStep.params
        (lastStep.prepare sharedRun.2) = .ok (result, after) ∧
      Settles ledgers ⟨.id 1001, 1000⟩ (lastStep.prepare sharedRun.2) after result
        (.ok 90) := by
  obtain ⟨book, ledgers, hbook, hheld, hfind⟩ := standing?_eq_some sharedRun_standing
  have hidle : (lastStep.prepare sharedRun.2).Idle := ⟨by decide +kernel, by decide +kernel⟩
  have hparams : WithdrawalRequest.format.methodParameters lastStep.params =
      .ok ⟨.id 1001, 1000⟩ := by decide +kernel
  have hpayout : (nextReply [.silent]).code.IsSuccess := rfl
  obtain ⟨ledgers', hheld', hsettled, hlast⟩ :=
    withdrawal_of_deliveries rfl (Int.le_refl 0) sharedRun_deliveries hbook
      (arrives_withdrawalStep _ _ _ _ _) hidle rfl hparams
  obtain ⟨result, after, hcall, hsettles⟩ := hsettled fun _ _ _ => hpayout
  cases hheld'.symm.trans hheld
  have hpast : ∀ tranche ∈ sharedStanding.tranches, tranche.epoch < 40 := by decide
  have hverdict : verdict ledgers ⟨.id 1001, 1000⟩ 40 = .ok 90 :=
    hlast sharedStanding hfind hpast (by decide)
  exact ⟨book, ledgers, result, after, hbook, hheld, hcall, hverdict ▸ hsettles⟩

/-- A ledger of which so much vests that it cannot be stored once it is collected. -/
def hugeSteps : List (Step Book) :=
  [constructStep, additionStep (.id 1001) 0 (2 ^ 1016 - 1),
    additionStep (.id 1001) 20 (2 ^ 1016 - 1)]

def hugeRun : List (Invocation Book) × Host Book :=
  replay code (.init .vesting .standard) hugeSteps

def smallStep : Step Book := withdrawalStep (.id 1001) 40 1 .silent

def smallAnswer? : Option (Except ExitCode Bytes) :=
  (call code smallStep.replies smallStep.method smallStep.params
    (smallStep.prepare hugeRun.2)).toOption.map fun ending => ending.1.mapError Failure.code

/-- All that is computed from the run, at once. -/
theorem hugeRun_computed : hugeRun.1.length = hugeSteps.length ∧
    ((standing? hugeRun.2 (.id 1001)).map fun ledger => min 1 (ledger.available 40)) =
      some 1 ∧
    smallAnswer? = some (.error .illegalState) := by
  decide +kernel

theorem hugeRun_deliveries :
    Deliveries code Arrives (.init .vesting .standard) hugeRun.1 hugeRun.2 := by
  refine deliveries_replay code _ ?_ hugeRun_computed.1
  simp only [hugeSteps, List.forall_mem_cons, List.not_mem_nil, false_imp_iff, implies_true,
    and_true]
  exact ⟨arrives_constructStep, arrives_additionStep _ _ _, arrives_additionStep _ _ _⟩

theorem small_withdrawal_refused :
    Deliveries code Arrives (.init .vesting .standard) hugeRun.1 hugeRun.2 ∧
      Arrives hugeRun.2 (smallStep.prepare hugeRun.2) ∧
      WithdrawalRequest.format.methodParameters smallStep.params = .ok ⟨.id 1001, 1⟩ ∧
      (∃ book ledgers ledger, hugeRun.2.state = some (.held book) ∧
        book.coinbases = .held ledgers ∧ ledgers.find? (.address (.id 1001)) = some ledger ∧
        min 1 (ledger.available 40) = 1) ∧
      ∃ failure after, call code (some [.silent]) Method.withdraw smallStep.params
          (smallStep.prepare hugeRun.2) = .ok (.error failure, after) ∧
        failure.code = .illegalState := by
  obtain ⟨_, hstanding, hrefused⟩ := hugeRun_computed
  obtain ⟨ledger, hledger, havailable⟩ := Option.map_eq_some_iff.mp hstanding
  obtain ⟨book, ledgers, hbook, hheld, hfind⟩ := standing?_eq_some hledger
  refine ⟨hugeRun_deliveries, arrives_withdrawalStep _ _ _ _ _, by decide +kernel,
    ⟨book, ledgers, ledger, hbook, hheld, hfind, havailable⟩, ?_⟩
  obtain ⟨⟨result, after⟩, hending, hcode⟩ := Option.map_eq_some_iff.mp hrefused
  obtain ⟨failure, rfl, hrefusal⟩ := mapError_eq_error.mp hcode
  exact ⟨failure, after, toOption_eq_some.mp hending, hrefusal⟩

end RewardVesting.Vesting
