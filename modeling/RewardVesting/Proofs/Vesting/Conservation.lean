import Mathlib.Algebra.Ring.Int.Defs
import RewardVesting.Proofs.Vesting.Effect

namespace RewardVesting.Vesting

open Host

/-- The coinbase that a call names, if its parameters can be read. -/
def coinbase? (call : Invocation Book) : Option Address :=
  if call.method = Method.addFunds then
    (AdditionRequest.format.methodParameters call.params).toOption.map
      AdditionRequest.coinbase
  else if call.method = Method.withdraw then
    (WithdrawalRequest.format.methodParameters call.params).toOption.map
      WithdrawalRequest.coinbase
  else none

/-- The value that a call has locked, if it answered. -/
def acceptedBy (call : Invocation Book) : Int :=
  match call.result with
  | .ok _ => if call.method = Method.addFunds then call.before.valueReceived else 0
  | .error _ => 0

/-- What has left the balance with a call. -/
def paidBy (call : Invocation Book) : Int := call.before.balance - call.after.balance

def acceptedFor (coinbase : Address) (calls : List (Invocation Book)) : Int :=
  ((calls.filter fun call => coinbase? call = some coinbase).map acceptedBy).sum

def paidTo (coinbase : Address) (calls : List (Invocation Book)) : Int :=
  ((calls.filter fun call => coinbase? call = some coinbase).map paidBy).sum

variable {coinbase : Address} {calls : List (Invocation Book)} {call : Invocation Book}

theorem acceptedFor_append (coinbase : Address) (calls : List (Invocation Book))
    (call : Invocation Book) :
    acceptedFor coinbase (calls ++ [call]) = acceptedFor coinbase calls +
      if coinbase? call = some coinbase then acceptedBy call else 0 := by
  by_cases hnamed : coinbase? call = some coinbase
  · simp [acceptedFor, List.filter_append, hnamed]
  · simp [acceptedFor, List.filter_append, hnamed]

theorem paidTo_append (coinbase : Address) (calls : List (Invocation Book))
    (call : Invocation Book) :
    paidTo coinbase (calls ++ [call]) = paidTo coinbase calls +
      if coinbase? call = some coinbase then paidBy call else 0 := by
  by_cases hnamed : coinbase? call = some coinbase
  · simp [paidTo, List.filter_append, hnamed]
  · simp [paidTo, List.filter_append, hnamed]

theorem coinbase?_of_addFunds {request : AdditionRequest}
    (hmethod : call.method = Method.addFunds)
    (hrequest : AdditionRequest.format.methodParameters call.params = .ok request) :
    coinbase? call = some request.coinbase := by
  rw [coinbase?, if_pos hmethod, hrequest]
  rfl

theorem coinbase?_of_withdraw {request : WithdrawalRequest}
    (hmethod : call.method = Method.withdraw)
    (hrequest : WithdrawalRequest.format.methodParameters call.params = .ok request) :
    coinbase? call = some request.coinbase := by
  have hother : call.method ≠ Method.addFunds := by
    rw [hmethod]
    decide
  rw [coinbase?, if_neg hother, if_pos hmethod, hrequest]
  rfl

theorem coinbase?_of_construct (hmethod : call.method = RewardVesting.Method.construct) :
    coinbase? call = none := by
  rw [coinbase?, hmethod]
  rfl

theorem paidBy_of_withdrawn {paid : Int}
    (hbalance : call.after.balance = call.before.balance - max 0 paid)
    (hnonneg : 0 ≤ paid) :
    paidBy call = paid := by
  rw [paidBy, hbalance]
  omega

/-! The books of a run, call by call. -/

/-- Before there is a book nothing has been accepted and nothing paid.  Then every ledger
holds what was accepted for its coinbase and has not been paid to it. -/
inductive Kept (calls : List (Invocation Book)) (host : Host Book) : Prop
  | unopened (hstate : host.state = none) (hfunded : 0 ≤ host.balance)
      (hnothing : ∀ coinbase, acceptedFor coinbase calls = paidTo coinbase calls)
  | opened {book : Book} {ledgers : AddressMap Ledger}
      (hstate : host.state = some (.held book))
      (hsound : book.Sound ledgers)
      (hconserved : ∀ coinbase, (ledgerOf ledgers coinbase).total =
        acceptedFor coinbase calls - paidTo coinbase calls)
      (hcovered : ledgers.sumOf Ledger.total ≤ host.balance)

theorem kept_opened {host : Host Book} {book : Book} (hkept : Kept calls host)
    (hheld : host.state = some (.held book)) :
    ∃ ledgers, book.Sound ledgers ∧
      (∀ coinbase, (ledgerOf ledgers coinbase).total =
        acceptedFor coinbase calls - paidTo coinbase calls) ∧
      ledgers.sumOf Ledger.total ≤ host.balance := by
  cases hkept with
  | unopened hstate => cases hstate.symm.trans hheld
  | opened hstate hsound hconserved hcovered =>
      cases hstate.symm.trans hheld
      exact ⟨_, hsound, hconserved, hcovered⟩

theorem kept_of_unchanged {host : Host Book} (hkept : Kept calls host)
    (harrives : Arrives host call.before) (haccepted : acceptedBy call = 0)
    (hstate : call.after.state = call.before.state)
    (hbalance : call.after.balance = call.before.balance) :
    Kept (calls ++ [call]) call.after := by
  have hpaid : paidBy call = 0 := by
    rw [paidBy, hbalance]
    exact Int.sub_self _
  have hsame (coinbase : Address) :
      acceptedFor coinbase (calls ++ [call]) = acceptedFor coinbase calls ∧
        paidTo coinbase (calls ++ [call]) = paidTo coinbase calls := by
    rw [acceptedFor_append, paidTo_append, haccepted, hpaid, ite_self]
    exact ⟨Int.add_zero _, Int.add_zero _⟩
  have hstored : call.after.state = host.state := hstate.trans harrives.state
  have hfunds := harrives.balance
  have hvalue := harrives.valueReceived_nonneg
  cases hkept with
  | unopened hnone hfunded hnothing =>
      refine .unopened (hstored.trans hnone) (by omega) ?_
      intro coinbase
      rw [(hsame coinbase).1, (hsame coinbase).2]
      exact hnothing coinbase
  | opened hheld hsound hconserved hcovered =>
      refine .opened (hstored.trans hheld) hsound ?_ (by omega)
      intro coinbase
      rw [(hsame coinbase).1, (hsame coinbase).2]
      exact hconserved coinbase

/-- A call that names a coinbase enters in its ledger what it accepts and pays. -/
theorem kept_of_gains {host : Host Book} {book changed : Book} (hkept : Kept calls host)
    (harrives : Arrives host call.before) (hbefore : call.before.state = some (.held book))
    (hafter : call.after.state = some (.held changed))
    (hnamed : coinbase? call = some coinbase)
    (haccepted : acceptedBy call ≤ call.before.valueReceived)
    (hgains : ∀ ledgers, book.Sound ledgers → ∃ revised, changed.Sound revised ∧
      Book.Gains ledgers revised coinbase (acceptedBy call - paidBy call)) :
    Kept (calls ++ [call]) call.after := by
  obtain ⟨ledgers, hsound, hconserved, hcovered⟩ :=
    kept_opened hkept (harrives.state.symm.trans hbefore)
  obtain ⟨revised, hrevised, hentered⟩ := hgains ledgers hsound
  refine .opened hafter hrevised ?_ ?_
  · intro other
    rw [acceptedFor_append, paidTo_append, hnamed]
    by_cases hother : other = coinbase
    · subst hother
      have htotal := hconserved other
      rw [if_pos rfl, if_pos rfl, hentered.total]
      omega
    · have hne : ¬some coinbase = some other := fun hsame =>
        hother (Option.some.inj hsame).symm
      rw [if_neg hne, if_neg hne, ledgerOf, hentered.others other hother, ← ledgerOf,
        hconserved other]
      omega
  · have hfunds := harrives.balance
    have hpaid : paidBy call = call.before.balance - call.after.balance := rfl
    rw [hentered.sumOf]
    omega

theorem kept_of_effect {host : Host Book} {returned : Bytes} (hkept : Kept calls host)
    (harrives : Arrives host call.before) (hresult : call.result = .ok returned)
    (heffect : Effect (call.before.entered call.replies) call.method call.params returned
      call.after.state call.after.balance) : Kept (calls ++ [call]) call.after := by
  have hvalue := harrives.valueReceived_nonneg
  cases heffect with
  | constructed hmethod _ hbefore hafter hbalance =>
      have hnamed := coinbase?_of_construct hmethod
      have hnone : host.state = none := harrives.state.symm.trans hbefore
      cases hkept with
      | unopened _ hfunded hnothing =>
          refine .opened hafter Book.sound_empty ?_ ?_
          · intro coinbase
            have hzero : (ledgerOf .empty coinbase).total = 0 := rfl
            rw [acceptedFor_append, paidTo_append, hnamed, hzero, hnothing coinbase]
            exact (Int.sub_self _).symm
          · have hempty : (AddressMap.empty : AddressMap Ledger).sumOf Ledger.total = 0 :=
              rfl
            rw [hempty, hbalance]
            exact Int.le_trans (Int.add_nonneg hfunded hvalue) harrives.balance
      | opened hheld => cases hnone.symm.trans hheld
  | watched hmethod hzero hafter hbalance =>
      have hreceived : call.before.valueReceived = 0 := hzero
      refine kept_of_unchanged hkept harrives ?_ hafter hbalance
      rw [acceptedBy, hresult, if_pos hmethod, hreceived]
  | locked hmethod _ hrequest hbefore hchange hafter hbalance =>
      have haccepted : acceptedBy call = call.before.valueReceived := by
        rw [acceptedBy, hresult, if_pos hmethod]
      refine kept_of_gains hkept harrives hbefore hafter
        (coinbase?_of_addFunds hmethod hrequest) (by omega) ?_
      intro ledgers hsound
      have hpaid : paidBy call = 0 := by
        rw [paidBy, hbalance]
        exact Int.sub_self _
      rw [haccepted, hpaid, Int.sub_zero]
      exact hsound.lock hchange
  | withdrawn hmethod hrequest _ _ hbefore hchange hafter hbalance _ =>
      have hother : call.method ≠ Method.addFunds := by
        rw [hmethod]
        decide
      have haccepted : acceptedBy call = 0 := by rw [acceptedBy, hresult, if_neg hother]
      refine kept_of_gains hkept harrives hbefore hafter
        (coinbase?_of_withdraw hmethod hrequest) (by omega) ?_
      intro ledgers hsound
      obtain ⟨hnonneg, revised, hrevised, hgains⟩ := hsound.withdraw hchange
      refine ⟨revised, hrevised, ?_⟩
      rwa [haccepted, paidBy_of_withdrawn hbalance hnonneg, Int.zero_sub]

theorem kept_of_runs {host : Host Book} (hkept : Kept calls host)
    (harrives : Arrives host call.before) (hruns : call.Runs code) :
    Kept (calls ++ [call]) call.after := by
  cases hresult : call.result with
  | error failure =>
      have haccepted : acceptedBy call = 0 := by rw [acceptedBy, hresult]
      obtain ⟨hstate, hbalance⟩ := hruns.refused hresult
      exact kept_of_unchanged hkept harrives haccepted hstate hbalance
  | ok returned =>
      exact kept_of_effect hkept harrives hresult (effect_of_runs hruns hresult)

theorem kept_of_deliveries {start host : Host Book} (hstart : start.state = none)
    (hfunded : 0 ≤ start.balance) (deliveries : Deliveries code Arrives start calls host) :
    Kept calls host := by
  induction deliveries with
  | begun => exact .unopened hstart hfunded fun _ => rfl
  | delivered past harrives hruns ih => exact kept_of_runs ih harrives hruns

theorem isolated_of_runs {host : Host Book} {book : Book} {ledgers : AddressMap Ledger}
    (hheld : host.state = some (.held book)) (hsound : book.Sound ledgers)
    (harrives : Arrives host call.before) (hruns : call.Runs code) :
    ∃ changed revised, call.after.state = some (.held changed) ∧
      changed.coinbases = .held revised ∧
      ∀ other, coinbase? call ≠ some other →
        revised.find? (.address other) = ledgers.find? (.address other) := by
  have hstate : call.before.state = some (.held book) := harrives.state.trans hheld
  cases hresult : call.result with
  | error failure =>
      exact ⟨book, ledgers, (hruns.refused hresult).1.trans hstate,
        hsound.held, fun _ _ => rfl⟩
  | ok returned =>
      cases effect_of_runs hruns hresult with
      | constructed _ _ hbefore => cases hstate.symm.trans hbefore
      | watched _ _ hafter =>
          exact ⟨book, ledgers, hafter.trans hstate, hsound.held, fun _ _ => rfl⟩
      | locked hmethod _ hrequest hbefore hchange hafter =>
          cases hstate.symm.trans hbefore
          obtain ⟨revised, hrevised, hgains⟩ := hsound.lock hchange
          refine ⟨_, revised, hafter, hrevised.held, ?_⟩
          intro other hother
          rw [coinbase?_of_addFunds hmethod hrequest] at hother
          exact hgains.others other fun hsame => hother (congrArg some hsame.symm)
      | withdrawn hmethod hrequest _ _ hbefore hchange hafter =>
          cases hstate.symm.trans hbefore
          obtain ⟨_, revised, hrevised, hgains⟩ := hsound.withdraw hchange
          refine ⟨_, revised, hafter, hrevised.held, ?_⟩
          intro other hother
          rw [coinbase?_of_withdraw hmethod hrequest] at hother
          exact hgains.others other fun hsame => hother (congrArg some hsame.symm)

/-- Only a reply can make a call fail for lack of balance. -/
theorem reply_of_insufficientBalance {host : Host Book} {book : Book}
    {ledgers : AddressMap Ledger} {failure : Failure}
    (hheld : host.state = some (.held book))
    (hsound : book.Sound ledgers) (hcovered : ledgers.sumOf Ledger.total ≤ host.balance)
    (harrives : Arrives host call.before) (hruns : call.Runs code)
    (hresult : call.result = .error failure) (hcode : failure.code = .insufficientBalance) :
    ∃ reply, call.repliesAtHand.head? = some reply ∧ reply.code = .insufficientBalance := by
  have hstate : call.before.state = some (.held book) := harrives.state.trans hheld
  obtain ⟨final, hrefuses⟩ := hruns.refuses hresult
  obtain hreply | ⟨coinbase, requested, held, changed, paid, hbefore, hchange, hfunds⟩ :=
    code_refuses hrefuses hcode
  · exact hreply
  · cases hstate.symm.trans hbefore
    obtain ⟨_, revised, hrevised, hgains⟩ := hsound.withdraw hchange
    have hpaid : call.before.balance < paid := hfunds
    have hleft :=
      AddressMap.sumOf_nonneg fun ledger hmem => (hrevised.formed ledger hmem).total_nonneg
    have hsum := hgains.sumOf
    have harrived := harrives.balance
    have hvalue := harrives.valueReceived_nonneg
    omega

theorem answer_of_withdraw {host : Host Book} {book : Book} {ledgers : AddressMap Ledger}
    {returned : Bytes} (hheld : host.state = some (.held book))
    (hsound : book.Sound ledgers)
    (harrives : Arrives host call.before) (hruns : call.Runs code)
    (hmethod : call.method = Method.withdraw) (hresult : call.result = .ok returned) :
    Withdrawal.format.encode ⟨paidBy call⟩ = .ok returned := by
  have hstate : call.before.state = some (.held book) := harrives.state.trans hheld
  cases effect_of_runs hruns hresult with
  | constructed hother => cases hmethod.symm.trans hother
  | watched hother => cases hmethod.symm.trans hother
  | locked hother => cases hmethod.symm.trans hother
  | withdrawn _ _ _ _ hbefore hchange _ hbalance hreturned =>
      cases hstate.symm.trans hbefore
      rw [paidBy_of_withdrawn hbalance (hsound.withdraw hchange).1]
      exact hreturned

/-- However payments end, each coinbase keeps what was accepted for it and has not been paid
to it, and the balance covers all of it. -/
theorem conserved_of_deliveries {start host : Host Book} {book : Book}
    (hstart : start.state = none) (hfunded : 0 ≤ start.balance)
    (deliveries : Deliveries code Arrives start calls host)
    (hheld : host.state = some (.held book)) :
    ∃ ledgers, book.coinbases = .held ledgers ∧
      (∀ coinbase, (ledgerOf ledgers coinbase).total =
        acceptedFor coinbase calls - paidTo coinbase calls) ∧
      (∀ ledger ∈ ledgers.values, ledger.WellFormed) ∧
      ledgers.sumOf Ledger.total ≤ host.balance ∧
      (audit book host.balance).report = .empty ∧
      ∀ call : Invocation Book, Arrives host call.before → call.Runs code →
        (∃ changed revised, call.after.state = some (.held changed) ∧
          changed.coinbases = .held revised ∧
          ∀ other, coinbase? call ≠ some other →
            revised.find? (.address other) = ledgers.find? (.address other)) ∧
        (∀ returned, call.method = Method.withdraw → call.result = .ok returned →
          Withdrawal.format.encode ⟨paidBy call⟩ = .ok returned) ∧
        ∀ failure, call.result = .error failure → failure.code = .insufficientBalance →
          ∃ reply, call.repliesAtHand.head? = some reply ∧
            reply.code = .insufficientBalance := by
  have hkept := kept_of_deliveries hstart hfunded deliveries
  obtain ⟨ledgers, hsound, hconserved, hcovered⟩ := kept_opened hkept hheld
  refine ⟨ledgers, hsound.held, hconserved, hsound.formed, hcovered,
    hsound.audit hcovered, ?_⟩
  intro call harrives hruns
  refine ⟨isolated_of_runs hheld hsound harrives hruns, ?_, ?_⟩
  · intro returned hmethod hresult
    exact answer_of_withdraw hheld hsound harrives hruns hmethod hresult
  · intro failure hresult hcode
    exact reply_of_insufficientBalance hheld hsound hcovered harrives hruns hresult hcode

def shortVesting : VestSpec :=
  { initialDelay := 2, vestPeriod := 10, stepDuration := 3, quantization := 5 }

def constructStep : Step Book where
  prepare host := { host with
    caller := .system
    valueReceived := 0
    policy := { Policy.standard with rewardVestingSpec := shortVesting } }
  replies := some []
  method := RewardVesting.Method.construct
  params := []

def additionStep (coinbase : Address) (epoch : Int) (value : Nat) : Step Book where
  prepare host := { host with
    epoch := epoch
    callerKind := .miner
    valueReceived := value
    balance := host.balance + value }
  replies := some []
  method := Method.addFunds
  params := (AdditionRequest.format.write ⟨coinbase⟩).getD []

def withdrawalStep (coinbase : Address) (epoch amount : Int) (reply : Reply) :
    Step Book where
  prepare host := { host with
    epoch := epoch
    caller := coinbase
    valueReceived := 0 }
  replies := some [reply]
  method := Method.withdraw
  params := (WithdrawalRequest.format.write ⟨coinbase, amount⟩).getD []

theorem arrives_constructStep (host : Host Book) :
    Arrives host (constructStep.prepare host) :=
  ⟨⟨rfl⟩, Int.le_refl 0, Int.le_of_eq (Int.add_zero _)⟩

theorem arrives_additionStep (coinbase : Address) (epoch : Int) (value : Nat)
    (host : Host Book) : Arrives host ((additionStep coinbase epoch value).prepare host) :=
  ⟨⟨rfl⟩, Int.natCast_nonneg value, Int.le_refl _⟩

theorem arrives_withdrawalStep (coinbase : Address) (epoch amount : Int) (reply : Reply)
    (host : Host Book) :
    Arrives host ((withdrawalStep coinbase epoch amount reply).prepare host) :=
  ⟨⟨rfl⟩, Int.le_refl 0, Int.le_of_eq (Int.add_zero _)⟩

def sharedSteps : List (Step Book) :=
  [constructStep, additionStep (.id 1001) 0 100, additionStep (.id 1002) 7 31,
    withdrawalStep (.id 1001) 12 60 ⟨.forbidden, []⟩,
    withdrawalStep (.id 1001) 12 60 .silent, additionStep (.id 1001) 13 50,
    withdrawalStep (.id 1002) 30 1000 .silent]

def sharedRun : List (Invocation Book) × Host Book :=
  replay code (.init .vesting .standard) sharedSteps

theorem sharedRun_deliveries :
    Deliveries code Arrives (.init .vesting .standard) sharedRun.1 sharedRun.2 := by
  refine deliveries_replay code _ ?_ (by decide +kernel)
  simp only [sharedSteps, List.forall_mem_cons, List.not_mem_nil, false_imp_iff,
    implies_true, and_true]
  exact ⟨arrives_constructStep, arrives_additionStep _ _ _, arrives_additionStep _ _ _,
    arrives_withdrawalStep _ _ _ _, arrives_withdrawalStep _ _ _ _,
    arrives_additionStep _ _ _, arrives_withdrawalStep _ _ _ _⟩

theorem sharedRun_opened : ∃ book, sharedRun.2.state = some (.held book) :=
  Link.exists_held_of_isSome (by decide +kernel)

theorem conserved_of_deliveries_shared :
    ∃ book ledgers, sharedRun.2.state = some (.held book) ∧ book.coinbases = .held ledgers ∧
      (ledgerOf ledgers (.id 1001)).total = 150 - 60 ∧
      (ledgerOf ledgers (.id 1002)).total = 31 - 31 ∧
      (audit book sharedRun.2.balance).report = .empty := by
  obtain ⟨book, hbook⟩ := sharedRun_opened
  obtain ⟨ledgers, hheld, hconserved, _, _, haudit, _⟩ :=
    conserved_of_deliveries rfl (Int.le_refl 0) sharedRun_deliveries hbook
  have haccepted : acceptedFor (.id 1001) sharedRun.1 = 150 ∧
    paidTo (.id 1001) sharedRun.1 = 60 ∧
      acceptedFor (.id 1002) sharedRun.1 = 31 ∧ paidTo (.id 1002) sharedRun.1 = 31 := by
    decide +kernel
  obtain ⟨hfirst, hfirstPaid, hsecond, hsecondPaid⟩ := haccepted
  refine ⟨book, ledgers, hbook, hheld, ?_, ?_, haudit⟩
  · rw [hconserved, hfirst, hfirstPaid]
  · rw [hconserved, hsecond, hsecondPaid]

end RewardVesting.Vesting
