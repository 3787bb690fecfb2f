import RewardVesting.Host.Call
import RewardVesting.Vesting.Book
import RewardVesting.Vesting.Message

namespace RewardVesting.Vesting

open Host

/-- The ledgers are stored on their own, so that a book can always be stored. -/
instance : Storage Book where
  Storable _ := True
  decidableStorable _ := inferInstance

namespace Method

def addFunds : Nat := 2
def withdraw : Nat := 3

end Method

def construct : Run Book Unit := do
  validateIs [.system]
  create .empty

/-- Locks the value that came with the message.  Nothing is done with no value. -/
def addFunds (request : AdditionRequest) : Run Book Unit := do
  validateKind [.miner]
  let amount ← currentValue
  if amount = 0 then
    pure ()
  else
    let epoch ← currentEpoch
    let policy ← currentPolicy
    transaction ((Book.lock request.coinbase epoch amount policy.rewardVestingSpec).mapError
      Book.Refusal.failure)

/-- Pays a coinbase what it asks for, as far as it has vested. -/
def withdraw (request : WithdrawalRequest) : Run Book Withdrawal := do
  validateIs [request.coinbase]
  Action.ofExcept (requireNonNegative request.amount "withdrawal amount")
  let epoch ← currentEpoch
  let paid ← transaction
    ((Book.withdraw request.coinbase epoch request.amount).mapError Book.Refusal.failure)
  if 0 < paid then
    let _ ← (send ⟨request.coinbase, RewardVesting.Method.send, [], paid⟩).mapError
      (Failure.wrap ("failed to pay vested funds to " ++ request.coinbase.text))
  return ⟨paid⟩

def code : ActorCode Book := fun method params =>
  if method = RewardVesting.Method.construct then do
    construct
    return []
  else if method = Method.addFunds then do
    let request ← Action.ofExcept (AdditionRequest.format.methodParameters params)
    addFunds request
    return []
  else if method = Method.withdraw then do
    let request ← Action.ofExcept (WithdrawalRequest.format.methodParameters params)
    let withdrawal ← withdraw request
    Action.ofExcept ((Withdrawal.format.encode withdrawal).mapError Failure.ofCodec)
  else
    Action.refuse ⟨.unhandledMessage, "Invalid method"⟩

end RewardVesting.Vesting
