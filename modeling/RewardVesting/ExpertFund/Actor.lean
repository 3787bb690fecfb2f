import RewardVesting.ExpertFund.Fund
import RewardVesting.ExpertFund.Message
import RewardVesting.Host.Call

namespace RewardVesting.ExpertFund

open Host

/-- Experts and votes are stored on their own; the pool and the balance go with the fund. -/
instance : Storage Fund where
  Storable fund := Amount.Storable fund.pool.accPerShare ∧ Amount.Storable fund.lastBalance
  decidableStorable _ := inferInstance

namespace Method

def receive : Nat := 2
def deposit : Nat := 3
def claim : Nat := 4
def reset : Nat := 5
def changeVotes : Nat := 6
def standing : Nat := 7

/-- Asks an expert who controls it. -/
def controlAddress : Nat := 2

end Method

def construct : Run Fund Unit := do
  validateIs [.system]
  create .empty

/-- Takes rewards in.  The next update of the pool finds them in the balance. -/
def receive : Run Fund Unit :=
  validateIs [.reward]

def deposit (request : Deposit) : Run Fund Unit := do
  validateKind [.expert]
  let expert ← currentCaller
  let epoch ← currentEpoch
  let balance ← currentBalance
  let policy ← currentPolicy
  transaction ((Fund.deposit policy epoch balance expert request.weight).mapError
    Fund.Refusal.failure)

/-- Asks an expert for its owner, who alone may claim. -/
def queryOwner (expert : Address) : Run Fund Address := do
  let returned ← (send ⟨expert, Method.controlAddress, [], 0⟩).mapError
    (Failure.wrap ("failed to query control address of " ++ expert.text))
  let control ← Action.ofExcept ((Control.format.decode returned).mapError Failure.ofCodec)
  return control.owner

/-- Pays the owner of an expert out of what the expert has unlocked. -/
def claim (request : Claim) : Run Fund Unit := do
  Action.ofExcept (requireNonNegative request.amount "claim amount")
  let owner ← queryOwner request.expert
  validateIs [owner]
  let epoch ← currentEpoch
  let balance ← currentBalance
  let policy ← currentPolicy
  transaction ((Fund.claim policy epoch balance request.expert request.amount).mapError
    Fund.Refusal.failure)
  if 0 < request.amount then
    let _ ← (send ⟨owner, RewardVesting.Method.send, [], request.amount⟩).mapError
      (Failure.wrap "failed to pay claimed expert funds")

def reset (request : Reset) : Run Fund Unit := do
  validateAny
  let caller ← currentCaller
  let granted ← holdsGrant ⟨caller, .expertFund, Method.reset⟩
  Action.require granted
    ⟨.forbidden, "caller " ++ caller.text ++ " not granted to reset experts"⟩
  let epoch ← currentEpoch
  let balance ← currentBalance
  let policy ← currentPolicy
  let forfeited ← transaction ((Fund.reset policy epoch balance request.expert).mapError
    Fund.Refusal.failure)
  notice .info ("expert " ++ request.expert.text ++ " reset at epoch " ++ toString epoch ++
    ", forfeited " ++ Amount.text forfeited)

def changeVotes (change : VoteChange) : Run Fund Unit := do
  validateKind [.vote]
  transaction ((Fund.changeVotes change.expert change.amount).mapError Fund.Refusal.failure)

def standing (inquiry : Inquiry) : Run Fund Standing := do
  validateAny
  let fund ← readState
  let known ← Action.ofExcept ((fund.find? inquiry.expert).mapError Fund.Refusal.failure)
  let votes ← Action.ofExcept ((fund.votesOf inquiry.expert).mapError Fund.Refusal.failure)
  let policy ← currentPolicy
  return {
    registered := known.isSome
    qualified := policy.thresholdAmount ≤ votes
    weight := (known.map Expert.weight).getD 0
    votes := votes }

def invoke {Request : Type} (format : Wire.Format Request) (params : Bytes)
    (method : Request → Run Fund Unit) : Run Fund Bytes := do
  let request ← Action.ofExcept (format.methodParameters params)
  method request
  return []

def code : ActorCode Fund := fun method params =>
  if method = RewardVesting.Method.construct then do
    construct
    return []
  else if method = Method.receive then do
    receive
    return []
  else if method = Method.deposit then invoke Deposit.format params deposit
  else if method = Method.claim then invoke Claim.format params claim
  else if method = Method.reset then invoke Reset.format params reset
  else if method = Method.changeVotes then invoke VoteChange.format params changeVotes
  else if method = Method.standing then do
    let inquiry ← Action.ofExcept (Inquiry.format.methodParameters params)
    let answer ← standing inquiry
    Action.ofExcept ((Standing.format.encode answer).mapError Failure.ofCodec)
  else
    Action.refuse ⟨.unhandledMessage, "Invalid method"⟩

end RewardVesting.ExpertFund
