import RewardVesting.Host.Call
import RewardVesting.Reward.Message
import RewardVesting.Reward.State
import RewardVesting.RewardSplit

namespace RewardVesting.Reward

open Host

instance : Storage State where
  Storable state := (State.format.write state).isSome
  decidableStorable _ := inferInstance

namespace Method

def applyMinerReward : Nat := 14
def applyFundReward : Nat := 2

end Method

/-- What a balance must satisfy for an award to be made from it. -/
def AwardRequest.check (request : AwardRequest) (balance : Int) : Except Failure Unit := do
  requireNonNegative request.penalty "penalty"
  requireNonNegative request.gas "gas reward"
  if request.shareCount ≤ 0 then
    throw ⟨.illegalArgument, "invalid share count " ++ toString request.shareCount⟩
  if request.winCount ≤ 0 then
    throw ⟨.illegalArgument, "invalid win count " ++ toString request.winCount⟩
  if balance < request.gas then
    throw ⟨.illegalState, "actor current balance " ++ Amount.text balance ++
      " insufficient to pay gas reward " ++ Amount.text request.gas⟩

/-- The reward of one block.  Gas is paid first, and the block reward absorbs any
shortfall. -/
def blockReward (epochReward balance : Int) (request : AwardRequest) :
    Except Fault Int := do
  let share ← divide epochReward request.shareCount
  return min share (balance - request.gas)

/-- Everything that is to be delivered, while no message has failed yet. -/
def Delivery.intended (split : RewardSplit) (gas : Int) : Delivery where
  power := split.power
  gas := gas
  vote := split.vote
  expert := split.expert
  knowledge := split.knowledge
  bandwidth := split.bandwidth
  undelivered := 0

/-- Sends the miner its reward and penalty.  If the message fails, both parts of the reward
are struck from the delivery and what was sent counts as undelivered. -/
def payMiner (policy : Policy) (request : AwardRequest) (delivery : Delivery) :
    Run State Delivery := do
  let reward := delivery.power + delivery.gas
  let penalty := request.penalty * policy.penaltyMultiplier
  if 0 < reward ∨ 0 < penalty then
    let params ← Action.ofExcept
      (MinerReward.format.serialize "miner apply rewards params" ⟨reward, penalty⟩)
    match ← Action.attempt
        (send ⟨request.miner, Method.applyMinerReward, params, reward⟩) with
    | .ok _ => return delivery
    | .error failure =>
      notice .error ("failed to send ApplyRewards call to the miner actor " ++
        request.miner.text ++ " with funds " ++ Amount.text reward ++ ", code: " ++
        toString failure.code.value)
      return { delivery with
        power := 0
        gas := 0
        undelivered := delivery.undelivered + reward }
  else
    return delivery

/-- Sends a fund its part, if there is any.  Returns what arrived, and the sum of the parts
that funds have missed so far. -/
def payFund (fund : Address) (part missed : Int) : Run State (Int × Int) := do
  if part = 0 then
    return (part, missed)
  else
    match ← Action.attempt (send ⟨fund, Method.applyFundReward, [], part⟩) with
    | .ok _ => return (part, missed)
    | .error failure =>
      notice .error ("failed to send ApplyRewards call to the fund actor " ++ fund.text ++
        " with funds " ++ Amount.text part ++ ", code: " ++ toString failure.code.value)
      return (0, missed + part)

/-- Sends every part of a split to its recipient, the miner's first. -/
def payOut (policy : Policy) (request : AwardRequest) (split : RewardSplit) :
    Run State Delivery := do
  let delivery ← payMiner policy request (.intended split request.gas)
  let (vote, missed) ← payFund .voteFund delivery.vote 0
  let (expert, missed) ← payFund .expertFund delivery.expert missed
  let (knowledge, missed) ← payFund .knowledgeFund delivery.knowledge missed
  let (bandwidth, missed) ← payFund .retrievalFund delivery.bandwidth missed
  return { delivery with
    vote := vote
    expert := expert
    knowledge := knowledge
    bandwidth := bandwidth
    undelivered := delivery.undelivered + missed }

def State.record (state : State) (delivery : Delivery) : State :=
  { state with
    totals := {
      power := state.totals.power + delivery.power
      vote := state.totals.vote + delivery.vote
      expert := state.totals.expert + delivery.expert
      knowledge := state.totals.knowledge + delivery.knowledge
      retrieval := state.totals.retrieval + delivery.bandwidth } }

/-- Rewards one block.  The split follows from the state before any message is sent, and the
totals are recorded after the last. -/
def award (request : AwardRequest) : Run State Delivery := do
  validateIs [.system]
  let balance ← currentBalance
  Action.ofExcept (request.check balance)
  let state ← readState
  let policy ← currentPolicy
  let block ← blockReward state.epochReward balance request
  let split ← RewardSplit.ofBlock policy block (← currentSupply) request.pledged
  let delivery ← payOut policy request split
  transaction (Action.modify fun state => state.record delivery)
  return delivery

end RewardVesting.Reward
