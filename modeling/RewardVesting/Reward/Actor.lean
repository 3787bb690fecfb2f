import RewardVesting.Reward.Award

namespace RewardVesting.Reward

open Host

def construct : Run State Unit := do
  validateIs [.system]
  create State.initial

def epochReward : Run State EpochReward := do
  validateAny
  let state ← readState
  return ⟨state.epochReward, state.realizedPower, state.epoch⟩

/-- Takes the realized power of the network and brings the reward up to the current
epoch. -/
def updateNetwork (update : NetworkUpdate) : Run State Unit := do
  validateIs [.storagePower]
  let epoch ← currentEpoch
  transaction do
    let state ← Action.read
    let advanced ← { state with realizedPower := update.realizedPower }.advanceTo epoch
    Action.write advanced

namespace Method

def award : Nat := 2
def epochReward : Nat := 3
def updateNetwork : Nat := 4

end Method

def code : ActorCode State := fun method params =>
  if method = RewardVesting.Method.construct then do
    construct
    return []
  else if method = Method.award then do
    let request ← Action.ofExcept (AwardRequest.format.methodParameters params)
    let delivery ← award request
    Action.ofExcept ((Delivery.format.encode delivery).mapError Failure.ofCodec)
  else if method = Method.epochReward then do
    let answer ← epochReward
    Action.ofExcept ((EpochReward.format.encode answer).mapError Failure.ofCodec)
  else if method = Method.updateNetwork then do
    let update ← Action.ofExcept (NetworkUpdate.format.methodParameters params)
    updateNetwork update
    return []
  else
    Action.refuse ⟨.unhandledMessage, "Invalid method"⟩

end RewardVesting.Reward
