import RewardVesting.Wire.Format

namespace RewardVesting.Reward

open Wire

structure AwardRequest where
  miner : Address
  penalty : Int
  gas : Int
  winCount : Int
  shareCount : Int
  pledged : Int
  deriving DecidableEq

def AwardRequest.layout : Layout (Address × Int × Int × Int × Int × Int) AwardRequest where
  build := fun (miner, penalty, gas, winCount, shareCount, pledged) =>
    ⟨miner, penalty, gas, winCount, shareCount, pledged⟩
  parts := fun record =>
    (record.miner, record.penalty, record.gas, record.winCount, record.shareCount,
      record.pledged)

def AwardRequest.format : Format AwardRequest :=
  (Format.tuple 6 (Format.address.pair (Format.amount.pair (Format.amount.pair
    (Format.integer.pair (Format.integer.pair Format.amount)))))).record AwardRequest.layout

/-- What an award delivered.  A part that could not be sent is zero and counts as
undelivered. -/
structure Delivery where
  power : Int
  gas : Int
  vote : Int
  expert : Int
  knowledge : Int
  bandwidth : Int
  undelivered : Int
  deriving DecidableEq, Repr

def Delivery.layout : Layout (Int × Int × Int × Int × Int × Int × Int) Delivery where
  build := fun (power, gas, vote, expert, knowledge, bandwidth, undelivered) =>
    ⟨power, gas, vote, expert, knowledge, bandwidth, undelivered⟩
  parts := fun record =>
    (record.power, record.gas, record.vote, record.expert, record.knowledge,
      record.bandwidth, record.undelivered)

def Delivery.format : Format Delivery :=
  (Format.tuple 7 (Format.amount.pair (Format.amount.pair (Format.amount.pair
    (Format.amount.pair (Format.amount.pair (Format.amount.pair Format.amount))))))).record
      Delivery.layout

/-- The reward of the current epoch as others see it. -/
structure EpochReward where
  reward : Int
  realizedPower : Int
  epoch : Int
  deriving DecidableEq, Repr

def EpochReward.layout : Layout (Int × Int × Int) EpochReward where
  build := fun (reward, realizedPower, epoch) => ⟨reward, realizedPower, epoch⟩
  parts := fun record => (record.reward, record.realizedPower, record.epoch)

def EpochReward.format : Format EpochReward :=
  (Format.tuple 3 (Format.amount.pair (Format.amount.pair Format.integer))).record
      EpochReward.layout

/-- What the power actor reports at the end of an epoch. -/
structure NetworkUpdate where
  realizedPower : Int
  deriving DecidableEq, Repr

def NetworkUpdate.layout : Layout Int NetworkUpdate where
  build := fun realizedPower => ⟨realizedPower⟩
  parts := fun record => record.realizedPower

def NetworkUpdate.format : Format NetworkUpdate :=
  (Format.tuple 1 Format.amount).record NetworkUpdate.layout

/-- What the winning miner is told about its reward. -/
structure MinerReward where
  reward : Int
  penalty : Int
  deriving DecidableEq, Repr

def MinerReward.layout : Layout (Int × Int) MinerReward where
  build := fun (reward, penalty) => ⟨reward, penalty⟩
  parts := fun record => (record.reward, record.penalty)

def MinerReward.format : Format MinerReward :=
  (Format.tuple 2 (Format.amount.pair Format.amount)).record MinerReward.layout

end RewardVesting.Reward
