namespace RewardVesting

inductive ActorKind
  | system
  | init
  | cron
  | account
  | power
  | miner
  | market
  | paymentChannel
  | multisig
  | reward
  | vesting
  | vote
  | expert
  | expertFund
  | knowledge
  | retrieval
  | govern
  deriving DecidableEq, Repr

namespace ActorKind

/-- All kinds in the order of their numbers, which start at one. -/
def all : List ActorKind :=
  [system, init, cron, account, power, miner, market, paymentChannel, multisig, reward,
    vesting, vote, expert, expertFund, knowledge, retrieval, govern]

def ofNumber? (number : Int) : Option ActorKind :=
  if number < 1 then none else all[(number - 1).toNat]?

def name : ActorKind → String
  | system => "system"
  | init => "init"
  | cron => "cron"
  | account => "account"
  | power => "storagepower"
  | miner => "storageminer"
  | market => "storagemarket"
  | paymentChannel => "paymentchannel"
  | multisig => "multisig"
  | reward => "reward"
  | vesting => "vesting"
  | vote => "vote"
  | expert => "expert"
  | expertFund => "expertfund"
  | knowledge => "knowledge"
  | retrieval => "retrieval"
  | govern => "govern"

/-- The title under which a kind is listed. -/
def title : ActorKind → String
  | system => "System"
  | init => "Init"
  | cron => "Cron"
  | account => "Account"
  | power => "Power"
  | miner => "Miner"
  | market => "Market"
  | paymentChannel => "PaymentChannel"
  | multisig => "Multisig"
  | reward => "Reward"
  | vesting => "Vesting"
  | vote => "Vote"
  | expert => "Expert"
  | expertFund => "ExpertFund"
  | knowledge => "Knowledge"
  | retrieval => "Retrieval"
  | govern => "Govern"

def ofTitle? (title : String) : Option ActorKind :=
  all.find? fun kind => kind.title = title

end ActorKind

end RewardVesting
