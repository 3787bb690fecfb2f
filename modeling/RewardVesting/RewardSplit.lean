import RewardVesting.Policy

namespace RewardVesting

structure RewardSplit where
  power : Int
  vote : Int
  expert : Int
  knowledge : Int
  bandwidth : Int
  deriving DecidableEq, Repr

namespace RewardSplit

def total (split : RewardSplit) : Int :=
  split.power + split.vote + split.expert + split.knowledge + split.bandwidth

/-- The retrieval reward grows with the pledge up to a cap set by the circulating supply. -/
def bandwidthOf (policy : Policy) (block circulating pledged : Int) : Except Fault Int :=
  if 0 < circulating then
    let capped := min (max pledged 0 * policy.retrievalPledgeFactor)
      (circulating * policy.retrievalCirculatingCap)
    divide (capped * block) (circulating * policy.retrievalRewardDenominator)
  else .ok 0

/-- Every fund's share is rounded on its own, and power takes what is left.  Bandwidth is
carved out of the knowledge share. -/
def ofBlock (policy : Policy) (block circulating pledged : Int) :
    Except Fault RewardSplit := do
  let vote ← divide (block * policy.voteRewardShare) policy.rewardShareDenominator
  let expert ← divide (block * policy.expertRewardShare) policy.rewardShareDenominator
  let knowledgeShare ← divide
    (block * policy.knowledgeRewardShare) policy.rewardShareDenominator
  let bandwidth ← bandwidthOf policy block circulating pledged
  return {
    power := block - vote - expert - knowledgeShare
    vote := vote
    expert := expert
    knowledge := knowledgeShare - bandwidth
    bandwidth := bandwidth }

end RewardSplit

end RewardVesting
