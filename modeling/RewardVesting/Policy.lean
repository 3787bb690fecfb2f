import RewardVesting.Amount
import RewardVesting.Ledger.Schedule
import RewardVesting.Network

namespace RewardVesting

/-- The parameters of the reward economy. -/
structure Policy where
  rewardVestingSpec : VestSpec
  voteRewardShare : Nat
  expertRewardShare : Nat
  knowledgeRewardShare : Nat
  rewardShareDenominator : Nat
  retrievalPledgeFactor : Nat
  retrievalCirculatingCap : Nat
  retrievalRewardDenominator : Nat
  penaltyMultiplier : Nat
  /-- The fixed-point scale of rewards accumulated per unit of weight. -/
  accPerShareMultiplier : Nat
  /-- In whole tokens. -/
  expertVoteThreshold : Nat
  deriving DecidableEq, Repr

namespace Policy

def standard : Policy where
  rewardVestingSpec :=
    { initialDelay := 7 * Network.epochsInDay
      vestPeriod := 7 * Network.epochsInDay
      stepDuration := Network.epochsInDay
      quantization := 12 * Network.epochsInHour }
  voteRewardShare := 1
  expertRewardShare := 9
  knowledgeRewardShare := 15
  rewardShareDenominator := 100
  retrievalPledgeFactor := 100
  retrievalCirculatingCap := 75
  retrievalRewardDenominator := 500
  penaltyMultiplier := 3
  accPerShareMultiplier := 1000000000000
  expertVoteThreshold := 100000

def layout : Layout
    (VestSpec × Nat × Nat × Nat × Nat × Nat × Nat × Nat × Nat × Nat × Nat) Policy where
  build := fun (spec, vote, expert, knowledge, shareDenominator, pledgeFactor,
      circulatingCap, retrievalDenominator, penalty, accPerShare, threshold) =>
    ⟨spec, vote, expert, knowledge, shareDenominator, pledgeFactor, circulatingCap,
      retrievalDenominator, penalty, accPerShare, threshold⟩
  parts := fun policy =>
    (policy.rewardVestingSpec, policy.voteRewardShare, policy.expertRewardShare,
      policy.knowledgeRewardShare, policy.rewardShareDenominator,
      policy.retrievalPledgeFactor, policy.retrievalCirculatingCap,
      policy.retrievalRewardDenominator, policy.penaltyMultiplier,
      policy.accPerShareMultiplier, policy.expertVoteThreshold)

def thresholdAmount (policy : Policy) : Int :=
  Amount.ofWhole policy.expertVoteThreshold

end Policy

end RewardVesting
