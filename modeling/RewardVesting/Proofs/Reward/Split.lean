import Mathlib.Tactic.Ring
import RewardVesting.RewardSplit

namespace RewardVesting

/-- No part of a block is divided by zero. -/
structure Policy.Divisible (policy : Policy) : Prop where
  shareDenominator : policy.rewardShareDenominator ≠ 0
  retrievalDenominator : policy.retrievalRewardDenominator ≠ 0

theorem Policy.Divisible.divisor_pos {policy : Policy} {circulating : Int}
    (hdivisible : policy.Divisible) (hcirculating : 0 < circulating) :
    0 < circulating * policy.retrievalRewardDenominator := by
  have hdenominator := hdivisible.retrievalDenominator
  exact Int.mul_pos hcirculating (by omega)

/-- The shares fit into a block reward, and the cap on bandwidth fits into the knowledge
share. -/
structure Policy.Fair (policy : Policy) : Prop where
  shareDenominator : policy.rewardShareDenominator ≠ 0
  retrievalDenominator : policy.retrievalRewardDenominator ≠ 0
  shares : policy.voteRewardShare + policy.expertRewardShare + policy.knowledgeRewardShare ≤
    policy.rewardShareDenominator
  bandwidth : policy.retrievalCirculatingCap * policy.rewardShareDenominator ≤
    policy.knowledgeRewardShare * policy.retrievalRewardDenominator

theorem Policy.Fair.divisible {policy : Policy} (hfair : policy.Fair) : policy.Divisible :=
  ⟨hfair.shareDenominator, hfair.retrievalDenominator⟩

theorem Policy.fair_standard : Policy.standard.Fair := by
  constructor <;> decide

namespace RewardSplit

structure Nonneg (split : RewardSplit) : Prop where
  power : 0 ≤ split.power
  vote : 0 ≤ split.vote
  expert : 0 ≤ split.expert
  knowledge : 0 ≤ split.knowledge
  bandwidth : 0 ≤ split.bandwidth

variable {policy : Policy} {block circulating : Int}

/-! Quotients that are truncated towards zero, for blocks of either sign. -/

def quotaOf (policy : Policy) (block : Int) (share : Nat) : Int :=
  (block * share).tdiv policy.rewardShareDenominator

def cappedPledge (policy : Policy) (circulating pledged : Int) : Int :=
  min (max pledged 0 * policy.retrievalPledgeFactor)
    (circulating * policy.retrievalCirculatingCap)

def bandwidthQuota (policy : Policy) (block circulating pledged : Int) : Int :=
  if 0 < circulating then
    (cappedPledge policy circulating pledged * block).tdiv
      (circulating * policy.retrievalRewardDenominator)
  else 0

def quotas (policy : Policy) (block circulating pledged : Int) : RewardSplit where
  power := block - quotaOf policy block policy.voteRewardShare -
    quotaOf policy block policy.expertRewardShare -
      quotaOf policy block policy.knowledgeRewardShare
  vote := quotaOf policy block policy.voteRewardShare
  expert := quotaOf policy block policy.expertRewardShare
  knowledge := quotaOf policy block policy.knowledgeRewardShare -
    bandwidthQuota policy block circulating pledged
  bandwidth := bandwidthQuota policy block circulating pledged

theorem bandwidthOf_eq_quota (hdivisible : policy.Divisible)
    (block circulating pledged : Int) :
    bandwidthOf policy block circulating pledged =
      .ok (bandwidthQuota policy block circulating pledged) := by
  rw [bandwidthOf, bandwidthQuota]
  split
  · rename_i hcirculating
    exact divide_of_ne_zero (Int.ne_of_gt (hdivisible.divisor_pos hcirculating))
  · rfl

theorem ofBlock_eq_quotas (hdivisible : policy.Divisible)
    (block circulating pledged : Int) :
    ofBlock policy block circulating pledged =
      .ok (quotas policy block circulating pledged) := by
  have hshares := hdivisible.shareDenominator
  have hdenominator : (policy.rewardShareDenominator : Int) ≠ 0 := by omega
  simp only [ofBlock, divide_of_ne_zero hdenominator, bandwidthOf_eq_quota hdivisible]
  rfl

theorem cappedPledge_nonneg (policy : Policy) (hcirculating : 0 ≤ circulating)
    (pledged : Int) :
    0 ≤ cappedPledge policy circulating pledged :=
  Int.le_min.mpr ⟨Int.mul_nonneg (Int.le_max_right _ _) (Int.natCast_nonneg _),
    Int.mul_nonneg hcirculating (Int.natCast_nonneg _)⟩

theorem retrievalDenominator_pos (hfair : policy.Fair) :
    (0 : Int) < policy.retrievalRewardDenominator := by
  have hdenominator := hfair.retrievalDenominator
  omega

theorem shareDenominator_pos (hfair : policy.Fair) :
    (0 : Int) < policy.rewardShareDenominator := by
  have hdenominator := hfair.shareDenominator
  omega

def shareOf (policy : Policy) (block : Int) (share : Nat) : Int :=
  block * share / policy.rewardShareDenominator

theorem quotaOf_eq_shareOf (hblock : 0 ≤ block) (share : Nat) :
    quotaOf policy block share = shareOf policy block share :=
  Int.tdiv_eq_ediv_of_nonneg (Int.mul_nonneg hblock (Int.natCast_nonneg share))

theorem shareOf_nonneg (hblock : 0 ≤ block) (share : Nat) :
    0 ≤ shareOf policy block share :=
  Int.ediv_nonneg (Int.mul_nonneg hblock (Int.natCast_nonneg share)) (Int.natCast_nonneg _)

theorem mul_shareOf_le (hfair : policy.Fair) (block : Int) (share : Nat) :
    policy.rewardShareDenominator * shareOf policy block share ≤ block * share := by
  have hdenominator := hfair.shareDenominator
  exact Int.mul_ediv_self_le (by omega)

/-- Rounded shares take no more than the block. -/
theorem shares_le (hfair : policy.Fair) (hblock : 0 ≤ block) :
    shareOf policy block policy.voteRewardShare +
      shareOf policy block policy.expertRewardShare +
      shareOf policy block policy.knowledgeRewardShare ≤ block := by
  have hvote := mul_shareOf_le hfair block policy.voteRewardShare
  have hexpert := mul_shareOf_le hfair block policy.expertRewardShare
  have hknowledge := mul_shareOf_le hfair block policy.knowledgeRewardShare
  have hshares : (policy.voteRewardShare + policy.expertRewardShare +
      policy.knowledgeRewardShare : Int) ≤ policy.rewardShareDenominator := by
    exact_mod_cast hfair.shares
  have hscaled := Int.mul_le_mul_of_nonneg_left hshares hblock
  refine Int.le_of_mul_le_mul_left ?_ (shareDenominator_pos hfair)
  rw [Int.mul_add, Int.mul_add, Int.mul_comm _ block]
  rw [Int.mul_add, Int.mul_add] at hscaled
  omega

theorem bandwidth_le_share (hfair : policy.Fair) (hblock : 0 ≤ block)
    {circulating capped : Int} (hcirculating : 0 < circulating)
    (hcap : capped ≤ circulating * policy.retrievalCirculatingCap) :
    capped * block / (circulating * policy.retrievalRewardDenominator) ≤
      shareOf policy block policy.knowledgeRewardShare := by
  have hretrieval := retrievalDenominator_pos hfair
  have hshare := shareDenominator_pos hfair
  have hdivisor : 0 < circulating * policy.retrievalRewardDenominator :=
    Int.mul_pos hcirculating hretrieval
  refine Int.le_ediv_of_mul_le hshare ?_
  generalize hquotient :
    capped * block / (circulating * policy.retrievalRewardDenominator) = bandwidth
  -- First the supply is cancelled, and then the denominator of the retrieval reward.
  have hspent : circulating * (policy.retrievalRewardDenominator * bandwidth) ≤
      circulating * (policy.retrievalCirculatingCap * block) :=
    calc
      circulating * (policy.retrievalRewardDenominator * bandwidth) =
          circulating * policy.retrievalRewardDenominator * bandwidth := by ring
      _ ≤ capped * block := hquotient ▸ Int.mul_ediv_self_le (Int.ne_of_gt hdivisor)
      _ ≤ circulating * policy.retrievalCirculatingCap * block :=
        Int.mul_le_mul_of_nonneg_right hcap hblock
      _ = circulating * (policy.retrievalCirculatingCap * block) := by ring
  have hlimit : (policy.retrievalCirculatingCap * policy.rewardShareDenominator : Int) ≤
      policy.knowledgeRewardShare * policy.retrievalRewardDenominator := by
    exact_mod_cast hfair.bandwidth
  refine Int.le_of_mul_le_mul_left ?_ hretrieval
  calc
    policy.retrievalRewardDenominator * (bandwidth * policy.rewardShareDenominator) =
        policy.retrievalRewardDenominator * bandwidth * policy.rewardShareDenominator := by
      ring
    _ ≤ policy.retrievalCirculatingCap * block * policy.rewardShareDenominator :=
      Int.mul_le_mul_of_nonneg_right (Int.le_of_mul_le_mul_left hspent hcirculating)
        (Int.le_of_lt hshare)
    _ = policy.retrievalCirculatingCap * policy.rewardShareDenominator * block := by ring
    _ ≤ policy.knowledgeRewardShare * policy.retrievalRewardDenominator * block :=
      Int.mul_le_mul_of_nonneg_right hlimit hblock
    _ = policy.retrievalRewardDenominator * (block * policy.knowledgeRewardShare) := by ring

theorem bandwidthOf_bounds (hfair : policy.Fair) (hblock : 0 ≤ block)
    (circulating pledged : Int) :
    ∃ bandwidth, bandwidthOf policy block circulating pledged = .ok bandwidth ∧
      0 ≤ bandwidth ∧ bandwidth ≤ shareOf policy block policy.knowledgeRewardShare := by
  refine ⟨_, bandwidthOf_eq_quota hfair.divisible block circulating pledged, ?_⟩
  rw [bandwidthQuota]
  split
  · rename_i hcirculating
    have hdivisor := hfair.divisible.divisor_pos hcirculating
    have hproduct : 0 ≤ cappedPledge policy circulating pledged * block :=
      Int.mul_nonneg (cappedPledge_nonneg policy (Int.le_of_lt hcirculating) pledged) hblock
    rw [Int.tdiv_eq_ediv_of_nonneg hproduct]
    exact ⟨Int.ediv_nonneg hproduct (Int.le_of_lt hdivisor),
      bandwidth_le_share hfair hblock hcirculating (Int.min_le_right _ _)⟩
  · exact ⟨Int.le_refl 0, shareOf_nonneg hblock _⟩

theorem bandwidthOf_zero (hfair : policy.Fair) {circulating pledged : Int}
    (hnone : circulating ≤ 0 ∨ pledged ≤ 0) :
    bandwidthOf policy block circulating pledged = .ok 0 := by
  rw [bandwidthOf_eq_quota hfair.divisible, bandwidthQuota]
  split
  · rename_i hcirculating
    have hpledged : max pledged 0 = 0 := Int.max_eq_right (by omega)
    have hcap : 0 ≤ circulating * policy.retrievalCirculatingCap :=
      Int.mul_nonneg (Int.le_of_lt hcirculating) (Int.natCast_nonneg _)
    rw [cappedPledge, hpledged, Int.zero_mul, Int.min_eq_left hcap, Int.zero_mul,
      Int.zero_tdiv]
  · rfl

/-- The parts that a block is split into, once the bandwidth is known. -/
def parts (policy : Policy) (block bandwidth : Int) : RewardSplit where
  power := block - shareOf policy block policy.voteRewardShare -
    shareOf policy block policy.expertRewardShare -
    shareOf policy block policy.knowledgeRewardShare
  vote := shareOf policy block policy.voteRewardShare
  expert := shareOf policy block policy.expertRewardShare
  knowledge := shareOf policy block policy.knowledgeRewardShare - bandwidth
  bandwidth := bandwidth

theorem ofBlock_eq_parts (hfair : policy.Fair) (hblock : 0 ≤ block)
    {circulating pledged bandwidth : Int}
    (hbandwidth : bandwidthOf policy block circulating pledged = .ok bandwidth) :
    ofBlock policy block circulating pledged = .ok (parts policy block bandwidth) := by
  rw [bandwidthOf_eq_quota hfair.divisible] at hbandwidth
  rw [ofBlock_eq_quotas hfair.divisible, quotas, Except.ok.inj hbandwidth]
  simp only [quotaOf_eq_shareOf hblock]
  rfl

theorem parts_total (policy : Policy) (block bandwidth : Int) :
    (parts policy block bandwidth).total = block := by
  simp only [total, parts]
  omega

theorem parts_nonneg (hfair : policy.Fair) (hblock : 0 ≤ block) {bandwidth : Int}
    (hbandwidth : 0 ≤ bandwidth)
    (hle : bandwidth ≤ shareOf policy block policy.knowledgeRewardShare) :
    (parts policy block bandwidth).Nonneg where
  power := by
    have hshares := shares_le hfair hblock
    dsimp only [parts]
    omega
  vote := shareOf_nonneg hblock _
  expert := shareOf_nonneg hblock _
  knowledge := Int.sub_nonneg_of_le hle
  bandwidth := hbandwidth

/-- A block is split without a fault, without a negative part and without loss. -/
theorem ofBlock_of_fair (hfair : policy.Fair) (hblock : 0 ≤ block)
    (circulating pledged : Int) :
    ∃ split, ofBlock policy block circulating pledged = .ok split ∧ split.Nonneg ∧
      split.total = block := by
  obtain ⟨bandwidth, hbandwidth, hnonneg, hle⟩ :=
    bandwidthOf_bounds hfair hblock circulating pledged
  exact ⟨parts policy block bandwidth, ofBlock_eq_parts hfair hblock hbandwidth,
    parts_nonneg hfair hblock hnonneg hle, parts_total policy block bandwidth⟩

/-- What every part of a block is, whatever is supplied and pledged. -/
structure Divides (policy : Policy) (block circulating pledged : Int)
    (split : RewardSplit) : Prop where
  nonneg : split.Nonneg
  total : split.total = block
  vote : split.vote = block * policy.voteRewardShare / policy.rewardShareDenominator
  expert : split.expert = block * policy.expertRewardShare / policy.rewardShareDenominator
  knowledge : split.knowledge + split.bandwidth =
    block * policy.knowledgeRewardShare / policy.rewardShareDenominator
  bandwidth : circulating ≤ 0 ∨ pledged ≤ 0 → split.bandwidth = 0

/-- The standard policy is fair, and under a fair policy every block is divided: its parts
are rounded shares that add up, and retrieval costs the knowledge fund alone. -/
theorem fair_policies_divide :
    Policy.standard.Fair ∧ ∀ policy : Policy, policy.Fair → ∀ block : Int, 0 ≤ block →
      ∀ circulating pledged : Int, ∃ split,
        ofBlock policy block circulating pledged = .ok split ∧
          split.Divides policy block circulating pledged := by
  refine ⟨Policy.fair_standard, ?_⟩
  intro policy hfair block hblock circulating pledged
  obtain ⟨bandwidth, hbandwidth, hnonneg, hle⟩ :=
    bandwidthOf_bounds hfair hblock circulating pledged
  refine ⟨parts policy block bandwidth, ofBlock_eq_parts hfair hblock hbandwidth, {
    nonneg := parts_nonneg hfair hblock hnonneg hle
    total := parts_total policy block bandwidth
    vote := rfl
    expert := rfl
    knowledge := Int.sub_add_cancel _ _
    bandwidth := ?_ }⟩
  intro hnone
  rw [bandwidthOf_zero hfair hnone] at hbandwidth
  exact (Except.ok.inj hbandwidth).symm

theorem fair_policies_divide_at_cap : ∃ split,
    ofBlock Policy.standard 1007 500 1000 = .ok split ∧
      split.Divides Policy.standard 1007 500 1000 :=
  fair_policies_divide.2 Policy.standard Policy.fair_standard 1007 (by decide) 500 1000

end RewardSplit

end RewardVesting
