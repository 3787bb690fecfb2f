import Mathlib.Algebra.Order.Ring.Int
import RewardVesting.Proofs.Reward.Split

namespace RewardVesting.RewardSplit

variable {policy : Policy} {block circulating : Int}

theorem cappedPledge_mono (policy : Policy) (circulating : Int) {less more : Int}
    (hle : less ≤ more) :
    cappedPledge policy circulating less ≤ cappedPledge policy circulating more := by
  refine min_le_min ?_ (Int.le_refl _)
  exact Int.mul_le_mul_of_nonneg_right (max_le_max hle (Int.le_refl 0))
    (Int.natCast_nonneg _)

/-- Where the cap binds, the capped pledge grows as fast as the supply, and elsewhere not at
all. -/
theorem mul_cappedPledge_le {small large : Int} (hsmall : 0 ≤ small) (hle : small ≤ large)
    (pledged : Int) :
    small * cappedPledge policy large pledged ≤
      large * cappedPledge policy small pledged := by
  have hfactor : 0 ≤ max pledged 0 * (policy.retrievalPledgeFactor : Int) :=
    Int.mul_nonneg (Int.le_max_right _ _) (Int.natCast_nonneg _)
  have hcap : small * (large * (policy.retrievalCirculatingCap : Int)) =
      large * (small * policy.retrievalCirculatingCap) := by ring
  rw [cappedPledge, cappedPledge, mul_min_of_nonneg _ _ hsmall,
    mul_min_of_nonneg _ _ (Int.le_trans hsmall hle), hcap]
  exact min_le_min (Int.mul_le_mul_of_nonneg_right hle hfactor) (Int.le_refl _)

/-- Truncated fractions are ordered as the fractions are. -/
theorem tdiv_le_tdiv_of_mul_le {left right leftDivisor rightDivisor : Int}
    (hleft : 0 < leftDivisor) (hright : 0 < rightDivisor)
    (hle : rightDivisor * left ≤ leftDivisor * right) :
    left.tdiv leftDivisor ≤ right.tdiv rightDivisor := by
  calc
    left.tdiv leftDivisor = (rightDivisor * left).tdiv (rightDivisor * leftDivisor) :=
      (Int.mul_tdiv_mul_of_pos _ _ hright).symm
    _ ≤ (leftDivisor * right).tdiv (rightDivisor * leftDivisor) :=
      Int.tdiv_le_tdiv (Int.mul_pos hright hleft) hle
    _ = right.tdiv rightDivisor := by
      rw [Int.mul_comm rightDivisor, Int.mul_tdiv_mul_of_pos _ _ hleft]

theorem bandwidthQuota_le (hdivisible : policy.Divisible) {other less more : Int}
    (hle : 0 < circulating → cappedPledge policy circulating less * block ≤
      cappedPledge policy circulating more * other) :
    bandwidthQuota policy block circulating less ≤
      bandwidthQuota policy other circulating more := by
  rw [bandwidthQuota, bandwidthQuota]
  split
  · rename_i hcirculating
    exact Int.tdiv_le_tdiv (hdivisible.divisor_pos hcirculating) (hle hcirculating)
  · exact Int.le_refl 0

theorem bandwidthQuota_mono_pledge (hdivisible : policy.Divisible) (hblock : 0 ≤ block)
    (circulating : Int) {less more : Int} (hle : less ≤ more) :
    bandwidthQuota policy block circulating less ≤
      bandwidthQuota policy block circulating more :=
  bandwidthQuota_le hdivisible fun _ =>
    Int.mul_le_mul_of_nonneg_right (cappedPledge_mono policy circulating hle) hblock

theorem bandwidthQuota_mono_block (hdivisible : policy.Divisible)
    (circulating pledged : Int) {less more : Int} (hle : less ≤ more) :
    bandwidthQuota policy less circulating pledged ≤
      bandwidthQuota policy more circulating pledged :=
  bandwidthQuota_le hdivisible fun hcirculating =>
    Int.mul_le_mul_of_nonneg_left hle
      (cappedPledge_nonneg policy (Int.le_of_lt hcirculating) pledged)

theorem bandwidthQuota_antitone_supply (hdivisible : policy.Divisible) (hblock : 0 ≤ block)
    {small large : Int} (hsmall : 0 < small) (hle : small ≤ large) (pledged : Int) :
    bandwidthQuota policy block large pledged ≤
      bandwidthQuota policy block small pledged := by
  have hlarge : 0 < large := Int.lt_of_lt_of_le hsmall hle
  rw [bandwidthQuota, bandwidthQuota, if_pos hsmall, if_pos hlarge]
  refine tdiv_le_tdiv_of_mul_le (hdivisible.divisor_pos hlarge)
    (hdivisible.divisor_pos hsmall) ?_
  have hcapped : small * cappedPledge policy large pledged ≤
      large * cappedPledge policy small pledged :=
    mul_cappedPledge_le (Int.le_of_lt hsmall) hle pledged
  generalize cappedPledge policy large pledged = ample at hcapped ⊢
  generalize cappedPledge policy small pledged = scarce at hcapped ⊢
  calc
    small * policy.retrievalRewardDenominator * (ample * block) =
        small * ample * (block * policy.retrievalRewardDenominator) := by ring
    _ ≤ large * scarce * (block * policy.retrievalRewardDenominator) :=
      Int.mul_le_mul_of_nonneg_right hcapped (Int.mul_nonneg hblock (Int.natCast_nonneg _))
    _ = large * policy.retrievalRewardDenominator * (scarce * block) := by ring

theorem bandwidthQuota_neg (policy : Policy) (block circulating pledged : Int) :
    bandwidthQuota policy (-block) circulating pledged =
      -bandwidthQuota policy block circulating pledged := by
  rw [bandwidthQuota, bandwidthQuota]
  split
  · rw [Int.mul_neg, Int.neg_tdiv]
  · rfl

/-- How the parts of a block move with what is pledged, with the block and with the
supply. -/
structure Sloped (split : Int → Int → Int → RewardSplit) : Prop where
  pledge : ∀ block circulating less more, 0 ≤ block → less ≤ more →
    (split block circulating less).bandwidth ≤ (split block circulating more).bandwidth
  block : ∀ less more circulating pledged, less ≤ more →
    (split less circulating pledged).bandwidth ≤ (split more circulating pledged).bandwidth
  supply : ∀ block small large pledged, 0 ≤ block → 0 < small → small ≤ large →
    (split block large pledged).bandwidth ≤ (split block small pledged).bandwidth
  /-- A negative block takes back what the positive one gives. -/
  mirrored : ∀ block circulating pledged,
    (split (-block) circulating pledged).bandwidth =
      -(split block circulating pledged).bandwidth
  /-- What is pledged and supplied moves nothing but the line between knowledge and
  bandwidth. -/
  fixed : ∀ block circulating pledged otherCirculating otherPledged,
    let left := split block circulating pledged
    let right := split block otherCirculating otherPledged
    left.power = right.power ∧ left.vote = right.vote ∧ left.expert = right.expert ∧
      left.knowledge + left.bandwidth = right.knowledge + right.bandwidth

/-- Without a zero for a divisor every block is split, and the bandwidth rises with what is
pledged and with the block, and falls with the supply. -/
theorem ofBlock_sloped (hdivisible : policy.Divisible) :
    ∃ split : Int → Int → Int → RewardSplit,
      (∀ block circulating pledged,
        ofBlock policy block circulating pledged = .ok (split block circulating pledged)) ∧
      Sloped split := by
  refine ⟨quotas policy, ofBlock_eq_quotas hdivisible, {
    pledge := fun block circulating less more hblock hle =>
      bandwidthQuota_mono_pledge hdivisible hblock circulating hle
    block := fun less more circulating pledged hle =>
      bandwidthQuota_mono_block hdivisible circulating pledged hle
    supply := fun block small large pledged hblock hsmall hle =>
      bandwidthQuota_antitone_supply hdivisible hblock hsmall hle pledged
    mirrored := bandwidthQuota_neg policy
    fixed := ?_ }⟩
  intro block circulating pledged otherCirculating otherPledged
  refine ⟨rfl, rfl, rfl, ?_⟩
  rw [quotas, quotas, Int.sub_add_cancel, Int.sub_add_cancel]

/-- Of the two supplies only the smaller one caps the pledge. -/
theorem ofBlock_sloped_across_cap : Policy.standard.Divisible ∧ ∃ scarce ample,
    ofBlock Policy.standard 1007 50 40 = .ok scarce ∧
      ofBlock Policy.standard 1007 60 40 = .ok ample ∧
      scarce.bandwidth = 151 ∧ ample.bandwidth = 134 ∧
        ample.bandwidth ≤ scarce.bandwidth := by
  have hdivisible := Policy.fair_standard.divisible
  obtain ⟨split, hsplit, hsloped⟩ := ofBlock_sloped hdivisible
  have hscarce : split 1007 50 40 = ⟨756, 10, 90, 0, 151⟩ :=
    Except.ok.inj ((hsplit 1007 50 40).symm.trans (by decide))
  have hample : split 1007 60 40 = ⟨756, 10, 90, 17, 134⟩ :=
    Except.ok.inj ((hsplit 1007 60 40).symm.trans (by decide))
  have hfalls := hsloped.supply 1007 50 60 40 (by decide) (by decide) (by decide)
  exact ⟨hdivisible, _, _, hsplit 1007 50 40,
    hsplit 1007 60 40, by rw [hscarce], by rw [hample], hfalls⟩

end RewardVesting.RewardSplit
