import RewardVesting.Proofs.Minting.Decay

namespace RewardVesting

/-! The series is cut off after finitely many terms, and far out its last term outweighs the
others: what it says has been minted comes to fall. -/

namespace Minting

/-- The first epoch that mints less than nothing. -/
def turningEpoch : Int := 66542130

private theorem rewardOf_before_turningEpoch : 0 ≤ rewardOf (turningEpoch - 1) := by
  decide

private theorem rewardOf_turningEpoch : rewardOf turningEpoch < 0 := by
  decide

theorem rewardOf_nonneg_iff {epoch : Int} (hepoch : 0 ≤ epoch) :
    0 ≤ rewardOf epoch ↔ epoch < turningEpoch := by
  constructor
  · intro hnonneg
    by_contra hlate
    have hle := rewardOf_antitone (show 0 ≤ turningEpoch by decide) (not_lt.mp hlate)
    exact absurd rewardOf_turningEpoch (not_lt.mpr (hnonneg.trans hle))
  · intro hearly
    have hle := rewardOf_antitone hepoch (show epoch ≤ turningEpoch - 1 by omega)
    exact rewardOf_before_turningEpoch.trans hle

theorem mintedBy_zero : mintedBy 0 = 0 := by
  decide

theorem mintedBy_mono {earlier later : Int} (hearlier : 0 ≤ earlier) (hle : earlier ≤ later)
    (hlater : later ≤ turningEpoch) : mintedBy earlier ≤ mintedBy later := by
  induction later, hle using Int.leInduction with
  | base => exact le_refl _
  | succ later hle ih =>
      have hreward := (rewardOf_nonneg_iff (hearlier.trans hle)).mpr (by omega)
      rw [rewardOf] at hreward
      have hminted := ih (by omega)
      omega

theorem mintedBy_nonneg {epoch : Int} (hepoch : 0 ≤ epoch) (hearly : epoch ≤ turningEpoch) :
    0 ≤ mintedBy epoch := by
  have hminted := mintedBy_mono (le_refl 0) hepoch hearly
  rwa [mintedBy_zero] at hminted

end Minting

end RewardVesting
