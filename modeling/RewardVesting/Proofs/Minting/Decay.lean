import RewardVesting.Proofs.Minting.Series

namespace RewardVesting.Minting

open Coefficients

/-- Units of the minted fraction that are worth more than two of the smallest units of a
token, which is what the roundings of three amounts can hide. -/
def margin : Int := 634

/-- By how much the growth of the minted fraction slows down from one epoch to the next,
beyond all roundings and the margin. -/
def slowdown : Coefficients :=
  (((fraction.shift 1).scale 2).add ((fraction.add (fraction.shift 2)).scale (-1))).add
    (((tolerance.shift 2).scale (-4)).add [-margin])

theorem slowdown_staysNonneg : slowdown.StaysNonneg 8000000 8 := by
  decide +kernel

theorem tolerance_nonneg : tolerance.Nonneg := by
  decide +kernel

/-- The minted fraction grows ever more slowly, and then shrinks ever faster. -/
theorem mintedFraction_slows {epoch : Int} (hepoch : 0 ≤ epoch) :
    mintedFraction (epoch <<< inputBits) + mintedFraction
      ((epoch + 2) <<< inputBits) + margin ≤
      2 * mintedFraction ((epoch + 1) <<< inputBits) := by
  have hpoint : (0 : ℚ) ≤ epoch := by exact_mod_cast hepoch
  have hfirst := mintedFraction_near hepoch
  have hsecond := mintedFraction_near (show 0 ≤ epoch + 1 by omega)
  have hthird := mintedFraction_near (show 0 ≤ epoch + 2 by omega)
  push_cast at hsecond hthird
  have hearly : tolerance.eval epoch ≤ tolerance.eval (epoch + 2) :=
    tolerance_nonneg.eval_mono hpoint (by linarith)
  have hmiddle : tolerance.eval (epoch + 1) ≤ tolerance.eval (epoch + 2) :=
    tolerance_nonneg.eval_mono (by linarith) (by linarith)
  have hslow := slowdown_staysNonneg.eval_nonneg hpoint
  simp only [slowdown, eval_add, eval_scale, eval_shift, eval_cons, eval_nil,
    add_comm _ (epoch : ℚ), mul_zero, add_zero] at hslow
  have hcast : (mintedFraction (epoch <<< inputBits) : ℚ) +
      mintedFraction ((epoch + 2) <<< inputBits) + margin ≤
        2 * mintedFraction ((epoch + 1) <<< inputBits) := by
    rw [abs_le] at hfirst hsecond hthird
    linarith [hfirst.2, hsecond.1, hthird.2]
  exact_mod_cast hcast

private theorem mintedBy_bounds (epoch : Int) :
    2 ^ outputBits * mintedBy epoch ≤ supply * mintedFraction (epoch <<< inputBits) ∧
      supply * mintedFraction (epoch <<< inputBits) <
        2 ^ outputBits * mintedBy epoch + 2 ^ outputBits := by
  rw [mintedBy, Int.shiftRight_eq_div_pow]
  generalize supply * mintedFraction (epoch <<< inputBits) = product
  have hbits : ((2 ^ outputBits : Nat) : Int) = 2 ^ outputBits := by norm_num [outputBits]
  rw [hbits, outputBits]
  omega

theorem rewardOf_succ_lt {epoch : Int} (hepoch : 0 ≤ epoch) :
    rewardOf (epoch + 1) < rewardOf epoch := by
  obtain ⟨hfirst, _⟩ := mintedBy_bounds epoch
  obtain ⟨_, hsecond⟩ := mintedBy_bounds (epoch + 1)
  obtain ⟨hthird, _⟩ := mintedBy_bounds (epoch + 2)
  have hslow := mintedFraction_slows hepoch
  have hsupply : 2 * 2 ^ outputBits < supply * margin := by decide
  have hpositive : 0 < supply := by decide
  have hscaled := mul_le_mul_of_nonneg_left hslow hpositive.le
  have hsum : 2 ^ outputBits * (mintedBy epoch + mintedBy (epoch + 2)) <
      2 ^ outputBits * (2 * mintedBy (epoch + 1)) := by
    linarith
  have hminted := lt_of_mul_lt_mul_left hsum (by positivity)
  rw [rewardOf, rewardOf, add_assoc, one_add_one_eq_two]
  omega

theorem rewardOf_antitone {earlier later : Int} (hearlier : 0 ≤ earlier)
    (hlater : earlier ≤ later) :
    rewardOf later ≤ rewardOf earlier := by
  induction later, hlater using Int.leInduction with
  | base => exact le_refl _
  | succ later hle ih => exact (rewardOf_succ_lt (hearlier.trans hle)).le.trans ih

/-- No epoch is rewarded as highly as the one before it, and both rewards can be computed as
long as the epochs up to the second next can be represented. -/
theorem epochReward_decays {epoch : Int} (hepoch : 0 ≤ epoch)
    (hlast : Epoch.Representable (epoch + 2)) :
    ∃ reward next, epochReward epoch = .ok reward ∧ epochReward (epoch + 1) = .ok next ∧
      next < reward := by
  have hfirst : Epoch.Representable (epoch + 1) := by
    obtain ⟨_, hhighest⟩ := hlast
    have hlowest : Epoch.lowest ≤ 0 := by decide
    exact ⟨by omega, by omega⟩
  have hsecond : Epoch.Representable (epoch + 1 + 1) := by
    rwa [add_assoc, one_add_one_eq_two]
  exact ⟨rewardOf epoch, rewardOf (epoch + 1), epochReward_of_representable hfirst,
    epochReward_of_representable hsecond, rewardOf_succ_lt hepoch⟩

/-- The decay does not stop at zero. -/
theorem epochReward_decays_below_zero :
    Epoch.Representable (66542129 + 2) ∧
      epochReward 66542129 = .ok 2032037932 ∧ epochReward 66542130 = .ok (-15155723406) ∧
      (-15155723406 : Int) < 2032037932 := by
  have hlast : Epoch.Representable (66542129 + 2) := by decide
  have hreward : epochReward 66542129 = .ok 2032037932 := by decide
  have hnext : epochReward (66542129 + 1) = .ok (-15155723406) := by decide
  obtain ⟨reward, next, hfirst, hsecond, hdecay⟩ := epochReward_decays (by decide) hlast
  cases hreward.symm.trans hfirst
  cases hnext.symm.trans hsecond
  exact ⟨hlast, hreward, hnext, hdecay⟩

end RewardVesting.Minting
