import RewardVesting.Proofs.Minting.Turning

namespace RewardVesting.Minting

/-! What all epochs together hand out is what has been minted, and that peaks below the
supply. -/

/-- The rewards of the first epochs, added up one after another. -/
def rewardsBefore : (epochs : Nat) → Except Fault Int
  | 0 => .ok 0
  | epochs + 1 => do
    let earlier ← rewardsBefore epochs
    let reward ← epochReward epochs
    return earlier + reward

theorem representable_natCast {epochs : Nat} :
    Epoch.Representable (epochs : Int) ↔ (epochs : Int) ≤ Epoch.highest := by
  have hlowest : Epoch.lowest ≤ 0 := by decide
  constructor
  · intro hrepresentable
    exact hrepresentable.2
  · intro hle
    exact ⟨by omega, hle⟩

/-- Each reward brings the sum from what has been minted by one epoch to the next. -/
theorem rewardsBefore_eq {epochs : Nat} (hepochs : Epoch.Representable epochs) :
    rewardsBefore epochs = .ok (mintedBy epochs) := by
  induction epochs with
  | zero =>
      rw [rewardsBefore, Int.natCast_zero, mintedBy_zero]
  | succ epochs ih =>
      have hlast := representable_natCast.mp hepochs
      push_cast at hlast
      have hearlier : Epoch.Representable epochs := by
        apply representable_natCast.mpr
        omega
      have hreward : epochReward epochs = .ok (rewardOf epochs) := by
        apply epochReward_of_representable
        exact_mod_cast hepochs
      have hsum : mintedBy epochs + rewardOf epochs = mintedBy (epochs + 1) := by
        rw [rewardOf]
        omega
      rw [rewardsBefore, ih hearlier, hreward]
      push_cast
      rw [← hsum]
      rfl

theorem mintedBy_antitone {earlier later : Int} (hearlier : turningEpoch ≤ earlier)
    (hle : earlier ≤ later) : mintedBy later ≤ mintedBy earlier := by
  have hturning : 0 ≤ turningEpoch := by decide
  induction later, hle using Int.leInduction with
  | base => exact le_refl _
  | succ later hle ih =>
      have hreward : ¬0 ≤ rewardOf later := by
        rw [rewardOf_nonneg_iff (by omega)]
        omega
      rw [rewardOf] at hreward
      omega

theorem mintedBy_le_turningEpoch {epoch : Int} (hepoch : 0 ≤ epoch) :
    mintedBy epoch ≤ mintedBy turningEpoch := by
  rcases le_total epoch turningEpoch with hbefore | hafter
  · exact mintedBy_mono hepoch hbefore (le_refl _)
  · exact mintedBy_antitone (le_refl _) hafter

theorem mintedBy_turningEpoch_lt_supply : mintedBy turningEpoch < supply := by
  decide

/-- However many epochs pass, their rewards add up to what has been minted, and never to
more than all tokens reserved for them. -/
theorem rewardsBefore_le_supply (epochs : Nat) (hepochs : Epoch.Representable epochs) :
    rewardsBefore epochs = .ok (mintedBy epochs) ∧ mintedBy epochs ≤ supply := by
  constructor
  · exact rewardsBefore_eq hepochs
  · calc
      mintedBy epochs ≤ mintedBy turningEpoch := mintedBy_le_turningEpoch (by omega)
      _ ≤ supply := mintedBy_turningEpoch_lt_supply.le

theorem rewardsBefore_le_supply_at_peak :
    Epoch.Representable (66542130 : Nat) ∧
      rewardsBefore 66542130 = .ok 499566085720845008783531558 ∧
      (499566085720845008783531558 : Int) ≤ supply := by
  have hpeak : Epoch.Representable (66542130 : Nat) := by decide
  have hminted : mintedBy (66542130 : Nat) = 499566085720845008783531558 := by
    decide
  have hcapped := rewardsBefore_le_supply 66542130 hpeak
  rw [hminted] at hcapped
  exact ⟨hpeak, hcapped⟩

end RewardVesting.Minting
