import RewardVesting.Amount
import RewardVesting.Epoch
import RewardVesting.Network

namespace RewardVesting

/-! The supply decays exponentially with a half-life of six years.  The minted fraction
`1 - exp (-λt)` is a series of fixed-point numbers, exact in every rounding. -/

namespace Minting

/-- Fractional bits of the time. -/
def inputBits : Nat := 30

/-- Fractional bits of the minted fraction. -/
def outputBits : Nat := 97

/-- The natural logarithm of two, as a quotient. -/
def lnTwoNumerator : Int := 6931471805599453094172321215

def lnTwoDenominator : Int := 10000000000000000000000000000

/-- The decay per epoch, as a quotient. -/
def lambdaNumerator : Int := Network.epochDurationSeconds * lnTwoNumerator

def lambdaDenominator : Int := 6 * Network.secondsInYear * lnTwoDenominator

/-- All tokens reserved for block rewards. -/
def supply : Int := 500000000 * Amount.precision

/-- Terms of the series that are added up. -/
def termCount : Nat := 24

def bitLength (value : Int) : Nat :=
  if value = 0 then 0 else value.natAbs.log2 + 1

/-- One term after another: each step multiplies both sides of the fraction by those of the
exponent and then drops the bits that the next term does not need. -/
def seriesFrom (baseNumerator baseDenominator : Int) :
    (terms : Nat) → (index : Nat) → (numerator denominator : Int) → Int
  | 0, _, _, _ => 0
  | terms + 1, index, numerator, denominator =>
    let divisor := denominator * index
    let term := (numerator <<< outputBits).tdiv divisor
    let product := divisor * baseDenominator
    let excess := bitLength product - outputBits
    term + seriesFrom baseNumerator baseDenominator terms (index + 1)
      ((numerator * baseNumerator) >>> excess) (product >>> excess)

/-- The minted fraction at fixed-point time `time`. -/
def mintedFraction (time : Int) : Int :=
  let baseNumerator := -lambdaNumerator * time
  let baseDenominator := lambdaDenominator <<< inputBits
  seriesFrom baseNumerator baseDenominator termCount 1 (-baseNumerator) baseDenominator

/-- What has been minted by the start of `epoch`. -/
def mintedBy (epoch : Int) : Int :=
  (supply * mintedFraction (epoch <<< inputBits)) >>> outputBits

/-- What `epoch` mints. -/
def rewardOf (epoch : Int) : Int :=
  mintedBy (epoch + 1) - mintedBy epoch

/-- The reward of an epoch that has a successor. -/
def epochReward (epoch : Int) : Except Fault Int := do
  let _ ← Epoch.add epoch 1
  return rewardOf epoch

theorem epochReward_eq_ok {epoch reward : Int} :
    epochReward epoch = .ok reward ↔
      Epoch.Representable (epoch + 1) ∧ reward = rewardOf epoch := by
  by_cases hnext : Epoch.Representable (epoch + 1)
  · rw [epochReward, Epoch.add_of_representable hnext]
    simp [hnext, bind, Except.bind, pure, Except.pure, eq_comm]
  · simp [epochReward, Epoch.add, hnext, bind, Except.bind]

theorem epochReward_of_representable {epoch : Int}
    (hnext : Epoch.Representable (epoch + 1)) :
    epochReward epoch = .ok (rewardOf epoch) :=
  epochReward_eq_ok.mpr ⟨hnext, rfl⟩

end Minting

end RewardVesting
