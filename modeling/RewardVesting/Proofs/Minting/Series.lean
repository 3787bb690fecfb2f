import Mathlib.Data.Rat.Cast.Order
import Mathlib.Tactic.FieldSimp
import RewardVesting.Minting
import RewardVesting.Proofs.Minting.Coefficients

namespace RewardVesting.Minting

open Coefficients

/-! The series without its roundings is a polynomial in the epoch.  Its denominators do not
depend on the epoch, so that the polynomial can be written down. -/

/-- What one term divides by, and how many bits are dropped after it. -/
structure Stage where
  divisor : Int
  excess : Nat

/-- The decay per epoch as it enters a numerator. -/
def slope : Int := lambdaNumerator <<< inputBits

namespace Stage

def start (baseDenominator : Int) (index : Nat) (denominator : Int) : Stage where
  divisor := denominator * index
  excess := bitLength (denominator * index * baseDenominator) - outputBits

/-- The denominator that the next term begins with. -/
def following (baseDenominator : Int) (stage : Stage) : Int :=
  (stage.divisor * baseDenominator) >>> stage.excess

def weight (stage : Stage) : ℚ := (2 ^ outputBits : Nat) / stage.divisor

/-- What one more power of the epoch contributes to a numerator. -/
def growth (stage : Stage) : ℚ := slope / (2 ^ stage.excess : Nat)

end Stage

def stagesFrom (baseDenominator : Int) :
    (terms : Nat) → (index : Nat) → (denominator : Int) → List Stage
  | 0, _, _ => []
  | terms + 1, index, denominator =>
    let stage := Stage.start baseDenominator index denominator
    stage :: stagesFrom baseDenominator terms (index + 1) (stage.following baseDenominator)

private theorem seriesFrom_succ (baseNumerator baseDenominator : Int) (terms index : Nat)
    (numerator denominator : Int) {stage : Stage}
    (hstage : Stage.start baseDenominator index denominator = stage) :
    seriesFrom baseNumerator baseDenominator (terms + 1) index numerator denominator =
      (numerator <<< outputBits).tdiv stage.divisor +
        seriesFrom baseNumerator baseDenominator terms (index + 1)
          ((numerator * baseNumerator) >>> stage.excess)
            (stage.following baseDenominator) := by
  cases hstage
  rfl

/-- The sum of the terms, per unit of the first numerator. -/
def alternating : List Stage → Coefficients
  | [] => []
  | stage :: rest => stage.weight :: (alternating rest).scale (-stage.growth)

/-- What an error in the first numerator can add up to. -/
def amplification : List Stage → Coefficients
  | [] => []
  | stage :: rest => stage.weight :: (amplification rest).scale stage.growth

/-- What the roundings can add up to: one unit for each term, and one for each numerator
after the first, carried on through the terms that follow. -/
def roundings : List Stage → Coefficients
  | [] => []
  | _ :: rest => Coefficients.add [1] ((amplification rest).add (roundings rest))

private theorem abs_tdiv_sub_le (value : Int) {divisor : Int} (hdivisor : 0 < divisor) :
    |((value.tdiv divisor : Int) : ℚ) - value / divisor| ≤ 1 := by
  have hpositive : (0 : ℚ) < divisor := by exact_mod_cast hdivisor
  have hsplit : (divisor : ℚ) * (value.tdiv divisor : Int) + (value.tmod divisor : Int) =
      value := by
    exact_mod_cast Int.mul_tdiv_add_tmod value divisor
  have hbelow : -(divisor : ℚ) < (value.tmod divisor : Int) := by
    exact_mod_cast Int.lt_tmod_of_pos value hdivisor
  have habove : ((value.tmod divisor : Int) : ℚ) < divisor := by
    exact_mod_cast Int.tmod_lt_of_pos value hdivisor
  have hquotient : ((value.tdiv divisor : Int) : ℚ) - value / divisor =
      -((value.tmod divisor : Int) : ℚ) / divisor := by
    rw [← hsplit]
    field_simp
    ring
  rw [hquotient, abs_le, le_div_iff₀ hpositive, div_le_iff₀ hpositive]
  constructor <;> linarith

private theorem abs_shiftRight_sub_le (value : Int) (bits : Nat) :
    |((value >>> bits : Int) : ℚ) - value / (2 ^ bits : Nat)| ≤ 1 := by
  have hpower : (0 : Int) < (2 ^ bits : Nat) := by positivity
  have hpositive : (0 : ℚ) < (2 ^ bits : Nat) := by positivity
  have hsplit : ((2 ^ bits : Nat) : ℚ) * (value >>> bits : Int) +
      (value % (2 ^ bits : Nat) : Int) = value := by
    rw [Int.shiftRight_eq_div_pow]
    exact_mod_cast Int.mul_ediv_add_emod value (2 ^ bits : Nat)
  have hbelow : (0 : ℚ) ≤ (value % (2 ^ bits : Nat) : Int) := by
    exact_mod_cast Int.emod_nonneg value hpower.ne'
  have habove : ((value % (2 ^ bits : Nat) : Int) : ℚ) < (2 ^ bits : Nat) := by
    exact_mod_cast Int.emod_lt_of_pos value hpower
  have hquotient : ((value >>> bits : Int) : ℚ) - value / (2 ^ bits : Nat) =
      -((value % (2 ^ bits : Nat) : Int) : ℚ) / (2 ^ bits : Nat) := by
    rw [eq_div_iff hpositive.ne', sub_mul, div_mul_cancel₀ _ hpositive.ne']
    linarith
  rw [hquotient, abs_le, le_div_iff₀ hpositive, div_le_iff₀ hpositive]
  constructor <;> linarith

/-- A term is off by its rounding and by what its numerator is off. -/
private theorem term_near {stage : Stage} {numerator : Int} {ideal error : ℚ}
    (hdivisor : 0 < stage.divisor) (hnear : |(numerator : ℚ) - ideal| ≤ error) :
    |(((numerator <<< outputBits).tdiv stage.divisor : Int) : ℚ) - ideal * stage.weight| ≤
      error * stage.weight + 1 := by
  have hweight : 0 ≤ stage.weight := by
    have hpositive : (0 : ℚ) < stage.divisor := by exact_mod_cast hdivisor
    exact div_nonneg (Nat.cast_nonneg _) hpositive.le
  have hscaled : ((numerator <<< outputBits : Int) : ℚ) / stage.divisor =
      numerator * stage.weight := by
    rw [Stage.weight, Int.shiftLeft_eq]
    push_cast
    ring
  have hrounding := abs_tdiv_sub_le (numerator <<< outputBits) hdivisor
  have hcarried : |numerator * stage.weight - ideal * stage.weight| ≤
      error * stage.weight := by
    rw [← sub_mul, abs_mul, abs_of_nonneg hweight]
    exact mul_le_mul_of_nonneg_right hnear hweight
  rw [hscaled] at hrounding
  calc
    _ ≤ _ := abs_sub_le _ ((numerator : ℚ) * stage.weight) _
    _ ≤ error * stage.weight + 1 := by linarith

/-- The next numerator is off by its rounding and by what this one is off. -/
private theorem numerator_near (stage : Stage) {epoch numerator : Int} {ideal error : ℚ}
    (hepoch : 0 ≤ epoch) (hnear : |(numerator : ℚ) - ideal| ≤ error) :
    |(((numerator * -(slope * epoch)) >>> stage.excess : Int) : ℚ) -
        ideal * (-stage.growth * epoch)| ≤ error * (stage.growth * epoch) + 1 := by
  have hslope : (0 : ℚ) ≤ slope := by
    have hpositive : 0 ≤ slope := by decide
    exact_mod_cast hpositive
  have hgrowth : 0 ≤ stage.growth * epoch :=
    mul_nonneg (div_nonneg hslope (Nat.cast_nonneg _)) (by exact_mod_cast hepoch)
  have hscaled : ((numerator * -(slope * epoch) : Int) : ℚ) / (2 ^ stage.excess : Nat) =
      numerator * (-stage.growth * epoch) := by
    rw [Stage.growth]
    push_cast
    ring
  have hrounding := abs_shiftRight_sub_le (numerator * -(slope * epoch)) stage.excess
  have hcarried : |numerator * (-stage.growth * epoch) - ideal * (-stage.growth * epoch)| ≤
      error * (stage.growth * epoch) := by
    rw [← sub_mul, abs_mul, neg_mul, abs_neg, abs_of_nonneg hgrowth]
    exact mul_le_mul_of_nonneg_right hnear hgrowth
  rw [hscaled] at hrounding
  calc
    _ ≤ _ := abs_sub_le _ (numerator * (-stage.growth * epoch)) _
    _ ≤ error * (stage.growth * epoch) + 1 := by linarith

theorem seriesFrom_near {epoch baseDenominator : Int} (hepoch : 0 ≤ epoch) (terms : Nat)
    {index : Nat} {numerator denominator : Int} {ideal error : ℚ}
    (hpositive : ∀ stage ∈ stagesFrom baseDenominator terms index denominator,
      0 < stage.divisor)
    (hnear : |(numerator : ℚ) - ideal| ≤ error) :
    |(seriesFrom (-(slope * epoch)) baseDenominator terms index numerator denominator : ℚ) -
        ideal *
          (alternating (stagesFrom baseDenominator terms index denominator)).eval epoch| ≤
      error *
          (amplification (stagesFrom baseDenominator terms index denominator)).eval epoch +
        (roundings (stagesFrom baseDenominator terms index denominator)).eval epoch := by
  induction terms generalizing index numerator denominator ideal error with
  | zero => simp [seriesFrom, stagesFrom, alternating, amplification, roundings]
  | succ terms ih =>
      generalize hstage : Stage.start baseDenominator index denominator = stage
      rw [stagesFrom, hstage] at hpositive ⊢
      obtain ⟨hdivisor, hrest⟩ := List.forall_mem_cons.mp hpositive
      have hterm := term_near hdivisor hnear
      have hfollowing := ih hrest (numerator_near stage hepoch hnear)
      rw [seriesFrom_succ _ _ _ _ _ _ hstage]
      simp only [alternating, amplification, roundings, eval_cons, eval_scale,
        eval_add, eval_nil]
      push_cast
      rw [abs_le] at hterm hfollowing ⊢
      constructor <;> linarith [hterm.1, hterm.2, hfollowing.1, hfollowing.2]

def stages : List Stage :=
  stagesFrom (lambdaDenominator <<< inputBits) termCount 1 (lambdaDenominator <<< inputBits)

/-- The minted fraction without roundings, as a polynomial in the epoch. -/
def fraction : Coefficients := 0 :: (alternating stages).scale slope

/-- How far the roundings can take the minted fraction off. -/
def tolerance : Coefficients := roundings stages

theorem divisor_pos_of_mem_stages : ∀ stage ∈ stages, 0 < stage.divisor := by
  decide

theorem mintedFraction_near {epoch : Int} (hepoch : 0 ≤ epoch) :
    |(mintedFraction (epoch <<< inputBits) : ℚ) - fraction.eval epoch| ≤
        tolerance.eval epoch := by
  have hbase : -lambdaNumerator * epoch <<< inputBits = -(slope * epoch) := by
    rw [slope, Int.shiftLeft_eq, Int.shiftLeft_eq]
    ring
  have hfirst : |((-(-(slope * epoch)) : Int) : ℚ) - slope * epoch| ≤ 0 := by simp
  have hseries := seriesFrom_near hepoch termCount divisor_pos_of_mem_stages hfirst
  have hfraction : fraction.eval epoch =
      slope * epoch * (alternating stages).eval epoch := by
    rw [fraction, eval_cons, eval_scale]
    ring
  rw [zero_mul, zero_add] at hseries
  rw [hfraction, mintedFraction, hbase]
  exact hseries

end RewardVesting.Minting
