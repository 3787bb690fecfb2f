import Mathlib.Order.Bounds.Basic
import RewardVesting.Proofs.Epoch

namespace RewardVesting.Epoch

variable {epoch unit : Int}

/-! Rounding up against all multiples of a unit, and what is lost to the limit of epochs. -/

def multiplesFrom (epoch unit : Int) : Set Int :=
  {multiple | unit ∣ multiple ∧ epoch ≤ multiple}

theorem isLeast_ceiling (epoch : Int) (hunit : 1 < unit) :
    IsLeast (multiplesFrom epoch unit) (ceiling epoch unit) := by
  constructor
  · exact ⟨dvd_ceiling epoch hunit, le_ceiling epoch unit⟩
  · rintro multiple ⟨hmultiple, hle⟩
    exact ceiling_le hunit hmultiple hle

theorem ceiling_ceiling (epoch unit : Int) :
    ceiling (ceiling epoch unit) unit = ceiling epoch unit := by
  by_cases hunit : unit ≤ 1
  · rw [ceiling_of_le_one hunit, ceiling_of_le_one hunit]
  · have hsome : 1 < unit := Int.not_le.mp hunit
    apply Int.le_antisymm
    · exact ceiling_le hsome (dvd_ceiling epoch hsome) (Int.le_refl _)
    · exact le_ceiling _ unit

theorem representable_ceiling {later : Int} (hepoch : Representable epoch)
    (hle : epoch ≤ later)
    (hceiling : Representable (ceiling later unit)) :
    Representable (ceiling epoch unit) := by
  constructor
  · exact Int.le_trans hepoch.1 (le_ceiling epoch unit)
  · exact Int.le_trans (ceiling_mono hle unit) hceiling.2

/-- Nothing but a ceiling beyond the last epoch makes rounding fault. -/
theorem roundUp_eq_ite (hepoch : Representable epoch) (unit : Int) :
    roundUp epoch unit =
      if Representable (ceiling epoch unit) then .ok (ceiling epoch unit)
      else .error .addOverflow := by
  by_cases hunit : unit ≤ 1
  · rw [roundUp, if_pos hunit, ceiling_of_le_one hunit, if_pos hepoch]
  · have hsplit := ceiling_eq_ite epoch (Int.not_le.mp hunit)
    rw [roundUp, if_neg hunit, hsplit]
    by_cases hmultiple : epoch % unit = 0
    · rw [if_pos hmultiple, if_pos hmultiple, if_pos hepoch]
    · rw [if_neg hmultiple, if_neg hmultiple, add]

/-- Rounding up gives the least multiple that is not before the epoch, and faults just if
that multiple is no epoch any more.  What it gives is rounded already, is less than a unit
away, and is not before what an earlier epoch is rounded to. -/
theorem roundUp_isLeast (hepoch : Representable epoch) (unit : Int) :
    (unit ≤ 1 → roundUp epoch unit = .ok epoch) ∧
    (2 ≤ unit → ∃ multiple, IsLeast (multiplesFrom epoch unit) multiple ∧
      roundUp epoch unit =
        if Representable multiple then .ok multiple else .error .addOverflow) ∧
    ∀ rounded, roundUp epoch unit = .ok rounded →
      epoch ≤ rounded ∧ rounded - epoch ≤ max unit 1 - 1 ∧
      roundUp rounded unit = .ok rounded ∧
      ∀ earlier, Representable earlier → earlier ≤ epoch →
        ∃ first, roundUp earlier unit = .ok first ∧ first ≤ rounded := by
  refine ⟨fun hunit => ?_, fun hunit => ?_, fun rounded hround => ?_⟩
  · rw [roundUp, if_pos hunit]
  · exact ⟨ceiling epoch unit, isLeast_ceiling epoch hunit, roundUp_eq_ite hepoch unit⟩
  · have hrounded := representable_of_roundUp hepoch hround
    obtain rfl := roundUp_eq_ok hround
    have hbound := ceiling_lt_add_max epoch unit
    refine ⟨le_ceiling epoch unit, by omega, ?_, fun earlier hearlier hle => ?_⟩
    · rw [roundUp_eq ((ceiling_ceiling epoch unit).symm ▸ hrounded), ceiling_ceiling]
    · refine ⟨ceiling earlier unit, ?_, ceiling_mono hle unit⟩
      exact roundUp_eq (representable_ceiling hearlier hle hrounded)

/-- The last epoch is a multiple of seven, to which the six epochs before it are rounded;
the next multiple of ten is none. -/
theorem roundUp_isLeast_at_highest :
    Representable (highest - 6) ∧ roundUp (highest - 6) 7 = .ok highest ∧
      highest - (highest - 6) ≤ max 7 1 - 1 ∧ roundUp highest 7 = .ok highest ∧
      ∃ multiple, IsLeast (multiplesFrom (highest - 6) 10) multiple ∧
        ¬Representable multiple ∧
        roundUp (highest - 6) 10 = .error .addOverflow := by
  have hepoch : Representable (highest - 6) := by decide
  have hround : roundUp (highest - 6) 7 = .ok highest := by decide +kernel
  have hfault : roundUp (highest - 6) 10 = .error .addOverflow := by decide +kernel
  obtain ⟨_, _, hsevens⟩ := roundUp_isLeast hepoch 7
  obtain ⟨_, htens, _⟩ := roundUp_isLeast hepoch 10
  obtain ⟨_, hwithin, hagain, _⟩ := hsevens highest hround
  obtain ⟨multiple, hleast, hite⟩ := htens (by decide)
  refine ⟨hepoch, hround, hwithin, hagain, multiple, hleast, fun hmultiple => ?_, hfault⟩
  rw [if_pos hmultiple] at hite
  cases hfault.symm.trans hite

end RewardVesting.Epoch
