import Mathlib.Algebra.Order.Field.Rat
import Mathlib.Tactic.Linarith
import Mathlib.Tactic.Positivity
import Mathlib.Tactic.Ring

namespace RewardVesting

/-- A polynomial by its coefficients, the constant one first. -/
abbrev Coefficients : Type := List ℚ

namespace Coefficients

def eval : Coefficients → ℚ → ℚ
  | [], _ => 0
  | constant :: rest, point => constant + point * eval rest point

def add : Coefficients → Coefficients → Coefficients
  | [], right => right
  | left, [] => left
  | head :: left, other :: right => (head + other) :: add left right

def scale (factor : ℚ) : Coefficients → Coefficients
  | [] => []
  | constant :: rest => factor * constant :: scale factor rest

/-- The polynomial seen from `origin`. -/
def shift (origin : ℚ) : Coefficients → Coefficients
  | [] => []
  | constant :: rest =>
    add (constant :: shift origin rest) (scale origin (shift origin rest))

@[simp] theorem eval_nil (point : ℚ) : eval [] point = 0 := rfl

@[simp] theorem eval_cons (constant : ℚ) (rest : Coefficients) (point : ℚ) :
    eval (constant :: rest) point = constant + point * eval rest point := rfl

@[simp] theorem eval_add (left right : Coefficients) (point : ℚ) :
    (left.add right).eval point = left.eval point + right.eval point := by
  induction left generalizing right with
  | nil => simp [add]
  | cons head left ih =>
      cases right with
      | nil => simp [add]
      | cons other right =>
          rw [add, eval_cons, eval_cons, eval_cons, ih]
          ring

@[simp] theorem eval_scale (factor : ℚ) (coefficients : Coefficients) (point : ℚ) :
    (coefficients.scale factor).eval point = factor * coefficients.eval point := by
  induction coefficients with
  | nil => simp [scale]
  | cons constant rest ih =>
      rw [scale, eval_cons, eval_cons, ih]
      ring

@[simp] theorem eval_shift (origin : ℚ) (coefficients : Coefficients) (point : ℚ) :
    (coefficients.shift origin).eval point = coefficients.eval (origin + point) := by
  induction coefficients with
  | nil => rfl
  | cons constant rest ih =>
      rw [shift, eval_add, eval_cons, eval_scale, eval_cons, ih]
      ring

def Nonneg (coefficients : Coefficients) : Prop :=
    ∀ coefficient ∈ coefficients, 0 ≤ coefficient

instance (coefficients : Coefficients) : Decidable coefficients.Nonneg :=
  inferInstanceAs (Decidable (∀ coefficient ∈ coefficients, 0 ≤ coefficient))

namespace Nonneg

variable {constant : ℚ} {rest coefficients : Coefficients} {point later : ℚ}

theorem head (hnonneg : Nonneg (constant :: rest)) : 0 ≤ constant :=
  hnonneg constant List.mem_cons_self

theorem tail (hnonneg : Nonneg (constant :: rest)) : Nonneg rest := by
  intro coefficient hmem
  exact hnonneg coefficient (List.mem_cons_of_mem constant hmem)

theorem eval_nonneg (hnonneg : coefficients.Nonneg) (hpoint : 0 ≤ point) :
    0 ≤ coefficients.eval point := by
  induction coefficients with
  | nil => exact le_refl 0
  | cons constant rest ih =>
      exact add_nonneg hnonneg.head (mul_nonneg hpoint (ih hnonneg.tail))

theorem eval_mono (hnonneg : coefficients.Nonneg) (hpoint : 0 ≤ point)
    (hlater : point ≤ later) :
    coefficients.eval point ≤ coefficients.eval later := by
  induction coefficients with
  | nil => exact le_refl 0
  | cons constant rest ih =>
      have hrest : point * eval rest point ≤ later * eval rest later :=
        mul_le_mul hlater (ih hnonneg.tail) (hnonneg.tail.eval_nonneg hpoint)
          (hpoint.trans hlater)
      exact add_le_add (le_refl constant) hrest

end Nonneg

/-! A test for polynomials that are nowhere negative.  It walks along the axis in steps of
one width, with a crude bound on each step, until no coefficient is negative any more. -/

/-- A bound from below on all points from zero to `width`. -/
def lowerBound (width : ℚ) : Coefficients → ℚ
  | [] => 0
  | constant :: rest => constant + width * min 0 (lowerBound width rest)

theorem lowerBound_le_eval {width point : ℚ} (coefficients : Coefficients)
    (hpoint : 0 ≤ point)
    (hwidth : point ≤ width) : coefficients.lowerBound width ≤ coefficients.eval point := by
  induction coefficients with
  | nil => exact le_refl 0
  | cons constant rest ih =>
      have hbound : min 0 (lowerBound width rest) ≤ 0 := min_le_left _ _
      have hrest : width * min 0 (lowerBound width rest) ≤ point * eval rest point :=
        calc
          width * min 0 (lowerBound width rest)
              ≤ point * min 0 (lowerBound width rest) :=
            mul_le_mul_of_nonpos_right hwidth hbound
          _ ≤ point * eval rest point :=
            mul_le_mul_of_nonneg_left ((min_le_right _ _).trans ih) hpoint
      exact add_le_add (le_refl constant) hrest

def StaysNonneg (width : ℚ) : (steps : Nat) → Coefficients → Prop
  | 0, coefficients => coefficients.Nonneg
  | steps + 1, coefficients =>
    0 ≤ coefficients.lowerBound width ∧ StaysNonneg width steps (coefficients.shift width)

instance decidableStaysNonneg (width : ℚ) :
    (steps : Nat) → (coefficients : Coefficients) →
      Decidable (StaysNonneg width steps coefficients)
  | 0, coefficients => inferInstanceAs (Decidable coefficients.Nonneg)
  | steps + 1, coefficients =>
    have := decidableStaysNonneg width steps (coefficients.shift width)
    inferInstanceAs (Decidable (_ ∧ _))

theorem StaysNonneg.eval_nonneg {width point : ℚ} {steps : Nat}
    {coefficients : Coefficients}
    (hstays : StaysNonneg width steps coefficients) (hpoint : 0 ≤ point) :
    0 ≤ coefficients.eval point := by
  induction steps generalizing coefficients point with
  | zero => exact Nonneg.eval_nonneg hstays hpoint
  | succ steps ih =>
      obtain ⟨hfirst, hrest⟩ := hstays
      rcases le_total point width with hnear | hfar
      · exact hfirst.trans (lowerBound_le_eval coefficients hpoint hnear)
      · have heval := ih hrest (sub_nonneg.mpr hfar)
        rwa [eval_shift, add_sub_cancel] at heval

end Coefficients

end RewardVesting
