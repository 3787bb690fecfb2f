import RewardVesting.Epoch

namespace RewardVesting.Epoch

variable {epoch unit multiple : Int}

theorem add_eq_ok {left right sum : Int} (hadd : add left right = .ok sum) :
    sum = left + right := by
  rw [add] at hadd
  split at hadd <;> cases hadd
  rfl

theorem representable_of_add {left right sum : Int} (hadd : add left right = .ok sum) :
    Representable sum := by
  rw [add] at hadd
  split at hadd
  · rename_i hsum
    cases hadd
    exact hsum
  · cases hadd

theorem sub_eq_ok {left right difference : Int} (hsub : sub left right = .ok difference) :
    difference = left - right := by
  rw [sub] at hsub
  split at hsub <;> cases hsub
  rfl

theorem representable_of_sub {left right difference : Int}
    (hsub : sub left right = .ok difference) : Representable difference := by
  rw [sub] at hsub
  split at hsub
  · rename_i hdifference
    cases hsub
    exact hdifference
  · cases hsub

/-- The fault of a sum or a difference that is no epoch. -/
def Overflows (fault : Fault) : Prop :=
  fault = .addOverflow ∨ fault = .subtractOverflow

theorem overflows_of_add {left right : Int} {fault : Fault}
    (hadd : add left right = .error fault) : Overflows fault := by
  rw [add] at hadd
  split at hadd <;> cases hadd
  exact .inl rfl

theorem overflows_of_sub {left right : Int} {fault : Fault}
    (hsub : sub left right = .error fault) : Overflows fault := by
  rw [sub] at hsub
  split at hsub <;> cases hsub
  exact .inr rfl

theorem overflows_of_roundUp {fault : Fault} (hround : roundUp epoch unit = .error fault) :
    Overflows fault := by
  rw [roundUp] at hround
  split at hround
  · cases hround
  · split at hround
    · cases hround
    · exact overflows_of_add hround

def ceiling (epoch unit : Int) : Int :=
  if unit ≤ 1 then epoch else epoch + -epoch % unit

theorem ceiling_of_le_one (hunit : unit ≤ 1) : ceiling epoch unit = epoch :=
  if_pos hunit

theorem ceiling_of_one_lt (hunit : 1 < unit) : ceiling epoch unit = epoch + -epoch % unit :=
  if_neg (Int.not_le.mpr hunit)

theorem le_ceiling (epoch unit : Int) : epoch ≤ ceiling epoch unit := by
  by_cases hunit : unit ≤ 1
  · exact Int.le_of_eq (ceiling_of_le_one hunit).symm
  · rw [ceiling_of_one_lt (by omega)]
    have hnonneg := Int.emod_nonneg (-epoch) (show unit ≠ 0 by omega)
    omega

theorem ceiling_lt_add (epoch : Int) (hunit : 1 < unit) :
    ceiling epoch unit < epoch + unit := by
  rw [ceiling_of_one_lt hunit]
  have hbound := Int.emod_lt_of_pos (-epoch) (show 0 < unit by omega)
  omega

theorem dvd_ceiling (epoch : Int) (hunit : 1 < unit) : unit ∣ ceiling epoch unit := by
  have hsplit := Int.mul_ediv_add_emod (-epoch) unit
  rw [ceiling_of_one_lt hunit]
  refine ⟨-(-epoch / unit), ?_⟩
  rw [Int.mul_neg]
  omega

/-- No multiple of the unit lies between an epoch and its ceiling. -/
theorem ceiling_le (hunit : 1 < unit) (hmultiple : unit ∣ multiple)
    (hle : epoch ≤ multiple) :
    ceiling epoch unit ≤ multiple := by
  obtain ⟨low, hlow⟩ := dvd_ceiling epoch hunit
  obtain ⟨high, rfl⟩ := hmultiple
  have hbound := ceiling_lt_add epoch hunit
  have hlt : unit * low < unit * (high + 1) := by
    rw [Int.mul_add, Int.mul_one]
    omega
  have horder := Int.lt_of_mul_lt_mul_left hlt (by omega)
  rw [hlow]
  exact Int.mul_le_mul_of_nonneg_left (by omega) (by omega)

theorem ceiling_mono {earlier later : Int} (hle : earlier ≤ later) (unit : Int) :
    ceiling earlier unit ≤ ceiling later unit := by
  by_cases hunit : unit ≤ 1
  · rw [ceiling_of_le_one hunit, ceiling_of_le_one hunit]
    exact hle
  · have hsome : 1 < unit := by omega
    apply ceiling_le hsome (dvd_ceiling later hsome)
    exact Int.le_trans hle (le_ceiling later unit)

theorem ceiling_lt_add_max (epoch unit : Int) :
    ceiling epoch unit < epoch + max unit 1 := by
  by_cases hunit : unit ≤ 1
  · rw [ceiling_of_le_one hunit]
    omega
  · have hlt := ceiling_lt_add epoch (Int.not_le.mp hunit)
    omega

theorem ceiling_eq_ite (epoch : Int) (hunit : 1 < unit) :
    ceiling epoch unit =
      if epoch % unit = 0 then epoch else epoch + (unit - epoch % unit) := by
  rw [ceiling_of_one_lt hunit, Int.neg_emod]
  by_cases hmultiple : epoch % unit = 0
  · rw [if_pos (Int.dvd_of_emod_eq_zero hmultiple), if_pos hmultiple]
    exact Int.add_zero epoch
  · have hnot : ¬unit ∣ epoch := fun hdvd => hmultiple (Int.emod_eq_zero_of_dvd hdvd)
    rw [if_neg hnot, if_neg hmultiple]
    omega

theorem roundUp_eq_ok {rounded : Int} (hround : roundUp epoch unit = .ok rounded) :
    rounded = ceiling epoch unit := by
  rw [roundUp] at hround
  split at hround
  · rename_i hunit
    cases hround
    exact (ceiling_of_le_one hunit).symm
  · rename_i hunit
    rw [ceiling_eq_ite epoch (by omega)]
    split at hround
    · rename_i hmultiple
      cases hround
      rw [if_pos hmultiple]
    · rename_i hbetween
      rw [if_neg hbetween]
      exact add_eq_ok hround

/-- Rounding up does not fault as long as the result can be represented. -/
theorem roundUp_eq (hceiling : Representable (ceiling epoch unit)) :
    roundUp epoch unit = .ok (ceiling epoch unit) := by
  rw [roundUp]
  by_cases hunit : unit ≤ 1
  · rw [if_pos hunit, ceiling_of_le_one hunit]
  · rw [if_neg hunit]
    have hsplit := ceiling_eq_ite epoch (Int.not_le.mp hunit)
    split
    · rename_i hmultiple
      rw [hsplit, if_pos hmultiple]
    · rename_i hbetween
      rw [if_neg hbetween] at hsplit
      rw [hsplit] at hceiling ⊢
      exact add_of_representable hceiling

theorem representable_of_roundUp {rounded : Int} (hepoch : Representable epoch)
    (hround : roundUp epoch unit = .ok rounded) : Representable rounded := by
  rw [roundUp] at hround
  split at hround
  · cases hround
    exact hepoch
  · split at hround
    · cases hround
      exact hepoch
    · exact representable_of_add hround

theorem le_of_roundUp {rounded : Int} (hround : roundUp epoch unit = .ok rounded) :
    epoch ≤ rounded := by
  rw [roundUp_eq_ok hround]
  exact le_ceiling epoch unit

theorem roundUp_mono {earlier later first second : Int} (hle : earlier ≤ later)
    (hfirst : roundUp earlier unit = .ok first)
    (hsecond : roundUp later unit = .ok second) :
    first ≤ second := by
  rw [roundUp_eq_ok hfirst, roundUp_eq_ok hsecond]
  exact ceiling_mono hle unit

end RewardVesting.Epoch
