import RewardVesting.Wire.Format

namespace RewardVesting

section MapError

variable {ε ε' α : Type} {convert : ε → ε'} {result : Except ε α}

theorem mapError_eq_ok {value : α} :
    result.mapError convert = .ok value ↔ result = .ok value := by
  cases result with
  | ok answer =>
      constructor
      · intro hanswer
        cases hanswer
        rfl
      · intro hanswer
        cases hanswer
        rfl
  | error cause => exact iff_of_false nofun nofun

theorem mapError_eq_error {converted : ε'} :
    result.mapError convert = .error converted ↔
      ∃ cause, result = .error cause ∧ convert cause = converted := by
  cases result with
  | ok answer => exact iff_of_false nofun fun ⟨_, hnone, _⟩ => nomatch hnone
  | error cause =>
      constructor
      · intro hconverted
        cases hconverted
        exact ⟨cause, rfl, rfl⟩
      · rintro ⟨_, hcause, rfl⟩
        cases hcause
        rfl

end MapError

theorem Wire.Format.code_of_methodParameters {α : Type} {format : Format α}
    {failure : Failure}
    {params : Bytes} (hparams : format.methodParameters params = .error failure) :
    failure.code = .serialization := by
  obtain ⟨_, _, rfl⟩ := mapError_eq_error.mp hparams
  rfl

theorem nonneg_of_requireNonNegative {amount : Int} {subject : String}
    (hnonneg : requireNonNegative amount subject = .ok ()) : 0 ≤ amount := by
  rw [requireNonNegative] at hnonneg
  split at hnonneg
  · cases hnonneg
  · omega

theorem code_of_requireNonNegative {amount : Int} {subject : String} {failure : Failure}
    (hnegative : requireNonNegative amount subject = .error failure) :
    amount < 0 ∧ failure.code = .illegalArgument := by
  rw [requireNonNegative] at hnegative
  split at hnegative
  · rename_i hamount
    cases hnegative
    exact ⟨hamount, rfl⟩
  · cases hnegative

end RewardVesting
