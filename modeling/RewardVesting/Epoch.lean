import RewardVesting.Fault

namespace RewardVesting

/-! Epochs are signed 64-bit counts.  Arithmetic on them is exact or it faults. -/

namespace Epoch

def lowest : Int := -9223372036854775808

def highest : Int := 9223372036854775807

def Representable (epoch : Int) : Prop :=
  lowest ≤ epoch ∧ epoch ≤ highest

instance (epoch : Int) : Decidable (Representable epoch) :=
  inferInstanceAs (Decidable (_ ∧ _))

def add (left right : Int) : Except Fault Int :=
  if Representable (left + right) then .ok (left + right) else .error .addOverflow

def sub (left right : Int) : Except Fault Int :=
  if Representable (left - right) then .ok (left - right) else .error .subtractOverflow

@[simp] theorem add_of_representable {left right : Int}
    (hsum : Representable (left + right)) : add left right = .ok (left + right) := by
  simp [add, hsum]

@[simp] theorem sub_of_representable {left right : Int}
    (hdifference : Representable (left - right)) :
    sub left right = .ok (left - right) := by
  simp [sub, hdifference]

/-- The least multiple of `unit` that is not before `epoch`; a unit of one or less rounds
nothing. -/
def roundUp (epoch unit : Int) : Except Fault Int :=
  if unit ≤ 1 then .ok epoch
  else if epoch % unit = 0 then .ok epoch
  else add epoch (unit - epoch % unit)

end Epoch

end RewardVesting
