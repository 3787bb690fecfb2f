import RewardVesting.Failure
import RewardVesting.Fault

namespace RewardVesting

/-! Token amounts are exact integers of the smallest unit, of either sign. -/

namespace Amount

def decimals : Nat := 18

def precision : Nat := Nat.pow 10 decimals

def ofWhole (tokens : Nat) : Int := tokens * precision

/-- The largest magnitude that a stored integer may have, plus one. -/
def storageLimit : Nat := 1 <<< 1016

def Storable (amount : Int) : Prop :=
  amount.natAbs < storageLimit

instance (amount : Int) : Decidable (Storable amount) :=
  inferInstanceAs (Decidable (_ < _))

/-- The digits after the point: padded to the full precision, then cut after the last
digit that is not zero, of which the first is always kept. -/
def fractionDigits (fraction : Nat) : List Char :=
  let digits := (Nat.toDigits 10 fraction).leftpad decimals '0'
  match (digits.reverse.dropWhile (· == '0')).reverse with
  | [] => ['0']
  | kept => kept

/-- Whole tokens with a decimal point and at least one decimal. -/
def text (amount : Int) : String :=
  let magnitude := amount.natAbs
  let sign := if amount < 0 then "-" else ""
  sign ++ toString (magnitude / precision) ++ "." ++
    String.ofList (fractionDigits (magnitude % precision))

end Amount

/-- The quotient truncated towards zero; a zero divisor faults. -/
def divide (dividend divisor : Int) : Except Fault Int :=
  if divisor = 0 then .error .divideByZero else .ok (dividend.tdiv divisor)

@[simp] theorem divide_of_ne_zero {dividend divisor : Int} (hdivisor : divisor ≠ 0) :
    divide dividend divisor = .ok (dividend.tdiv divisor) := by
  simp [divide, hdivisor]

/-- Refuses a negative amount among the parameters of a method. -/
def requireNonNegative (amount : Int) (subject : String) : Except Failure Unit :=
  if amount < 0 then
    .error ⟨.illegalArgument, "negative " ++ subject ++ ": " ++ Amount.text amount⟩
  else .ok ()

end RewardVesting
