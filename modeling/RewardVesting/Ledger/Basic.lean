import RewardVesting.Wire.Format

namespace RewardVesting

/-- An amount that stays locked until its epoch has passed. -/
structure Tranche where
  epoch : Int
  amount : Int
  deriving DecidableEq, Repr

/-- What one beneficiary is owed: locked tranches, and what has been released already. -/
structure Ledger where
  tranches : List Tranche
  unlocked : Int
  deriving DecidableEq, Repr

namespace Ledger

def empty : Ledger := ⟨[], 0⟩

instance : Inhabited Ledger := ⟨empty⟩

def sumOf : List Tranche → Int
  | [] => 0
  | tranche :: rest => tranche.amount + sumOf rest

@[simp] theorem sumOf_nil : sumOf [] = 0 := rfl

@[simp] theorem sumOf_cons (tranche : Tranche) (rest : List Tranche) :
    sumOf (tranche :: rest) = tranche.amount + sumOf rest := rfl

@[simp] theorem sumOf_append (first second : List Tranche) :
    sumOf (first ++ second) = sumOf first + sumOf second := by
  induction first with
  | nil => simp
  | cons tranche rest ih =>
      simp only [List.cons_append, sumOf_cons, ih]
      omega

def lockedTotal (ledger : Ledger) : Int := sumOf ledger.tranches

def total (ledger : Ledger) : Int := ledger.lockedTotal + ledger.unlocked

def lockedBefore (ledger : Ledger) (epoch : Int) : Int :=
  sumOf (ledger.tranches.filter fun tranche => tranche.epoch < epoch)

def lockedAt (ledger : Ledger) (epoch : Int) : Int :=
  sumOf (ledger.tranches.filter fun tranche => tranche.epoch = epoch)

/-- All that a beneficiary could have at `epoch`. -/
def available (ledger : Ledger) (epoch : Int) : Int :=
  ledger.unlocked + ledger.lockedBefore epoch

structure WellFormed (ledger : Ledger) : Prop where
  ordered : ledger.tranches.Pairwise fun earlier later => earlier.epoch < later.epoch
  tranches_nonneg : ∀ tranche ∈ ledger.tranches, 0 ≤ tranche.amount
  unlocked_nonneg : 0 ≤ ledger.unlocked

inductive Defect
  | outOfOrder (epoch next : Int)
  | negativeTranche (amount : Int) (epoch : Int)
  | negativeUnlocked (amount : Int)
  deriving DecidableEq, Repr

namespace Defect

def message : Defect → String
  | outOfOrder epoch next =>
    "vesting table out of order: " ++ toString epoch ++ " before " ++ toString next
  | negativeTranche amount epoch =>
    "negative tranche " ++ Amount.text amount ++ " at epoch " ++ toString epoch
  | negativeUnlocked amount => "negative unlocked balance " ++ Amount.text amount

end Defect

/-- The first two neighbours whose epochs do not increase. -/
def disorder? : List Tranche → Option (Int × Int)
  | first :: second :: rest =>
    if second.epoch ≤ first.epoch then some (first.epoch, second.epoch)
    else disorder? (second :: rest)
  | _ => none

/-- Order is examined first, then the tranches, then the unlocked balance. -/
def defect? (ledger : Ledger) : Option Defect :=
  match disorder? ledger.tranches with
  | some (epoch, next) => some (.outOfOrder epoch next)
  | none =>
    match ledger.tranches.find? fun tranche => tranche.amount < 0 with
    | some tranche => some (.negativeTranche tranche.amount tranche.epoch)
    | none => if ledger.unlocked < 0 then some (.negativeUnlocked ledger.unlocked) else none

end Ledger

open Wire

def Tranche.layout : Layout (Int × Int) Tranche where
  build := fun (epoch, amount) => ⟨epoch, amount⟩
  parts := fun record => (record.epoch, record.amount)

def Tranche.format : Format Tranche :=
  (Format.tuple 2 (Format.integer.pair Format.amount)).record Tranche.layout

def Ledger.layout : Layout (List Tranche × Int) Ledger where
  build := fun (tranches, unlocked) => ⟨tranches, unlocked⟩
  parts := fun record => (record.tranches, record.unlocked)

def Ledger.format : Format Ledger :=
  (Format.tuple 2 (Tranche.format.list.pair Format.amount)).record Ledger.layout

end RewardVesting
