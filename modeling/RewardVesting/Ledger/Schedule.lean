import RewardVesting.Action
import RewardVesting.Ledger.Release

namespace RewardVesting

/-- A linear schedule: nothing before the delay, then equal steps over the period.  The
epochs of its tranches are rounded up to the quantum. -/
structure VestSpec where
  initialDelay : Int
  vestPeriod : Int
  stepDuration : Int
  quantization : Int
  deriving DecidableEq, Repr

namespace VestSpec

def layout : Layout (Int × Int × Int × Int) VestSpec where
  build := fun (initialDelay, vestPeriod, stepDuration, quantization) =>
    ⟨initialDelay, vestPeriod, stepDuration, quantization⟩
  parts := fun spec =>
    (spec.initialDelay, spec.vestPeriod, spec.stepDuration, spec.quantization)

/-- The part of `sum` that has vested `elapsed` epochs after the delay, rounded down. -/
def vestedAfter (spec : VestSpec) (sum : Int) (elapsed : Int) : Int :=
  if elapsed < spec.vestPeriod then (sum * elapsed).tdiv spec.vestPeriod else sum

def stepCount (spec : VestSpec) : Nat :=
  ((spec.vestPeriod + spec.stepDuration - 1) / spec.stepDuration).toNat

/-- One tranche for each step from `next` on, until `sum` has vested.  Each brings the
vested total to what the line asks for at its rounded epoch. -/
def tranchesFrom (spec : VestSpec) (start : Int) (sum : Int) :
    (steps : Nat) → (next : Int) → (vested : Int) → Except Fault (List Tranche)
  | 0, _, _ => .ok []
  | steps + 1, next, vested =>
    if vested < sum then do
      let epoch ← Epoch.roundUp next spec.quantization
      let elapsed ← Epoch.sub epoch start
      let target := spec.vestedAfter sum elapsed
      let following ← Epoch.add next spec.stepDuration
      let rest ← spec.tranchesFrom start sum steps following target
      return ⟨epoch, target - vested⟩ :: rest
    else .ok []

/-- The tranches of a lock of `sum` made at `epoch`. -/
def tranches (spec : VestSpec) (epoch : Int) (sum : Int) : Except Fault (List Tranche) := do
  let start ← Epoch.add epoch spec.initialDelay
  let first ← Epoch.add start spec.stepDuration
  spec.tranchesFrom start sum spec.stepCount first 0

end VestSpec

namespace Ledger

/-- Puts a tranche in front of the first that is not earlier. -/
def place (tranche : Tranche) : List Tranche → List Tranche
  | [] => [tranche]
  | head :: rest =>
    if tranche.epoch ≤ head.epoch then tranche :: head :: rest
    else head :: place tranche rest

/-- Sorts by epoch; tranches of one epoch keep their order. -/
def sortByEpoch (tranches : List Tranche) : List Tranche :=
  tranches.foldr place []

/-- Adds a tranche to the next one if both are of one epoch. -/
def join (tranche : Tranche) : List Tranche → List Tranche
  | [] => [tranche]
  | head :: rest =>
    if head.epoch = tranche.epoch then
      { head with amount := tranche.amount + head.amount } :: rest
    else tranche :: head :: rest

/-- Joins neighbours of one epoch. -/
def joinAll (tranches : List Tranche) : List Tranche :=
  tranches.foldr join []

/-- Adds tranches to a table, both in the order of epochs: each to the last one of its
epoch, or at a place of its own. -/
def combine : (table additions : List Tranche) → List Tranche
  | [], additions => additions
  | head :: rest, additions =>
    let earlier := additions.takeWhile fun addition => addition.epoch < head.epoch
    match additions.dropWhile fun addition => addition.epoch < head.epoch with
    | [] => earlier ++ head :: rest
    | addition :: later =>
      if addition.epoch = head.epoch ∧
          rest.head?.all fun next => next.epoch ≠ head.epoch then
        earlier ++ { head with amount := head.amount + addition.amount } ::
          combine rest later
      else earlier ++ head :: combine rest (addition :: later)

def merge (ledger : Ledger) (additions : List Tranche) : Ledger :=
  { ledger with
    tranches := combine (sortByEpoch ledger.tranches) (joinAll additions) }

@[simp] theorem merge_unlocked (ledger : Ledger) (additions : List Tranche) :
    (ledger.merge additions).unlocked = ledger.unlocked := rfl

inductive LockRefusal
  | negativeAmount (amount : Int)
  | invalidSpec (step period : Int)
  deriving DecidableEq, Repr

namespace LockRefusal

def message : LockRefusal → String
  | negativeAmount amount => "cannot lock negative amount " ++ Amount.text amount
  | invalidSpec step period =>
    "invalid vest spec: step " ++ toString step ++ " period " ++ toString period

end LockRefusal

/-- Adds the schedule of a lock made at `epoch` to the table. -/
def lock (epoch : Int) (amount : Int) (spec : VestSpec) :
    Action Ledger LockRefusal Unit := do
  Action.require (0 ≤ amount) (.negativeAmount amount)
  Action.require (0 < spec.stepDuration ∧ 0 < spec.vestPeriod)
    (.invalidSpec spec.stepDuration spec.vestPeriod)
  let additions ← spec.tranches epoch amount
  Action.modify fun ledger => ledger.merge additions

/-- Collects what has vested and then locks.  A refused lock leaves the collection in
place. -/
def collectAndLock (epoch : Int) (amount : Int) (spec : VestSpec) :
    Action Ledger LockRefusal Unit := do
  Action.modify fun ledger => ledger.collect epoch
  lock epoch amount spec

end Ledger

end RewardVesting
