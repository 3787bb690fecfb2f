import RewardVesting.Ledger.Basic

namespace RewardVesting

open Wire

/-- The pool's accumulator: rewards per unit of weight, at the fixed-point scale of the
policy. -/
structure Pool where
  lastEpoch : Int
  accPerShare : Int
  deriving DecidableEq, Repr

namespace Pool

def empty : Pool := ⟨0, 0⟩

/-- What a weight has accumulated since the pool began. -/
def accumulated (pool : Pool) (multiplier : Nat) (weight : UInt64) : Except Fault Int :=
  divide (pool.accPerShare * weight.toNat) multiplier

def layout : Layout (Int × Int) Pool where
  build := fun (lastEpoch, accPerShare) => ⟨lastEpoch, accPerShare⟩
  parts := fun record => (record.lastEpoch, record.accPerShare)

def format : Format Pool :=
  (Format.tuple 2 (Format.integer.pair Format.amount)).record layout

end Pool

structure Expert where
  weight : UInt64
  /-- What the weight had accumulated when it was last settled. -/
  rewardDebt : Int
  /-- Settled rewards that still vest. -/
  locked : Int
  vesting : Ledger
  unlocked : Int
  deriving DecidableEq

namespace Expert

def unregistered : Expert := ⟨0, 0, 0, Ledger.empty, 0⟩

def layout : Layout (UInt64 × Int × Int × Ledger × Int) Expert where
  build := fun (weight, rewardDebt, locked, vesting, unlocked) =>
    ⟨weight, rewardDebt, locked, vesting, unlocked⟩
  parts := fun record =>
    (record.weight, record.rewardDebt, record.locked, record.vesting, record.unlocked)

def format : Format Expert :=
  (Format.tuple 5 (Format.word.pair (Format.amount.pair (Format.amount.pair
    (Ledger.format.pair Format.amount))))).record layout

end Expert

end RewardVesting
