import RewardVesting.Wire.Format

namespace RewardVesting.Vesting

open Wire

/-- Names the coinbase that received funds are locked for. -/
structure AdditionRequest where
  coinbase : Address
  deriving DecidableEq

def AdditionRequest.layout : Layout Address AdditionRequest where
  build := fun coinbase => ⟨coinbase⟩
  parts := fun record => record.coinbase

def AdditionRequest.format : Format AdditionRequest :=
  (Format.tuple 1 Format.address).record AdditionRequest.layout

structure WithdrawalRequest where
  coinbase : Address
  amount : Int
  deriving DecidableEq

def WithdrawalRequest.layout : Layout (Address × Int) WithdrawalRequest where
  build := fun (coinbase, amount) => ⟨coinbase, amount⟩
  parts := fun record => (record.coinbase, record.amount)

def WithdrawalRequest.format : Format WithdrawalRequest :=
  (Format.tuple 2 (Format.address.pair Format.amount)).record WithdrawalRequest.layout

structure Withdrawal where
  amount : Int
  deriving DecidableEq, Repr

def Withdrawal.layout : Layout Int Withdrawal where
  build := fun amount => ⟨amount⟩
  parts := fun record => record.amount

def Withdrawal.format : Format Withdrawal :=
  (Format.tuple 1 Format.amount).record Withdrawal.layout

end RewardVesting.Vesting
