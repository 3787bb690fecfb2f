import RewardVesting.Wire.Format

namespace RewardVesting.ExpertFund

open Wire

structure Deposit where
  weight : UInt64
  deriving DecidableEq

def Deposit.layout : Layout UInt64 Deposit where
  build := fun weight => ⟨weight⟩
  parts := fun record => record.weight

def Deposit.format : Format Deposit :=
  (Format.tuple 1 Format.word).record Deposit.layout

structure Claim where
  expert : Address
  amount : Int
  deriving DecidableEq

def Claim.layout : Layout (Address × Int) Claim where
  build := fun (expert, amount) => ⟨expert, amount⟩
  parts := fun record => (record.expert, record.amount)

def Claim.format : Format Claim :=
  (Format.tuple 2 (Format.address.pair Format.amount)).record Claim.layout

structure Reset where
  expert : Address
  deriving DecidableEq

def Reset.layout : Layout Address Reset where
  build := fun expert => ⟨expert⟩
  parts := fun record => record.expert

def Reset.format : Format Reset :=
  (Format.tuple 1 Format.address).record Reset.layout

/-- A change to an expert's votes, negative when votes are taken back. -/
structure VoteChange where
  expert : Address
  amount : Int
  deriving DecidableEq

def VoteChange.layout : Layout (Address × Int) VoteChange where
  build := fun (expert, amount) => ⟨expert, amount⟩
  parts := fun record => (record.expert, record.amount)

def VoteChange.format : Format VoteChange :=
  (Format.tuple 2 (Format.address.pair Format.amount)).record VoteChange.layout

structure Inquiry where
  expert : Address
  deriving DecidableEq

def Inquiry.layout : Layout Address Inquiry where
  build := fun expert => ⟨expert⟩
  parts := fun record => record.expert

def Inquiry.format : Format Inquiry :=
  (Format.tuple 1 Format.address).record Inquiry.layout

structure Standing where
  registered : Bool
  qualified : Bool
  weight : UInt64
  votes : Int
  deriving DecidableEq

def Standing.layout : Layout (Bool × Bool × UInt64 × Int) Standing where
  build := fun (registered, qualified, weight, votes) =>
    ⟨registered, qualified, weight, votes⟩
  parts := fun record => (record.registered, record.qualified, record.weight, record.votes)

def Standing.format : Format Standing :=
  (Format.tuple 4
    (Format.flag.pair (Format.flag.pair (Format.word.pair Format.amount)))).record
      Standing.layout

/-- An expert's answer about who controls it. -/
structure Control where
  owner : Address
  deriving DecidableEq

def Control.layout : Layout Address Control where
  build := fun owner => ⟨owner⟩
  parts := fun record => record.owner

def Control.format : Format Control :=
  (Format.tuple 1 Format.address).record Control.layout

end RewardVesting.ExpertFund
