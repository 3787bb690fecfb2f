import RewardVesting.AddressMap
import RewardVesting.Amount

namespace RewardVesting

/-- A signed balance for each address; an address without an entry has none. -/
abbrev Tally := AddressMap Int

namespace Tally

inductive Refusal
  | overdrawn (sum : Int)
  | shortfall (requested balance : Int) (owner : Address)
  | unreachable
  | unstorable
  deriving DecidableEq

namespace Refusal

def failure : Refusal → Failure
  | overdrawn sum =>
    ⟨.illegalArgument, "new balance in table cannot be negative: " ++ Amount.text sum⟩
  | shortfall requested balance owner =>
    ⟨.illegalArgument, "couldn't subtract " ++ Amount.text requested ++ " from balance " ++
      Amount.text balance ++ " of " ++ owner.text⟩
  | unreachable => .adopt .illegalState "failed to load balance table" Link.missingText
  | unstorable =>
    .adopt .illegalState "failed to flush balance table" CodecError.tooLarge.text

end Refusal

def balance (tally : Tally) (owner : Address) : Int :=
  (tally.find? (.address owner)).getD 0

def total (tally : Tally) : Int := tally.sumOf id

/-- Changes a balance by a signed amount.  A balance that falls back to zero loses its
entry. -/
def add (tally : Tally) (owner : Address) (change : Int) : Except Refusal Tally :=
  let sum := tally.balance owner + change
  if sum < 0 then .error (.overdrawn sum)
  else if sum = 0 ∧ tally.balance owner ≠ 0 then .ok (tally.erase (.address owner))
  else .ok (tally.insert (.address owner) sum)

/-- Takes all of `requested` from a balance or refuses. -/
def subtract (tally : Tally) (owner : Address) (requested : Int) : Except Refusal Tally :=
  if tally.balance owner < requested then
    .error (.shortfall requested (tally.balance owner) owner)
  else
    tally.add owner (-requested)

def load : Link Tally → Except Refusal Tally
  | .held tally => .ok tally
  | .missing => .error .unreachable

/-- Stores a tally, which every balance in it must allow. -/
def store (tally : Tally) : Except Refusal (Link Tally) :=
  if ∀ amount ∈ tally.values, Amount.Storable amount then .ok (.held tally)
  else .error .unstorable

end Tally

end RewardVesting
