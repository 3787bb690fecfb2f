import RewardVesting.AddressMap
import RewardVesting.Ledger.Schedule

namespace RewardVesting.Vesting

structure Book where
  coinbases : Link (AddressMap Ledger)

namespace Book

inductive Refusal
  | unreachable
  | unstorable
  | notLocked (amount : Int) (coinbase : Address) (cause : Ledger.LockRefusal)
  | unknownCoinbase (coinbase : Address)
  | nothingVested (coinbase : Address) (epoch : Int)
  deriving DecidableEq

namespace Refusal

def failure : Refusal → Failure
  | unreachable => .adopt .illegalState "failed to load coinbases" Link.missingText
  | unstorable => .adopt .illegalState "failed to flush coinbases" CodecError.tooLarge.text
  | notLocked amount coinbase cause =>
    .adopt .illegalState
      ("failed to lock " ++ Amount.text amount ++ " for " ++ coinbase.text) cause.message
  | unknownCoinbase coinbase =>
    ⟨.notFound, "no vesting funds for coinbase " ++ coinbase.text⟩
  | nothingVested coinbase epoch =>
    ⟨.forbidden, "no vested funds available for " ++ coinbase.text ++ " at epoch " ++
      toString epoch⟩

end Refusal

def empty : Book := ⟨.held .empty⟩

def ledgers (book : Book) : Except Refusal (AddressMap Ledger) :=
  match book.coinbases with
  | .held ledgers => .ok ledgers
  | .missing => .error .unreachable

def find? (book : Book) (coinbase : Address) : Except Refusal (Option Ledger) := do
  let ledgers ← book.ledgers
  return ledgers.find? (.address coinbase)

def put (key : Key) (ledger : Ledger) : Action Book Refusal Unit := do
  let ledgers ← Action.ofExcept (← Action.read).ledgers
  Action.require ((Ledger.format.write ledger).isSome) .unstorable
  Action.write ⟨.held (ledgers.insert key ledger)⟩

/-- Locks an amount for a coinbase, whose ledger begins with its first lock. -/
def lock (coinbase : Address) (epoch amount : Int) (spec : VestSpec) :
    Action Book Refusal Unit := do
  let known ← Action.ofExcept ((← Action.read).find? coinbase)
  let (_, ledger) ← Action.runOn (known.getD .empty)
    ((Ledger.collectAndLock epoch amount spec).mapError (.notLocked amount coinbase))
  put (.address coinbase) ledger

/-- Takes up to `requested` out of what has vested for a coinbase.  To ask for something
while everything is still locked is refused. -/
def withdraw (coinbase : Address) (epoch requested : Int) : Action Book Refusal Int := do
  match ← Action.ofExcept ((← Action.read).find? coinbase) with
  | none => Action.refuse (.unknownCoinbase coinbase)
  | some ledger =>
    let (remaining, paid) := ledger.withdraw epoch requested
    Action.require (¬(0 < requested ∧ paid = 0 ∧ remaining.total ≠ 0))
      (.nothingVested coinbase epoch)
    put (.address coinbase) remaining
    return paid

end Book

end RewardVesting.Vesting
