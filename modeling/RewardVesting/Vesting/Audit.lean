import RewardVesting.Report
import RewardVesting.Vesting.Book

namespace RewardVesting.Vesting

structure Summary where
  /-- Counted one by one over the entries of a stored map.  Only a map of 2 ^ 64 entries
  would leave the width of an unsigned 64-bit counter, and no store holds one. -/
  coinbaseCount : Nat
  totalLocked : Int
  totalUnlocked : Int
  deriving DecidableEq, Repr

structure Audit where
  summary : Summary
  report : Report
  deriving DecidableEq, Repr

namespace Audit

def empty : Audit := ⟨⟨0, 0, 0⟩, .empty⟩

def enter (audit : Audit) (coinbase : Address) (ledger : Ledger) : Audit where
  summary :=
    { coinbaseCount := audit.summary.coinbaseCount + 1
      totalLocked := audit.summary.totalLocked + ledger.lockedTotal
      totalUnlocked := audit.summary.totalUnlocked + ledger.unlocked }
  report := audit.report.requireNoError ("coinbase " ++ coinbase.text ++ ": ")
    (ledger.defect?.map Ledger.Defect.message) "malformed vesting funds"

/-- Reports what kept the audit from going on. -/
def broken (audit : Audit) (message : String) : Audit :=
  { audit with report := audit.report.add "" message }

/-- Enters the ledgers in order, up to the first whose key is no address. -/
def enterAll (audit : Audit) : List (Key × Ledger) → Audit
  | [] => audit
  | (key, ledger) :: rest =>
    match key.toAddress with
    | .ok coinbase => (audit.enter coinbase ledger).enterAll rest
    | .error defect => audit.broken ("error iterating coinbases: " ++ defect.message)

def enterBook (audit : Audit) (book : Book) : Audit :=
  match book.ledgers with
  | .ok ledgers => audit.enterAll ledgers.entries
  | .error refusal => audit.broken ("error loading coinbases: " ++ refusal.failure.text)

end Audit

def Summary.owed (summary : Summary) : Int := summary.totalLocked + summary.totalUnlocked

def audit (book : Book) (balance : Int) : Audit :=
  let audit := Audit.empty.enterBook book
  { audit with
    report := audit.report.require "" (audit.summary.owed ≤ balance)
      ("vesting funds owed " ++ Amount.text audit.summary.owed ++ " exceed balance " ++
        Amount.text balance) }

end RewardVesting.Vesting
