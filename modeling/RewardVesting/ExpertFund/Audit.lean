import RewardVesting.ExpertFund.Fund
import RewardVesting.Report

namespace RewardVesting.ExpertFund

structure Summary where
  /-- Counted one by one over the entries of a stored map.  Only a map of 2 ^ 64 entries
  would leave the width of an unsigned 64-bit counter, and no store holds one. -/
  expertCount : Nat
  totalWeight : UInt64
  totalLocked : Int
  totalUnlocked : Int
  deriving DecidableEq

def Summary.owed (summary : Summary) : Int := summary.totalLocked + summary.totalUnlocked

structure Audit where
  summary : Summary
  report : Report
  deriving DecidableEq

namespace Audit

def empty : Audit := ⟨⟨0, 0, 0, 0⟩, .empty⟩

def inspect (report : Report) (heading : String) (info : Expert) : Report :=
  let report := report.requireNoError heading
    (info.vesting.defect?.map Ledger.Defect.message) "malformed vesting funds"
  let report := report.require heading (info.locked = info.vesting.lockedTotal)
    ("locked funds " ++ Amount.text info.locked ++ " do not match vesting total " ++
      Amount.text info.vesting.lockedTotal)
  let report := report.require heading (0 ≤ info.unlocked)
    ("negative unlocked funds " ++ Amount.text info.unlocked)
  report.require heading (0 ≤ info.rewardDebt)
    ("negative reward debt " ++ Amount.text info.rewardDebt)

/-- Enters one expert.  Weights are summed up as they are stored, and a sum that does not
fit faults. -/
def enter (audit : Audit) (expert : Address) (info : Expert) : Except Fault Audit :=
  let summary := audit.summary
  if summary.totalWeight.toNat + info.weight.toNat < UInt64.size then
    .ok {
      summary :=
        { expertCount := summary.expertCount + 1
          totalWeight := summary.totalWeight + info.weight
          totalLocked := summary.totalLocked + info.locked
          totalUnlocked := summary.totalUnlocked + info.unlocked }
      report := inspect audit.report ("expert " ++ expert.text ++ ": ") info }
  else .error .addOverflow

/-- Reports what kept the audit from going on. -/
def broken (audit : Audit) (message : String) : Audit :=
  { audit with report := audit.report.add "" message }

/-- Enters the experts in order, up to the first whose key is no address. -/
def enterAll (audit : Audit) : List (Key × Expert) → Except Fault Audit
  | [] => .ok audit
  | (key, info) :: rest =>
    match key.toAddress with
    | .ok expert => do
      let entered ← audit.enter expert info
      entered.enterAll rest
    | .error defect => .ok (audit.broken ("error iterating experts: " ++ defect.message))

def enterExperts (audit : Audit) (fund : Fund) : Except Fault Audit :=
  match fund.expertMap with
  | .ok experts => audit.enterAll experts.entries
  | .error refusal =>
    .ok (audit.broken ("error loading experts: " ++ refusal.failure.text))

def compareTotals (audit : Audit) (fund : Fund) (balance : Int) : Audit :=
  let summary := audit.summary
  let report := audit.report.require "" (summary.totalWeight = fund.totalWeight)
    ("total weight " ++ toString fund.totalWeight.toNat ++
      " does not match sum of expert weights " ++ toString summary.totalWeight.toNat)
  let report := report.require "" (fund.lastBalance ≤ balance)
    ("last fund balance " ++ Amount.text fund.lastBalance ++ " exceeds balance " ++
      Amount.text balance)
  let report := report.require "" (summary.owed ≤ fund.lastBalance)
    ("expert funds owed " ++ Amount.text summary.owed ++ " exceed last fund balance " ++
      Amount.text fund.lastBalance)
  ⟨summary, report⟩

def enterVotes (audit : Audit) (fund : Fund) : Audit :=
  match fund.tally with
  | .ok tally =>
    let report := tally.entries.foldl (fun report (key, amount) =>
      report.require "" (0 ≤ amount)
        ("negative votes " ++ Amount.text amount ++ " for key " ++ key.text)) audit.report
    { audit with report := report }
  | .error refusal => audit.broken ("error loading expert votes: " ++ refusal.failure.text)

end Audit

def audit (fund : Fund) (balance : Int) : Except Fault Audit := do
  let audit ← Audit.empty.enterExperts fund
  return (audit.compareTotals fund balance).enterVotes fund

end RewardVesting.ExpertFund
