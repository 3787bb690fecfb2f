import RewardVesting.Minting
import RewardVesting.Report
import RewardVesting.Wire.Format

namespace RewardVesting.Reward

open Wire

/-- What has been delivered so far, by recipient.  Gas is passed through and not counted. -/
structure Totals where
  power : Int
  vote : Int
  expert : Int
  knowledge : Int
  retrieval : Int
  deriving DecidableEq, Repr

namespace Totals

def zero : Totals := ⟨0, 0, 0, 0, 0⟩

def sum (totals : Totals) : Int :=
  totals.power + totals.vote + totals.expert + totals.knowledge + totals.retrieval

end Totals

structure State where
  /-- Shared among the block producers of the epoch. -/
  epochReward : Int
  /-- As last reported by the power actor. -/
  realizedPower : Int
  epoch : Int
  totals : Totals
  deriving DecidableEq, Repr

namespace State

def initial : State where
  epochReward := Minting.rewardOf 0
  realizedPower := 0
  epoch := 0
  totals := Totals.zero

/-- Brings the epoch reward up to `epoch`; an earlier epoch changes nothing. -/
def advanceTo (state : State) (epoch : Int) : Except Fault State :=
  if state.epoch < epoch then do
    let reward ← Minting.epochReward epoch
    return { state with epochReward := reward, epoch := epoch }
  else .ok state

def layout : Layout (Int × Int × Int × Int × Int × Int × Int × Int) State where
  build := fun (epochReward, realizedPower, epoch, power, vote, expert, knowledge,
      retrieval) =>
    ⟨epochReward, realizedPower, epoch, ⟨power, vote, expert, knowledge, retrieval⟩⟩
  parts := fun record =>
    (record.epochReward, record.realizedPower, record.epoch, record.totals.power,
      record.totals.vote, record.totals.expert, record.totals.knowledge,
      record.totals.retrieval)

def format : Format State :=
  (Format.tuple 8 (Format.amount.pair (Format.amount.pair (Format.integer.pair
    (Format.amount.pair (Format.amount.pair (Format.amount.pair
      (Format.amount.pair Format.amount)))))))).record layout

end State

private def signed (report : Report) (category : String) (total : Int) : Report :=
  report.require "" (0 ≤ total)
    ("total " ++ category ++ " reward is negative: " ++ Amount.text total)

def audit (state : State) (epoch : Int) : Report :=
  let report := Report.empty
  let report := report.require "" (state.epoch ≤ epoch)
    ("reward state epoch " ++ toString state.epoch ++ " is ahead of current epoch " ++
      toString epoch)
  let report := report.require "" (0 ≤ state.epochReward)
    ("negative epoch reward " ++ Amount.text state.epochReward)
  let report := signed report "storage power" state.totals.power
  let report := signed report "vote" state.totals.vote
  let report := signed report "expert" state.totals.expert
  let report := signed report "knowledge" state.totals.knowledge
  signed report "retrieval" state.totals.retrieval

end RewardVesting.Reward
