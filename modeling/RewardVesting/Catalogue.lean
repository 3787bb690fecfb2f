import RewardVesting.ExpertFund.Actor
import RewardVesting.Minting
import RewardVesting.Reward.Actor
import RewardVesting.Vesting.Actor

namespace RewardVesting.Catalogue

/-! The constants of the network under the names by which they are published. -/

open Network Minting

def numbers : List (String × Int) :=
  [("epoch_duration_seconds", epochDurationSeconds), ("seconds_in_hour", secondsInHour),
    ("seconds_in_day", secondsInDay), ("seconds_in_year", secondsInYear),
    ("epochs_in_hour", epochsInHour), ("epochs_in_day", epochsInDay),
    ("epochs_in_year", epochsInYear), ("token_precision", Amount.precision),
    ("hamt_bit_width", mapBitWidth), ("balance_table_bitwidth", tallyBitWidth),
    ("lambda_num", lambdaNumerator), ("lambda_den", lambdaDenominator),
    ("simple_total", supply), ("ln_two_num", lnTwoNumerator),
    ("ln_two_den", lnTwoDenominator)]

def addresses : List (String × Address) :=
  [("system", .system), ("reward", .reward), ("power", .storagePower),
    ("vesting", .vesting), ("vote_fund", .voteFund), ("expert_fund", .expertFund),
    ("knowledge_fund", .knowledgeFund), ("retrieval_fund", .retrievalFund),
    ("govern", .govern)]

def methods : List (String × List Nat) :=
  let construct := RewardVesting.Method.construct
  [("reward", [construct, Reward.Method.award, Reward.Method.epochReward,
      Reward.Method.updateNetwork]),
    ("vesting", [construct, Vesting.Method.addFunds, Vesting.Method.withdraw]),
    ("expertfund", [construct, ExpertFund.Method.receive, ExpertFund.Method.deposit,
      ExpertFund.Method.claim, ExpertFund.Method.reset, ExpertFund.Method.changeVotes,
      ExpertFund.Method.standing])]

/-- The methods of other actors that these actors call. -/
def calledMethods : List (String × Nat) :=
  [("miner_apply_rewards", Reward.Method.applyMinerReward),
    ("fund_apply_rewards", Reward.Method.applyFundReward),
    ("expert_control_address", ExpertFund.Method.controlAddress)]

end RewardVesting.Catalogue
