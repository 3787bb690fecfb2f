import RewardVesting.Policy
import RewardVesting.Toml.Reader

namespace RewardVesting.Policy

open Toml

/-! A policy as a document.  Parameters that are left out keep their standard value, and
what is no parameter is ignored. -/

/-- Parameters are unsigned 64-bit integers, the epochs of the schedule signed ones. -/
private def parameter? (document : Document) (name : String) (standard : Nat) :
    Option Nat :=
  match document.find? [.name name] with
  | none => some standard
  | some (.value (.number (.integer value))) =>
    if 0 ≤ value ∧ value < UInt64.size then some value.toNat else none
  | some _ => none

private def epoch? : Value → Option Int
  | .number (.integer value) => if Epoch.Representable value then some value else none
  | _ => none

private def epochAt? (document : Document) (base : Path) (name : String) : Option Int :=
  match document.find? (base ++ [.name name]) with
  | some (.value value) => epoch? value
  | _ => none

private def specAt? (document : Document) (base : Path) : Option VestSpec := do
  let initialDelay ← epochAt? document base "initial_delay"
  let vestPeriod ← epochAt? document base "vest_period"
  let stepDuration ← epochAt? document base "step_duration"
  let quantization ← epochAt? document base "quantization"
  return ⟨initialDelay, vestPeriod, stepDuration, quantization⟩

/-- A schedule is given whole: as a table, or as a list of its fields in order.  Items after
those are not even read. -/
private def spec? (document : Document) (name : String) (standard : VestSpec) :
    Option VestSpec :=
  match document.find? [.name name] with
  | none => some standard
  | some (.value
      (.list (initialDelay :: vestPeriod :: stepDuration :: quantization :: _))) => do
    return ⟨← epoch? initialDelay, ← epoch? vestPeriod, ← epoch? stepDuration,
      ← epoch? quantization⟩
  | some (.value (.table fields)) => if allReadable fields then specAt? fields [] else none
  | some (.table _) => specAt? document [.name name]
  | some _ => none

private def specName : String := "reward_vesting_spec"

/-- Tells whether everything but the schedule can be read, also what is no parameter. -/
private def othersReadable (document : Document) : Bool :=
  document.all fun (path, entry) => path = [.name specName] || entry.isReadable

def ofDocument? (document : Document) : Option Policy := do
  if !othersReadable document then none
  return {
    rewardVestingSpec := ← spec? document specName standard.rewardVestingSpec
    voteRewardShare := ← parameter? document "vote_reward_share" standard.voteRewardShare
    expertRewardShare :=
      ← parameter? document "expert_reward_share" standard.expertRewardShare
    knowledgeRewardShare :=
      ← parameter? document "knowledge_reward_share" standard.knowledgeRewardShare
    rewardShareDenominator :=
      ← parameter? document "reward_share_denominator" standard.rewardShareDenominator
    retrievalPledgeFactor :=
      ← parameter? document "retrieval_pledge_factor" standard.retrievalPledgeFactor
    retrievalCirculatingCap :=
      ← parameter? document "retrieval_circulating_cap" standard.retrievalCirculatingCap
    retrievalRewardDenominator :=
      ← parameter? document "retrieval_reward_denominator"
        standard.retrievalRewardDenominator
    penaltyMultiplier :=
      ← parameter? document "penalty_multiplier" standard.penaltyMultiplier
    accPerShareMultiplier :=
      ← parameter? document "acc_per_share_multiplier" standard.accPerShareMultiplier
    expertVoteThreshold :=
      ← parameter? document "expert_vote_threshold" standard.expertVoteThreshold }

def ofToml? (text : String) : Option Policy :=
  (Document.ofString? text).bind ofDocument?

end RewardVesting.Policy
