import RewardVesting.ExpertFund.Expert
import RewardVesting.Ledger.Schedule
import RewardVesting.Policy
import RewardVesting.Tally

namespace RewardVesting.ExpertFund

/-- Experts, the pool that pays them by weight, and the votes each of them has. -/
structure Fund where
  experts : Link (AddressMap Expert)
  pool : Pool
  totalWeight : UInt64
  /-- The balance at the last update of the pool, less what has been claimed since. -/
  lastBalance : Int
  votes : Link Tally

namespace Fund

inductive Refusal
  | unreachable
  | unstorable
  | unknownExpert (expert : Address)
  | balanceFell (balance lastBalance : Int)
  | negativePending (pending : Int) (weight : UInt64) (debt : Int)
  | notVested (cause : Ledger.LockRefusal)
  | weightTooLarge (expert : Address) (added : UInt64)
  | totalWeightTooLarge (added : UInt64)
  | weightAboveTotal (expert : Address) (weight total : UInt64)
  | insufficientFunds (unlocked requested : Int)
  | votes (cause : Tally.Refusal)
  deriving DecidableEq

namespace Refusal

def failure : Refusal → Failure
  | unreachable => .adopt .illegalState "failed to load experts" Link.missingText
  | unstorable => .adopt .illegalState "failed to flush experts" CodecError.tooLarge.text
  | unknownExpert expert => ⟨.notFound, "expert " ++ expert.text ++ " not found"⟩
  | balanceFell balance lastBalance =>
    ⟨.illegalState, "balance " ++ Amount.text balance ++
      " below last recorded fund balance " ++ Amount.text lastBalance⟩
  | negativePending pending weight debt =>
    ⟨.illegalState, "negative pending reward " ++ toString pending ++ " for weight " ++
      toString weight.toNat ++ " and debt " ++ Amount.text debt⟩
  | notVested cause => .adopt .illegalState "failed to vest pending reward" cause.message
  | weightTooLarge expert added =>
    ⟨.illegalArgument, "weight of " ++ expert.text ++ " overflows adding " ++
      toString added.toNat⟩
  | totalWeightTooLarge added =>
    ⟨.illegalArgument, "total weight overflows adding " ++ toString added.toNat⟩
  | weightAboveTotal expert weight total =>
    ⟨.illegalState, "expert " ++ expert.text ++ " weight " ++ toString weight.toNat ++
      " exceeds total weight " ++ toString total.toNat⟩
  | insufficientFunds unlocked requested =>
    ⟨.illegalState, "insufficient unlocked funds: " ++ Amount.text unlocked ++ " < " ++
      Amount.text requested⟩
  | votes cause => cause.failure

end Refusal

def empty : Fund where
  experts := .held .empty
  pool := .empty
  totalWeight := 0
  lastBalance := 0
  votes := .held .empty

abbrev Operation (α : Type) := Action Fund Refusal α

def expertMap (fund : Fund) : Except Refusal (AddressMap Expert) :=
  match fund.experts with
  | .held experts => .ok experts
  | .missing => .error .unreachable

def find? (fund : Fund) (expert : Address) : Except Refusal (Option Expert) := do
  let experts ← fund.expertMap
  return experts.find? (.address expert)

def get (expert : Address) : Operation Expert := do
  match ← Action.ofExcept ((← Action.read).find? expert) with
  | some info => pure info
  | none => Action.refuse (.unknownExpert expert)

def put (key : Key) (info : Expert) : Operation Unit := do
  let experts ← Action.ofExcept (← Action.read).expertMap
  Action.require ((Expert.format.write info).isSome) .unstorable
  Action.modify fun fund => { fund with experts := .held (experts.insert key info) }

/-- Spreads what has come in since the last update over all weights.  Without any weight the
inflow waits and only the epoch moves on. -/
def updatePool (policy : Policy) (epoch balance : Int) : Operation Unit := do
  let fund ← Action.read
  if fund.totalWeight = 0 then
    Action.write { fund with pool := { fund.pool with lastEpoch := epoch } }
  else
    let inflow := balance - fund.lastBalance
    Action.require (0 ≤ inflow) (.balanceFell balance fund.lastBalance)
    let gain ← divide (inflow * policy.accPerShareMultiplier) fund.totalWeight.toNat
    Action.write { fund with
      pool := ⟨epoch, fund.pool.accPerShare + gain⟩
      lastBalance := balance }

/-- What the pool has accumulated for a weight. -/
def accumulated (policy : Policy) (weight : UInt64) : Operation Int := do
  let fund ← Action.read
  fund.pool.accumulated policy.accPerShareMultiplier weight

/-- Puts a pending reward under the vesting schedule. -/
def vest (policy : Policy) (epoch pending : Int) (info : Expert) : Operation Expert :=
  if 0 < pending then do
    let (_, vesting) ← Action.runOn info.vesting
      ((Ledger.lock epoch pending policy.rewardVestingSpec).mapError .notVested)
    return { info with vesting := vesting, locked := info.locked + pending }
  else
    return info

/-- Settles an expert: what is pending starts to vest, and what has been vested for a whole
period is unlocked. -/
def settle (policy : Policy) (epoch : Int) (info : Expert) : Operation Expert := do
  let pending := (← accumulated policy info.weight) - info.rewardDebt
  Action.require (0 ≤ pending) (.negativePending pending info.weight info.rewardDebt)
  let info ← vest policy epoch pending info
  let ripe ← Epoch.sub epoch policy.rewardVestingSpec.vestPeriod
  let (vesting, released) := info.vesting.sweep ripe
  return { info with
    vesting := vesting
    locked := info.locked - released
    unlocked := info.unlocked + released }

/-- Adds weight to an expert, who becomes known with its first deposit.  The new weight
earns nothing from before. -/
def deposit (policy : Policy) (epoch balance : Int) (expert : Address) (added : UInt64) :
    Operation Unit := do
  updatePool policy epoch balance
  let known ← Action.ofExcept ((← Action.read).find? expert)
  let info ← settle policy epoch (known.getD .unregistered)
  Action.require (info.weight.toNat + added.toNat < UInt64.size)
    (.weightTooLarge expert added)
  let total := (← Action.read).totalWeight
  Action.require (total.toNat + added.toNat < UInt64.size) (.totalWeightTooLarge added)
  Action.modify fun fund => { fund with totalWeight := total + added }
  let debt ← accumulated policy (info.weight + added)
  put (.address expert) { info with weight := info.weight + added, rewardDebt := debt }

/-- Takes an amount out of what an expert has unlocked. -/
def claim (policy : Policy) (epoch balance : Int) (expert : Address) (amount : Int) :
    Operation Unit := do
  updatePool policy epoch balance
  let info ← settle policy epoch (← get expert)
  let debt ← accumulated policy info.weight
  Action.require (amount ≤ info.unlocked) (.insufficientFunds info.unlocked amount)
  Action.modify fun fund => { fund with lastBalance := fund.lastBalance - amount }
  put (.address expert) { info with rewardDebt := debt, unlocked := info.unlocked - amount }

/-- Takes all weight from an expert, and with it what has not been unlocked.  The weight
leaves before the last update.  Returns what was forfeited. -/
def reset (policy : Policy) (epoch balance : Int) (expert : Address) : Operation Int := do
  let info ← get expert
  let total := (← Action.read).totalWeight
  Action.require (info.weight ≤ total) (.weightAboveTotal expert info.weight total)
  Action.modify fun fund => { fund with totalWeight := total - info.weight }
  updatePool policy epoch balance
  let settled ← settle policy epoch info
  put (.address expert) { Expert.unregistered with unlocked := settled.unlocked }
  return settled.locked

def tally (fund : Fund) : Except Refusal Tally :=
  (Tally.load fund.votes).mapError .votes

def storeTally (tally : Tally) : Operation Unit := do
  let stored ← Action.ofExcept (tally.store.mapError .votes)
  Action.modify fun fund => { fund with votes := stored }

/-- Changes the votes of an expert, registered or not. -/
def changeVotes (expert : Address) (change : Int) : Operation Unit := do
  let tally ← Action.ofExcept (← Action.read).tally
  let changed ← Action.ofExcept ((tally.add expert change).mapError .votes)
  storeTally changed

/-- Sets the votes of an expert, of whatever sign. -/
def putVotes (expert : Address) (amount : Int) : Operation Unit := do
  let tally ← Action.ofExcept (← Action.read).tally
  storeTally (tally.insert (.address expert) amount)

def votesOf (fund : Fund) (expert : Address) : Except Refusal Int := do
  let tally ← fund.tally
  return tally.balance expert

end Fund

end RewardVesting.ExpertFund
