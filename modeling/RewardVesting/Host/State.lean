import RewardVesting.Host.Basic

namespace RewardVesting.Host

variable {σ α : Type}

def put [Storage σ] (state : σ) : Run σ Unit :=
  if Storage.Storable state then
    Action.modify fun host => { host with state := some (.held state) }
  else
    Action.refuse ⟨.illegalState, CodecError.tooLarge.text⟩

def create [Storage σ] (state : σ) : Run σ Unit := do
  Action.require ((← Action.read).state.isNone) ⟨.illegalState, "state already constructed"⟩
  put state

def readState : Run σ σ := do
  match (← Action.read).state with
  | some (.held state) => pure state
  | some .missing => Action.refuse ⟨.illegalState, "state not found"⟩
  | none => Action.refuse ⟨.illegalState, "state not constructed"⟩

def enterTransaction (inside : Bool) : Run σ Unit :=
  Action.modify fun host => { host with inTransaction := inside }

/-- Runs `body` on the state and stores what it makes of it, unless it is refused. -/
def transact [Storage σ] (body : σ → Run σ (α × σ)) : Run σ α := do
  Action.require ((← Action.read).inTransaction = false)
    ⟨.assertionFailed, "nested transaction"⟩
  let state ← readState
  enterTransaction true
  let result ← Action.attempt (body state)
  enterTransaction false
  let (value, changed) ← Action.ofExcept result
  put changed
  return value

def transaction [Storage σ] (change : Action σ Failure α) : Run σ α :=
  transact fun state => Action.runOn state change

/-- The state as an observer of the host sees it. -/
def observedState : Run σ σ := do
  match (← Action.read).state with
  | some (.held state) => pure state
  | some .missing => Action.stop (.breach .stateMissing)
  | none => Action.stop (.breach .stateNotConstructed)

def loseState : Run σ Unit :=
  Action.modify fun host => { host with state := some .missing }

end RewardVesting.Host
