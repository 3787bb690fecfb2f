import RewardVesting.Host.Call

namespace RewardVesting

open Host

/-! A probe is an actor that follows a program, one host operation after another, and shows
what each of them answers.  Its state is a tranche. -/

instance : Storage Tranche where
  Storable tranche := (Tranche.format.write tranche).isSome
  decidableStorable _ := inferInstance

inductive Instruction
  | checkAny
  | checkIs (allowed : List Address)
  | checkKind (allowed : List ActorKind)
  | message
  | epoch
  | balance
  | supply
  | policy
  | granted (grant : Grant)
  | create (initial : Tranche)
  | state
  /-- Reads the state as that of the reward actor. -/
  | stateAsReward
  | fail (failure : Failure)
  | send (outgoing : Message)
  /-- Follows `body` inside a transaction that replaces the state, if there is a
  replacement. -/
  | transact (replacement : Option Tranche) (body : List Instruction)
  /-- Goes on after a failure. -/
  | tolerate (instruction : Instruction)

namespace Instruction

def name : Instruction → String
  | checkAny => "any"
  | checkIs _ => "is"
  | checkKind _ => "type"
  | message => "message"
  | epoch => "epoch"
  | balance => "balance"
  | supply => "circ"
  | policy => "policy"
  | granted _ => "granted"
  | create _ => "create"
  | state => "state"
  | stateAsReward => "state_as_reward"
  | fail _ => "fail"
  | send _ => "send"
  | transact _ _ => "tx"
  | tolerate instruction => instruction.name

private def answering (answer : Answer) (operation : Run Tranche Unit) :
    Run Tranche Answer := do
  operation
  return answer

def tolerates : Instruction → Bool
  | tolerate _ => true
  | _ => false

/-- Shows what an instruction answered, and fails as it did unless that is tolerated. -/
private def showing (instruction : Instruction) (operation : Run Tranche Answer) :
    Run Tranche Unit := do
  let result ← Action.attempt operation
  Action.modify fun host =>
    { host with events := host.events ++ [.answered instruction.name result] }
  if instruction.tolerates then
    pure ()
  else
    let _ ← Action.ofExcept result

mutual

def perform : Instruction → Run Tranche Answer
  | checkAny => answering .nothing validateAny
  | checkIs allowed => answering .nothing (validateIs allowed)
  | checkKind allowed => answering .nothing (validateKind allowed)
  | message => do
    return .message (← currentCaller) (← currentReceiver) (← currentValue)
  | epoch => do return .number (← currentEpoch)
  | balance => do return .number (← currentBalance)
  | supply => do return .number (← currentSupply)
  | policy => do return .number (← currentPolicy).penaltyMultiplier
  | granted grant => do return .truth (← holdsGrant grant)
  | create initial => answering .nothing (Host.create initial)
  | state => do return .tranche (← readState)
  | stateAsReward => do
    -- The tuples of the two states differ in length, so that no bytes are both.
    let _ ← readState
    Action.refuse ⟨.illegalState, CodecError.malformed.text⟩
  | fail failure => Action.refuse failure
  | send outgoing => do return .bytes (← Host.send outgoing)
  | transact replacement body =>
    Host.transact fun state => do
      followAll body
      return (.tranche state, replacement.getD state)
  | tolerate instruction => instruction.perform

def followAll : List Instruction → Run Tranche Unit
  | [] => pure ()
  | instruction :: rest => do
    showing instruction instruction.perform
    followAll rest

end

/-- The code of a probe, whatever the method: follow the program and return one byte. -/
def code (program : List Instruction) : ActorCode Tranche := fun _ _ => do
  followAll program
  return [0x2a]

end Instruction

end RewardVesting
