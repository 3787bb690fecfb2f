import RewardVesting.Action
import RewardVesting.Host.Message
import RewardVesting.Policy

namespace RewardVesting

/-- What the host has been told to expect of the actor. -/
structure Expectations where
  callerAny : Bool
  callerAddresses : Option (List Address)
  callerKinds : Option (List ActorKind)
  sends : List (Message × Reply)
  deriving DecidableEq

namespace Expectations

def none : Expectations := ⟨false, .none, .none, []⟩

def unmet? (expectations : Expectations) : Option Breach :=
  if expectations.callerAny then some .callerAnyNotChecked
  else if expectations.callerAddresses.isSome then some .callerAddressesNotChecked
  else if expectations.callerKinds.isSome then some .callerKindsNotChecked
  else if expectations.sends ≠ [] then some .messagesNotSent
  else .none

end Expectations

/-- A host runs one actor with state of type `σ`.  Everything the actor does to the outside
must be expected; a host with replies at hand expects each thing just before it happens. -/
structure Host (σ : Type) where
  epoch : Int
  receiver : Address
  caller : Address
  callerKind : ActorKind
  valueReceived : Int
  circulatingSupply : Int
  policy : Policy
  grants : List Grant
  state : Option (Link σ)
  balance : Int
  inCall : Bool
  inTransaction : Bool
  expectations : Expectations
  /-- Answers to the messages to come; without it, every message must have been expected. -/
  replies : Option (List Reply)
  events : List Event
  notices : List Notice

class Storage (σ : Type) where
  Storable : σ → Prop
  decidableStorable : DecidablePred Storable

instance {σ : Type} [Storage σ] : DecidablePred (Storage.Storable (σ := σ)) :=
  Storage.decidableStorable

namespace Host

variable {σ α : Type}

def init (receiver : Address) (policy : Policy) : Host σ where
  epoch := 0
  receiver := receiver
  caller := .system
  callerKind := .account
  valueReceived := 0
  circulatingSupply := 0
  policy := policy
  grants := []
  state := none
  balance := 0
  inCall := false
  inTransaction := false
  expectations := .none
  replies := none
  events := []
  notices := []

abbrev Run (σ α : Type) : Type := Action (Host σ) Failure α

def requireInCall : Run σ Unit := do
  let host ← Action.read
  if host.inCall then pure () else Action.stop (.breach .outsideCall)

/-- Tells whether the host expects things by itself. -/
def announces (host : Host σ) : Bool := host.replies.isSome

/-- Records an event, if the host is one that announces. -/
def observe (event : Event) : Run σ Unit :=
  Action.modify fun host =>
    if host.announces then { host with events := host.events ++ [event] } else host

def notice (severity : Severity) (text : String) : Run σ Unit :=
  Action.modify fun host => { host with notices := host.notices ++ [⟨severity, text⟩] }

def currentEpoch : Run σ Int := do
  requireInCall
  return (← Action.read).epoch

def currentBalance : Run σ Int := do
  requireInCall
  return (← Action.read).balance

def currentCaller : Run σ Address := do
  requireInCall
  return (← Action.read).caller

def currentReceiver : Run σ Address := do
  requireInCall
  return (← Action.read).receiver

def currentValue : Run σ Int := do
  requireInCall
  return (← Action.read).valueReceived

def currentPolicy : Run σ Policy := do
  return (← Action.read).policy

def currentSupply : Run σ Int := do
  return (← Action.read).circulatingSupply

def holdsGrant (grant : Grant) : Run σ Bool := do
  let holds := decide (grant ∈ (← Action.read).grants)
  observe (.granted grant holds)
  return holds

end Host

end RewardVesting
