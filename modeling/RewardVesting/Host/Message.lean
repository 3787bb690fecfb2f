import RewardVesting.ActorKind
import RewardVesting.Address
import RewardVesting.Ledger.Basic

namespace RewardVesting

structure Message where
  recipient : Address
  method : Nat
  params : Bytes
  value : Int
  deriving DecidableEq

structure Reply where
  code : ExitCode
  returned : Bytes
  deriving DecidableEq, Repr

namespace Reply

/-- Success without a value. -/
def silent : Reply := ⟨.ok, []⟩

end Reply

/-- The right of a caller to invoke a method of actors of one kind. -/
structure Grant where
  caller : Address
  kind : ActorKind
  method : Nat
  deriving DecidableEq

/-- What an instruction of a probe answers. -/
inductive Answer
  | nothing
  | truth (value : Bool)
  | number (value : Int)
  | bytes (value : Bytes)
  | tranche (value : Tranche)
  | message (caller receiver : Address) (value : Int)
  deriving DecidableEq

inductive Event
  | callerAny
  | callerIs (allowed : List Address)
  | callerKind (allowed : List ActorKind)
  | granted (grant : Grant) (holds : Bool)
  | sent (message : Message) (code : ExitCode)
  | answered (instruction : String) (result : Except Failure Answer)

inductive Severity
  | error
  | info
  deriving DecidableEq, Repr

structure Notice where
  severity : Severity
  text : String
  deriving DecidableEq, Repr

end RewardVesting
