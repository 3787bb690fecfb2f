namespace RewardVesting

/-! A fault stops a computation outright: no caller handles it and nothing of the step is
kept. -/

/-- A misuse of the host by whoever drives it. -/
inductive Breach
  | unexpectedCallerAny
  | unexpectedCallerAddresses
  | unexpectedCallerKinds
  | callerAnyNotChecked
  | callerAddressesNotChecked
  | callerKindsNotChecked
  | messagesNotSent
  | unexpectedMessage
  | messageMismatch
  | noAddresses
  | noKinds
  | outsideCall
  | stateNotConstructed
  | stateUnreadable
  | stateMissing
  deriving DecidableEq, Repr

inductive Fault
  | addOverflow
  | subtractOverflow
  | divideByZero
  | breach (breach : Breach)
  deriving DecidableEq, Repr

namespace Breach

def message : Breach → String
  | unexpectedCallerAny => "unexpected validate-caller-any"
  | unexpectedCallerAddresses => "unexpected validate caller addrs"
  | unexpectedCallerKinds => "unexpected validate caller code"
  | callerAnyNotChecked => "expected ValidateCallerAny, not received"
  | callerAddressesNotChecked => "expected ValidateCallerAddr"
  | callerKindsNotChecked => "expected ValidateCallerType"
  | messagesNotSent => "expected all message to be send"
  | unexpectedMessage => "unexpected message to:"
  | messageMismatch => "message being sent does not match expectation"
  | noAddresses => "addrs must be non-empty"
  | noKinds => "types must be non-empty"
  | outsideCall => "invalid runtime invocation outside of method call"
  | stateNotConstructed => "state not constructed"
  | stateUnreadable => "failed to load state"
  | stateMissing => "state missing from store"

end Breach

namespace Fault

def message : Fault → String
  | addOverflow => "attempt to add with overflow"
  | subtractOverflow => "attempt to subtract with overflow"
  | divideByZero => "attempt to divide by zero"
  | breach cause => cause.message

end Fault

end RewardVesting
