import RewardVesting.Host.Basic

namespace RewardVesting.Host

variable {σ : Type}

/-! Who may call.  Each check must have been expected, exactly as it is made. -/

def expect (change : Expectations → Expectations) : Run σ Unit :=
  Action.modify fun host => { host with expectations := change host.expectations }

def expectCallerAny : Run σ Unit :=
  expect fun expectations => { expectations with callerAny := true }

def expectCallerIs (allowed : List Address) : Run σ Unit :=
  if allowed = [] then Action.stop (.breach .noAddresses)
  else expect fun expectations => { expectations with callerAddresses := some allowed }

def expectCallerKind (allowed : List ActorKind) : Run σ Unit :=
  if allowed = [] then Action.stop (.breach .noKinds)
  else expect fun expectations => { expectations with callerKinds := some allowed }

/-- Expects something by itself, if the host is one that announces. -/
def announce (event : Event) (expectation : Run σ Unit) : Run σ Unit := do
  observe event
  if (← Action.read).announces then expectation

def validateAny : Run σ Unit := do
  announce .callerAny expectCallerAny
  requireInCall
  if (← Action.read).expectations.callerAny then
    expect fun expectations => { expectations with callerAny := false }
  else
    Action.stop (.breach .unexpectedCallerAny)

private def listText (items : List String) : String :=
  "[" ++ ", ".intercalate items ++ "]"

def validateIs (allowed : List Address) : Run σ Unit := do
  announce (.callerIs allowed) (expectCallerIs allowed)
  requireInCall
  let host ← Action.read
  if allowed = [] then
    Action.stop (.breach .noAddresses)
  else if host.expectations.callerAddresses = some allowed then
    expect fun expectations => { expectations with callerAddresses := none }
    Action.require (host.caller ∈ allowed) ⟨.forbidden,
      "caller address " ++ host.caller.text ++ " forbidden, allowed: " ++
        listText (allowed.map Address.quotedText)⟩
  else
    Action.stop (.breach .unexpectedCallerAddresses)

def validateKind (allowed : List ActorKind) : Run σ Unit := do
  announce (.callerKind allowed) (expectCallerKind allowed)
  requireInCall
  let host ← Action.read
  if allowed = [] then
    Action.stop (.breach .noKinds)
  else if host.expectations.callerKinds = some allowed then
    expect fun expectations => { expectations with callerKinds := none }
    Action.require (host.callerKind ∈ allowed) ⟨.forbidden,
      "caller type " ++ host.callerKind.name ++ " forbidden, allowed: " ++
        listText (allowed.map ActorKind.title)⟩
  else
    Action.stop (.breach .unexpectedCallerKinds)

end RewardVesting.Host
