import RewardVesting.Host.Caller
import RewardVesting.Host.State

namespace RewardVesting.Host

variable {σ α : Type}

/-! Messages leave the actor one by one, and each must be the next that was expected. -/

def expectSend (message : Message) (reply : Reply) : Run σ Unit :=
  expect fun expectations =>
    { expectations with sends := expectations.sends ++ [(message, reply)] }

/-- Takes the next reply at hand; past the end every message succeeds without a value. -/
def expectNextReply (message : Message) : Run σ Unit := do
  match (← Action.read).replies with
  | none => pure ()
  | some [] => expectSend message .silent
  | some (reply :: rest) =>
    Action.modify fun host => { host with replies := some rest }
    expectSend message reply

def takeExpectedSend (message : Message) : Run σ Reply := do
  match (← Action.read).expectations.sends with
  | [] => Action.stop (.breach .unexpectedMessage)
  | (expected, reply) :: rest =>
    expect fun expectations => { expectations with sends := rest }
    if expected = message then pure reply else Action.stop (.breach .messageMismatch)

/-- Carries out a message whose reply is known. -/
def settleReply (message : Message) (reply : Reply) : Run σ Bytes := do
  Action.require reply.code.IsSuccess ⟨reply.code,
    "send to " ++ message.recipient.text ++ " method " ++ toString message.method ++
      " aborted"⟩
  let balance := (← Action.read).balance
  Action.require (message.value ≤ balance) ⟨.insufficientBalance,
    "cannot send value: " ++ Amount.text message.value ++ " exceeds balance: " ++
      Amount.text balance⟩
  Action.modify fun host => { host with balance := host.balance - message.value }
  return reply.returned

def deliver (message : Message) : Run σ Bytes := do
  if (← Action.read).inTransaction then
    Action.refuse ⟨.assertionFailed, "side-effect within transaction"⟩
  else
    expectNextReply message
    let reply ← takeExpectedSend message
    settleReply message reply

def outcomeCode (result : Except Failure Bytes) : ExitCode :=
  match result with
  | .ok _ => .ok
  | .error failure => failure.code

def send (message : Message) : Run σ Bytes := do
  requireInCall
  let result ← Action.attempt (deliver message)
  observe (.sent message (outcomeCode result))
  Action.ofExcept result

/-- The code of an actor: what each method does with its parameters. -/
abbrev ActorCode (σ : Type) := (method : Nat) → (params : Bytes) → Run σ Bytes

/-- Starts a new record of events, with or without replies at hand. -/
def begin (host : Host σ) (replies : Option (List Reply)) : Host σ :=
  { host with replies := replies, events := [], notices := [] }

/-- Invokes a method.  A call that fails leaves neither state nor balance changed. -/
def call (code : ActorCode σ) (replies : Option (List Reply)) (method : Nat)
    (params : Bytes) : Run σ Bytes := fun before =>
  match code method params { before.begin replies with inCall := true } with
  | .error fault => .error fault
  | .ok (.ok returned, after) => .ok (.ok returned, { after with inCall := false })
  | .ok (.error failure, after) =>
    .ok (.error failure,
      { after with state := before.state, balance := before.balance, inCall := false })

def verify : Run σ Unit := do
  match (← Action.read).expectations.unmet? with
  | some breach => Action.stop (.breach breach)
  | none => pure ()

def reset : Run σ Unit :=
  expect fun _ => .none

end RewardVesting.Host
