import RewardVesting.Proofs.Host.Effect

namespace RewardVesting.Host

open RewardVesting.Action

variable {σ α : Type} {host after : Host σ} {replies : List Reply} {message : Message}

/-! A host with replies at hand: the actor is never stopped, and each message gets the next
one. -/

/-- The host is inside a call and answers what is sent. -/
structure Serves (host : Host σ) (replies : List Reply) : Prop where
  inCall : host.inCall = true
  outside : host.inTransaction = false
  quiet : host.expectations.sends = []
  replies : host.replies = some replies

def nextReply (replies : List Reply) : Reply := replies.headD .silent

/-- What a message moves if it is answered in this way. -/
def moved (reply : Reply) (message : Message) : Int :=
  if reply.code.IsSuccess then message.value else 0

def afterSend (host : Host σ) (replies : List Reply) (message : Message) : Host σ :=
  { host with
    expectations := { host.expectations with sends := [] }
    replies := some replies.tail
    balance := host.balance - moved (nextReply replies) message
    events := host.events ++ [.sent message (nextReply replies).code] }

theorem Serves.afterSend (hserves : Serves host replies) (message : Message) :
    Serves (host.afterSend replies message) replies.tail :=
  ⟨hserves.inCall, hserves.outside, rfl, rfl⟩

theorem Serves.observe (hserves : Serves host replies) (event : Event) :
    (observe event : Run σ Unit).Yields host ()
      { host with events := host.events ++ [event] } := by
  rw [Host.observe, yields_modify, announces, hserves.replies]
  rfl

theorem Serves.requireInCall (hserves : Serves host replies) :
    (requireInCall : Run σ Unit).Yields host () host :=
  yields_requireInCall.mpr ⟨hserves.inCall, rfl⟩

theorem Serves.expectNextReply (hserves : Serves host replies) (message : Message) :
    (expectNextReply message : Run σ Unit).Yields host () { host with
      expectations := { host.expectations with sends := [(message, nextReply replies)] }
      replies := some replies.tail } := by
  have hquiet := hserves.quiet
  have hreplies := hserves.replies
  refine ends_read_bind ?_
  rw [hreplies]
  cases replies with
  | nil =>
      refine yields_modify.mpr ?_
      dsimp only
      rw [hquiet, hreplies]
      rfl
  | cons reply rest =>
      refine Yields.andThen (yields_modify.mpr rfl) (yields_modify.mpr ?_)
      dsimp only
      rw [hquiet]
      rfl

/-- How a message that can be paid for ends. -/
def answerTo (message : Message) (reply : Reply) : Except Failure Bytes :=
  if reply.code.IsSuccess then .ok reply.returned
  else .error ⟨reply.code,
    "send to " ++ message.recipient.text ++ " method " ++ toString message.method ++
      " aborted"⟩

theorem outcomeCode_answerTo (message : Message) (reply : Reply) :
    outcomeCode (answerTo message reply) = reply.code := by
  rw [answerTo]
  split
  · rename_i hsuccess
    exact congrArg ExitCode.mk hsuccess.symm
  · rfl

theorem settleReply_ends {reply : Reply}
    (hfunds : reply.code.IsSuccess → message.value ≤ host.balance) :
    (settleReply message reply).Ends host (answerTo message reply)
      { host with balance := host.balance - moved reply message } := by
  rw [answerTo, moved]
  split
  · rename_i hsuccess
    refine Yields.andThen (yields_require.mpr ⟨hsuccess, rfl⟩) (ends_read_bind ?_)
    refine Yields.andThen (yields_require.mpr ⟨hfunds hsuccess, rfl⟩) ?_
    exact Yields.andThen (yields_modify.mpr rfl) (yields_pure.mpr ⟨rfl, rfl⟩)
  · rename_i hfailure
    rw [Int.sub_zero]
    exact (ends_require_of_not hfailure).bind_refused

/-- A message ends as its reply says, if it can be paid for whenever it is to succeed. -/
theorem Serves.send (hserves : Serves host replies)
    (hfunds : (nextReply replies).code.IsSuccess → message.value ≤ host.balance) :
    (send message).Ends host (answerTo message (nextReply replies))
      (host.afterSend replies message) := by
  have htaken (expecting : Host σ) (hsends :
      expecting.expectations.sends = [(message, nextReply replies)]) :
      (takeExpectedSend message).Yields expecting (nextReply replies)
        { expecting with expectations := { expecting.expectations with sends := [] } } := by
    refine ends_read_bind ?_
    rw [hsends]
    refine Yields.andThen (yields_modify.mpr rfl) ?_
    rw [if_pos rfl]
    exact yields_pure.mpr ⟨rfl, rfl⟩
  have hdelivered : (deliver message).Ends host (answerTo message (nextReply replies))
      { host with
        expectations := { host.expectations with sends := [] }
        replies := some replies.tail
        balance := host.balance - moved (nextReply replies) message } := by
    refine ends_read_bind ?_
    rw [if_neg (by simp [hserves.outside])]
    refine (hserves.expectNextReply message).andThen ((htaken _ rfl).bind ?_)
    exact settleReply_ends hfunds
  refine hserves.requireInCall.andThen (hdelivered.attempt.bind ?_)
  refine Yields.andThen (yields_modify.mpr rfl) ?_
  rw [outcomeCode_answerTo]
  exact rfl

theorem Serves.send_succeeds (hserves : Serves host replies)
    (hsuccess : (nextReply replies).code.IsSuccess)
    (hfunds : message.value ≤ host.balance) :
    (Host.send message).Yields host (nextReply replies).returned
      (host.afterSend replies message) := by
  have hends : (Host.send message).Ends host (answerTo message (nextReply replies))
      (host.afterSend replies message) := hserves.send fun _ => hfunds
  rw [answerTo, if_pos hsuccess] at hends
  exact hends

/-- A message that fails moves nothing, whether or not it could have been paid for. -/
theorem Serves.send_fails (hserves : Serves host replies)
    (hfails : ¬(nextReply replies).code.IsSuccess) :
    ∃ text, (Host.send message).Refuses host ⟨(nextReply replies).code, text⟩
      (host.afterSend replies message) := by
  have hends : (Host.send message).Ends host (answerTo message (nextReply replies))
      (host.afterSend replies message) := hserves.send (absurd · hfails)
  rw [answerTo, if_neg hfails] at hends
  exact ⟨_, hends⟩

/-- The host once its caller has been found among `allowed`. -/
def afterCheck (host : Host σ) (allowed : List Address) : Host σ :=
  { host with
    expectations := { host.expectations with callerAddresses := none }
    events := host.events ++ [.callerIs allowed] }

theorem Serves.afterCheck (hserves : Serves host replies) (allowed : List Address) :
    Serves (host.afterCheck allowed) replies :=
  ⟨hserves.inCall, hserves.outside, hserves.quiet, hserves.replies⟩

theorem Serves.validateIs (hserves : Serves host replies) {allowed : List Address}
    (hcaller : host.caller ∈ allowed) :
    (validateIs allowed).Yields host () (host.afterCheck allowed) := by
  have hsome : allowed ≠ [] := List.ne_nil_of_mem hcaller
  have hannounced : (announce (.callerIs allowed) (expectCallerIs allowed)).Yields host ()
      { host with
        expectations := { host.expectations with callerAddresses := some allowed }
        events := host.events ++ [.callerIs allowed] } := by
    refine (hserves.observe _).andThen (ends_read_bind ?_)
    rw [announces, hserves.replies, Option.isSome_some, if_pos rfl, expectCallerIs,
      if_neg hsome]
    exact yields_modify.mpr rfl
  refine hannounced.andThen
    (Yields.andThen (yields_requireInCall.mpr ⟨hserves.inCall, rfl⟩) ?_)
  refine ends_read_bind ?_
  rw [if_neg hsome, if_pos rfl]
  exact Yields.andThen (yields_modify.mpr rfl) (yields_require.mpr ⟨hcaller, rfl⟩)

theorem yields_readState {state : σ} (hstate : host.state = some (.held state)) :
    readState.Yields host state host := by
  refine ends_read_bind ?_
  rw [hstate]
  exact yields_pure.mpr ⟨rfl, rfl⟩

/-- The host once a transaction has gone through. -/
def afterChange (host : Host σ) (changed : σ) : Host σ :=
  { host with inTransaction := false, state := some (.held changed) }

theorem Serves.afterChange (hserves : Serves host replies) (changed : σ) :
    Serves (host.afterChange changed) replies :=
  ⟨hserves.inCall, rfl, hserves.quiet, hserves.replies⟩

section Transaction

variable [Storage σ] {change : Action σ Failure α} {state changed : σ}
  (houtside : host.inTransaction = false) (hstate : host.state = some (.held state))

include houtside hstate

theorem yields_transaction {value : α} (hchange : change.Yields state value changed)
    (hstorable : Storage.Storable changed) :
    (transaction change).Yields host value (host.afterChange changed) := by
  refine ends_read_bind (Yields.andThen (yields_require.mpr ⟨houtside, rfl⟩) ?_)
  refine (yields_readState hstate).bind (Yields.andThen (yields_modify.mpr rfl) ?_)
  have hbody : (runOn state change).Yields { host with inTransaction := true }
      (value, changed) { host with inTransaction := true } :=
    yields_runOn.mpr ⟨hchange, rfl⟩
  refine (Ends.attempt hbody).bind (Yields.andThen (yields_modify.mpr rfl) ?_)
  refine Yields.bind (yields_ofExcept.mpr ⟨rfl, rfl⟩) ?_
  refine Yields.andThen ?_ (yields_pure.mpr ⟨rfl, rfl⟩)
  rw [put, if_pos hstorable]
  exact yields_modify.mpr rfl

theorem refuses_transaction {failure : Failure}
    (hchange : change.Refuses state failure changed) :
    (transaction change).Refuses host failure { host with inTransaction := false } := by
  refine ends_read_bind (Yields.andThen (yields_require.mpr ⟨houtside, rfl⟩) ?_)
  refine (yields_readState hstate).bind (Yields.andThen (yields_modify.mpr rfl) ?_)
  have hbody : (runOn state change).Refuses { host with inTransaction := true } failure
      { host with inTransaction := true } := refuses_runOn.mpr ⟨changed, hchange, rfl⟩
  refine (Ends.attempt hbody).bind (Yields.andThen (yields_modify.mpr rfl) ?_)
  exact Ends.bind_refused (refuses_ofExcept.mpr ⟨rfl, rfl⟩)

end Transaction

/-- A host between two calls: nothing is under way, and no message is expected from
before. -/
structure Idle (host : Host σ) : Prop where
  outside : host.inTransaction = false
  quiet : host.expectations.sends = []

theorem Idle.serves (hidle : host.Idle) (replies : List Reply) :
    Serves (host.entered (some replies)) replies :=
  ⟨rfl, hidle.outside, hidle.quiet, rfl⟩

theorem call_of_yields {code : ActorCode σ} {answers : Option (List Reply)} {method : Nat}
    {params returned : Bytes}
    (hyields : (code method params).Yields (host.entered answers) returned after) :
    (call code answers method params).Yields host returned
      { after with inCall := false } := by
  simp only [Yields, Ends, entered] at hyields
  simp only [Yields, Ends, call, hyields]

theorem call_of_refuses {code : ActorCode σ} {answers : Option (List Reply)} {method : Nat}
    {params : Bytes} {failure : Failure}
    (hrefuses : (code method params).Refuses (host.entered answers) failure after) :
    (call code answers method params).Refuses host failure
      { after with state := host.state, balance := host.balance, inCall := false } := by
  simp only [Refuses, Ends, entered] at hrefuses
  simp only [Refuses, Ends, call, hrefuses]

end RewardVesting.Host
