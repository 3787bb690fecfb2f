import RewardVesting.Proofs.Host.History

namespace RewardVesting.Host

open RewardVesting.Action

variable {σ α : Type} {before after : Host σ} {failure : Failure}

@[simp] theorem not_refuses_requireInCall :
    ¬(requireInCall : Run σ Unit).Refuses before failure after := by
  simp [requireInCall, refuses_ite]

@[simp] theorem not_refuses_observe {event : Event} :
    ¬(observe event : Run σ Unit).Refuses before failure after :=
  not_refuses_modify

@[simp] theorem not_refuses_notice {severity : Severity} {text : String} :
    ¬(notice severity text : Run σ Unit).Refuses before failure after :=
  not_refuses_modify

@[simp] theorem not_refuses_expect {change : Expectations → Expectations} :
    ¬(expect change : Run σ Unit).Refuses before failure after :=
  not_refuses_modify

theorem not_refuses_announce {event : Event} {expectation : Run σ Unit}
    (hexpectation : ∀ host, ¬expectation.Refuses host failure after) :
    ¬(announce event expectation).Refuses before failure after := by
  simp [announce, refuses_ite, hexpectation]

@[simp] theorem not_refuses_currentEpoch :
    ¬(currentEpoch : Run σ Int).Refuses before failure after := by
  simp [currentEpoch]

@[simp] theorem not_refuses_currentBalance :
    ¬(currentBalance : Run σ Int).Refuses before failure after := by
  simp [currentBalance]

@[simp] theorem not_refuses_currentValue :
    ¬(currentValue : Run σ Int).Refuses before failure after := by
  simp [currentValue]

@[simp] theorem not_refuses_currentCaller :
    ¬(currentCaller : Run σ Address).Refuses before failure after := by
  simp [currentCaller]

@[simp] theorem not_refuses_currentPolicy :
    ¬(currentPolicy : Run σ Policy).Refuses before failure after := by
  simp [currentPolicy]

@[simp] theorem not_refuses_holdsGrant {grant : Grant} :
    ¬(holdsGrant grant : Run σ Bool).Refuses before failure after := by
  simp [holdsGrant]

@[simp] theorem not_refuses_validateAny :
    ¬(validateAny : Run σ Unit).Refuses before failure after := by
  simp [validateAny, expectCallerAny, not_refuses_announce, refuses_ite]

theorem validateIs_refuses {allowed : List Address}
    (hrefuses : (validateIs allowed : Run σ Unit).Refuses before failure after) :
    failure.code = .forbidden := by
  have hannounce (host : Host σ) :
      ¬(announce (.callerIs allowed) (expectCallerIs allowed)).Refuses before failure
          host := by
    refine not_refuses_announce fun _ => ?_
    simp [expectCallerIs, refuses_ite]
  simp only [validateIs, refuses_bind, hannounce, not_refuses_requireInCall,
    not_refuses_read, refuses_ite, not_refuses_stop, not_refuses_expect, refuses_require,
    and_false, false_or, or_false] at hrefuses
  obtain ⟨_, _, _, _, _, _, _, _, _, _, _, _, _, _, _, rfl, _⟩ := hrefuses
  rfl

theorem validateKind_refuses {allowed : List ActorKind}
    (hrefuses : (validateKind allowed : Run σ Unit).Refuses before failure after) :
    failure.code = .forbidden := by
  have hannounce (host : Host σ) :
      ¬(announce (.callerKind allowed) (expectCallerKind allowed)).Refuses before failure
          host := by
    refine not_refuses_announce fun _ => ?_
    simp [expectCallerKind, refuses_ite]
  simp only [validateKind, refuses_bind, hannounce, not_refuses_requireInCall,
    not_refuses_read, refuses_ite, not_refuses_stop, not_refuses_expect, refuses_require,
    and_false, false_or, or_false] at hrefuses
  obtain ⟨_, _, _, _, _, _, _, _, _, _, _, _, _, _, _, rfl, _⟩ := hrefuses
  rfl

theorem readState_refuses (hrefuses : readState.Refuses before failure after) :
    (∀ state, before.state ≠ some (.held state)) ∧ failure.code = .illegalState ∧
      after = before := by
  simp only [readState, refuses_bind, not_refuses_read, yields_read, false_or] at hrefuses
  obtain ⟨_, _, ⟨rfl, rfl⟩, hmatch⟩ := hrefuses
  split at hmatch
  · exact absurd hmatch not_refuses_pure
  · rename_i hstate
    obtain ⟨rfl, rfl⟩ := refuses_refuse.mp hmatch
    exact ⟨by simp [hstate], rfl, rfl⟩
  · rename_i hstate
    obtain ⟨rfl, rfl⟩ := refuses_refuse.mp hmatch
    exact ⟨by simp [hstate], rfl, rfl⟩

section

variable [Storage σ]

theorem put_refuses {state : σ} (hrefuses : (put state).Refuses before failure after) :
    ¬Storage.Storable state ∧ failure = ⟨.illegalState, CodecError.tooLarge.text⟩ := by
  simp only [put, refuses_ite, not_refuses_modify, refuses_refuse, and_false,
    false_or] at hrefuses
  exact ⟨hrefuses.1, hrefuses.2.1.symm⟩

theorem create_refuses {state : σ}
    (hrefuses : (create state).Refuses before failure after) :
    failure.code = .illegalState := by
  simp only [create, refuses_bind, not_refuses_read, yields_read, refuses_require,
    yields_require, false_or] at hrefuses
  obtain ⟨_, _, _, ⟨_, rfl, _⟩ | ⟨_, _, _, hput⟩⟩ := hrefuses
  · rfl
  · rw [(put_refuses hput).2]

/-- Why a transaction did not go through. -/
inductive Stuck (before : Host σ) (change : Action σ Failure α) (failure : Failure) :
    Prop
  | nested (hinside : before.inTransaction = true) (hcode : failure.code = .assertionFailed)
  | unconstructed (hstate : ∀ state, before.state ≠ some (.held state))
      (hcode : failure.code = .illegalState)
  | refused {state changed : σ} (hstate : before.state = some (.held state))
      (hchange : change.Refuses state failure changed)
  | unstorable {state changed : σ} {value : α} (hstate : before.state = some (.held state))
      (hchange : change.Yields state value changed) (hstorable : ¬Storage.Storable changed)
      (hfailure : failure = ⟨.illegalState, CodecError.tooLarge.text⟩)

theorem transaction_refuses {change : Action σ Failure α}
    (hrefuses : (transaction change).Refuses before failure after) :
    Stuck before change failure := by
  simp only [transaction, transact, enterTransaction, refuses_bind, not_refuses_read,
    yields_read, refuses_require, yields_require, not_refuses_modify, yields_modify,
    not_refuses_attempt, yields_attempt, refuses_ofExcept, yields_ofExcept,
    not_refuses_pure, and_false, exists_false, false_or, or_false] at hrefuses
  obtain ⟨_, _, ⟨rfl, rfl⟩,
    ⟨hinside, rfl, rfl⟩ | ⟨_, _, ⟨_, rfl⟩,
      hread | ⟨state, _, hread, _, _, rfl, result, _, hbody, _, _, rfl,
        ⟨hresult, rfl⟩ | ⟨⟨value, changed⟩, _, ⟨hresult, rfl⟩, hput⟩⟩⟩⟩ := hrefuses
  · exact .nested (by simpa using hinside) rfl
  · obtain ⟨hstate, hcode, _⟩ := readState_refuses hread
    exact .unconstructed hstate hcode
  · obtain ⟨hstate, rfl⟩ := readState_yields hread
    subst hresult
    obtain ⟨changed, hchange, _⟩ := refuses_runOn.mp hbody
    exact .refused hstate hchange
  · obtain ⟨hstate, rfl⟩ := readState_yields hread
    subst hresult
    obtain ⟨hchange, rfl⟩ := yields_runOn.mp hbody
    obtain ⟨hstorable, hfailure⟩ := put_refuses hput
    exact .unstorable hstate hchange hstorable hfailure

end

/-! Messages fail as their replies say, or because the balance does not cover them. -/

/-- The replies to the messages to come, in order. -/
def repliesAtHand (host : Host σ) : List Reply :=
  host.expectations.sends.map Prod.snd ++ host.replies.getD []

/-- The replies to the messages of a call, in order. -/
def Invocation.repliesAtHand (call : Invocation σ) : List Reply :=
  (call.before.entered call.replies).repliesAtHand

theorem keeps_repliesAtHand_validateIs (allowed : List Address) :
    (validateIs allowed : Run σ Unit).Keeps repliesAtHand := by
  have hexpect (callers : Option (List Address)) :
      (expect fun expectations => { expectations with callerAddresses := callers } :
        Run σ Unit).Keeps repliesAtHand :=
    keeps_modify fun _ => rfl
  have hobserve (event : Event) : (observe event : Run σ Unit).Keeps repliesAtHand := by
    refine keeps_modify fun host => ?_
    split <;> rfl
  have hinside : (requireInCall : Run σ Unit).Keeps repliesAtHand :=
    keeps_read.bind fun _ => (keeps_pure ()).ite (keeps_stop _)
  have hannounce : (announce (.callerIs allowed) (expectCallerIs allowed)).Keeps
      repliesAtHand :=
    (hobserve _).bind fun _ => keeps_read.bind fun _ =>
      ((keeps_stop _).ite (hexpect _)).ite (keeps_pure ())
  refine hannounce.bind fun _ => hinside.bind fun _ => keeps_read.bind fun _ => ?_
  exact (keeps_stop _).ite
    (((hexpect _).bind fun _ => keeps_require _ _).ite (keeps_stop _))

theorem expectNextReply_yields {message : Message} {answer : Unit}
    (hyields : (expectNextReply message).Yields before answer after) :
    after.inTransaction = before.inTransaction ∧ after.balance = before.balance ∧
      ∀ reply, (after.expectations.sends.map Prod.snd).head? = some reply →
        reply = .silent ∨ before.repliesAtHand.head? = some reply := by
  simp only [expectNextReply, yields_bind, yields_read] at hyields
  obtain ⟨_, _, ⟨rfl, rfl⟩, hmatch⟩ := hyields
  rw [repliesAtHand]
  split at hmatch
  · rename_i hreplies
    obtain ⟨_, rfl⟩ := yields_pure.mp hmatch
    refine ⟨rfl, rfl, fun reply hfirst => .inr ?_⟩
    rw [hreplies, Option.getD_none, List.append_nil]
    exact hfirst
  · rename_i hreplies
    obtain rfl := yields_modify.mp hmatch
    refine ⟨rfl, rfl, fun reply hfirst => ?_⟩
    rw [hreplies, Option.getD_some, List.append_nil]
    cases hsends : before.expectations.sends with
    | nil => simpa [hsends, eq_comm] using hfirst
    | cons first rest => simpa [hsends] using Or.inr hfirst
  · rename_i next rest hreplies
    simp only [expectSend, expect, yields_bind, yields_modify] at hmatch
    obtain ⟨_, _, rfl, rfl⟩ := hmatch
    refine ⟨rfl, rfl, fun reply hfirst => .inr ?_⟩
    rw [hreplies, Option.getD_some]
    cases hsends : before.expectations.sends with
    | nil => simpa [hsends] using hfirst
    | cons first rest => simpa [hsends] using hfirst

theorem takeExpectedSend_yields {message : Message} {reply : Reply}
    (hyields : (takeExpectedSend message).Yields before reply after) :
    (before.expectations.sends.map Prod.snd).head? = some reply ∧
      after.balance = before.balance := by
  simp only [takeExpectedSend, yields_bind, yields_read] at hyields
  obtain ⟨_, _, ⟨rfl, rfl⟩, hmatch⟩ := hyields
  split at hmatch
  · exact absurd hmatch not_yields_stop
  · rename_i expected next rest hsends
    simp only [expect, yields_bind, yields_modify, yields_ite, yields_pure, not_yields_stop,
      and_false, or_false] at hmatch
    obtain ⟨_, _, rfl, _, rfl, rfl⟩ := hmatch
    rw [hsends]
    exact ⟨rfl, rfl⟩

theorem not_refuses_expectNextReply {message : Message} :
    ¬(expectNextReply message : Run σ Unit).Refuses before failure after := by
  intro hrefuses
  simp only [expectNextReply, refuses_bind, not_refuses_read, yields_read,
    false_or] at hrefuses
  obtain ⟨_, _, ⟨rfl, rfl⟩, hmatch⟩ := hrefuses
  split at hmatch <;> simp [expectSend] at hmatch

theorem not_refuses_takeExpectedSend {message : Message} :
    ¬(takeExpectedSend message : Run σ Reply).Refuses before failure after := by
  intro hrefuses
  simp only [takeExpectedSend, refuses_bind, not_refuses_read, yields_read,
    false_or] at hrefuses
  obtain ⟨_, _, ⟨rfl, rfl⟩, hmatch⟩ := hrefuses
  split at hmatch <;> simp [refuses_ite] at hmatch

/-- Why a message did not go through. -/
inductive Undelivered (before : Host σ) (message : Message) (failure : Failure) : Prop
  | nested (hinside : before.inTransaction = true) (hcode : failure.code = .assertionFailed)
  | answered {reply : Reply} (hreply : before.repliesAtHand.head? = some reply)
      (hcode : failure.code = reply.code)
  | unfunded (hfunds : before.balance < message.value)
      (hcode : failure.code = .insufficientBalance)

theorem settleReply_refuses {message : Message} {reply : Reply}
    (hrefuses : (settleReply message reply).Refuses before failure after) :
    ¬reply.code.IsSuccess ∧ failure.code = reply.code ∨
      before.balance < message.value ∧ failure.code = .insufficientBalance := by
  simp only [settleReply, refuses_bind, refuses_require, yields_require, not_refuses_read,
    yields_read, not_refuses_modify, not_refuses_pure, and_false, exists_false, false_or,
    or_false] at hrefuses
  obtain ⟨hfailed, rfl, _⟩ | ⟨_, _, ⟨_, rfl⟩, _, _, ⟨rfl, rfl⟩, hfunds, rfl, _⟩ := hrefuses
  · exact .inl ⟨hfailed, rfl⟩
  · exact .inr ⟨Int.not_le.mp hfunds, rfl⟩

theorem send_refuses {message : Message}
    (hrefuses : (send message).Refuses before failure after) :
    Undelivered before message failure := by
  simp only [send, refuses_bind, not_refuses_requireInCall, yields_requireInCall,
    not_refuses_attempt, yields_attempt, not_refuses_observe, refuses_ofExcept,
    false_or] at hrefuses
  obtain ⟨_, _, ⟨_, rfl⟩, result, delivered, hdeliver, _, _, _, rfl, _⟩ := hrefuses
  have hrefused : (deliver message).Refuses before failure delivered := hdeliver
  simp only [deliver, refuses_bind, not_refuses_read, yields_read, refuses_ite,
    refuses_refuse, not_refuses_expectNextReply, not_refuses_takeExpectedSend,
    false_or] at hrefused
  obtain ⟨_, _, ⟨rfl, rfl⟩,
    ⟨hinside, rfl, _⟩ | ⟨_, _, expecting, hexpect, reply, taken, htake, hsettle⟩⟩ :=
      hrefused
  · exact .nested hinside rfl
  · obtain ⟨_, hkept, hexpected⟩ := expectNextReply_yields hexpect
    obtain ⟨hreply, htaken⟩ := takeExpectedSend_yields htake
    rcases settleReply_refuses hsettle with ⟨hfailed, hcode⟩ | ⟨hfunds, hcode⟩
    · rcases hexpected reply hreply with rfl | hfirst
      · exact absurd rfl hfailed
      · exact .answered hfirst hcode
    · rw [htaken, hkept] at hfunds
      exact .unfunded hfunds hcode

theorem call_refuses {code : ActorCode σ} {replies : Option (List Reply)} {method : Nat}
    {params : Bytes}
    (hends : (call code replies method params).Ends before (.error failure) after) :
    ∃ final, (code method params).Refuses (before.entered replies) failure final := by
  simp only [Ends, call] at hends
  split at hends
  · cases hends
  · cases hends
  · rename_i final hcode
    cases hends
    exact ⟨final, hcode⟩

theorem Invocation.Runs.refuses {code : ActorCode σ} {call : Invocation σ}
    (hruns : call.Runs code) (hresult : call.result = .error failure) :
    ∃ final, (code call.method call.params).Refuses
      (call.before.entered call.replies) failure final := by
  rw [Runs, hresult] at hruns
  exact call_refuses hruns

end RewardVesting.Host
