import RewardVesting.Proofs.Host.Frame

namespace RewardVesting.Host

open RewardVesting.Action

variable {σ α : Type} {before after : Host σ}

/-- The bare host without its balance. -/
def unfunded (host : Host σ) : Host σ := { host.bare with balance := 0 }

theorem state_of_unfunded_eq (hunfunded : after.unfunded = before.unfunded) :
    after.state = before.state :=
  show after.unfunded.state = before.unfunded.state from congrArg Host.state hunfunded

theorem keeps_unfunded_of_keeps_bare {action : Run σ α} (hkeeps : action.Keeps bare) :
    action.Keeps unfunded :=
  keeps_of_keeps_bare hkeeps fun _ => rfl

@[simp] theorem keeps_bare_expectNextReply (message : Message) :
    (expectNextReply message : Run σ Unit).Keeps bare := by
  refine keeps_read.bind fun host => ?_
  split
  · exact keeps_pure ()
  · exact keeps_bare_expect _
  · refine Keeps.bind (keeps_modify ?_) fun _ => keeps_bare_expect _
    intro host
    rfl

@[simp] theorem keeps_bare_takeExpectedSend (message : Message) :
    (takeExpectedSend message : Run σ Reply).Keeps bare := by
  refine keeps_read.bind fun host => ?_
  split
  · exact keeps_stop _
  · exact (keeps_bare_expect _).bind fun _ => (keeps_pure _).ite (keeps_stop _)

theorem settleReply_yields {message : Message} {reply : Reply} {returned : Bytes}
    (hyields : (settleReply message reply).Yields before returned after) :
    message.value ≤ before.balance ∧
      after = { before with balance := before.balance - message.value } := by
  simp only [settleReply, yields_bind, yields_require, yields_read, yields_modify,
    yields_pure] at hyields
  obtain ⟨_, _, ⟨_, rfl⟩, _, _, ⟨rfl, rfl⟩, _, _, ⟨hvalue, rfl⟩, _, _, rfl, _, rfl⟩ :=
    hyields
  exact ⟨hvalue, rfl⟩

theorem keeps_unfunded_settleReply (message : Message) (reply : Reply) :
    (settleReply message reply : Run σ Bytes).Keeps unfunded := by
  refine (keeps_require _ _).bind fun _ => keeps_read.bind fun _ =>
    (keeps_require _ _).bind fun _ =>
    Keeps.bind (keeps_modify ?_) fun _ => keeps_pure _
  intro host
  rfl

theorem keeps_unfunded_send (message : Message) :
    (send message : Run σ Bytes).Keeps unfunded := by
  have hdeliver : (deliver message : Run σ Bytes).Keeps unfunded := by
    refine keeps_read.bind fun _ => (keeps_refuse _).ite ?_
    exact (keeps_unfunded_of_keeps_bare (keeps_bare_expectNextReply message)).bind fun _ =>
      (keeps_unfunded_of_keeps_bare (keeps_bare_takeExpectedSend message)).bind fun reply =>
        keeps_unfunded_settleReply message reply
  exact (keeps_unfunded_of_keeps_bare keeps_bare_requireInCall).bind fun _ =>
    hdeliver.attempt.bind fun _ =>
      (keeps_unfunded_of_keeps_bare (keeps_bare_observe _)).bind fun _ => keeps_ofExcept _

theorem send_yields {message : Message} {returned : Bytes}
    (hyields : (send message).Yields before returned after) :
    message.value ≤ before.balance ∧
      after.bare = { before.bare with balance := before.balance - message.value } := by
  simp only [send, yields_bind, yields_attempt, yields_ofExcept] at hyields
  obtain ⟨_, entered, hentered, result, delivered, hdeliver, _, observed, hobserved,
    hresult, rfl⟩ := hyields
  cases hresult
  have hyielded : (deliver message).Yields entered returned delivered := hdeliver
  simp only [deliver, yields_bind, yields_read, yields_ite] at hyielded
  obtain ⟨_, _, ⟨rfl, rfl⟩,
    ⟨_, hrefused⟩ | ⟨_, _, expecting, hexpecting, reply, taken, htaken, hsettled⟩⟩ :=
      hyielded
  · exact absurd hrefused not_yields_refuse
  · obtain ⟨hvalue, rfl⟩ := settleReply_yields hsettled
    have hbare : taken.bare = before.bare :=
      (((keeps_bare_takeExpectedSend message).yields htaken).trans
        ((keeps_bare_expectNextReply message).yields hexpecting)).trans
          (keeps_bare_requireInCall.yields hentered)
    have hbalance : taken.balance = before.balance := eq_of_bare_eq (fun _ => rfl) hbare
    refine ⟨hbalance ▸ hvalue, ?_⟩
    rw [(keeps_bare_observe _).yields hobserved, ← hbare, ← hbalance]
    rfl

theorem readState_yields {state : σ} (hyields : readState.Yields before state after) :
    before.state = some (.held state) ∧ after = before := by
  simp only [readState, yields_bind, yields_read] at hyields
  obtain ⟨_, _, ⟨rfl, rfl⟩, hmatch⟩ := hyields
  split at hmatch
  · rename_i held hstate
    obtain ⟨rfl, rfl⟩ := yields_pure.mp hmatch
    exact ⟨hstate, rfl⟩
  · exact absurd hmatch not_yields_refuse
  · exact absurd hmatch not_yields_refuse

section

variable [Storage σ]

theorem put_yields {state : σ} {answer : Unit}
    (hyields : (put state).Yields before answer after) :
    Storage.Storable state ∧ after = { before with state := some (.held state) } := by
  simp only [put, yields_ite, yields_modify] at hyields
  obtain ⟨hstorable, rfl⟩ | ⟨_, hrefused⟩ := hyields
  · exact ⟨hstorable, rfl⟩
  · exact absurd hrefused not_yields_refuse

theorem create_yields {state : σ} {answer : Unit}
    (hyields : (create state).Yields before answer after) :
    before.state = none ∧ after = { before with state := some (.held state) } := by
  simp only [create, yields_bind, yields_read, yields_require] at hyields
  obtain ⟨_, _, ⟨rfl, rfl⟩, _, _, ⟨hnone, rfl⟩, hput⟩ := hyields
  exact ⟨Option.isNone_iff_eq_none.mp hnone, (put_yields hput).2⟩

theorem transaction_yields {change : Action σ Failure α} {value : α}
    (hyields : (transaction change).Yields before value after) :
    ∃ state changed, before.state = some (.held state) ∧ change.Yields state value changed ∧
      Storage.Storable changed ∧ after = { before with state := some (.held changed) } := by
  simp only [transaction, transact, enterTransaction, yields_bind, yields_read,
    yields_require, yields_modify, yields_attempt, yields_ofExcept, yields_pure] at hyields
  obtain ⟨_, _, ⟨rfl, rfl⟩, _, _, ⟨houtside, rfl⟩, state, _, hread, _, _, rfl,
    result, _, hbody, _, _, rfl, ⟨answer, changed⟩, _, ⟨hresult, rfl⟩, _, _, hput, rfl,
    rfl⟩ := hyields
  obtain ⟨hstate, rfl⟩ := readState_yields hread
  cases hresult
  obtain ⟨hchange, rfl⟩ := yields_runOn.mp hbody
  obtain ⟨hstorable, rfl⟩ := put_yields hput
  refine ⟨state, changed, hstate, hchange, hstorable, ?_⟩
  rw [← houtside]

end

/-- The host as a call finds it. -/
def entered (host : Host σ) (replies : Option (List Reply)) : Host σ :=
  { host.begin replies with inCall := true }

variable {code : ActorCode σ} {replies : Option (List Reply)} {method : Nat}
  {params : Bytes}

theorem call_yields {returned : Bytes}
    (hyields : (call code replies method params).Yields before returned after) :
    ∃ final, (code method params).Yields (before.entered replies) returned final ∧
      after = { final with inCall := false } := by
  simp only [Yields, Ends, call] at hyields
  split at hyields
  · cases hyields
  · rename_i answer final hcode
    cases hyields
    exact ⟨final, hcode, rfl⟩
  · cases hyields

theorem call_refused {failure : Failure}
    (hends : (call code replies method params).Ends before (.error failure) after) :
    after.state = before.state ∧ after.balance = before.balance := by
  simp only [Ends, call] at hends
  split at hends
  · cases hends
  · cases hends
  · cases hends
    exact ⟨rfl, rfl⟩

end RewardVesting.Host
