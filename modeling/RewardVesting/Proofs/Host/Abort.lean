import RewardVesting.Proofs.Host.Refusal
import RewardVesting.Proofs.Host.Serving

namespace RewardVesting.Host

open RewardVesting.Action

variable {σ : Type} {before after final : Host σ} {code : ActorCode σ}
  {answers : Option (List Reply)} {method : Nat} {params : Bytes} {failure : Failure}

/-- A host between two calls that is told in advance of nothing. -/
structure Rested (host : Host σ) : Prop where
  outside : host.inTransaction = false
  quiet : host.expectations = .none

theorem Rested.idle (hrested : before.Rested) : before.Idle where
  outside := hrested.outside
  quiet := congrArg Expectations.sends hrested.quiet

/-- The host apart from the actor that it runs and the calls that it serves. -/
def ambient (host : Host σ) : Host σ :=
  { host.bare with state := none, balance := 0, inCall := false, inTransaction := false }

/-- Nothing of what a call finds is left over from earlier calls but state and balance. -/
theorem Rested.entered_eq (hrested : before.Rested) (answers : Option (List Reply)) :
    before.entered answers = { before.ambient with
      state := before.state
      balance := before.balance
      inCall := true
      replies := answers } := by
  obtain ⟨houtside, hquiet⟩ := hrested
  cases before
  subst houtside hquiet
  rfl

theorem entered_congr (hbefore : before.Rested) (hafter : after.Rested)
    (hambient : after.ambient = before.ambient) (hstate : after.state = before.state)
    (hbalance : after.balance = before.balance) (answers : Option (List Reply)) :
    after.entered answers = before.entered answers := by
  rw [hafter.entered_eq, hbefore.entered_eq, hambient, hstate, hbalance]

/-- Within a call of `before`, the host has met all that it expected so far. -/
structure Continues (before host : Host σ) : Prop where
  ambient : host.ambient = before.ambient
  outside : host.inTransaction = false
  quiet : host.expectations = .none

theorem Rested.continues (hrested : before.Rested) (answers : Option (List Reply)) :
    Continues before (before.entered answers) :=
  ⟨rfl, hrested.outside, hrested.quiet⟩

namespace Continues

variable {host : Host σ} (hcontinues : Continues before host)

include hcontinues

theorem afterCheck (allowed : List Address) :
    Continues before (host.afterCheck allowed) where
  ambient := hcontinues.ambient
  outside := hcontinues.outside
  quiet := by
    rw [Host.afterCheck, hcontinues.quiet]
    rfl

theorem afterChange (changed : σ) : Continues before (host.afterChange changed) :=
  ⟨hcontinues.ambient, rfl, hcontinues.quiet⟩

theorem afterSend (replies : List Reply) (message : Message) :
    Continues before (host.afterSend replies message) where
  ambient := hcontinues.ambient
  outside := hcontinues.outside
  quiet := by
    rw [Host.afterSend, hcontinues.quiet]
    rfl

end Continues

/-- What a call comes to depends on what it finds alone. -/
theorem call_congr (hentered : after.entered answers = before.entered answers) :
    call code answers method params after = call code answers method params before := by
  have hstate : after.state = before.state :=
    show (after.entered answers).state = (before.entered answers).state by rw [hentered]
  have hbalance : after.balance = before.balance :=
    show (after.entered answers).balance = (before.entered answers).balance by rw [hentered]
  rw [entered, entered] at hentered
  rw [call, call, hentered, hstate, hbalance]

/-- A call failed after it had `committed` a state.  Nothing is left of that, and the same
call, however its messages are answered now, comes to what it would have come to before. -/
structure Aborted (code : ActorCode σ) (call : Invocation σ) (committed : Option (Link σ)) :
    Prop where
  runs : call.Runs code
  state : call.after.state = call.before.state
  balance : call.after.balance = call.before.balance
  committed : ∃ failure final, call.result = .error failure ∧
    (code call.method call.params).Refuses
      (call.before.entered call.replies) failure final ∧
    final.state = committed
  again : ∀ answers, Host.call code answers call.method call.params call.after =
    Host.call code answers call.method call.params call.before

theorem aborted_of_refuses (hrested : before.Rested)
    (hrefuses : (code method params).Refuses (before.entered answers) failure final)
    (hcontinues : Continues before final) :
    ∃ after, Aborted code ⟨before, answers, method, params, .error failure, after⟩
      final.state := by
  refine ⟨{ final with state := before.state, balance := before.balance, inCall := false },
    { runs := call_of_refuses hrefuses
      state := rfl
      balance := rfl
      committed := ⟨failure, final, rfl, hrefuses, rfl⟩
      again := fun answers => call_congr ?_ }⟩
  apply entered_congr hrested
  · exact ⟨hcontinues.outside, hcontinues.quiet⟩
  · exact hcontinues.ambient
  · rfl
  · rfl

end RewardVesting.Host
