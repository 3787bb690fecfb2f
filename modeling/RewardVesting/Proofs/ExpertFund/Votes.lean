import RewardVesting.Proofs.Access
import RewardVesting.Proofs.ExpertFund.Integrity
import RewardVesting.Proofs.Tally

namespace RewardVesting.ExpertFund

open RewardVesting.Action Host

/-- The change of votes that a call has made, as a request made of their table. -/
def ballot? (call : Invocation Fund) : Option Tally.Request :=
  if call.method = Method.changeVotes ∧ call.result.toBool then
    (VoteChange.format.methodParameters call.params).toOption.map fun request =>
      .add request.expert request.amount
  else none

def ballots (calls : List (Invocation Fund)) : List Tally.Request := calls.filterMap ballot?

variable {start host : Host Fund} {calls : List (Invocation Fund)} {call : Invocation Fund}
  {fund before after : Fund} {votes : Tally}

theorem ballots_append (calls : List (Invocation Fund)) (call : Invocation Fund) :
    ballots (calls ++ [call]) = ballots calls ++ (ballot? call).toList :=
  filterMap_concat ballot? calls call

theorem ballots_append_of_none (hballot : ballot? call = none) :
    ballots (calls ++ [call]) = ballots calls := by
  rw [ballots_append, hballot, Option.toList_none, List.append_nil]

theorem ballot?_of_other (hmethod : call.method ≠ Method.changeVotes) :
    ballot? call = none :=
  if_neg fun hvotes => hmethod hvotes.1

theorem ballot?_of_refused {failure : Failure} (hresult : call.result = .error failure) :
    ballot? call = none := by
  refine if_neg fun hvotes => ?_
  rw [hresult] at hvotes
  cases hvotes.2

theorem ballot?_of_voted {returned : Bytes} {request : VoteChange}
    (hmethod : call.method = Method.changeVotes) (hresult : call.result = .ok returned)
    (hrequest : VoteChange.format.methodParameters call.params = .ok request) :
    ballot? call = some (.add request.expert request.amount) := by
  rw [ballot?, hresult, if_pos ⟨hmethod, rfl⟩, hrequest]
  rfl

/-- What a call that answers has done to the votes of a fund. -/
inductive Polling (call : Invocation Fund) (before after : Fund) : Prop
  | kept (hmethod : call.method ≠ Method.changeVotes) (hvotes : after.votes = before.votes)
  | changed (hmethod : call.method = Method.changeVotes) {request : VoteChange}
      {old new : Tally}
      (hballot : ballot? call = some (.add request.expert request.amount))
      (hbefore : before.votes = .held old)
      (hadd : old.add request.expert request.amount = .ok new)
        (hafter : after.votes = .held new)

theorem polling_of_runs {returned : Bytes} (hruns : call.Runs code)
    (hresult : call.result = .ok returned)
    (hstate : call.before.state = some (.held fund)) :
    ∃ changed, call.after.state = some (.held changed) ∧ Polling call fund changed := by
  have heffect := effect_of_runs hruns hresult
  have hentered : (call.before.entered call.replies).state = some (.held fund) := hstate
  cases heffect with
  | constructed _ _ hnone _ _ =>
      rw [hnone] at hentered
      cases hentered
  | watched hmethod hafter _ =>
      refine ⟨fund, hafter.trans hentered, .kept ?_ rfl⟩
      rcases hmethod with hmethod | hmethod <;> rw [hmethod] <;> decide
  | deposited hmethod _ _ hbefore hchange hafter _ =>
      cases hentered.symm.trans hbefore
      exact ⟨_, hafter, .kept (by rw [hmethod]; decide)
        (Fund.confinedTo_of_deposit hchange).votes⟩
  | claimed hmethod _ _ hbefore hchange hafter _ =>
      cases hentered.symm.trans hbefore
      exact ⟨_, hafter, .kept (by rw [hmethod]; decide)
        (Fund.confinedTo_of_claim hchange).votes⟩
  | cleared hmethod _ hbefore hchange hafter _ =>
      cases hentered.symm.trans hbefore
      exact ⟨_, hafter, .kept (by rw [hmethod]; decide)
        (Fund.confinedTo_of_reset hchange).votes⟩
  | voted hmethod _ hrequest hbefore hchange hafter _ =>
      cases hentered.symm.trans hbefore
      obtain ⟨old, new, hold, hadd, rfl⟩ := Fund.changeVotes_yields hchange
      exact ⟨_, hafter,
        .changed hmethod (ballot?_of_voted hmethod hresult hrequest) hold hadd rfl⟩

theorem votes_of_other (hruns : call.Runs code) (hmethod : call.method ≠ Method.changeVotes)
    (hstate : call.before.state = some (.held fund)) :
    ∃ changed, call.after.state = some (.held changed) ∧ changed.votes = fund.votes := by
  cases hresult : call.result with
  | error failure => exact ⟨fund, (hruns.refused hresult).1.trans hstate, rfl⟩
  | ok returned =>
      obtain ⟨changed, hafter, hpolling⟩ := polling_of_runs hruns hresult hstate
      cases hpolling with
      | kept _ hvotes => exact ⟨changed, hafter, hvotes⟩
      | changed hvoted => exact absurd hvoted hmethod

/-- The votes of a fund are the sums of the changes that calls have made. -/
def Counted (calls : List (Invocation Fund)) : Option (Link Fund) → Prop
  | none => ballots calls = []
  | some .missing => False
  | some (.held fund) => ∃ votes, fund.votes = .held votes ∧
      Tally.Sums (ballots calls) votes

theorem counted_of_unvoted {state : Option (Link Fund)} (hballot : ballot? call = none)
    (hcounted : Counted calls state) : Counted (calls ++ [call]) state := by
  rw [Counted.eq_def] at hcounted ⊢
  simp only [ballots_append_of_none hballot]
  exact hcounted

theorem counted_of_polling (hpolling : Polling call before after)
    (hcounted : Counted calls (some (.held before))) :
    Counted (calls ++ [call]) (some (.held after)) := by
  obtain ⟨votes, hheld, hsums⟩ := hcounted
  cases hpolling with
  | kept hmethod hvotes =>
      refine ⟨votes, hvotes.trans hheld, ?_⟩
      rw [ballots_append_of_none (ballot?_of_other hmethod)]
      exact hsums
  | changed _ hballot hbefore hadd hafter =>
      cases hheld.symm.trans hbefore
      refine ⟨_, hafter, ?_⟩
      rw [ballots_append, hballot]
      exact hsums.perform hadd

/-- Without a fund a call can only make one, in which nobody has any votes. -/
theorem counted_of_first {returned : Bytes} (hruns : call.Runs code)
    (hresult : call.result = .ok returned) (hnone : call.before.state = none)
    (hcounted : ballots calls = []) : Counted (calls ++ [call]) call.after.state := by
  have hentered : (call.before.entered call.replies).state = none := hnone
  have hunvoted (hmethod : call.method ≠ Method.changeVotes) :
      ballots (calls ++ [call]) = [] := by
    rw [ballots_append_of_none (ballot?_of_other hmethod), hcounted]
  cases effect_of_runs hruns hresult with
  | constructed hmethod _ _ hafter _ =>
      rw [hafter]
      refine ⟨.empty, rfl, ?_⟩
      rw [hunvoted (by rw [hmethod]; decide)]
      exact Tally.sums_empty
  | watched hmethod hafter _ =>
      rw [hafter, hentered]
      exact hunvoted (by rcases hmethod with hmethod | hmethod <;> rw [hmethod] <;> decide)
  | deposited _ _ _ hbefore | claimed _ _ _ hbefore | cleared _ _ hbefore
  | voted _ _ _ hbefore =>
      rw [hentered] at hbefore
      cases hbefore

theorem counted_of_answered {returned : Bytes} (hruns : call.Runs code)
    (hresult : call.result = .ok returned) (hcounted : Counted calls call.before.state) :
    Counted (calls ++ [call]) call.after.state := by
  cases hstate : call.before.state with
  | none =>
      rw [hstate] at hcounted
      exact counted_of_first hruns hresult hstate hcounted
  | some stored =>
      rw [hstate] at hcounted
      cases stored with
      | missing => exact hcounted.elim
      | held fund =>
          obtain ⟨changed, hafter, hpolling⟩ := polling_of_runs hruns hresult hstate
          rw [hafter]
          exact counted_of_polling hpolling hcounted

theorem counted_of_history (hstart : start.state = none)
    (history : History code Elsewhere start calls host) : Counted calls host.state := by
  induction history with
  | begun =>
      rw [hstart]
      rfl
  | moved past hmove ih =>
      rw [hmove.state]
      exact ih
  | @called calls call past hruns ih =>
      cases hresult : call.result with
      | error failure =>
          rw [(hruns.refused hresult).1]
          exact counted_of_unvoted (ballot?_of_refused hresult) ih
      | ok returned => exact counted_of_answered hruns hresult ih

theorem votesOf_of_sums {accepted : List Tally.Request} (hheld : fund.votes = .held votes)
    (hsums : Tally.Sums accepted votes) (expert : Address) :
    fund.votesOf expert = .ok (Tally.changes accepted expert) := by
  rw [Fund.votesOf, Fund.tally_eq_ok.mpr hheld, ← hsums.balance]
  rfl

/-- Whatever is asked of a table that starts out empty, it holds for each address the sum of
the changes that it has accepted, and those sums alone decide what it accepts next.  So the
votes of an expert are the sum of the changes that calls have made to them, and no other
call touches them. -/
theorem tallies_of_accepted :
    (∀ requests accepted tally, Tally.performAll .empty requests = (accepted, tally) →
      Tally.Sums accepted tally ∧ ∀ request, Tally.Served tally request ∧
        Tally.performAll .empty (requests ++ [request]) =
          match request.perform tally with
          | .ok changed => (accepted ++ [request], changed)
          | .error _ => (accepted, tally)) ∧
    (∀ (start host : Host Fund) (calls : List (Invocation Fund)), start.state = none →
      History code Elsewhere start calls host →
      host.state = none ∧ ballots calls = [] ∨
        ∃ fund, host.state = some (.held fund) ∧
          ∀ expert, fund.votesOf expert = .ok (Tally.changes (ballots calls) expert)) ∧
    ∀ call : Invocation Fund, call.Runs code → call.method ≠ Method.changeVotes →
      ∀ fund, call.before.state = some (.held fund) →
        ∃ changed, call.after.state = some (.held changed) ∧
            changed.votes = fund.votes := by
  refine ⟨?_, ?_, fun call hruns hmethod fund => votes_of_other hruns hmethod⟩
  · intro requests accepted tally hperformed
    have hsums := Tally.sums_empty.performAll requests
    rw [hperformed, List.nil_append] at hsums
    refine ⟨hsums, fun request => ⟨Tally.served_of_keyed hsums.keyed request, ?_⟩⟩
    have hconcat := Tally.performAll_concat .empty requests request
    rw [hperformed] at hconcat
    exact hconcat
  · intro start host calls hstart history
    have hcounted := counted_of_history hstart history
    cases hstate : host.state with
    | none =>
        rw [hstate] at hcounted
        exact .inl ⟨rfl, hcounted⟩
    | some stored =>
        rw [hstate] at hcounted
        cases stored with
        | missing => exact hcounted.elim
        | held fund =>
            obtain ⟨votes, hheld, hsums⟩ := hcounted
            exact .inr ⟨fund, rfl, votesOf_of_sums hheld hsums⟩

/-- Requests of either sign, of which some are refused, an entry that falls back to zero,
one that is stored with nothing in it, and a table that is read back. -/
def signedRequests : List Tally.Request :=
  [.add (.id 1001) 5, .add (.id 1001) (-6), .subtract (.id 1002) (-3), .reload,
    .add (.id 1003) 0, .subtract (.id 1001) 5, .subtract (.id 1002) 4, .reload,
    .add (.id 1002) (-1)]

theorem tallies_of_accepted_signed :
    (∃ accepted tally, Tally.performAll .empty signedRequests = (accepted, tally) ∧
      accepted.length = 7 ∧ tally.values = [2, 0] ∧ ∑ᶠ owner, tally.balance owner = 2 ∧
      ∃ cause, (Tally.Request.subtract (.id 1002) 3).perform tally = .error cause ∧
        cause.failure.code = .illegalArgument) ∧
    (∃ fund, refusingRun.2.state = some (.held fund) ∧ fund.votesOf (.id 1001) = .ok 3) ∧
    ∃ call ∈ refusingRun.1, call.method = Method.reset ∧ ∃ fund changed,
      call.before.state = some (.held fund) ∧ call.after.state = some (.held changed) ∧
      changed.votes = fund.votes ∧ fund.votesOf (.id 1001) = .ok 3 := by
  obtain ⟨htable, hfund, hother⟩ := tallies_of_accepted
  refine ⟨?_, ?_, ?_⟩
  · obtain ⟨hsums, hserved⟩ := htable signedRequests _ _ rfl
    have htotal : Tally.total (Tally.performAll .empty signedRequests).2 = 2 := by
      decide +kernel
    have hrefused : (Tally.Request.subtract (.id 1002) 3).perform
        (Tally.performAll .empty signedRequests).2 = .error (.shortfall 3 2 (.id 1002)) :=
      Tally.subtract_eq_error.mpr (by decide +kernel)
    exact ⟨_, _, rfl, by decide +kernel, by decide +kernel,
      hsums.total.symm.trans htotal, _, hrefused,
      (hserved (.subtract (.id 1002) 3)).1.refused _ hrefused⟩
  · have hsum : Tally.changes (ballots refusingRun.1) (.id 1001) = 3 := by decide +kernel
    obtain ⟨hnone, _⟩ | ⟨fund, hheld, hvotes⟩ := hfund _ _ _ rfl refusingRun_history
    · have hsome : refusingRun.2.state.isSome := by decide +kernel
      rw [hnone] at hsome
      cases hsome
    · exact ⟨fund, hheld, hsum ▸ hvotes (.id 1001)⟩
  · have hresets : ∃ call ∈ refusingRun.1, call.method = Method.reset ∧
        ((call.before.state.bind Link.get?).bind fun fund =>
          (fund.votesOf (.id 1001)).toOption) = some 3 := by decide +kernel
    obtain ⟨call, hmem, hmethod, hvotes⟩ := hresets
    obtain ⟨fund, hstored, hvotes⟩ := Option.bind_eq_some_iff.mp hvotes
    obtain ⟨link, hlink, hget⟩ := Option.bind_eq_some_iff.mp hstored
    have hheld : call.before.state = some (.held fund) := by
      rw [hlink, Link.get?_eq_some.mp hget]
    obtain ⟨changed, hafter, hsame⟩ :=
      hother call (refusingRun_history.runs_of_mem call hmem)
      (by rw [hmethod]; decide) fund hheld
    exact ⟨call, hmem, hmethod, fund, changed, hheld, hafter, hsame,
      toOption_eq_some.mp hvotes⟩

end RewardVesting.ExpertFund
