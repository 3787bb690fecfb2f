import RewardVesting.Proofs.ExpertFund.Consistency
import RewardVesting.Proofs.Tally

namespace RewardVesting.ExpertFund

open RewardVesting.Action Host

namespace Fund

/-- The votes of a fund are there, and no expert has fewer than none. -/
structure Polled (fund : Fund) (votes : Tally) : Prop where
  held : fund.votes = .held votes
  nonneg : ∀ amount ∈ votes.values, 0 ≤ amount

variable {policy : Policy} {epoch balance : Int} {before after : Fund} {votes : Tally}
  {expert : Address} {answer : Unit}

theorem polled_empty : Polled .empty .empty := ⟨rfl, nofun⟩

theorem Polled.spread (hpolled : Polled before votes)
    (hspread : Spread policy epoch balance before after) : Polled after votes :=
  ⟨hspread.votes.trans hpolled.held, hpolled.nonneg⟩

theorem Polled.deposit (hpolled : Polled before votes) {added : UInt64}
    (hyields : (deposit policy epoch balance expert added).Yields before answer after) :
    Polled after votes := by
  obtain ⟨_, _, _, _, hspread, _, _, _, rfl⟩ := deposit_yields hyields
  obtain ⟨hheld, hnonneg⟩ := hpolled.spread hspread
  exact ⟨hheld, hnonneg⟩

theorem Polled.claim (hpolled : Polled before votes) {amount : Int}
    (hyields : (claim policy epoch balance expert amount).Yields before answer after) :
    Polled after votes := by
  obtain ⟨_, _, _, _, _, _, hspread, _, _, rfl⟩ := claim_yields hyields
  obtain ⟨hheld, hnonneg⟩ := hpolled.spread hspread
  exact ⟨hheld, hnonneg⟩

theorem Polled.reset (hpolled : Polled before votes) {forfeited : Int}
    (hyields : (reset policy epoch balance expert).Yields before forfeited after) :
    Polled after votes := by
  obtain ⟨_, _, _, _, _, _, _, hspread, _, _, rfl⟩ := reset_yields hyields
  exact ⟨hspread.votes.trans hpolled.held, hpolled.nonneg⟩

theorem Polled.changeVotes (hpolled : Polled before votes) {change : Int}
    (hyields : (changeVotes expert change).Yields before answer after) :
    ∃ changed, Polled after changed := by
  obtain ⟨tally, changed, hheld, hadd, rfl⟩ := changeVotes_yields hyields
  cases hpolled.held.symm.trans hheld
  exact ⟨changed, rfl, Tally.nonneg_of_add hadd hpolled.nonneg⟩

/-- What holds of a fund at all times, with these experts and votes: the totals kept by hand
are those of the records, and nothing is negative. -/
structure Intact (fund : Fund) (experts : AddressMap Expert) (votes : Tally) : Prop where
  experts_held : fund.experts = .held experts
  totalWeight : (fund.totalWeight.toNat : Int) = experts.sumOf fun info => info.weight.toNat
  totalWeight_lt : (experts.sumOf fun info => info.weight.toNat) < UInt64.size
  consistent : ∀ info ∈ experts.values, Consistent info
  votes_held : fund.votes = .held votes
  votes_nonneg : ∀ amount ∈ votes.values, 0 ≤ amount

theorem Sound.intact {fund : Fund} {experts : AddressMap Expert}
    (hsound : Sound fund experts)
    (hpolled : Polled fund votes) : Intact fund experts votes where
  experts_held := hsound.held
  totalWeight := hsound.totalWeight
  totalWeight_lt := by
    rw [← hsound.totalWeight]
    exact Int.ofNat_lt.mpr fund.totalWeight.toNat_lt
  consistent := hsound.consistent
  votes_held := hpolled.held
  votes_nonneg := hpolled.nonneg

end Fund

def VotesKept : Option (Link Fund) → Prop
  | none => True
  | some .missing => False
  | some (.held fund) => ∃ votes, fund.Polled votes

variable {start host : Host Fund} {calls : List (Invocation Fund)} {fund : Fund}

theorem votesKept_of_polled {votes : Tally} (hpolled : fund.Polled votes)
    (hstate : host.state = some (.held fund)) : VotesKept host.state := by
  rw [hstate]
  exact ⟨votes, hpolled⟩

theorem polled_of_votesKept (hkept : VotesKept host.state)
    (hstate : host.state = some (.held fund)) : ∃ votes, fund.Polled votes := by
  rwa [hstate] at hkept

theorem votesKept_of_yields {before after : Host Fund} {method : Nat}
    {params returned : Bytes} (hyields : (code method params).Yields before returned after)
    (hkept : VotesKept before.state) : VotesKept after.state := by
  cases code_yields hyields with
  | constructed _ _ _ hafter _ => exact votesKept_of_polled Fund.polled_empty hafter
  | watched _ hafter _ =>
      rw [hafter]
      exact hkept
  | deposited _ _ _ hold hchange hafter _ =>
      obtain ⟨votes, hpolled⟩ := polled_of_votesKept hkept hold
      exact votesKept_of_polled (hpolled.deposit hchange) hafter
  | claimed _ _ _ hold hchange hafter _ =>
      obtain ⟨votes, hpolled⟩ := polled_of_votesKept hkept hold
      exact votesKept_of_polled (hpolled.claim hchange) hafter
  | cleared _ _ hold hchange hafter _ =>
      obtain ⟨votes, hpolled⟩ := polled_of_votesKept hkept hold
      exact votesKept_of_polled (hpolled.reset hchange) hafter
  | voted _ _ _ hold hchange hafter _ =>
      obtain ⟨votes, hpolled⟩ := polled_of_votesKept hkept hold
      obtain ⟨changed, hchanged⟩ := hpolled.changeVotes hchange
      exact votesKept_of_polled hchanged hafter

/-- Whatever is asked of an expert fund, by whom and when, and whatever is refused: if there
is a fund at all, it is intact. -/
theorem intact_of_history (hstart : start.state = none)
    (history : History code Elsewhere start calls host) :
    host.state = none ∨ ∃ fund experts votes, host.state = some (.held fund) ∧
      Fund.Intact fund experts votes := by
  have hsound := sound_of_history history (fun _ _ hmove => hmove) hstart
  have hkept : VotesKept host.state := by
    refine history.state_invariant VotesKept (fun _ _ hmove => hmove) ?_ ?_
    · rw [hstart]
      exact trivial
    · intro before method params returned after hyields hbefore
      exact votesKept_of_yields hyields hbefore
  cases hstate : host.state with
  | none => exact .inl rfl
  | some stored =>
      right
      rw [hstate] at hkept
      cases stored with
      | missing => exact hkept.elim
      | held fund =>
          obtain ⟨votes, hpolled⟩ := hkept
          obtain ⟨experts, hexperts⟩ := hsound fund hstate
          exact ⟨fund, experts, votes, rfl, hexperts.intact hpolled⟩

def votesStep (expert : Address) (change : Int) : Step Fund where
  prepare host := { host with callerKind := .vote }
  replies := some []
  method := Method.changeVotes
  params := (VoteChange.format.write ⟨expert, change⟩).getD []

def refusingSteps : List (Step Fund) :=
  [constructStep, depositStep (.id 1001) 2 0, depositStep (.id 1002) 18446744073709551615 0,
    votesStep (.id 1001) 5, votesStep (.id 1001) (-6), claimStep (.id 1001) (.id 2000) 1 40,
    depositStep (.id 1002) 7 3, votesStep (.id 1001) (-2), resetStep (.id 1002) (.id 2000)]

def refusingRun : List (Invocation Fund) × Host Fund :=
  replay code (.init .expertFund .standard) refusingSteps

theorem refusingRun_history :
    History code Elsewhere (.init .expertFund .standard) refusingRun.1 refusingRun.2 := by
  refine history_replay code _ ?_
  simp only [refusingSteps, List.forall_mem_cons, List.not_mem_nil, false_imp_iff,
    implies_true, and_true]
  exact ⟨fun _ => ⟨rfl⟩, fun _ => ⟨rfl⟩, fun _ => ⟨rfl⟩, fun _ => ⟨rfl⟩, fun _ => ⟨rfl⟩,
    fun _ => ⟨rfl⟩, fun _ => ⟨rfl⟩, fun _ => ⟨rfl⟩, fun _ => ⟨rfl⟩⟩

theorem intact_of_history_refusing :
    ∃ fund experts votes, refusingRun.2.state = some (.held fund) ∧
      Fund.Intact fund experts votes ∧ fund.totalWeight = 2 ∧ votes.values = [3] ∧
      refusingRun.1.map (fun call => call.result.toBool) =
        [true, true, false, true, false, false, true, true, true] := by
  have hstored : (refusingRun.2.state.bind Link.get?).map (fun fund =>
      (fund.totalWeight, fund.votes.get?.map AddressMap.values)) = some (2, some [3]) := by
    decide +kernel
  obtain hnone | ⟨fund, experts, votes, hfund, hintact⟩ :=
    intact_of_history rfl refusingRun_history
  · rw [hnone] at hstored
    cases hstored
  · rw [hfund] at hstored
    simp only [Link.get?, Option.bind_some, Option.map_some, hintact.votes_held,
      Option.some.injEq, Prod.mk.injEq] at hstored
    exact ⟨fund, experts, votes, hfund, hintact, hstored.1, hstored.2, by decide +kernel⟩

end RewardVesting.ExpertFund
