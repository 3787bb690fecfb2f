import RewardVesting.Proofs.ExpertFund.Serviceability
import RewardVesting.Proofs.ExpertFund.TimeLock

namespace RewardVesting.ExpertFund

open RewardVesting.Action Host

/-- A deposit that answered, by an expert without any weight before it. -/
structure Joins (call : Invocation Fund) (expert : Address) (weight : UInt64) : Prop where
  answers : call.result.toBool
  method : call.method = Method.deposit
  caller : call.before.caller = expert
  request : Deposit.format.methodParameters call.params = .ok ⟨weight⟩
  weightless : (infoOf (fundOf call.before) expert).weight = 0

/-- What an expert's funds have grown by, with what it has claimed of them. -/
def credited (expert : Address) (joined host : Host Fund) (since : List (Invocation Fund)) :
    Int :=
  owed (infoOf (fundOf host) expert) + claimed expert since -
    owed (infoOf (fundOf joined) expert)

/-- The exact share of a weight in all that has been spread, at the scale of the
multiplier. -/
def shareSince (weight : UInt64) (joined host : Host Fund) : Int :=
  weight.toNat * ((fundOf host).pool.accPerShare - (fundOf joined).pool.accPerShare)

namespace Fund

variable {policy other : Policy} {epoch balance : Int} {before after : Fund}
  {expert : Address}

theorem earned_congr
    (hmultiplier : other.accPerShareMultiplier = policy.accPerShareMultiplier)
    (pool : Pool) (weight : UInt64) :
    earned other pool weight = earned policy pool weight := by
  rw [earned, earned, hmultiplier]

theorem multiplier_pos_of_settle {info settled : Expert}
    (hyields : (settle policy epoch info).Yields before settled after) :
    0 < policy.accPerShareMultiplier := by
  simp only [settle, yields_bind] at hyields
  obtain ⟨_, _, haccumulated, _⟩ := hyields
  exact Nat.pos_of_ne_zero fun hzero => (accumulated_yields haccumulated).1
    (by rw [hzero]; rfl)

theorem multiplier_pos_of_deposit {added : UInt64} {answer : Unit}
    (hyields : (deposit policy epoch balance expert added).Yields before answer after) :
    0 < policy.accPerShareMultiplier := by
  simp only [deposit, yields_bind] at hyields
  obtain ⟨_, _, hupdate, _, _, hread, _, _, hknown, _, _, hsettle, _⟩ := hyields
  exact multiplier_pos_of_settle hsettle

end Fund

section Calls

variable {policy : Policy} {start host : Host Fund} {joining call : Invocation Fund}
  {earlier since : List (Invocation Fund)} {expert : Address} {weight : UInt64}

theorem exists_of_answers (hanswers : call.result.toBool) :
    ∃ returned, call.result = .ok returned := by
  cases hresult : call.result with
  | ok returned => exact ⟨returned, rfl⟩
  | error failure =>
      rw [hresult] at hanswers
      cases hanswers

/-- The record of an expert that has just joined owes what its weight would have earned. -/
theorem record_of_joins (hruns : joining.Runs code) (hjoins : Joins joining expert weight) :
    ∃ fund, joining.after.state = some (.held fund) ∧
      0 < joining.before.policy.accPerShareMultiplier ∧
      (infoOf fund expert).weight = weight ∧
      (infoOf fund expert).rewardDebt =
        Fund.earned joining.before.policy fund.pool weight := by
  obtain ⟨returned, hresult⟩ := exists_of_answers hjoins.answers
  obtain ⟨request, old, changed, hrequest, hbefore, hchange, hafter⟩ :=
    deposit_of_runs hruns hresult hjoins.method
  cases hjoins.request.symm.trans hrequest
  have hmultiplier := Fund.multiplier_pos_of_deposit hchange
  obtain ⟨experts, updated, settled, hheld, _, hsettled, _, _, rfl⟩ :=
    Fund.deposit_yields hchange
  have hweightless : settled.weight = 0 := by
    have hrecord := hjoins.weightless
    rw [fundOf_eq hbefore, infoOf_eq hheld] at hrecord
    rw [hsettled.weight, hjoins.caller, hrecord]
  refine ⟨_, hafter, hmultiplier, ?_⟩
  rw [infoOf_eq rfl, hjoins.caller, Fund.record_insert, if_pos rfl, hweightless,
    UInt64.zero_add]
  exact ⟨rfl, rfl⟩

/-- A claim credits what the debt grows by, and leaves the debt at what the weight has
earned. -/
theorem record_of_claim (hruns : call.Runs code) (hsettles : Settles expert call)
    (hmethod : call.method = Method.claim) :
    let old := infoOf (fundOf call.before) expert
    let new := infoOf (fundOf call.after) expert
    new.weight = old.weight ∧ old.rewardDebt ≤ new.rewardDebt ∧
      new.rewardDebt =
        Fund.earned call.before.policy (fundOf call.after).pool old.weight ∧
      owed new + requested call = owed old + (new.rewardDebt - old.rewardDebt) := by
  obtain ⟨hanswers, htarget⟩ := hsettles
  obtain ⟨returned, hresult⟩ := exists_of_answers hanswers
  obtain ⟨request, fund, changed, hrequest, hbefore, hchange, hafter⟩ :=
    claim_of_runs hruns hresult hmethod
  rw [target?_of_claim hmethod hrequest, Option.some.injEq] at htarget
  subst htarget
  obtain ⟨experts, info, updated, settled, hheld, hfind, _, hsettled, _, rfl⟩ :=
    Fund.claim_yields hchange
  have hfunds := hsettled.funds
  have hdebt := hsettled.rewardDebt_le
  rw [← hsettled.weight] at hfunds hdebt
  rw [fundOf_eq hbefore, fundOf_eq hafter, infoOf_eq hheld, infoOf_eq rfl,
    Fund.record_insert, if_pos rfl, Fund.record_of_find? hfind,
    requested_of_claim hmethod hrequest]
  refine ⟨hsettled.weight, hdebt, ?_, ?_⟩
  · rw [← hsettled.weight]
  · simp only [owed]
    omega

theorem claimed_append_of_settles (hsettles : Settles expert call) :
    claimed expert (since ++ [call]) = claimed expert since + requested call := by
  simp [claimed, settling_append_of_settles hsettles]

/-- How an expert stands that has joined with a weight and since then has only claimed. -/
structure Joined (policy : Policy) (expert : Address) (weight : UInt64) (joined : Host Fund)
    (since : List (Invocation Fund)) (host : Host Fund) : Prop where
  held : ∃ fund, host.state = some (.held fund)
  accPerShare_nonneg : 0 ≤ (fundOf host).pool.accPerShare
  weight : (infoOf (fundOf host) expert).weight = weight
  rewardDebt_le :
    (infoOf (fundOf joined) expert).rewardDebt ≤ (infoOf (fundOf host) expert).rewardDebt
  settled : credited expert joined host since =
    (infoOf (fundOf host) expert).rewardDebt - (infoOf (fundOf joined) expert).rewardDebt
  unsettled_nonneg : 0 ≤ unsettled policy (fundOf host).pool (infoOf (fundOf host) expert)

theorem joined_of_joins (hnonneg : 0 ≤ (fundOf joining.after).pool.accPerShare)
    (hruns : joining.Runs code) (hjoins : Joins joining expert weight) :
    Joined joining.before.policy expert weight joining.after [] joining.after := by
  obtain ⟨fund, hfund, hmultiplier, hweight, hdebt⟩ := record_of_joins hruns hjoins
  rw [← fundOf_eq hfund] at hweight hdebt
  rw [← hweight] at hdebt
  refine ⟨⟨fund, hfund⟩, hnonneg, hweight, Int.le_refl _, ?_, ?_⟩
  · rw [Int.sub_self, credited, claimed, settling]
    simp
  · rw [Fund.unsettled_earned hnonneg hdebt]
    exact Fund.roundedOff_nonneg hmultiplier _ _

theorem Joined.called
    (hjoined : Joined policy expert weight joining.after since call.before)
    (hruns : call.Runs code) (hmultiplier : 0 < policy.accPerShareMultiplier)
    (hsame : call.before.policy.accPerShareMultiplier = policy.accPerShareMultiplier)
    (hclaims : Settles expert call → call.method = Method.claim) :
    Joined policy expert weight joining.after (since ++ [call]) call.after := by
  obtain ⟨⟨fund, hfund⟩, hnonneg, hweight, hdebt, hcredited, hunsettled⟩ := hjoined
  obtain ⟨changed, hchanged, hpool, _⟩ := accPerShare_of_runs hruns hfund
  rw [← fundOf_eq hfund, ← fundOf_eq hchanged] at hpool
  by_cases hsettles : Settles expert call
  · obtain ⟨hkept, hgrown, hearned, hfunds⟩ :=
      record_of_claim hruns hsettles (hclaims hsettles)
    rw [Fund.earned_congr hsame, ← hkept] at hearned
    refine ⟨⟨changed, hchanged⟩, hnonneg.trans hpool, hkept.trans hweight,
      hdebt.trans hgrown, ?_, ?_⟩
    · rw [credited] at hcredited ⊢
      rw [claimed_append_of_settles hsettles]
      omega
    · rw [Fund.unsettled_earned (hnonneg.trans hpool) hearned]
      exact Fund.roundedOff_nonneg hmultiplier _ _
  · have hkept := infoOf_of_not_settles hruns hsettles
    refine ⟨⟨changed, hchanged⟩, hnonneg.trans hpool, ?_, ?_, ?_, ?_⟩
    · rw [hkept, hweight]
    · rw [hkept]
      exact hdebt
    · rw [credited] at hcredited ⊢
      rw [hkept, claimed, settling_append_of_not_settles hsettles, ← claimed, hcredited]
    · rw [hkept]
      exact hunsettled.trans (Fund.unsettled_mono hpool _)

theorem fundOf_of_elsewhere {next : Host Fund} (hmove : Elsewhere host next) :
    fundOf next = fundOf host := by
  rw [fundOf, hmove.state, ← fundOf]

theorem joined_of_history (hmultiplier : 0 < policy.accPerShareMultiplier)
    (hjoined : Joined policy expert weight joining.after [] joining.after)
    (history : History code Elsewhere joining.after since host)
    (hsame : ∀ call ∈ since,
      call.before.policy.accPerShareMultiplier = policy.accPerShareMultiplier)
    (hclaims : ∀ call ∈ settling expert since, call.method = Method.claim) :
    Joined policy expert weight joining.after since host := by
  induction history with
  | begun => exact hjoined
  | moved past hmove ih =>
      obtain ⟨⟨fund, hfund⟩, hnonneg, hweight, hdebt, hcredited, hunsettled⟩ :=
        ih hsame hclaims
      rw [credited, ← fundOf_of_elsewhere hmove] at hcredited
      rw [← fundOf_of_elsewhere hmove] at hnonneg hweight hdebt hunsettled
      exact ⟨⟨fund, hmove.state.trans hfund⟩, hnonneg, hweight, hdebt, hcredited,
        hunsettled⟩
  | @called calls call past hruns ih =>
      obtain ⟨hsamePast, hsameCall⟩ := List.forall_mem_append.mp hsame
      rw [settling, List.filter_append] at hclaims
      obtain ⟨hclaimsPast, hclaimsCall⟩ := List.forall_mem_append.mp hclaims
      exact (ih hsamePast hclaimsPast).called hruns hmultiplier
        (hsameCall call List.mem_cons_self) fun hsettles =>
          hclaimsCall call (by simp [hsettles])

/-- What is credited and what is still to be settled make up the exact share, but for what
the first debt was rounded by. -/
theorem Joined.scaled (hjoined : Joined policy expert weight joining.after since host)
    (hnonneg : 0 ≤ (fundOf joining.after).pool.accPerShare)
    (hdebt : (infoOf (fundOf joining.after) expert).rewardDebt =
      Fund.earned policy (fundOf joining.after).pool weight) :
    policy.accPerShareMultiplier * credited expert joining.after host since +
        unsettled policy (fundOf host).pool (infoOf (fundOf host) expert) =
      shareSince weight joining.after host +
        roundedOff policy (fundOf joining.after).pool weight := by
  have hfirst : (policy.accPerShareMultiplier : Int) *
      Fund.earned policy (fundOf joining.after).pool weight = _ :=
        Fund.mul_earned hnonneg weight
  rw [hjoined.settled, hdebt, unsettled, hjoined.weight, shareSince, Int.mul_sub, hfirst]
  ring

/-- An expert that joins with a weight and from then on only claims is credited with no more
than the exact share of its weight as long as what its first debt was rounded by does not
exceed what is yet to be settled.  It never gets a whole unit more than that share. -/
theorem credited_le_share_iff (hstart : start.state = none)
    (history : History code Elsewhere start (earlier ++ joining :: since) host)
    (hjoins : Joins joining expert weight)
    (hsame : ∀ call ∈ since, call.before.policy.accPerShareMultiplier =
      joining.before.policy.accPerShareMultiplier)
    (hclaims : ∀ call ∈ settling expert since, call.method = Method.claim) :
    0 ≤ credited expert joining.after host since ∧
      (joining.before.policy.accPerShareMultiplier *
            credited expert joining.after host since ≤
          shareSince weight joining.after host ↔
        roundedOff joining.before.policy (fundOf joining.after).pool weight ≤
          unsettled joining.before.policy (fundOf host).pool
            (infoOf (fundOf host) expert)) ∧
      joining.before.policy.accPerShareMultiplier *
          credited expert joining.after host since <
        shareSince weight joining.after host +
          joining.before.policy.accPerShareMultiplier := by
  obtain ⟨past, hruns, hsince⟩ := history.split
  obtain ⟨fund, hfund, hmultiplier, _, hdebt⟩ := record_of_joins hruns hjoins
  obtain ⟨experts, hsound⟩ :=
    sound_of_history (past.called hruns) (fun _ _ hmove => hmove) hstart fund hfund
  have hnonneg := hsound.accPerShare_nonneg
  rw [← fundOf_eq hfund] at hnonneg hdebt
  have hjoined :=
    joined_of_history hmultiplier (joined_of_joins hnonneg hruns hjoins) hsince
    hsame hclaims
  have hscaled := hjoined.scaled hnonneg hdebt
  have hunsettled := hjoined.unsettled_nonneg
  have hrounded := Fund.roundedOff_lt hmultiplier (fundOf joining.after).pool weight
  have hgrown := hjoined.rewardDebt_le
  refine ⟨by rw [hjoined.settled]; omega, ⟨fun hwithin => ?_, fun hcovered => ?_⟩, ?_⟩
  · linarith
  · linarith
  · linarith

/-- A run in which an expert joins when each unit of weight has earned half a unit.  Its
debt is rounded down to nothing, and what comes in next brings it a whole unit for two
thirds of one. -/
def lateSteps : List (Step Fund) :=
  [constructStep, depositStep (.id 1001) 2 0, claimStep (.id 1001) (.id 2000) 0 1,
    depositStep (.id 1002) 1 0, claimStep (.id 1002) (.id 2000) 0 2]

def lateRun : List (Invocation Fund) × Host Fund :=
  replay code (.init .expertFund .standard) lateSteps

theorem length_lateRun : 3 < lateRun.1.length := by
  decide +kernel

def lateJoining : Invocation Fund := lateRun.1.get ⟨3, length_lateRun⟩

theorem lateRun_split :
    lateRun.1 = lateRun.1.take 3 ++ lateJoining :: lateRun.1.drop 4 := by
  rw [lateJoining, List.get_eq_getElem, List.getElem_cons_drop, List.take_append_drop]

theorem lateRun_history :
    History code Onward (.init .expertFund .standard)
      (lateRun.1.take 3 ++ lateJoining :: lateRun.1.drop 4) lateRun.2 := by
  rw [← lateRun_split]
  refine history_replay code _ ?_
  simp only [lateSteps, List.forall_mem_cons, List.not_mem_nil, false_imp_iff, implies_true,
    and_true]
  exact ⟨onward_constructStep, onward_depositStep _ _ _, onward_claimStep _ _ _ _,
    onward_depositStep _ _ _, onward_claimStep _ _ _ _⟩

theorem lateJoining_joins : Joins lateJoining (.id 1002) 1 where
  answers := by decide +kernel
  method := by decide +kernel
  caller := by decide +kernel
  request := by decide +kernel
  weightless := by decide +kernel

theorem lateRun_policy : ∀ call ∈ lateRun.1.drop 4, call.before.policy = .standard := by
  decide +kernel

theorem lateRun_claims :
    ∀ call ∈ settling (.id 1002) (lateRun.1.drop 4), call.method = Method.claim := by
  decide +kernel

theorem credited_exceeds_share :
    ∃ (earlier since : List (Invocation Fund)) (joining : Invocation Fund)
        (host : Host Fund),
      History code Onward (.init .expertFund .standard) (earlier ++ joining :: since) host ∧
        Joins joining (.id 1002) 1 ∧
        (∀ call ∈ joining :: since, call.before.policy = .standard) ∧
        (∀ call ∈ settling (.id 1002) since, call.method = Method.claim) ∧
        shareSince 1 joining.after host <
          Policy.standard.accPerShareMultiplier *
            credited (.id 1002) joining.after host since :=
  ⟨_, _, lateJoining, lateRun.2, lateRun_history, lateJoining_joins,
    List.forall_mem_cons.mpr ⟨by decide +kernel, lateRun_policy⟩, lateRun_claims,
    by decide +kernel⟩

theorem credited_le_share_iff_late :
    credited (.id 1002) lateJoining.after lateRun.2 (lateRun.1.drop 4) = 1 ∧
      ¬ roundedOff lateJoining.before.policy (fundOf lateJoining.after).pool 1 ≤
        unsettled lateJoining.before.policy (fundOf lateRun.2).pool
          (infoOf (fundOf lateRun.2) (.id 1002)) := by
  have hpolicy : lateJoining.before.policy = .standard := by decide +kernel
  have hsame : ∀ call ∈ lateRun.1.drop 4, call.before.policy.accPerShareMultiplier =
      lateJoining.before.policy.accPerShareMultiplier := fun call hcall => by
    rw [lateRun_policy call hcall, hpolicy]
  obtain ⟨_, hwithin, _⟩ := credited_le_share_iff rfl
    (lateRun_history.mono fun _ _ hmove => hmove.toElsewhere) lateJoining_joins hsame
      lateRun_claims
  refine ⟨by decide +kernel, fun hcovered => absurd (hwithin.mpr hcovered) ?_⟩
  decide +kernel

end Calls

end RewardVesting.ExpertFund
