import RewardVesting.Proofs.ExpertFund.Solvency
import RewardVesting.Proofs.Ledger.Availability

namespace RewardVesting.ExpertFund

open Host

def Settles (expert : Address) (call : Invocation Fund) : Prop :=
  call.result.toBool ∧ target? call = some expert

instance (expert : Address) : DecidablePred (Settles expert) :=
  fun _ => inferInstanceAs (Decidable (_ ∧ _))

def settling (expert : Address) (calls : List (Invocation Fund)) : List (Invocation Fund) :=
  calls.filter fun call => Settles expert call

/-- What an expert had earned beyond its debt when a call settled it. -/
def pending (expert : Address) (call : Invocation Fund) : Int :=
  let info := infoOf (fundOf call.before) expert
  Fund.earned call.before.policy (fundOf call.after).pool info.weight - info.rewardDebt

def claimed (expert : Address) (calls : List (Invocation Fund)) : Int :=
  ((settling expert calls).map requested).sum

def released (spec : VestSpec) (expert : Address) (calls : List (Invocation Fund))
    (epoch : Int) : Int :=
  ((settling expert calls).map fun call =>
    spec.releasedBefore call.before.epoch (pending expert call) epoch).sum

/-- What was pending at settlements that are further back than the delay, the first step and
a whole period after it. -/
def ripened (spec : VestSpec) (expert : Address) (calls : List (Invocation Fund))
    (epoch : Int) : Int :=
  (((settling expert calls).filter fun call =>
    call.before.epoch + spec.initialDelay + spec.stepDuration + spec.vestPeriod < epoch).map
      (pending expert)).sum

/-- What an expert has unlocked, or will have by an epoch. -/
def releasable (info : Expert) (epoch : Int) : Int :=
  info.unlocked + info.vesting.lockedBefore epoch

namespace Fund

variable {policy : Policy} {epoch : Int} {pool : Pool} {info settled : Expert}

theorem Vested.lockedBefore {spec : VestSpec} {pending : Int} {ledger vested : Ledger}
    (hvested : Vested spec epoch pending ledger vested) (hpending : 0 ≤ pending)
    (later : Int) :
    vested.lockedBefore later =
      ledger.lockedBefore later + spec.releasedBefore epoch pending later := by
  cases hvested with
  | nothing hnone =>
      rw [show pending = 0 by omega, VestSpec.releasedBefore_zero, Int.add_zero]
  | @scheduled additions _ _ _ hadditions =>
      rw [VestSpec.releasedBefore_of_tranches hadditions]
      exact Ledger.sumWhere_merge (fun other => other < later) ledger additions

/-- Settling adds what the new tranches release, and unlocks nothing that is not
released. -/
theorem Settled.releasable (hsettled : Settled policy epoch pool info settled) {later : Int}
    (hlater : epoch - policy.rewardVestingSpec.vestPeriod ≤ later) :
    releasable settled later = releasable info later +
      policy.rewardVestingSpec.releasedBefore epoch
        (earned policy pool info.weight - info.rewardDebt) later := by
  obtain ⟨vested, hvested, hvesting, hunlocked⟩ := hsettled.ledger
  have hpending := Int.sub_nonneg_of_le hsettled.rewardDebt_le
  have hlocked := hvested.lockedBefore hpending later
  have hcollect := Ledger.available_collect hlater vested
  simp only [Ledger.available, Ledger.collect, Ledger.sweep_unlocked] at hcollect
  rw [ExpertFund.releasable, ExpertFund.releasable, hvesting, hunlocked]
  simp only [Ledger.lockedBefore] at hcollect hlocked ⊢
  omega

theorem Settled.le_of_mem (hsettled : Settled policy epoch pool info settled)
    (hinfo : Consistent info) :
    ∀ tranche ∈ settled.vesting.tranches,
      epoch - policy.rewardVestingSpec.vestPeriod ≤ tranche.epoch := by
  obtain ⟨vested, hvested, hvesting, _⟩ := hsettled.ledger
  rw [hvesting]
  exact Ledger.le_of_mem_dropWhile (hvested.wellFormed hinfo.vesting).ordered

end Fund

/-- What a call does to the record of the expert that it settles, and to those of the
others. -/
structure Settlement (call : Invocation Fund) (expert : Address) (revised : Expert) :
    Prop where
  settled : Fund.Settled call.before.policy call.before.epoch (fundOf call.after).pool
    (infoOf (fundOf call.before) expert) revised
  unlocked : (infoOf (fundOf call.after) expert).unlocked =
    revised.unlocked - requested call
  vesting : (infoOf (fundOf call.after) expert).vesting =
    if call.method = Method.reset then .empty else revised.vesting
  others : ∀ other, expert ≠ other →
    infoOf (fundOf call.after) other = infoOf (fundOf call.before) other

section Calls

variable {spec : VestSpec} {start host : Host Fund} {calls : List (Invocation Fund)}
  {call : Invocation Fund} {expert : Address}

theorem settlement_of_insert {fund changed : Fund} {experts : AddressMap Expert}
    {info settled : Expert} (hbefore : call.before.state = some (.held fund))
    (hafter : call.after.state = some (.held changed))
    (hheld : fund.experts = .held experts)
    (hchanged : changed.experts = .held (experts.insert (.address expert) info))
    (hsettled : Fund.Settled call.before.policy call.before.epoch changed.pool
      (Fund.record experts expert) settled)
    (hunlocked : info.unlocked = settled.unlocked - requested call)
    (hvesting : info.vesting =
      if call.method = Method.reset then .empty else settled.vesting) :
    Settlement call expert settled := by
  have hinfo : ∀ other, infoOf (fundOf call.after) other =
      if expert = other then info else infoOf (fundOf call.before) other := by
    intro other
    rw [fundOf_eq hbefore, fundOf_eq hafter, infoOf_eq hchanged, infoOf_eq hheld,
      Fund.record_insert]
  have hown := (hinfo expert).trans (if_pos rfl)
  constructor
  · rw [fundOf_eq hbefore, fundOf_eq hafter, infoOf_eq hheld]
    exact hsettled
  · rw [hown, hunlocked]
  · rw [hown, hvesting]
  · exact fun other hother => (hinfo other).trans (if_neg hother)

/-- A call that answers settles the expert it is about; one about no expert leaves all
records. -/
theorem settlement_of_effect
    (heffect : Effect (call.before.entered call.replies) call.method call.params
      call.after.state call.after.balance) :
    match target? call with
    | some target => ∃ settled, Settlement call target settled
    | none => ∀ expert,
      infoOf (fundOf call.after) expert = infoOf (fundOf call.before) expert := by
  cases heffect with
  | constructed hmethod _ hnone hafter _ =>
      rw [target?_of_other (by rw [hmethod]; decide)]
      intro expert
      have hnothing : call.before.state = none := hnone
      rw [fundOf_eq hafter, fundOf, hnothing]
  | watched hmethod hafter _ =>
      rw [target?_of_watched hmethod]
      intro expert
      have hstate : call.after.state = call.before.state := hafter
      rw [fundOf, fundOf, hstate]
  | voted hmethod _ _ hold hchange hafter _ =>
      obtain ⟨_, _, _, _, rfl⟩ := Fund.changeVotes_yields hchange
      rw [target?_of_other (by rw [hmethod]; decide)]
      intro expert
      have hstate : call.before.state = some (.held _) := hold
      rw [fundOf_eq hafter, fundOf_eq hstate]
      rfl
  | deposited hmethod _ _ hold hchange hafter _ =>
      obtain ⟨experts, updated, settled, hheld, _, hsettled, _, _, rfl⟩ :=
        Fund.deposit_yields hchange
      rw [target?_of_deposit hmethod]
      refine ⟨settled, settlement_of_insert hold hafter hheld rfl hsettled ?_ ?_⟩
      · rw [requested_of_other (by rw [hmethod]; decide), Int.sub_zero]
      · rw [if_neg (by rw [hmethod]; decide)]
  | claimed hmethod hrequest _ hold hchange hafter _ =>
      obtain ⟨experts, info, updated, settled, hheld, hfind, _, hsettled, _, rfl⟩ :=
        Fund.claim_yields hchange
      rw [target?_of_claim hmethod hrequest]
      rw [← Fund.record_of_find? hfind] at hsettled
      refine ⟨settled, settlement_of_insert hold hafter hheld rfl hsettled ?_ ?_⟩
      · rw [requested_of_claim hmethod hrequest]
      · rw [if_neg (by rw [hmethod]; decide)]
  | cleared hmethod hrequest hold hchange hafter _ =>
      obtain ⟨experts, info, updated, settled, hheld, hfind, _, _, hsettled, _, rfl⟩ :=
        Fund.reset_yields hchange
      rw [target?_of_reset hmethod hrequest]
      rw [← Fund.record_of_find? hfind] at hsettled
      refine ⟨settled, settlement_of_insert hold hafter hheld rfl hsettled ?_ ?_⟩
      · rw [requested_of_other (by rw [hmethod]; decide), Int.sub_zero]
      · rw [if_pos hmethod]
        rfl

theorem settlement_of_settles (hruns : call.Runs code) (hsettles : Settles expert call) :
    ∃ settled, Settlement call expert settled := by
  obtain ⟨hanswers, htarget⟩ := hsettles
  cases hresult : call.result with
  | error failure =>
      rw [hresult] at hanswers
      cases hanswers
  | ok returned =>
      have hsettlement := settlement_of_effect (effect_of_runs hruns hresult)
      rwa [htarget] at hsettlement

theorem infoOf_of_not_settles (hruns : call.Runs code) (hnot : ¬Settles expert call) :
    infoOf (fundOf call.after) expert = infoOf (fundOf call.before) expert := by
  cases hresult : call.result with
  | error failure =>
      rw [fundOf, (hruns.refused hresult).1, fundOf]
  | ok returned =>
      have hsettlement := settlement_of_effect (effect_of_runs hruns hresult)
      cases htarget : target? call with
      | none =>
          rw [htarget] at hsettlement
          exact hsettlement expert
      | some target =>
          rw [htarget] at hsettlement
          obtain ⟨settled, hsettled⟩ := hsettlement
          refine hsettled.others expert ?_
          rintro rfl
          exact hnot ⟨by rw [hresult]; rfl, htarget⟩

theorem consistent_infoOf (hstart : start.state = none)
    (history : History code Elsewhere start calls host) (expert : Address) :
    Consistent (infoOf (fundOf host) expert) := by
  have hsound := sound_of_history history (fun _ _ hmove => hmove) hstart
  rw [fundOf]
  split
  · rename_i fund hfund
    obtain ⟨experts, hexperts⟩ := hsound fund hfund
    rw [infoOf_eq hexperts.held]
    exact hexperts.record expert
  · exact consistent_unregistered

theorem settling_append_of_settles (hsettles : Settles expert call) :
    settling expert (calls ++ [call]) = settling expert calls ++ [call] := by
  simp [settling, hsettles]

theorem settling_append_of_not_settles (hnot : ¬Settles expert call) :
    settling expert (calls ++ [call]) = settling expert calls := by
  simp [settling, hnot]

/-- What is locked and what is unlocked after these calls, both held against what the
tranches of all that was pending release. -/
structure TimeLocked (spec : VestSpec) (expert : Address) (calls : List (Invocation Fund))
    (info : Expert) : Prop where
  pending_nonneg : ∀ call ∈ settling expert calls, 0 ≤ pending expert call
  locked : ∀ call ∈ settling expert calls, ∀ tranche ∈ info.vesting.tranches,
    call.before.epoch - spec.vestPeriod ≤ tranche.epoch
  bounded : ∀ epoch,
    (∀ call ∈ settling expert calls, call.before.epoch - spec.vestPeriod ≤ epoch) →
    releasable info epoch + claimed expert calls ≤ released spec expert calls epoch
  exact : (∀ call ∈ settling expert calls, call.method ≠ Method.reset) →
    ∀ epoch, (∀ call ∈ settling expert calls, call.before.epoch - spec.vestPeriod ≤ epoch) →
      releasable info epoch + claimed expert calls = released spec expert calls epoch

theorem timeLocked_nil (spec : VestSpec) (expert : Address) :
    TimeLocked spec expert [] .unregistered := by
  have hnothing : ∀ epoch, releasable .unregistered epoch + claimed expert [] =
      released spec expert [] epoch := fun _ => rfl
  constructor
  · exact List.forall_mem_nil _
  · exact List.forall_mem_nil _
  · exact fun epoch _ => Int.le_of_eq (hnothing epoch)
  · exact fun _ epoch _ => hnothing epoch

/-- A claim takes out of what is unlocked, and a reset loses what is locked. -/
theorem Settlement.releasable_le {settled : Expert}
    (hsettlement : Settlement call expert settled)
    (hsettled : Consistent settled) (epoch : Int) :
    releasable (infoOf (fundOf call.after) expert) epoch + requested call ≤
        releasable settled epoch ∧
      (call.method ≠ Method.reset →
        releasable (infoOf (fundOf call.after) expert) epoch + requested call =
          releasable settled epoch) := by
  have hvesting := hsettlement.vesting
  have hunlocked := hsettlement.unlocked
  have hnonneg : 0 ≤ settled.vesting.lockedBefore epoch :=
    Ledger.sumOf_nonneg fun tranche hmem =>
      hsettled.vesting.tranches_nonneg tranche (List.mem_filter.mp hmem).1
  rw [releasable, releasable]
  by_cases hreset : call.method = Method.reset
  · rw [if_pos hreset] at hvesting
    have hnone : (Ledger.empty).lockedBefore epoch = 0 := rfl
    rw [hvesting, hnone]
    exact ⟨by omega, fun hkept => absurd hreset hkept⟩
  · rw [if_neg hreset] at hvesting
    rw [hvesting]
    exact ⟨by omega, fun _ => by omega⟩

theorem timeLocked_of_settlement {settled : Expert}
    (hlocked : TimeLocked spec expert calls (infoOf (fundOf call.before) expert))
    (hinfo : Consistent (infoOf (fundOf call.before) expert))
    (hspec : call.before.policy.rewardVestingSpec = spec)
    (hepochs : ∀ earlier ∈ calls, earlier.before.epoch ≤ call.before.epoch)
    (hsettles : Settles expert call) (hsettlement : Settlement call expert settled) :
    TimeLocked spec expert (calls ++ [call]) (infoOf (fundOf call.after) expert) := by
  have hsettled := hsettlement.settled
  have hleft := hsettlement.releasable_le (hsettled.consistent hinfo)
  -- The new tranches count at once, though this settlement may not have swept any of them.
  have hgain : ∀ epoch, call.before.epoch - spec.vestPeriod ≤ epoch →
      releasable settled epoch = releasable (infoOf (fundOf call.before) expert) epoch +
        spec.releasedBefore call.before.epoch (pending expert call) epoch := by
    subst hspec
    exact fun epoch hlater => hsettled.releasable hlater
  have hclaimed : claimed expert (calls ++ [call]) =
      claimed expert calls + requested call := by
    simp [claimed, settling_append_of_settles hsettles]
  have hreleased : ∀ epoch, released spec expert (calls ++ [call]) epoch =
      released spec expert calls epoch +
        spec.releasedBefore call.before.epoch (pending expert call) epoch := by
    intro epoch
    simp [released, settling_append_of_settles hsettles]
  constructor
  · rw [settling_append_of_settles hsettles]
    exact List.forall_mem_append.mpr ⟨hlocked.pending_nonneg,
      List.forall_mem_singleton.mpr (Int.sub_nonneg_of_le hsettled.rewardDebt_le)⟩
  · intro earlier hmem tranche htranche
    have hepoch : earlier.before.epoch ≤ call.before.epoch := by
      rcases List.mem_append.mp (List.mem_filter.mp hmem).1 with hpast | hcall
      · exact hepochs earlier hpast
      · rw [List.mem_singleton.mp hcall]
    have hkept : tranche ∈ settled.vesting.tranches := by
      rw [hsettlement.vesting] at htranche
      split at htranche
      · exact absurd htranche List.not_mem_nil
      · exact htranche
    have hripe := hsettled.le_of_mem hinfo tranche hkept
    rw [hspec] at hripe
    omega
  · intro epoch hlater
    rw [settling_append_of_settles hsettles] at hlater
    obtain ⟨hpast, hcall⟩ := List.forall_mem_append.mp hlater
    have hbefore := hlocked.bounded epoch hpast
    have hnow := hgain epoch (hcall call List.mem_cons_self)
    have hafter := (hleft epoch).1
    rw [hclaimed, hreleased]
    omega
  · intro hkept epoch hlater
    rw [settling_append_of_settles hsettles] at hkept hlater
    obtain ⟨hpast, hcall⟩ := List.forall_mem_append.mp hlater
    obtain ⟨hkeptPast, hkeptCall⟩ := List.forall_mem_append.mp hkept
    have hbefore := hlocked.exact hkeptPast epoch hpast
    have hnow := hgain epoch (hcall call List.mem_cons_self)
    have hafter := (hleft epoch).2 (hkeptCall call List.mem_cons_self)
    rw [hclaimed, hreleased]
    omega

theorem timeLocked_of_not_settles (hlocked : TimeLocked spec expert calls
      (infoOf (fundOf call.before) expert)) (hruns : call.Runs code)
    (hnot : ¬Settles expert call) :
    TimeLocked spec expert (calls ++ [call]) (infoOf (fundOf call.after) expert) := by
  obtain ⟨hpending, hage, hbounded, hexact⟩ := hlocked
  rw [← infoOf_of_not_settles hruns hnot] at hage hbounded hexact
  rw [← settling_append_of_not_settles hnot] at hpending hage
  constructor
  · exact hpending
  · exact hage
  · simpa only [claimed, released, settling_append_of_not_settles hnot] using hbounded
  · simpa only [claimed, released, settling_append_of_not_settles hnot] using hexact

theorem timeLocked_of_history (hstart : start.state = none)
    (history : History code Elsewhere start calls host)
    (hspec : ∀ call ∈ calls, call.before.policy.rewardVestingSpec = spec)
    (hepochs : calls.Pairwise fun earlier later =>
      earlier.before.epoch ≤ later.before.epoch)
    (expert : Address) : TimeLocked spec expert calls (infoOf (fundOf host) expert) := by
  induction history with
  | begun =>
      rw [fundOf, hstart]
      exact timeLocked_nil spec expert
  | moved past hmove ih =>
      rw [fundOf, hmove.state, ← fundOf]
      exact ih hspec hepochs
  | @called calls call past hruns ih =>
      obtain ⟨hspecPast, hspecCall⟩ := List.forall_mem_append.mp hspec
      obtain ⟨hepochsPast, _, hlast⟩ := List.pairwise_append.mp hepochs
      have hlocked := ih hspecPast hepochsPast
      by_cases hsettles : Settles expert call
      · obtain ⟨settled, hsettlement⟩ := settlement_of_settles hruns hsettles
        exact timeLocked_of_settlement hlocked (consistent_infoOf hstart past expert)
          (hspecCall call List.mem_cons_self)
          (fun earlier hmem => hlast earlier hmem call List.mem_cons_self) hsettles
            hsettlement
      · exact timeLocked_of_not_settles hlocked hruns hsettles

theorem released_le_ripened (hstep : 0 < spec.stepDuration) (hperiod : 0 < spec.vestPeriod)
    (hpending : ∀ call ∈ settling expert calls, 0 ≤ pending expert call) (epoch : Int) :
    released spec expert calls (epoch - spec.vestPeriod) ≤
      ripened spec expert calls epoch := by
  rw [released, ripened]
  revert hpending
  induction settling expert calls with
  | nil => exact fun _ => Int.le_refl 0
  | cons call rest ih =>
      intro hpending
      obtain ⟨hcall, hrest⟩ := List.forall_mem_cons.mp hpending
      have htail := ih hrest
      rw [List.map_cons, List.sum_cons, List.filter_cons]
      split
      · have hbound : spec.releasedBefore call.before.epoch (pending expert call)
            (epoch - spec.vestPeriod) ≤ pending expert call :=
          VestSpec.releasedBefore_le hstep hperiod hcall
        rw [List.map_cons, List.sum_cons]
        omega
      · rename_i hyoung
        rw [decide_eq_true_eq] at hyoung
        rw [VestSpec.releasedBefore_of_le hstep hperiod hcall (by omega)]
        omega

/-- In a run whose epochs do not go back, an expert has unlocked and claimed no more than
what all its settlements have released a period before the last of them, and exactly that
much if it has never been reset.  A reward is released by no settlement before its delay,
its first step and then a whole period have passed. -/
theorem claimable_of_history {fund : Fund} {last : Invocation Fund}
    (hstep : 0 < spec.stepDuration) (hperiod : 0 < spec.vestPeriod)
    (hstart : start.state = none) (history : History code Elsewhere start calls host)
    (hspec : ∀ call ∈ calls, call.before.policy.rewardVestingSpec = spec)
    (hepochs : calls.Pairwise fun earlier later =>
      earlier.before.epoch ≤ later.before.epoch)
    (hheld : host.state = some (.held fund))
    (hlast : (settling expert calls).getLast? = some last) :
    (infoOf fund expert).unlocked + claimed expert calls ≤
        released spec expert calls (last.before.epoch - spec.vestPeriod) ∧
      ((∀ call ∈ settling expert calls, call.method ≠ Method.reset) →
        (infoOf fund expert).unlocked + claimed expert calls =
          released spec expert calls (last.before.epoch - spec.vestPeriod)) ∧
      (∀ call ∈ settling expert calls,
        last.before.epoch ≤
          call.before.epoch + spec.initialDelay + spec.stepDuration + spec.vestPeriod →
        spec.releasedBefore call.before.epoch (pending expert call)
          (last.before.epoch - spec.vestPeriod) = 0) ∧
      (infoOf fund expert).unlocked + claimed expert calls ≤
        ripened spec expert calls last.before.epoch := by
  have hlocked := timeLocked_of_history hstart history hspec hepochs expert
  rw [fundOf_eq hheld] at hlocked
  obtain ⟨past, hsplit⟩ := List.getLast?_eq_some_iff.mp hlast
  have hordered : (past ++ [last]).Pairwise fun earlier later : Invocation Fund =>
      earlier.before.epoch ≤ later.before.epoch := by
    rw [← hsplit]
    exact hepochs.filter _
  have hlatest : ∀ call ∈ settling expert calls,
      call.before.epoch - spec.vestPeriod ≤ last.before.epoch - spec.vestPeriod := by
    intro call hmem
    refine Int.sub_le_sub_right ?_ _
    rw [hsplit] at hmem
    rcases List.mem_append.mp hmem with hearlier | hself
    · exact (List.pairwise_append.mp hordered).2.2 call hearlier last List.mem_cons_self
    · rw [List.mem_singleton.mp hself]
  have hmem : last ∈ settling expert calls := by
    rw [hsplit]
    exact List.mem_append_right _ List.mem_cons_self
  -- The last settlement has swept up all that was ripe by then: nothing is left to come.
  have hswept : releasable (infoOf fund expert) (last.before.epoch - spec.vestPeriod) =
      (infoOf fund expert).unlocked := by
    have hnone : Ledger.sumWhere (fun other => other < last.before.epoch - spec.vestPeriod)
        (infoOf fund expert).vesting.tranches = 0 := by
      refine Ledger.sumWhere_of_forall_not fun tranche htranche => ?_
      have hripe := hlocked.locked last hmem tranche htranche
      rw [decide_eq_true_eq]
      omega
    exact (congrArg _ hnone).trans (Int.add_zero _)
  have hbounded := hlocked.bounded _ hlatest
  have hripened :=
    released_le_ripened hstep hperiod hlocked.pending_nonneg last.before.epoch
  rw [hswept] at hbounded
  refine ⟨hbounded, fun hkept => ?_, fun call hcall hyoung => ?_, hbounded.trans hripened⟩
  · rw [← hswept]
    exact hlocked.exact hkept _ hlatest
  · exact VestSpec.releasedBefore_of_le hstep hperiod (hlocked.pending_nonneg call hcall)
      (by omega)

def briefPolicy : Policy :=
  { Policy.standard with
    rewardVestingSpec :=
      { initialDelay := 2, vestPeriod := 10, stepDuration := 3, quantization := 5 } }

def atEpoch (epoch : Int) (step : Step Fund) : Step Fund :=
  { step with prepare := fun host => { step.prepare host with epoch := epoch } }

def ripeningSteps : List (Step Fund) :=
  [constructStep, atEpoch 0 (depositStep (.id 1001) 2 0),
    atEpoch 5 (claimStep (.id 1001) (.id 2000) 0 100),
    atEpoch 9 (claimStep (.id 1001) (.id 2000) 0 50),
    atEpoch 21 (claimStep (.id 1001) (.id 2000) 25 0),
    atEpoch 26 (claimStep (.id 1001) (.id 2000) 100 0),
    atEpoch 26 (claimStep (.id 1001) (.id 2000) 7 0)]

def ripeningRun : List (Invocation Fund) × Host Fund :=
  replay code (.init .expertFund briefPolicy) ripeningSteps

theorem ripeningRun_history :
    History code Elsewhere (.init .expertFund briefPolicy) ripeningRun.1 ripeningRun.2 := by
  refine history_replay code _ ?_
  simp only [ripeningSteps, List.forall_mem_cons, List.not_mem_nil, false_imp_iff,
    implies_true, and_true]
  exact ⟨fun _ => ⟨rfl⟩, fun _ => ⟨rfl⟩, fun _ => ⟨rfl⟩, fun _ => ⟨rfl⟩, fun _ => ⟨rfl⟩,
    fun _ => ⟨rfl⟩, fun _ => ⟨rfl⟩⟩

theorem claimable_of_history_ripening :
    ∃ fund last, ripeningRun.2.state = some (.held fund) ∧
      (settling (.id 1001) ripeningRun.1).getLast? = some last ∧ last.before.epoch = 26 ∧
      claimed (.id 1001) ripeningRun.1 = 32 ∧
      (infoOf fund (.id 1001)).unlocked + claimed (.id 1001) ripeningRun.1 =
        released briefPolicy.rewardVestingSpec (.id 1001) ripeningRun.1 (26 - 10) ∧
      released briefPolicy.rewardVestingSpec (.id 1001) ripeningRun.1 (26 - 10) = 100 := by
  have hheld : (ripeningRun.2.state.bind Link.get?).isSome := by decide +kernel
  have hspec : ∀ call ∈ ripeningRun.1,
      call.before.policy.rewardVestingSpec = briefPolicy.rewardVestingSpec := by
        decide +kernel
  have hepochs : ripeningRun.1.Pairwise fun earlier later =>
      earlier.before.epoch ≤ later.before.epoch := by decide +kernel
  have hlast : (settling (.id 1001) ripeningRun.1).getLast?.map
    (fun call => call.before.epoch) =
      some 26 := by decide +kernel
  obtain ⟨last, hlast, hepoch⟩ := Option.map_eq_some_iff.mp hlast
  obtain ⟨fund, hfund⟩ := Option.isSome_iff_exists.mp hheld
  obtain ⟨link, hstate, hlink⟩ := Option.bind_eq_some_iff.mp hfund
  cases link with
  | missing => cases hlink
  | held held =>
      cases hlink
      obtain ⟨_, hexact, _, _⟩ := claimable_of_history (by decide) (by decide) rfl
        ripeningRun_history hspec hepochs hstate hlast
      have hkept : ∀ call ∈ settling (.id 1001) ripeningRun.1,
          call.method ≠ Method.reset := by
        decide +kernel
      have hsum := hexact hkept
      rw [hepoch] at hsum
      exact ⟨fund, last, hstate, hlast, hepoch, by decide +kernel, hsum, by decide +kernel⟩

end Calls

end RewardVesting.ExpertFund
