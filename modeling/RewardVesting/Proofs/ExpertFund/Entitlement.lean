import RewardVesting.Proofs.ExpertFund.Consistency

namespace RewardVesting.ExpertFund

open Host

/-- The expert whose record a call is about. -/
def target? (call : Invocation Fund) : Option Address :=
  if call.method = Method.deposit then some call.before.caller
  else if call.method = Method.claim then
    (Claim.format.methodParameters call.params).toOption.map Claim.expert
  else if call.method = Method.reset then
    (Reset.format.methodParameters call.params).toOption.map Reset.expert
  else none

def requested (call : Invocation Fund) : Int :=
  if call.method = Method.claim then
    ((Claim.format.methodParameters call.params).toOption.map Claim.amount).getD 0
  else 0

section Target

variable {call : Invocation Fund}

theorem target?_of_deposit (hmethod : call.method = Method.deposit) :
    target? call = some call.before.caller := if_pos hmethod

theorem target?_of_claim {request : Claim} (hmethod : call.method = Method.claim)
    (hrequest : Claim.format.methodParameters call.params = .ok request) :
    target? call = some request.expert := by
  rw [target?, hmethod, if_neg (by decide), if_pos rfl, hrequest]
  rfl

theorem target?_of_reset {request : Reset} (hmethod : call.method = Method.reset)
    (hrequest : Reset.format.methodParameters call.params = .ok request) :
    target? call = some request.expert := by
  rw [target?, hmethod, if_neg (by decide), if_neg (by decide), if_pos rfl, hrequest]
  rfl

theorem target?_of_other
    (hmethod : call.method ∉ [Method.deposit, Method.claim, Method.reset]) :
    target? call = none := by
  simp only [List.mem_cons, List.not_mem_nil, or_false, not_or] at hmethod
  obtain ⟨hdeposit, hclaim, hreset⟩ := hmethod
  rw [target?, if_neg hdeposit, if_neg hclaim, if_neg hreset]

theorem target?_of_watched
    (hmethod : call.method = Method.receive ∨ call.method = Method.standing) :
    target? call = none := by
  refine target?_of_other ?_
  rcases hmethod with hmethod | hmethod <;> rw [hmethod] <;> decide

theorem requested_of_claim {request : Claim} (hmethod : call.method = Method.claim)
    (hrequest : Claim.format.methodParameters call.params = .ok request) :
    requested call = request.amount := by
  rw [requested, if_pos hmethod, hrequest]
  rfl

theorem requested_of_other (hclaim : call.method ≠ Method.claim) : requested call = 0 :=
  if_neg hclaim

end Target

/-- What an expert may still come to claim: its funds, and what it has earned beyond its
debt. -/
def entitlement (policy : Policy) (pool : Pool) (info : Expert) : Int :=
  info.locked + info.unlocked +
    pool.accPerShare * info.weight.toNat / policy.accPerShareMultiplier - info.rewardDebt

namespace Fund

variable {policy : Policy} {epoch balance : Int} {before after : Fund} {pool later : Pool}

theorem entitlement_mono (hpool : pool.accPerShare ≤ later.accPerShare) (info : Expert) :
    entitlement policy pool info ≤ entitlement policy later info := by
  have hscaled : pool.accPerShare * info.weight.toNat ≤
      later.accPerShare * info.weight.toNat :=
    Int.mul_le_mul_of_nonneg_right hpool (Int.natCast_nonneg _)
  have hearned : pool.accPerShare * info.weight.toNat / policy.accPerShareMultiplier ≤
      later.accPerShare * info.weight.toNat / policy.accPerShareMultiplier := by
    rcases Nat.eq_zero_or_pos policy.accPerShareMultiplier with hzero | hpositive
    · simp [hzero]
    · exact Int.ediv_le_ediv (by omega) hscaled
  rw [entitlement, entitlement]
  omega

/-- Settling and taking the new weight into debt moves what has been earned, and no more. -/
theorem entitlement_settled {info settled : Expert} (hpool : 0 ≤ pool.accPerShare)
    (hsettled : Settled policy epoch pool info settled) (weight : UInt64) (paid : Int) :
    entitlement policy pool { settled with
        weight := weight
        rewardDebt := earned policy pool weight
        unlocked := settled.unlocked - paid } = entitlement policy pool info - paid := by
  have hfunds := hsettled.funds
  rw [earned_eq hpool] at hfunds
  simp only [entitlement, earned_eq hpool]
  omega

/-- Storing one record leaves every other as it was, and a pool that gains lowers no
entitlement. -/
theorem entitlement_other {experts : AddressMap Expert} {expert other : Address}
    {info : Expert}
    (hother : expert ≠ other) (hpool : pool.accPerShare ≤ later.accPerShare) :
    (experts.insert (.address expert) info).find? (.address other) =
        experts.find? (.address other) ∧
      entitlement policy pool (record experts other) ≤
        entitlement policy later
          (record (experts.insert (.address expert) info) other) := by
  have hkey : Key.address expert ≠ Key.address other :=
    fun heq => hother (Key.address_injective heq)
  constructor
  · rw [AddressMap.find?_insert, if_neg hkey]
  · rw [record_insert, if_neg hother]
    exact entitlement_mono hpool _

/-- After an operation on one expert, the records of the others are as they were and their
entitlements did not fall. -/
structure Isolated (policy : Policy) (before after : Fund)
    (experts revised : AddressMap Expert) (expert : Address) : Prop where
  held : after.experts = .held revised
  others : ∀ other, expert ≠ other →
    revised.find? (.address other) = experts.find? (.address other) ∧
      entitlement policy before.pool (record experts other) ≤
        entitlement policy after.pool (record revised other)

theorem isolated_deposit {experts : AddressMap Expert} (hsound : Sound before experts)
    {expert : Address} {added : UInt64} {answer : Unit}
    (hyields : (deposit policy epoch balance expert added).Yields before answer after) :
    ∃ revised, Isolated policy before after experts revised expert ∧
      entitlement policy after.pool (record revised expert) =
        entitlement policy after.pool (record experts expert) := by
  obtain ⟨held, updated, settled, hheld, hspread, hsettled, _, _, rfl⟩ :=
    deposit_yields hyields
  cases hsound.held.symm.trans hheld
  have hpool := hspread.accPerShare_le
  have hsettle :=
    entitlement_settled (Int.le_trans hsound.accPerShare_nonneg hpool) hsettled
    (settled.weight + added) 0
  refine ⟨_, ⟨rfl, fun other hother => entitlement_other hother hpool⟩, ?_⟩
  rw [Int.sub_zero, Int.sub_zero] at hsettle
  rw [record_insert, if_pos rfl]
  exact hsettle

theorem isolated_claim {experts : AddressMap Expert} (hsound : Sound before experts)
    {expert : Address} {amount : Int} {answer : Unit}
    (hyields : (claim policy epoch balance expert amount).Yields before answer after) :
    ∃ revised, Isolated policy before after experts revised expert ∧
      entitlement policy after.pool (record revised expert) =
        entitlement policy after.pool (record experts expert) - amount := by
  obtain ⟨held, info, updated, settled, hheld, hfind, hspread, hsettled, _, rfl⟩ :=
    claim_yields hyields
  cases hsound.held.symm.trans hheld
  have hpool := hspread.accPerShare_le
  refine ⟨_, ⟨rfl, fun other hother => entitlement_other hother hpool⟩, ?_⟩
  rw [record_insert, if_pos rfl, record_of_find? hfind]
  exact entitlement_settled (Int.le_trans hsound.accPerShare_nonneg hpool) hsettled
    settled.weight amount

theorem isolated_reset {experts : AddressMap Expert} (hsound : Sound before experts)
    {expert : Address} {forfeited : Int}
    (hyields : (reset policy epoch balance expert).Yields before forfeited after) :
    ∃ revised, Isolated policy before after experts revised expert ∧
      ∃ unlocked,
        record revised expert = { Expert.unregistered with unlocked := unlocked } := by
  obtain ⟨held, info, updated, settled, hheld, _, _, hspread, _, _, rfl⟩ :=
    reset_yields hyields
  cases hsound.held.symm.trans hheld
  refine ⟨_, ⟨rfl, fun other hother => entitlement_other hother hspread.accPerShare_le⟩, ?_⟩
  exact ⟨settled.unlocked, by rw [record_insert, if_pos rfl]⟩

theorem entitlement_unregistered (pool : Pool) (unlocked : Int) :
    entitlement policy pool { Expert.unregistered with unlocked := unlocked } =
      unlocked := by
  simp [entitlement, Expert.unregistered]

end Fund

/-- What a call that answers has done to the record and the entitlement of one expert. -/
structure Treated (call : Invocation Fund) (before after : Fund)
    (experts revised : AddressMap Expert) (expert : Address) : Prop where
  other : target? call ≠ some expert →
    revised.find? (.address expert) = experts.find? (.address expert) ∧
      entitlement call.before.policy before.pool (Fund.record experts expert) ≤
        entitlement call.before.policy after.pool (Fund.record revised expert)
  own : target? call = some expert → call.method ≠ Method.reset →
    entitlement call.before.policy after.pool (Fund.record revised expert) =
      entitlement call.before.policy after.pool (Fund.record experts expert) -
        requested call
  cleared : target? call = some expert → call.method = Method.reset →
    Fund.record revised expert =
      ⟨0, 0, 0, .empty, entitlement call.before.policy after.pool
        (Fund.record revised expert)⟩

section Treatment

variable {call : Invocation Fund} {before after : Fund}
  {experts revised : AddressMap Expert} {target expert : Address}

theorem treated_of_target?_eq_none (htarget : target? call = none)
    (hpool : after.pool = before.pool)
    (expert : Address) : Treated call before after experts experts expert := by
  constructor
  · intro _
    rw [hpool]
    exact ⟨rfl, Int.le_refl _⟩
  · intro hexpert
    cases htarget.symm.trans hexpert
  · intro hexpert
    cases htarget.symm.trans hexpert

theorem treated_of_isolated (htarget : target? call = some target)
    (hisolated : Fund.Isolated call.before.policy before after experts revised target)
    (hmethod : call.method ≠ Method.reset)
    (hown : entitlement call.before.policy after.pool (Fund.record revised target) =
      entitlement call.before.policy after.pool (Fund.record experts target) -
        requested call)
    (expert : Address) : Treated call before after experts revised expert := by
  constructor
  · intro hother
    exact hisolated.others expert fun hsame => hother (hsame ▸ htarget)
  · intro hexpert _
    cases htarget.symm.trans hexpert
    exact hown
  · intro _ hreset
    exact absurd hreset hmethod

theorem treated_of_cleared (htarget : target? call = some target)
    (hisolated : Fund.Isolated call.before.policy before after experts revised target)
    (hmethod : call.method = Method.reset) {unlocked : Int}
    (hcleared : Fund.record revised target =
      { Expert.unregistered with unlocked := unlocked })
    (expert : Address) : Treated call before after experts revised expert := by
  constructor
  · intro hother
    exact hisolated.others expert fun hsame => hother (hsame ▸ htarget)
  · intro _ hkept
    exact absurd hmethod hkept
  · intro hexpert _
    cases htarget.symm.trans hexpert
    rw [hcleared, Fund.entitlement_unregistered]
    rfl

theorem treated_of_effect {fund : Fund} (hsound : Fund.Sound fund experts)
    (hbefore : call.before.state = some (.held fund))
    (heffect : Effect (call.before.entered call.replies) call.method call.params
      call.after.state call.after.balance) :
    ∃ changed revised, call.after.state = some (.held changed) ∧
      changed.experts = .held revised ∧
      ∀ expert, Treated call fund changed experts revised expert := by
  cases heffect with
  | constructed _ _ hnone _ _ => cases hbefore.symm.trans hnone
  | watched hmethod hkept _ =>
      exact ⟨fund, experts, hkept.trans hbefore, hsound.held,
        treated_of_target?_eq_none (target?_of_watched hmethod) rfl⟩
  | voted hmethod _ _ hold hchange hstored _ =>
      have htarget : target? call = none := target?_of_other (by rw [hmethod]; decide)
      cases hbefore.symm.trans hold
      obtain ⟨_, _, _, _, rfl⟩ := Fund.changeVotes_yields hchange
      exact ⟨_, experts, hstored, hsound.held, treated_of_target?_eq_none htarget rfl⟩
  | deposited hmethod _ hrequest hold hchange hstored _ =>
      cases hbefore.symm.trans hold
      obtain ⟨revised, hisolated, hown⟩ := Fund.isolated_deposit hsound hchange
      have hnothing : requested call = 0 := requested_of_other (by rw [hmethod]; decide)
      refine ⟨_, revised, hstored, hisolated.held,
        treated_of_isolated (target?_of_deposit hmethod) hisolated
          (by rw [hmethod]; decide) ?_⟩
      rw [hnothing, Int.sub_zero]
      exact hown
  | claimed hmethod hrequest _ hold hchange hstored _ =>
      cases hbefore.symm.trans hold
      obtain ⟨revised, hisolated, hown⟩ := Fund.isolated_claim hsound hchange
      refine ⟨_, revised, hstored, hisolated.held,
        treated_of_isolated (target?_of_claim hmethod hrequest) hisolated
          (by rw [hmethod]; decide) ?_⟩
      rw [requested_of_claim hmethod hrequest]
      exact hown
  | cleared hmethod hrequest hold hchange hstored _ =>
      cases hbefore.symm.trans hold
      obtain ⟨revised, hisolated, unlocked, hown⟩ := Fund.isolated_reset hsound hchange
      exact ⟨_, revised, hstored, hisolated.held,
        treated_of_cleared (target?_of_reset hmethod hrequest) hisolated hmethod hown⟩

end Treatment

/-- A call that answers changes the record of the expert it is about, and no other.  Others
do not lose by it; its expert keeps all it was entitled to but what is paid out, unless it
is reset. -/
theorem entitlement_of_call {start : Host Fund} {calls : List (Invocation Fund)}
    {call : Invocation Fund} {fund : Fund} {returned : Bytes} (hstart : start.state = none)
    (history : History code Elsewhere start calls call.before)
    (hbefore : call.before.state = some (.held fund)) (hruns : call.Runs code)
    (hanswers : call.result = .ok returned) :
    ∃ changed experts revised, call.after.state = some (.held changed) ∧
      fund.experts = .held experts ∧ changed.experts = .held revised ∧
      ∀ expert : Address,
        (target? call ≠ some expert →
          revised.find? (.address expert) = experts.find? (.address expert) ∧
          entitlement call.before.policy fund.pool (Fund.record experts expert) ≤
            entitlement call.before.policy changed.pool (Fund.record revised expert)) ∧
        (target? call = some expert → call.method ≠ Method.reset →
          entitlement call.before.policy changed.pool (Fund.record revised expert) =
            entitlement call.before.policy changed.pool (Fund.record experts expert) -
              requested call) ∧
        (target? call = some expert → call.method = Method.reset →
          Fund.record revised expert =
            ⟨0, 0, 0, .empty, entitlement call.before.policy changed.pool
              (Fund.record revised expert)⟩) := by
  obtain ⟨experts, hsound⟩ :=
    sound_of_history history (fun _ _ hmove => hmove) hstart fund hbefore
  obtain ⟨changed, revised, hafter, hrevised, htreated⟩ :=
    treated_of_effect hsound hbefore (effect_of_runs hruns hanswers)
  refine ⟨changed, experts, revised, hafter, hsound.held, hrevised, fun expert => ?_⟩
  exact ⟨(htreated expert).other, (htreated expert).own, (htreated expert).cleared⟩

def sharedSteps : List (Step Fund) :=
  [constructStep, depositStep (.id 1001) 2 0, depositStep (.id 1002) 1 1]

def sharedRun : List (Invocation Fund) × Host Fund :=
  replay code (.init .expertFund .standard) sharedSteps

theorem sharedRun_history :
    History code Elsewhere (.init .expertFund .standard) sharedRun.1 sharedRun.2 := by
  refine history_replay code _ ?_
  simp only [sharedSteps, List.forall_mem_cons, List.not_mem_nil, false_imp_iff,
    implies_true, and_true]
  exact ⟨fun _ => ⟨rfl⟩, fun _ => ⟨rfl⟩, fun _ => ⟨rfl⟩⟩

def sharedClaim : Option (Invocation Fund) :=
  (claimStep (.id 1001) (.id 2000) 0 7).invoke? code sharedRun.2

theorem sharedClaim_answers : (sharedClaim.map fun call =>
    ((call.before.state.bind Link.get?).isSome, call.result.toOption, call.method,
      target? call)) = some (true, some [], Method.claim, some (.id 1001)) := by
  decide +kernel

theorem entitlement_of_call_shared :
    ∃ (call : Invocation Fund) (fund changed : Fund) (experts revised : AddressMap Expert),
      sharedClaim = some call ∧ call.before.state = some (.held fund) ∧
      call.after.state = some (.held changed) ∧ fund.experts = .held experts ∧
      changed.experts = .held revised ∧
      revised.find? (.address (.id 1002)) = experts.find? (.address (.id 1002)) ∧
      entitlement call.before.policy changed.pool (Fund.record revised (.id 1001)) =
        entitlement call.before.policy changed.pool (Fund.record experts (.id 1001)) -
          requested call := by
  obtain ⟨call, hcall, hanswers⟩ := Option.map_eq_some_iff.mp sharedClaim_answers
  simp only [Prod.mk.injEq] at hanswers
  obtain ⟨hheld, hresult, hmethod, htarget⟩ := hanswers
  obtain ⟨hbefore, hruns⟩ := Step.runs_of_invoke? hcall
  obtain ⟨fund, hfund⟩ := Option.isSome_iff_exists.mp hheld
  obtain ⟨link, hstate, hlink⟩ := Option.bind_eq_some_iff.mp hfund
  cases link with
  | missing => cases hlink
  | held held =>
      cases hlink
      have hanswered : call.result = .ok [] := by
        cases hresulted : call.result with
        | error failure => simp [hresulted, Except.toOption] at hresult
        | ok returned => simpa [hresulted, Except.toOption] using hresult
      have hhistory : History code Elsewhere (.init .expertFund .standard) sharedRun.1
          call.before := by
        rw [hbefore]
        exact sharedRun_history.moved ⟨rfl⟩
      obtain ⟨changed, experts, revised, hafter, hexperts, hrevised, heach⟩ :=
        entitlement_of_call rfl hhistory hstate hruns hanswered
      refine ⟨call, fund, changed, experts, revised, hcall, hstate, hafter,
        hexperts, hrevised, ((heach (.id 1002)).1 ?_).1, (heach (.id 1001)).2.1 htarget ?_⟩
      · rw [htarget]
        decide
      · rw [hmethod]
        decide

end RewardVesting.ExpertFund
