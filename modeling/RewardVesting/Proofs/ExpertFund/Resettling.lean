import RewardVesting.Proofs.ExpertFund.Commutation
import RewardVesting.Proofs.ExpertFund.Serviceability
import RewardVesting.Proofs.ExpertFund.TimeLock

namespace RewardVesting.ExpertFund

open RewardVesting.Action Host

namespace Fund

variable {policy : Policy} {epoch balance : Int} {pool : Pool} {before after : Fund}
  {expert : Address} {info settled revised : Expert}

/-! Settling leaves a record of which nothing is pending and nothing is ripe. -/

/-- What a record has vested for a whole period has all been taken out of its ledger. -/
def Swept (policy : Policy) (epoch : Int) (info : Expert) : Prop :=
  ∃ ripe, Epoch.sub epoch policy.rewardVestingSpec.vestPeriod = .ok ripe ∧
    info.vesting.sweep ripe = (info.vesting, 0)

theorem vest_nothing (policy : Policy) (epoch : Int) (info : Expert) :
    vest policy epoch 0 info = pure info :=
  if_neg (Int.lt_irrefl 0)

theorem SettlesTo.swept (hsettles : SettlesTo policy epoch pool info settled) :
    Swept policy epoch settled := by
  have hyields := hsettles { Fund.empty with pool := pool } rfl
  simp only [settle, yields_bind, yields_checked, yields_pure] at hyields
  obtain ⟨_, _, _, _, _, _, vested, _, _, ripe, _, ⟨hripe, _⟩, rfl, _⟩ := hyields
  exact ⟨ripe, hripe, vested.vesting.sweep_self ripe⟩

theorem settlesTo_self
    (hdebt : pool.accumulated policy.accPerShareMultiplier info.weight =
      .ok info.rewardDebt)
    (hswept : Swept policy epoch info) : SettlesTo policy epoch pool info info := by
  obtain ⟨ripe, hripe, hsweep⟩ := hswept
  rintro fund rfl
  have hvest : (vest policy epoch (info.rewardDebt - info.rewardDebt) info).Yields fund info
      fund := by
    rw [Int.sub_self, vest_nothing]
    exact yields_pure.mpr ⟨rfl, rfl⟩
  simp only [settle, yields_bind, accumulated_yields_iff, yields_require, yields_checked,
    yields_pure]
  refine ⟨info.rewardDebt, fund, ⟨hdebt, rfl⟩, (), fund, ⟨by omega, rfl⟩, info, fund,
    hvest, ripe, fund, ⟨hripe, rfl⟩, ?_, rfl⟩
  simp only [hsweep, Int.sub_zero, Int.add_zero]

/-- A record is settled and its debt taken, and nothing more. -/
structure Renews (policy : Policy) (epoch : Int) (pool : Pool) (info revised : Expert) :
    Prop where
  settles : ∃ settled, SettlesTo policy epoch pool info settled ∧
    revised = { settled with rewardDebt := revised.rewardDebt }
  debt : pool.accumulated policy.accPerShareMultiplier revised.weight =
    .ok revised.rewardDebt
  storable : (Expert.format.write revised).isSome

theorem Renews.again (hrenews : Renews policy epoch pool info revised) :
    Renews policy epoch pool revised revised := by
  obtain ⟨⟨settled, hsettles, hrevised⟩, hdebt, hstorable⟩ := hrenews
  have hswept : Swept policy epoch revised := by
    rw [hrevised]
    exact hsettles.swept
  exact ⟨⟨revised, settlesTo_self hdebt hswept, rfl⟩, hdebt, hstorable⟩

theorem Renews.unlocked_nonneg (hrenews : Renews policy epoch pool info revised)
    (hinfo : Consistent info) : 0 ≤ revised.unlocked := by
  obtain ⟨settled, hsettles, hrevised⟩ := hrenews.settles
  have hsettled := (settle_yields (hsettles { Fund.empty with pool := pool } rfl)).2
  rw [hrevised]
  exact (hsettled.consistent hinfo).unlocked_nonneg

namespace Request

theorem revises_claim_nothing :
    Revises policy epoch pool (.claim 0) (some info) revised ↔
      Renews policy epoch pool info revised ∧ 0 ≤ revised.unlocked := by
  constructor
  · intro hrevises
    cases hrevises with
    | claim hsettles hdebt hamount hstorable =>
        rw [Int.sub_zero] at hstorable ⊢
        exact ⟨⟨⟨_, hsettles, rfl⟩, hdebt, hstorable⟩, hamount⟩
  · rintro ⟨⟨⟨settled, hsettles, hrevised⟩, hdebt, hstorable⟩, hunlocked⟩
    rw [hrevised] at hdebt hstorable hunlocked ⊢
    have hrevises : Revises policy epoch pool (.claim 0) (some info)
        { settled with
          rewardDebt := revised.rewardDebt, unlocked := settled.unlocked - 0 } :=
      .claim hsettles hdebt hunlocked (by rwa [Int.sub_zero])
    rwa [Int.sub_zero] at hrevises

theorem revises_deposit_nothing :
    Revises policy epoch pool (.deposit 0) (some info) revised ↔
      Renews policy epoch pool info revised := by
  constructor
  · intro hrevises
    cases hrevises with
    | deposit hsettles hweight hdebt hstorable =>
        simp only [UInt64.add_zero] at hdebt hstorable ⊢
        exact ⟨⟨_, hsettles, rfl⟩, hdebt, hstorable⟩
  · rintro ⟨⟨settled, hsettles, hrevised⟩, hdebt, hstorable⟩
    rw [hrevised] at hdebt hstorable ⊢
    have hrevises : Revises policy epoch pool (.deposit 0) (some info)
        { settled with weight := settled.weight + 0, rewardDebt := revised.rewardDebt } :=
      .deposit hsettles settled.weight.toNat_lt (by rwa [UInt64.add_zero])
        (by rwa [UInt64.add_zero])
    rwa [UInt64.add_zero] at hrevises

/-- Requests that revise a record alike and move the same amounts lead to the same fund. -/
theorem Performs.exchange {experts : AddressMap Expert} {first second : Request}
    (hperforms : first.Performs policy epoch balance expert before after)
    (hheld : before.experts = .held experts) (hadded : second.added = first.added)
    (hcost : second.cost = first.cost)
    (hrevises : ∀ pool revised,
      Revises policy epoch pool first (experts.find? (.address expert)) revised →
        Revises policy epoch pool second (experts.find? (.address expert)) revised) :
    second.Performs policy epoch balance expert before after := by
  obtain @⟨updated, _, revised, hupdate, hupdated, hrevised, htotal, hafter⟩ := hperforms
  cases hheld.symm.trans ((updatePool_yields hupdate).experts.symm.trans hupdated)
  refine .revised hupdate hupdated (hrevises _ _ hrevised) (hadded ▸ htotal)
    (hafter.trans ?_)
  rw [apply, apply, hadded, hcost]

theorem deposit_performs_iff_claim {experts : AddressMap Expert}
    (hheld : before.experts = .held experts)
    (hknown : experts.find? (.address expert) = some info) (hinfo : Consistent info) :
    (deposit 0).Performs policy epoch balance expert before after ↔
      (claim 0).Performs policy epoch balance expert before after := by
  constructor
  · intro hdeposit
    refine hdeposit.exchange hheld rfl rfl fun pool revised => ?_
    rw [hknown, revises_deposit_nothing, revises_claim_nothing]
    exact fun hrenews => ⟨hrenews, hrenews.unlocked_nonneg hinfo⟩
  · intro hclaim
    refine hclaim.exchange hheld rfl rfl fun pool revised => ?_
    rw [hknown, revises_deposit_nothing, revises_claim_nothing]
    exact And.left

/-- A pool that has just been updated stays as it is, whatever becomes of the records. -/
theorem updatePool_yields_of_spread {updated : Fund}
    (hspread : Spread policy epoch balance before
    updated) (records : Link (AddressMap Expert)) :
    (updatePool policy epoch balance).Yields { updated with experts := records } ()
      { updated with experts := records } := by
  refine (updatePool_yields_of_current ?_ fun hweight => ?_).mpr rfl
  · exact hspread.lastEpoch
  · rcases hspread.inflow with ⟨hzero, _⟩ | ⟨_, _, hlast, _⟩
    · exact absurd (hspread.totalWeight.trans hzero) hweight
    · exact hlast

theorem apply_claim_nothing (fund : Fund) (experts : AddressMap Expert) (expert : Address)
    (revised : Expert) : (claim 0).apply fund experts expert revised =
      { fund with experts := .held (experts.insert (.address expert) revised) } := by
  rw [apply, added, cost, UInt64.add_zero, Int.sub_zero]

/-- A fund that has just answered a claim of nothing answers it again, and stays as it
is. -/
theorem performs_claim_again
    (hperforms : (claim 0).Performs policy epoch balance expert before after) :
    (claim 0).Performs policy epoch balance expert after after := by
  obtain @⟨updated, experts, revised, hupdate, hheld, hrevises, htotal, hafter⟩ := hperforms
  rw [apply_claim_nothing] at hafter
  subst hafter
  have hspread := updatePool_yields hupdate
  have hfind : (experts.insert (.address expert) revised).find? (.address expert) =
      some revised := by rw [AddressMap.find?_insert, if_pos rfl]
  generalize experts.find? (.address expert) = known at hrevises
  cases known with
  | none => cases hrevises
  | some info =>
      obtain ⟨hrenews, hunlocked⟩ := revises_claim_nothing.mp hrevises
      have hagain := revises_claim_nothing.mpr ⟨hrenews.again, hunlocked⟩
      rw [← hfind] at hagain
      refine .revised (updatePool_yields_of_spread hspread _) rfl hagain htotal ?_
      rw [apply_claim_nothing, AddressMap.insert_of_find? hfind]

end Request

end Fund

/-- After any run, a second claim of nothing changes nothing, and a deposit of nothing is a
claim of nothing. -/
theorem resettled_of_history {start host : Host Fund} {calls : List (Invocation Fund)}
    {fund : Fund} {expert : Address} {info : Expert} (hstart : start.state = none)
    (history : History code Elsewhere start calls host)
    (hstate : host.state = some (.held fund))
    (hknown : fund.find? expert = .ok (some info)) (policy : Policy) (epoch balance : Int)
    (after : Fund) :
    ((do
        Fund.claim policy epoch balance expert 0
        Fund.claim policy epoch balance expert 0).Yields fund () after ↔
      (Fund.claim policy epoch balance expert 0).Yields fund () after) ∧
    ((Fund.deposit policy epoch balance expert 0).Yields fund () after ↔
      (Fund.claim policy epoch balance expert 0).Yields fund () after) := by
  obtain ⟨experts, hsound⟩ :=
    sound_of_history history (fun _ _ hmove => hmove) hstart fund hstate
  obtain ⟨_, hheld, hfind⟩ := Fund.find?_eq_ok.mp hknown
  cases hsound.held.symm.trans hheld
  have hinfo := hsound.consistent info (AddressMap.mem_values_of_find? hfind)
  have hagain {once : Fund}
    (hclaim : (Fund.claim policy epoch balance expert 0).Yields fund ()
      once) : (Fund.claim policy epoch balance expert 0).Yields once () once :=
    Fund.Request.claim_performs_iff.mpr
      (Fund.Request.performs_claim_again (Fund.Request.claim_performs_iff.mp hclaim))
  refine ⟨⟨?_, ?_⟩, ?_⟩
  · intro htwice
    obtain ⟨_, once, hfirst, hsecond⟩ := yields_bind.mp htwice
    obtain ⟨_, rfl⟩ := hsecond.unique (hagain hfirst)
    exact hfirst
  · intro hclaim
    exact yields_bind.mpr ⟨(), after, hclaim, hagain hclaim⟩
  · rw [Fund.Request.deposit_performs_iff, Fund.Request.claim_performs_iff]
    exact Fund.Request.deposit_performs_iff_claim hheld hfind hinfo

/-- The claim that is repeated takes in an inflow of fifty and releases a tranche of
forty-five. -/
theorem resettled_of_history_ripe :
    ∃ fund after, ripeningRun.2.state = some (.held fund) ∧
      (infoOf after (.id 1001)).unlocked = (infoOf fund (.id 1001)).unlocked + 45 ∧
      after.lastBalance = fund.lastBalance + 50 ∧
      (Fund.claim briefPolicy 31 168 (.id 1001) 0).Yields fund () after ∧
      (do
        Fund.claim briefPolicy 31 168 (.id 1001) 0
        Fund.claim briefPolicy 31 168 (.id 1001) 0).Yields fund () after ∧
      (Fund.deposit briefPolicy 31 168 (.id 1001) 0).Yields fund () after := by
  have hknown : (known? ripeningRun.2 (.id 1001)).isSome := by decide +kernel
  obtain ⟨⟨fund, info⟩, hknown⟩ := Option.isSome_iff_exists.mp hknown
  obtain ⟨hstate, experts, hheld, hfind⟩ := known?_eq_some hknown
  have hanswers : (Fund.claim briefPolicy 31 168 (.id 1001) 0).answersWith
    (fundOf ripeningRun.2)
      fun changed =>
        (infoOf changed (.id 1001)).unlocked =
            (infoOf (fundOf ripeningRun.2) (.id 1001)).unlocked + 45 ∧
          changed.lastBalance = (fundOf ripeningRun.2).lastBalance + 50 := by
    decide +kernel
  rw [fundOf_eq hstate] at hanswers
  obtain ⟨_, after, hclaim, hholds⟩ := exists_yields_of_answersWith hanswers
  obtain ⟨hunlocked, hlast⟩ := of_decide_eq_true hholds
  obtain ⟨htwice, hdeposit⟩ := resettled_of_history rfl ripeningRun_history hstate
    (Fund.find?_eq_ok.mpr ⟨experts, hheld, hfind⟩) briefPolicy 31 168 after
  exact ⟨fund, after, hstate, hunlocked, hlast, hclaim, htwice.mpr hclaim,
    hdeposit.mpr hclaim⟩

end RewardVesting.ExpertFund
