import RewardVesting.Proofs.ExpertFund.Settlement

namespace RewardVesting.ExpertFund.Fund

open RewardVesting.Action

variable {policy : Policy} {epoch balance : Int} {pool : Pool} {before after updated : Fund}
  {experts : AddressMap Expert}

/-! Settling looks at the pool and at the expert's own record, and at nothing else of the
fund. -/

/-- Settling the record turns it into another, whatever fund the pool belongs to. -/
def SettlesTo (policy : Policy) (epoch : Int) (pool : Pool) (info settled : Expert) :
    Prop :=
  ∀ fund : Fund, fund.pool = pool → (settle policy epoch info).Yields fund settled fund

theorem accumulated_yields_iff {weight : UInt64} {value : Int} :
    (accumulated policy weight).Yields before value after ↔
      before.pool.accumulated policy.accPerShareMultiplier weight = .ok value ∧
        before = after := by
  simp only [accumulated, yields_bind, yields_read, yields_checked]
  constructor
  · rintro ⟨fund, _, ⟨rfl, rfl⟩, hvalue, rfl⟩
    exact ⟨hvalue, rfl⟩
  · rintro ⟨hvalue, rfl⟩
    exact ⟨before, before, ⟨rfl, rfl⟩, hvalue, rfl⟩

theorem vest_yields_anywhere {pending : Int} {info vested : Expert}
    (hyields : (vest policy epoch pending info).Yields before vested after) :
    after = before ∧
      ∀ fund : Fund, (vest policy epoch pending info).Yields fund vested fund := by
  rw [vest] at hyields ⊢
  split at hyields
  · rename_i hpending
    simp only [yields_bind, yields_runOn, yields_pure] at hyields
    obtain ⟨locked, _, ⟨hlock, rfl⟩, hvested, rfl⟩ := hyields
    refine ⟨rfl, fun fund => ?_⟩
    rw [if_pos hpending]
    simp only [yields_bind, yields_runOn, yields_pure]
    exact ⟨locked, fund, ⟨hlock, rfl⟩, hvested, rfl⟩
  · rename_i hnothing
    obtain ⟨rfl, rfl⟩ := yields_pure.mp hyields
    refine ⟨rfl, fun fund => ?_⟩
    rw [if_neg hnothing]
    exact yields_pure.mpr ⟨rfl, rfl⟩

theorem settle_yields_iff {info settled : Expert} :
    (settle policy epoch info).Yields before settled after ↔
      SettlesTo policy epoch before.pool info settled ∧ before = after := by
  constructor
  · intro hyields
    simp only [settle, yields_bind, accumulated_yields_iff, yields_require, yields_checked,
      yields_pure] at hyields
    obtain ⟨value, _, ⟨hvalue, rfl⟩, _, _, ⟨hpending, rfl⟩, vested, changed,
      hvested, ripe, _, ⟨hripe, rfl⟩, hsettled, rfl⟩ := hyields
    obtain ⟨rfl, hvests⟩ := vest_yields_anywhere hvested
    refine ⟨fun fund hpool => ?_, rfl⟩
    rw [← hpool] at hvalue
    simp only [settle, yields_bind, accumulated_yields_iff, yields_require, yields_checked,
      yields_pure]
    exact ⟨value, fund, ⟨hvalue, rfl⟩, (), fund, ⟨hpending, rfl⟩, vested, fund,
      hvests fund, ripe, fund, ⟨hripe, rfl⟩, hsettled, rfl⟩
  · rintro ⟨hsettles, rfl⟩
    exact hsettles before rfl

theorem get_yields_iff {expert : Address} {info : Expert} :
    (get expert).Yields before info after ↔
      before.find? expert = .ok (some info) ∧ before = after := by
  constructor
  · intro hyields
    obtain ⟨rfl, hfind⟩ := get_yields hyields
    exact ⟨hfind, rfl⟩
  · rintro ⟨hfind, rfl⟩
    simp only [get, yields_bind, yields_read, yields_ofExcept]
    exact ⟨before, before, ⟨rfl, rfl⟩, some info, before, ⟨hfind, rfl⟩,
      yields_pure.mpr ⟨rfl, rfl⟩⟩

theorem put_yields_iff {key : Key} {info : Expert} {answer : Unit} :
    (put key info).Yields before answer after ↔
      ∃ experts, before.experts = .held experts ∧ (Expert.format.write info).isSome ∧
        after = { before with experts := .held (experts.insert key info) } := by
  constructor
  · intro hyields
    simp only [put, yields_bind, yields_read, yields_ofExcept, yields_require,
      yields_modify, expertMap_eq_ok] at hyields
    obtain ⟨_, _, ⟨rfl, rfl⟩, experts, _, ⟨hheld, rfl⟩, _, _, ⟨hstorable, rfl⟩, rfl⟩ :=
      hyields
    exact ⟨experts, hheld, hstorable, rfl⟩
  · rintro ⟨experts, hheld, hstorable, rfl⟩
    simp only [put, yields_bind, yields_read, yields_ofExcept, yields_require,
      yields_modify, expertMap_eq_ok]
    exact ⟨before, before, ⟨rfl, rfl⟩, experts, before, ⟨hheld, rfl⟩, (), before,
      ⟨hstorable, rfl⟩, rfl⟩

/-- A pool that is up to date stays as it is. -/
theorem updatePool_yields_of_current (hepoch : before.pool.lastEpoch = epoch)
    (hbalance : before.totalWeight ≠ 0 → before.lastBalance = balance) {answer : Unit} :
    (updatePool policy epoch balance).Yields before answer after ↔ before = after := by
  have hupdate : (updatePool policy epoch balance).Yields before () before := by
    simp only [updatePool, yields_bind, yields_read]
    refine ⟨before, before, ⟨rfl, rfl⟩, ?_⟩
    by_cases hweight : before.totalWeight = 0
    · rw [if_pos hweight, yields_write, ← hepoch]
    · have htotal : (before.totalWeight.toNat : Int) ≠ 0 := fun hzero =>
        hweight (UInt64.toNat_inj.mp (Int.natCast_eq_zero.mp hzero))
      rw [if_neg hweight, ← hepoch, ← hbalance hweight]
      simp [divide_of_ne_zero htotal]
  constructor
  · intro hyields
    exact (hupdate.unique hyields).2
  · rintro rfl
    exact hupdate

inductive Request
  | deposit (added : UInt64)
  | claim (amount : Int)
  deriving DecidableEq

namespace Request

def added : Request → UInt64
  | deposit added => added
  | claim _ => 0

/-- What is paid out for a request. -/
def cost : Request → Int
  | deposit _ => 0
  | claim amount => amount

def perform (policy : Policy) (epoch balance : Int) (expert : Address) :
    Request → Operation Unit
  | deposit added => Fund.deposit policy epoch balance expert added
  | claim amount => Fund.claim policy epoch balance expert amount

/-- What a request makes of the expert's own record, given the pool. -/
inductive Revises (policy : Policy) (epoch : Int) (pool : Pool) :
    Request → Option Expert → Expert → Prop
  | deposit {known : Option Expert} {settled : Expert} {added : UInt64} {debt : Int}
      (hsettles : SettlesTo policy epoch pool (known.getD .unregistered) settled)
      (hweight : settled.weight.toNat + added.toNat < UInt64.size)
      (hdebt : pool.accumulated policy.accPerShareMultiplier (settled.weight + added) =
        .ok debt)
      (hstorable : (Expert.format.write { settled with
        weight := settled.weight + added, rewardDebt := debt }).isSome) :
      Revises policy epoch pool (.deposit added) known
        { settled with weight := settled.weight + added, rewardDebt := debt }
  | claim {info settled : Expert} {amount debt : Int}
      (hsettles : SettlesTo policy epoch pool info settled)
      (hdebt : pool.accumulated policy.accPerShareMultiplier settled.weight = .ok debt)
      (hamount : amount ≤ settled.unlocked)
      (hstorable : (Expert.format.write { settled with
        rewardDebt := debt, unlocked := settled.unlocked - amount }).isSome) :
      Revises policy epoch pool (.claim amount) (some info)
        { settled with rewardDebt := debt, unlocked := settled.unlocked - amount }

/-- The fund once a request has revised the record of its expert. -/
def apply (request : Request) (fund : Fund) (experts : AddressMap Expert) (expert : Address)
    (revised : Expert) : Fund :=
  { fund with
    experts := .held (experts.insert (.address expert) revised)
    totalWeight := fund.totalWeight + request.added
    lastBalance := fund.lastBalance - request.cost }

/-- The pool is updated, and then one record is revised.  Of the rest of the fund nothing
but the total weight is read. -/
inductive Performs (policy : Policy) (epoch balance : Int) (expert : Address)
    (request : Request) (before after : Fund) : Prop
  | revised {updated : Fund} {experts : AddressMap Expert} {info : Expert}
      (hupdate : (updatePool policy epoch balance).Yields before () updated)
      (hheld : updated.experts = .held experts)
      (hrevises : Revises policy epoch updated.pool request
        (experts.find? (.address expert)) info)
      (htotal : updated.totalWeight.toNat + request.added.toNat < UInt64.size)
      (hafter : after = request.apply updated experts expert info)

theorem deposit_performs_iff {added : UInt64} {expert : Address} :
    (Fund.deposit policy epoch balance expert added).Yields before () after ↔
      (deposit added).Performs policy epoch balance expert before after := by
  simp only [Fund.deposit, yields_bind, yields_read, yields_ofExcept, yields_require,
    yields_modify, settle_yields_iff, accumulated_yields_iff, find?_eq_ok, put_yields_iff]
  constructor
  · rintro ⟨_, updated, hupdate, _, _, ⟨rfl, rfl⟩, known, _,
      ⟨⟨experts, hheld, hknown⟩, rfl⟩, settled, _, ⟨hsettles, rfl⟩, _, _, ⟨hweight, rfl⟩, _,
      _, ⟨rfl, rfl⟩, _, _, ⟨htotal, rfl⟩, _, changed, hchanged, debt, _, ⟨hdebt, rfl⟩,
      revised, hrevised, hstorable, hafter⟩
    subst hchanged hknown
    cases hheld.symm.trans hrevised
    refine .revised hupdate hheld (.deposit hsettles hweight hdebt hstorable) htotal
      (hafter.trans ?_)
    simp [apply, Request.added, cost]
  · rintro ⟨hupdate, hheld, hrevises, htotal, rfl⟩
    cases hrevises with
    | deposit hsettles hweight hdebt hstorable =>
        refine ⟨(), _, hupdate, _, _, ⟨rfl, rfl⟩, _, _, ⟨⟨_, hheld, rfl⟩, rfl⟩, _, _,
          ⟨hsettles, rfl⟩, (), _, ⟨hweight, rfl⟩, _, _, ⟨rfl, rfl⟩, (), _,
          ⟨htotal, rfl⟩, (), _, rfl, _, _, ⟨hdebt, rfl⟩, _, hheld, hstorable, ?_⟩
        simp [apply, Request.added, cost]

theorem claim_performs_iff {amount : Int} {expert : Address} :
    (Fund.claim policy epoch balance expert amount).Yields before () after ↔
      (claim amount).Performs policy epoch balance expert before after := by
  simp only [Fund.claim, yields_bind, yields_require, yields_modify, settle_yields_iff,
    accumulated_yields_iff, get_yields_iff, find?_eq_ok, put_yields_iff]
  constructor
  · rintro ⟨_, updated, hupdate, info, _, ⟨⟨experts, hheld, hknown⟩, rfl⟩, settled, _,
      ⟨hsettles, rfl⟩, debt, _, ⟨hdebt, rfl⟩, _, _, ⟨hamount, rfl⟩, _, changed, hchanged,
      revised, hrevised, hstorable, hafter⟩
    subst hchanged
    cases hheld.symm.trans hrevised
    have hrevises := Revises.claim hsettles hdebt hamount hstorable
    rw [← hknown] at hrevises
    refine .revised hupdate hheld hrevises updated.totalWeight.toNat_lt (hafter.trans ?_)
    simp [apply, Request.added, cost]
  · rintro ⟨hupdate, hheld, hrevises, _, rfl⟩
    generalize hknown : AddressMap.find? _ _ = known at hrevises
    cases hrevises with
    | claim hsettles hdebt hamount hstorable =>
        refine ⟨(), _, hupdate, _, _, ⟨⟨_, hheld, hknown⟩, rfl⟩, _, _,
          ⟨hsettles, rfl⟩, _, _, ⟨hdebt, rfl⟩, (), _, ⟨hamount, rfl⟩, (), _, rfl, _, hheld,
          hstorable, ?_⟩
        simp [apply, Request.added, cost]

theorem perform_yields_iff {request : Request} {expert : Address} :
    (request.perform policy epoch balance expert).Yields before () after ↔
      request.Performs policy epoch balance expert before after := by
  cases request with
  | deposit added => exact deposit_performs_iff
  | claim amount => exact claim_performs_iff

section Commute

variable {first second : Request} {left right : Address}

theorem apply_comm (fund : Fund) (experts : AddressMap Expert) (hdistinct : left ≠ right)
    (leftRevised rightRevised : Expert) :
    second.apply (first.apply fund experts left leftRevised)
        (experts.insert (.address left) leftRevised) right rightRevised =
      first.apply (second.apply fund experts right rightRevised)
        (experts.insert (.address right) rightRevised) left leftRevised := by
  have hkeys : Key.address left ≠ Key.address right := fun hkey =>
    hdistinct (Key.address_injective hkey)
  have htotal : fund.totalWeight + first.added + second.added =
      fund.totalWeight + second.added + first.added := by
    rw [UInt64.add_assoc, UInt64.add_comm first.added, ← UInt64.add_assoc]
  have hlast : fund.lastBalance - first.cost - second.cost =
      fund.lastBalance - second.cost - first.cost := by omega
  simp only [apply, experts.insert_comm hkeys, htotal, hlast]

theorem toNat_totalWeight_apply {request : Request} {fund : Fund} {expert : Address}
    {info : Expert} (hfits : fund.totalWeight.toNat + request.added.toNat < UInt64.size) :
    (request.apply fund experts expert info).totalWeight.toNat =
      fund.totalWeight.toNat + request.added.toNat := by
  rw [apply, UInt64.toNat_add, Nat.mod_eq_of_lt hfits]

/-- Whichever request comes second finds the pool up to date. -/
theorem updatePool_yields_of_applied {request : Request} {expert : Address} {info : Expert}
    (hepoch : updated.pool.lastEpoch = epoch) (hbalance : updated.lastBalance = balance) :
    (updatePool policy epoch (balance - request.cost)).Yields
        (request.apply updated experts expert info) () after ↔
      request.apply updated experts expert info = after := by
  refine updatePool_yields_of_current ?_ fun _ => ?_
  · exact hepoch
  · exact congrArg (· - request.cost) hbalance

theorem perform_swap {between : Fund} (hweight : before.totalWeight ≠ 0)
    (hdistinct : left ≠ right)
    (hfirst : (first.perform policy epoch balance left).Yields before () between)
    (hsecond : (second.perform policy epoch (balance - first.cost) right).Yields between ()
      after) :
    ∃ between, (second.perform policy epoch balance right).Yields before () between ∧
      (first.perform policy epoch (balance - second.cost) left).Yields between
        () after := by
  obtain @⟨updated, experts, leftRevised, hupdate, hheld, hleft, htotal, rfl⟩ :=
    perform_yields_iff.mp hfirst
  have hspread := updatePool_yields hupdate
  have hlast : updated.lastBalance = balance := by
    rcases hspread.inflow with ⟨hzero, _⟩ | ⟨_, _, hlast, _⟩
    · exact absurd hzero hweight
    · exact hlast
  obtain @⟨_, _, rightRevised, hagain, hrevised, hright, hboth, rfl⟩ :=
    perform_yields_iff.mp hsecond
  obtain rfl := (updatePool_yields_of_applied hspread.lastEpoch hlast).mp hagain
  cases hrevised
  rw [AddressMap.find?_insert_address, if_neg hdistinct] at hright
  rw [toNat_totalWeight_apply htotal] at hboth
  have hfits : updated.totalWeight.toNat + second.added.toNat < UInt64.size := by omega
  refine ⟨_, perform_yields_iff.mpr (.revised hupdate hheld hright hfits rfl),
    perform_yields_iff.mpr (.revised
      ((updatePool_yields_of_applied hspread.lastEpoch hlast).mpr rfl) rfl ?_ ?_
      (apply_comm updated experts hdistinct leftRevised rightRevised))⟩
  · rw [AddressMap.find?_insert_address, if_neg hdistinct.symm]
    exact hleft
  · rw [toNat_totalWeight_apply hfits]
    omega

/-- Two experts' requests in one epoch lead to the same fund in either order, with the
balance lowered by what the earlier one was paid, and in either order both answer or not. -/
theorem perform_comm (hweight : before.totalWeight ≠ 0) (hdistinct : left ≠ right) :
    (∃ between, (first.perform policy epoch balance left).Yields before () between ∧
        (second.perform policy epoch (balance - first.cost) right).Yields between
          () after) ↔
      ∃ between, (second.perform policy epoch balance right).Yields before () between ∧
        (first.perform policy epoch (balance - second.cost) left).Yields between
          () after := by
  constructor
  · rintro ⟨between, hfirst, hsecond⟩
    exact perform_swap hweight hdistinct hfirst hsecond
  · rintro ⟨between, hsecond, hfirst⟩
    exact perform_swap hweight hdistinct.symm hsecond hfirst

end Commute

def sharedFund : Fund where
  experts := .held (AddressMap.empty.insert (.address (.id 1001)) ⟨2, 0, 0, .empty, 50⟩)
  pool := .empty
  totalWeight := 2
  lastBalance := 50
  votes := .held .empty

theorem perform_comm_shared :
    ∃ after,
      (∃ between, ((claim 20).perform .standard 7 61 (.id 1001)).Yields sharedFund
        () between ∧
        ((deposit 3).perform .standard 7 41 (.id 1002)).Yields between () after) ∧
      ∃ between, ((deposit 3).perform .standard 7 61 (.id 1002)).Yields sharedFund
        () between ∧
        ((claim 20).perform .standard 7 61 (.id 1001)).Yields between () after := by
  have hanswers : Action.answers (do
      (claim 20).perform .standard 7 61 (.id 1001)
      (deposit 3).perform .standard 7 41 (.id 1002)) sharedFund := by decide +kernel
  obtain ⟨_, after, hyields⟩ := exists_yields_of_answers hanswers
  obtain ⟨_, between, hclaim, hdeposit⟩ := yields_bind.mp hyields
  exact ⟨after, ⟨between, hclaim, hdeposit⟩,
    (perform_comm (by decide) (by decide)).mp ⟨between, hclaim, hdeposit⟩⟩

end Request

end RewardVesting.ExpertFund.Fund
