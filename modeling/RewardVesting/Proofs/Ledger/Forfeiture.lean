import RewardVesting.Proofs.Ledger.WellFormed

namespace RewardVesting.Ledger

def lockedFrom (ledger : Ledger) (epoch : Int) : Int :=
  sumOf (ledger.tranches.filter fun tranche => epoch ≤ tranche.epoch)

def lockedWithin (ledger : Ledger) (first last : Int) : Int :=
  sumOf (ledger.tranches.filter fun tranche => first ≤ tranche.epoch ∧ tranche.epoch ≤ last)

section Tranches

variable {tranches : List Tranche} {target : Int}

/-- A tranche that is left is one of those before, of which a part may be gone. -/
theorem exists_of_mem_takeUpTo {tranche : Tranche}
    (hmem : tranche ∈ (takeUpTo target tranches).1) :
    ∃ old ∈ tranches, old.epoch = tranche.epoch ∧ tranche.amount ≤ old.amount := by
  induction tranches generalizing target with
  | nil => exact absurd hmem List.not_mem_nil
  | cons head rest ih =>
      rw [takeUpTo] at hmem
      split at hmem
      · exact ⟨tranche, hmem, rfl, Int.le_refl _⟩
      · split at hmem
        · obtain ⟨old, hold, hkept⟩ := ih hmem
          exact ⟨old, List.mem_cons_of_mem head hold, hkept⟩
        · rcases List.mem_cons.mp hmem with rfl | hlater
          · refine ⟨head, List.mem_cons_self, rfl, ?_⟩
            dsimp only
            omega
          · exact ⟨tranche, List.mem_cons_of_mem head hlater, rfl, Int.le_refl _⟩

variable (hnonneg : ∀ tranche ∈ tranches, 0 ≤ tranche.amount)

include hnonneg

theorem taken_takeUpTo (target : Int) :
    (takeUpTo target tranches).2 = min (max target 0) (sumOf tranches) := by
  induction tranches generalizing target with
  | nil =>
      rw [takeUpTo, sumOf_nil]
      omega
  | cons head rest ih =>
      obtain ⟨hhead, hrest⟩ := List.forall_mem_cons.mp hnonneg
      have htail := sumOf_nonneg hrest
      have hlater := ih hrest (target - head.amount)
      rw [takeUpTo, sumOf_cons]
      split
      · dsimp only
        omega
      · split
        · dsimp only
          omega
        · dsimp only
          omega

/-- Up to any epoch, what is left is what there was without what is taken. -/
theorem sumWhere_takeUpTo
    (hordered : tranches.Pairwise fun earlier later => earlier.epoch < later.epoch)
    (target last : Int) :
    sumWhere (fun other => other ≤ last) (takeUpTo target tranches).1 =
      max 0 (sumWhere (fun other => other ≤ last) tranches -
        (takeUpTo target tranches).2) := by
  induction tranches generalizing target with
  | nil => rfl
  | cons head rest ih =>
      obtain ⟨hafter, hrising⟩ := List.pairwise_cons.mp hordered
      obtain ⟨hhead, hrest⟩ := List.forall_mem_cons.mp hnonneg
      have hsum : 0 ≤ sumWhere (fun other => other ≤ last) rest :=
        sumOf_nonneg fun tranche hmem => hrest tranche (List.mem_filter.mp hmem).1
      by_cases hreached : head.epoch ≤ last
      · have hlater := ih hrest hrising (target - head.amount)
        have hwhole : sumWhere (fun other => other ≤ last) (head :: rest) =
            head.amount + sumWhere (fun other => other ≤ last) rest := by
          rw [sumWhere_cons, if_pos (decide_eq_true hreached)]
        rw [hwhole, takeUpTo]
        split
        · rw [hwhole]
          dsimp only
          omega
        · split
          · dsimp only
            omega
          · rw [sumWhere_cons, if_pos (decide_eq_true hreached)]
            dsimp only
            omega
      · -- All tranches lie beyond, and so do those that are left of them.
        have hbeyond : ∀ tranche ∈ head :: rest, ¬(decide (tranche.epoch ≤ last)) := by
          intro tranche hmem
          rw [decide_eq_true_eq]
          rcases List.mem_cons.mp hmem with rfl | hmore
          · exact hreached
          · have hfollows := hafter tranche hmore
            omega
        have hleft : ∀ tranche ∈ (takeUpTo target (head :: rest)).1,
            ¬(decide (tranche.epoch ≤ last)) := by
          intro tranche hmem
          obtain ⟨old, hold, hepoch, _⟩ := exists_of_mem_takeUpTo hmem
          exact hepoch ▸ hbeyond old hold
        have htaken := (nonneg_takeUpTo hnonneg target).2
        rw [sumWhere_of_forall_not hleft, sumWhere_of_forall_not hbeyond]
        omega

end Tranches

theorem exists_of_mem_forfeit {ledger : Ledger} {epoch target : Int} {tranche : Tranche}
    (hmem : tranche ∈ (ledger.forfeit epoch target).1.tranches) :
    ∃ old ∈ ledger.tranches, old.epoch = tranche.epoch ∧ tranche.amount ≤ old.amount := by
  rcases List.mem_append.mp hmem with hpast | hlater
  · exact ⟨tranche, List.takeWhile_subset _ hpast, rfl, Int.le_refl _⟩
  · obtain ⟨old, hold, hsame⟩ := exists_of_mem_takeUpTo hlater
    exact ⟨old, List.dropWhile_subset _ hold, hsame⟩

/-- What is left of a ledger that has given up to `target` of what had not vested at
`epoch`. -/
structure Forfeited (before : Ledger) (epoch target : Int) (after : Ledger) (taken : Int) :
    Prop where
  amount : taken = min (max target 0) (before.lockedFrom epoch)
  unlocked : after.unlocked = before.unlocked
  vested : after.tranches.filter (fun tranche => tranche.epoch < epoch) =
    before.tranches.filter fun tranche => tranche.epoch < epoch
  earliest : ∀ last,
    after.lockedWithin epoch last = max 0 (before.lockedWithin epoch last - taken)
  kept : ∀ tranche ∈ after.tranches,
    ∃ old ∈ before.tranches, old.epoch = tranche.epoch ∧ tranche.amount ≤ old.amount
  formed : after.WellFormed

section Split

variable {vested unvested : List Tranche} {epoch : Int}
  (hvested : ∀ tranche ∈ vested, tranche.epoch < epoch)
  (hunvested : ∀ tranche ∈ unvested, epoch ≤ tranche.epoch)

include hunvested

theorem filter_vested_append :
    (vested ++ unvested).filter (fun tranche => tranche.epoch < epoch) =
      vested.filter fun tranche => tranche.epoch < epoch := by
  have hnone : unvested.filter (fun tranche => tranche.epoch < epoch) = [] := by
    refine List.filter_eq_nil_iff.mpr fun tranche hmem => ?_
    have hle := hunvested tranche hmem
    simpa using hle
  rw [List.filter_append, hnone, List.append_nil]

include hvested

/-- From the epoch on, only the tranches that have not vested count. -/
theorem sumWhere_append_within (last : Int) :
    sumWhere (fun other => epoch ≤ other ∧ other ≤ last) (vested ++ unvested) =
      sumWhere (fun other => other ≤ last) unvested := by
  have hnone : sumWhere (fun other => epoch ≤ other ∧ other ≤ last) vested = 0 := by
    refine sumWhere_of_forall_not fun tranche hmem => ?_
    have hlt := hvested tranche hmem
    rw [decide_eq_true_eq]
    omega
  have hall :
      unvested.filter (fun tranche => epoch ≤ tranche.epoch ∧ tranche.epoch ≤ last) =
        unvested.filter fun tranche => tranche.epoch ≤ last := by
    refine List.filter_congr fun tranche hmem => ?_
    rw [decide_eq_decide, and_iff_right (hunvested tranche hmem)]
  rw [sumWhere_append, hnone, Int.zero_add, sumWhere, hall, sumWhere]

end Split

/-- A forfeiture takes as much as there is up to its target, and takes it from the tranches
that would vest first. -/
theorem forfeited_of_wellFormed {ledger : Ledger} (hformed : ledger.WellFormed)
    (epoch target : Int) :
    Forfeited ledger epoch target (ledger.forfeit epoch target).1
      (ledger.forfeit epoch target).2 := by
  have hvested : ∀ tranche ∈ ledger.tranches.takeWhile fun tranche => tranche.epoch < epoch,
      tranche.epoch < epoch := lt_of_mem_takeWhile
  have hunvested :
    ∀ tranche ∈ ledger.tranches.dropWhile fun tranche => tranche.epoch < epoch,
      epoch ≤ tranche.epoch := le_of_mem_dropWhile hformed.ordered
  have hnonneg : ∀ tranche ∈ ledger.tranches.dropWhile fun tranche => tranche.epoch < epoch,
      0 ≤ tranche.amount :=
    fun tranche hmem => hformed.tranches_nonneg tranche (List.dropWhile_subset _ hmem)
  have hrising := hformed.ordered.sublist
    (List.dropWhile_sublist fun tranche : Tranche => tranche.epoch < epoch)
  have hleft : ∀ tranche ∈ (takeUpTo target
      (ledger.tranches.dropWhile fun tranche => tranche.epoch < epoch)).1,
      epoch ≤ tranche.epoch := by
    intro tranche hmem
    obtain ⟨old, hold, hepoch, _⟩ := exists_of_mem_takeUpTo hmem
    exact hepoch ▸ hunvested old hold
  have hbefore := List.takeWhile_append_dropWhile
    (p := fun tranche : Tranche => tranche.epoch < epoch) (l := ledger.tranches)
  constructor
  · rw [lockedFrom, ← dropWhile_eq_filter hformed.ordered epoch]
    exact taken_takeUpTo hnonneg target
  · rfl
  · refine (filter_vested_append hleft).trans ?_
    rw [← filter_vested_append hunvested, hbefore]
  · intro last
    have hwithin := sumWhere_append_within hvested hunvested last
    rw [hbefore] at hwithin
    refine (sumWhere_append_within hvested hleft last).trans ?_
    rw [sumWhere_takeUpTo hnonneg hrising target last, ← hwithin]
    rfl
  · exact fun tranche => exists_of_mem_forfeit
  · exact hformed.forfeit epoch target

def steppedLedger : Ledger := ⟨[⟨2, 20⟩, ⟨4, 20⟩, ⟨6, 0⟩, ⟨8, 20⟩, ⟨10, 0⟩, ⟨12, 20⟩], 7⟩

theorem forfeited_of_wellFormed_stepped :
    steppedLedger.WellFormed ∧
      Forfeited steppedLedger 3 25 ⟨[⟨2, 20⟩, ⟨8, 15⟩, ⟨10, 0⟩, ⟨12, 20⟩], 7⟩ 25 := by
  have hformed : steppedLedger.WellFormed := defect?_eq_none.mp (by decide)
  exact ⟨hformed, forfeited_of_wellFormed hformed 3 25⟩

end RewardVesting.Ledger
