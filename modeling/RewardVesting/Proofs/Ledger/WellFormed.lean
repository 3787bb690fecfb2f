import RewardVesting.Proofs.Ledger.Schedule

namespace RewardVesting.Ledger

theorem disorder?_eq_none {tranches : List Tranche} :
    disorder? tranches = none ↔
      tranches.Pairwise fun earlier later => earlier.epoch < later.epoch := by
  fun_induction disorder? tranches with
  | case1 first second rest hle =>
      refine iff_of_false nofun fun hordered => ?_
      have hlt := (List.pairwise_cons.mp hordered).1 second List.mem_cons_self
      omega
  | case2 first second rest hlt ih =>
      rw [ih, @List.pairwise_cons _ _ first, iff_and_self]
      intro hordered tranche hmem
      have hsecond : first.epoch < second.epoch := Int.not_le.mp hlt
      rcases List.mem_cons.mp hmem with rfl | hlater
      · exact hsecond
      · exact Int.lt_trans hsecond ((List.pairwise_cons.mp hordered).1 tranche hlater)
  | case3 tranches hshort =>
      refine iff_of_true rfl ?_
      cases tranches with
      | nil => exact .nil
      | cons first rest =>
          cases rest with
          | nil => exact List.pairwise_singleton _ _
          | cons second rest => exact absurd rfl (hshort first second rest)

theorem defect?_eq_none {ledger : Ledger} : ledger.defect? = none ↔ ledger.WellFormed := by
  have hformed : ledger.WellFormed ↔ disorder? ledger.tranches = none ∧
      (∀ tranche ∈ ledger.tranches, 0 ≤ tranche.amount) ∧ 0 ≤ ledger.unlocked := by
    rw [disorder?_eq_none]
    exact ⟨fun formed => ⟨formed.ordered, formed.tranches_nonneg, formed.unlocked_nonneg⟩,
      fun ⟨hordered, htranches, hunlocked⟩ => ⟨hordered, htranches, hunlocked⟩⟩
  rw [hformed, defect?]
  cases hdisorder : disorder? ledger.tranches with
  | some pair => simp
  | none =>
      cases hnegative : ledger.tranches.find? fun tranche => tranche.amount < 0 with
      | some tranche =>
          have hmem := List.mem_of_find?_eq_some hnegative
          have hamount := List.find?_some hnegative
          refine iff_of_false nofun fun ⟨_, htranches, _⟩ => ?_
          have hnonneg := htranches tranche hmem
          simp only [decide_eq_true_eq] at hamount
          omega
      | none =>
          have htranches : ∀ tranche ∈ ledger.tranches, 0 ≤ tranche.amount := by
            simpa using hnegative
          by_cases hunlocked : ledger.unlocked < 0
          · rw [if_pos hunlocked]
            exact iff_of_false nofun fun ⟨_, _, hnonneg⟩ => Int.not_le.mpr hunlocked hnonneg
          · rw [if_neg hunlocked]
            exact iff_of_true rfl ⟨rfl, htranches, Int.not_lt.mp hunlocked⟩

/-- Tranches at epochs of their own are no more than the epochs that they lie between. -/
theorem length_le_of_ordered {tranches : List Tranche} {low high : Int}
    (hordered : tranches.Pairwise fun earlier later => earlier.epoch < later.epoch)
    (hwithin : ∀ tranche ∈ tranches, low ≤ tranche.epoch ∧ tranche.epoch ≤ high)
    (hsome : low ≤ high + 1) : (tranches.length : Int) ≤ high + 1 - low := by
  induction tranches generalizing low with
  | nil =>
      rw [List.length_nil]
      omega
  | cons head rest ih =>
      obtain ⟨hhead, hrest⟩ := List.pairwise_cons.mp hordered
      obtain ⟨⟨hlow, hhigh⟩, hwithinRest⟩ := List.forall_mem_cons.mp hwithin
      have hshorter : (rest.length : Int) ≤ high + 1 - (head.epoch + 1) := by
        refine ih hrest (fun tranche hmem => ?_) (by omega)
        have hafter := hhead tranche hmem
        exact ⟨hafter, (hwithinRest tranche hmem).2⟩
      rw [List.length_cons]
      omega

theorem amount_le_sumOf {tranches : List Tranche}
    (hnonneg : ∀ tranche ∈ tranches, 0 ≤ tranche.amount) {tranche : Tranche}
    (hmem : tranche ∈ tranches) : tranche.amount ≤ sumOf tranches := by
  induction tranches with
  | nil => exact absurd hmem List.not_mem_nil
  | cons head rest ih =>
      obtain ⟨hhead, hrest⟩ := List.forall_mem_cons.mp hnonneg
      have htail := sumOf_nonneg hrest
      rw [sumOf_cons]
      rcases List.mem_cons.mp hmem with rfl | hlater
      · omega
      · have hbound := ih hrest hlater
        omega

/-- Tranches that are left keep their epochs and their order. -/
theorem epochs_takeUpTo_sublist (target : Int) (tranches : List Tranche) :
    ((takeUpTo target tranches).1.map Tranche.epoch).Sublist
      (tranches.map Tranche.epoch) := by
  induction tranches generalizing target with
  | nil => exact .slnil
  | cons tranche rest ih =>
      rw [takeUpTo]
      split
      · exact .refl _
      · split
        · exact (ih (target - tranche.amount)).cons _
        · exact .refl _

theorem nonneg_takeUpTo {tranches : List Tranche}
    (hnonneg : ∀ tranche ∈ tranches, 0 ≤ tranche.amount) (target : Int) :
    (∀ tranche ∈ (takeUpTo target tranches).1, 0 ≤ tranche.amount) ∧
      0 ≤ (takeUpTo target tranches).2 := by
  induction tranches generalizing target with
  | nil => exact ⟨nofun, Int.le_refl 0⟩
  | cons tranche rest ih =>
      obtain ⟨htranche, hrest⟩ := List.forall_mem_cons.mp hnonneg
      obtain ⟨hkept, htaken⟩ := ih hrest (target - tranche.amount)
      rw [takeUpTo]
      split
      · exact ⟨hnonneg, Int.le_refl 0⟩
      · split
        · exact ⟨hkept, Int.add_nonneg htranche htaken⟩
        · rename_i htarget hlarge
          refine ⟨List.forall_mem_cons.mpr ⟨?_, hrest⟩, by omega⟩
          dsimp only
          omega

theorem total_forfeit (ledger : Ledger) (epoch target : Int) :
    (ledger.forfeit epoch target).1.total + (ledger.forfeit epoch target).2 =
      ledger.total := by
  have hsplit := congrArg sumOf
    (List.takeWhile_append_dropWhile (p := fun tranche : Tranche => tranche.epoch < epoch)
      (l := ledger.tranches))
  have htaken := sumOf_takeUpTo target
    (ledger.tranches.dropWhile fun tranche => tranche.epoch < epoch)
  rw [sumOf_append] at hsplit
  simp only [forfeit, total, lockedTotal, sumOf_append]
  omega

theorem total_sweep (ledger : Ledger) (epoch : Int) :
    (ledger.sweep epoch).1.total + (ledger.sweep epoch).2 = ledger.total := by
  have hsweep := ledger.lockedTotal_sweep epoch
  rw [total, total, sweep_unlocked]
  omega

theorem total_collect_merge {spec : VestSpec} {epoch amount : Int}
    {additions : List Tranche}
    (hscheduled : spec.Scheduled epoch amount additions) (ledger : Ledger) (now : Int) :
    ((ledger.collect now).merge additions).total = ledger.total + amount := by
  have hcollect := ledger.total_collect now
  have hmerge := lockedTotal_merge (ledger.collect now) additions
  rw [hscheduled.sumOf] at hmerge
  rw [total] at hcollect
  rw [total, hmerge, merge_unlocked]
  omega

namespace WellFormed

variable {ledger : Ledger} (hformed : ledger.WellFormed)

include hformed

theorem collect (epoch : Int) : (ledger.collect epoch).WellFormed where
  ordered := (hformed.sweep epoch).ordered
  tranches_nonneg := (hformed.sweep epoch).tranches_nonneg
  unlocked_nonneg := Int.add_nonneg hformed.unlocked_nonneg (hformed.released_nonneg epoch)

theorem withdraw (epoch requested : Int) :
    (ledger.withdraw epoch requested).1.WellFormed := by
  have hcollected := hformed.collect epoch
  rw [Ledger.withdraw]
  split
  · exact hformed
  · exact ⟨hcollected.ordered, hcollected.tranches_nonneg, by dsimp only; omega⟩

theorem paid_nonneg (epoch requested : Int) : 0 ≤ (ledger.withdraw epoch requested).2 := by
  have hunlocked := (hformed.collect epoch).unlocked_nonneg
  rw [Ledger.withdraw]
  split
  · exact Int.le_refl 0
  · dsimp only
    omega

theorem forfeit (epoch target : Int) : (ledger.forfeit epoch target).1.WellFormed := by
  obtain ⟨hordered, htranches, hunlocked⟩ := hformed
  constructor
  · refine List.pairwise_map.mp (List.Pairwise.sublist ?_ (List.pairwise_map.mpr hordered))
    have hkept := epochs_takeUpTo_sublist target
      (ledger.tranches.dropWhile fun tranche => tranche.epoch < epoch)
    have hwhole := hkept.append_left
      ((ledger.tranches.takeWhile fun tranche => tranche.epoch < epoch).map Tranche.epoch)
    rw [← List.map_append, ← List.map_append, List.takeWhile_append_dropWhile] at hwhole
    exact hwhole
  · refine List.forall_mem_append.mpr ⟨?_, ?_⟩
    · exact fun tranche hmem => htranches tranche (List.takeWhile_subset _ hmem)
    · refine (nonneg_takeUpTo ?_ target).1
      exact fun tranche hmem => htranches tranche (List.dropWhile_subset _ hmem)
  · exact hunlocked

theorem forfeited_nonneg (epoch target : Int) : 0 ≤ (ledger.forfeit epoch target).2 :=
  (nonneg_takeUpTo (fun tranche hmem =>
    hformed.tranches_nonneg tranche (List.dropWhile_subset _ hmem)) target).2

theorem total_nonneg : 0 ≤ ledger.total :=
  Int.add_nonneg (sumOf_nonneg hformed.tranches_nonneg) hformed.unlocked_nonneg

end WellFormed

end RewardVesting.Ledger
