import RewardVesting.Proofs.Ledger.Availability
import RewardVesting.Proofs.Ledger.WellFormed
import RewardVesting.Proofs.Wire.Writable

namespace RewardVesting.Ledger

variable {ledger : Ledger} {epoch requested first second : Int}

theorem available_of_past (hpast : ∀ tranche ∈ ledger.tranches, tranche.epoch < epoch) :
    ledger.available epoch = ledger.total := by
  have hevery : ledger.tranches.filter (fun tranche => tranche.epoch < epoch) =
      ledger.tranches :=
    List.filter_eq_self.mpr fun tranche hmem => decide_eq_true (hpast tranche hmem)
  have hall : ledger.lockedBefore epoch = ledger.lockedTotal := by
    rw [lockedBefore, hevery, lockedTotal]
  rw [available, total, hall]
  exact Int.add_comm _ _

/-- The tranches that have not vested stay as they are. -/
theorem locked_withdraw (ledger : Ledger) (epoch requested : Int) :
    (ledger.withdraw epoch requested).1.tranches.filter
      (fun tranche => epoch ≤ tranche.epoch) =
      ledger.tranches.filter fun tranche => epoch ≤ tranche.epoch := by
  rw [withdraw]
  split
  · rfl
  · have hsplit := congrArg (List.filter fun tranche : Tranche => epoch ≤ tranche.epoch)
      (List.takeWhile_append_dropWhile (p := fun tranche : Tranche => tranche.epoch < epoch)
        (l := ledger.tranches))
    have hvested : (ledger.tranches.takeWhile fun tranche => tranche.epoch < epoch).filter
        (fun tranche => epoch ≤ tranche.epoch) = [] := by
      refine List.filter_eq_nil_iff.mpr fun tranche hmem => ?_
      have hlt := lt_of_mem_takeWhile tranche hmem
      rw [decide_eq_true_eq]
      omega
    rw [List.filter_append, hvested, List.nil_append] at hsplit
    exact hsplit

namespace WellFormed

variable (hformed : ledger.WellFormed)

include hformed

theorem available_nonneg (epoch : Int) : 0 ≤ ledger.available epoch :=
  Int.add_nonneg hformed.unlocked_nonneg
    (sumOf_nonneg fun tranche hmem =>
      hformed.tranches_nonneg tranche (List.mem_filter.mp hmem).1)

theorem available_le_total (epoch : Int) : ledger.available epoch ≤ ledger.total := by
  have hvested : sumWhere (fun other => other < epoch) ledger.tranches ≤
      sumOf ledger.tranches :=
    sumWhere_le_sumOf hformed.tranches_nonneg
  rw [available_eq, total, lockedTotal]
  omega

theorem unlocked_collect (epoch : Int) :
    (ledger.collect epoch).unlocked = ledger.available epoch := by
  rw [available_eq, ← hformed.sweep_released epoch]
  rfl

theorem paid_eq_min (epoch : Int) (hrequested : 0 ≤ requested) :
    (ledger.withdraw epoch requested).2 = min requested (ledger.available epoch) := by
  have hnonneg := hformed.available_nonneg epoch
  have hle := hformed.available_le_total epoch
  rw [Ledger.withdraw]
  split
  · show 0 = min requested (ledger.available epoch)
    omega
  · dsimp only
    rw [hformed.unlocked_collect epoch, Int.min_comm]

/-- A withdrawal of something pays nothing of what there is only if all of it is locked. -/
theorem withdraw_locked_iff (epoch : Int) (hrequested : 0 ≤ requested) :
    (0 < requested ∧ (ledger.withdraw epoch requested).2 = 0 ∧
        (ledger.withdraw epoch requested).1.total ≠ 0) ↔
      0 < requested ∧ ledger.available epoch = 0 ∧ 0 < ledger.total := by
  have hpaid := hformed.paid_eq_min epoch hrequested
  have hnonneg := hformed.available_nonneg epoch
  have hle := hformed.available_le_total epoch
  have htotal := ledger.total_withdraw epoch requested
  omega

/-- What a withdrawal leaves can be stored unless too much of it is unlocked. -/
theorem isSome_write_withdraw (epoch requested : Int)
    (hwritten : (Ledger.format.write ledger).isSome) :
    (Ledger.format.write (ledger.withdraw epoch requested).1).isSome ↔
      ¬(0 < requested ∧ Amount.storageLimit ≤ ledger.available epoch - requested) := by
  have hlimit : (0 : Int) < Amount.storageLimit := by decide +kernel
  have hnonneg := hformed.available_nonneg epoch
  have hle := hformed.available_le_total epoch
  rw [Ledger.withdraw]
  split
  · refine iff_of_true hwritten ?_
    omega
  · obtain ⟨⟨hlength, htranches⟩, _⟩ := isSome_write.mp hwritten
    have hsublist : (ledger.collect epoch).tranches.Sublist ledger.tranches :=
      List.dropWhile_sublist _
    have hstored : (ledger.collect epoch).tranches.length < Wire.Head.argumentLimit ∧
        ∀ tranche ∈ (ledger.collect epoch).tranches,
          Epoch.Representable tranche.epoch ∧ Amount.Storable tranche.amount :=
      ⟨Nat.lt_of_le_of_lt hsublist.length_le hlength,
        fun tranche hmem => htranches tranche (hsublist.subset hmem)⟩
    rw [isSome_write, and_iff_right hstored]
    dsimp only
    rw [hformed.unlocked_collect epoch, Amount.Storable]
    omega

end WellFormed

/-! A withdrawal may be made in parts. -/

/-- Takes up to `requested` out of what is unlocked. -/
def pay (ledger : Ledger) (requested : Int) : Ledger × Int :=
  ({ ledger with unlocked := ledger.unlocked - min ledger.unlocked requested },
    min ledger.unlocked requested)

theorem withdraw_of_some (htotal : ledger.total ≠ 0) (hrequested : 0 < requested) :
    ledger.withdraw epoch requested = (ledger.collect epoch).pay requested := by
  rw [withdraw, if_neg (by omega)]
  rfl

theorem withdraw_of_nothing (hnothing : ledger.total = 0 ∨ requested ≤ 0) :
    ledger.withdraw epoch requested = (ledger, 0) := by
  rw [withdraw, if_pos hnothing]

theorem pay_of_nothing (hnothing : ledger.unlocked = 0 ∨ requested = 0)
    (hunlocked : 0 ≤ ledger.unlocked) (hrequested : 0 ≤ requested) :
    ledger.pay requested = (ledger, 0) := by
  have hpaid : min ledger.unlocked requested = 0 := by omega
  rw [pay, hpaid, Int.sub_zero]

theorem pay_pay (ledger : Ledger) (first : Int) (hsecond : 0 ≤ second) :
    ((ledger.pay first).1.pay second).1 = (ledger.pay (first + second)).1 ∧
      (ledger.pay first).2 + ((ledger.pay first).1.pay second).2 =
        (ledger.pay (first + second)).2 := by
  simp only [pay, Ledger.mk.injEq, true_and]
  omega

/-- Nothing is left to collect of what has been collected, whatever has been paid since. -/
theorem collect_pay_collect (ledger : Ledger) (epoch requested : Int) :
    ((ledger.collect epoch).pay requested).1.collect epoch =
      ((ledger.collect epoch).pay requested).1 := by
  have hswept := ledger.sweep_self epoch
  simp only [sweep, Prod.mk.injEq, Ledger.mk.injEq, and_true] at hswept
  simp only [collect, pay, sweep, hswept, Int.add_zero]

namespace WellFormed

variable (hformed : ledger.WellFormed)

include hformed

theorem pay (requested : Int) : (ledger.pay requested).1.WellFormed where
  ordered := hformed.ordered
  tranches_nonneg := hformed.tranches_nonneg
  unlocked_nonneg := by
    dsimp only [Ledger.pay]
    omega

/-- Once it has collected what has vested, a ledger pays out of what is unlocked. -/
theorem withdraw_of_collected (hcollected : ledger.collect epoch = ledger)
    (hrequested : 0 ≤ requested) :
    ledger.withdraw epoch requested = ledger.pay requested := by
  have hunlocked := hformed.unlocked_nonneg
  by_cases hnothing : ledger.total = 0 ∨ requested ≤ 0
  · have hlocked := sumOf_nonneg hformed.tranches_nonneg
    rw [total, lockedTotal] at hnothing
    rw [withdraw_of_nothing hnothing, pay_of_nothing (by omega) hunlocked hrequested]
  · rw [withdraw_of_some (by omega) (by omega), hcollected]

end WellFormed

/-- What is asked for in two parts at one epoch is paid as if it were asked for at once, and
the same is left. -/
theorem withdraw_add (hformed : ledger.WellFormed) (epoch : Int) (hfirst : 0 ≤ first)
    (hsecond : 0 ≤ second) :
    ((ledger.withdraw epoch first).1.withdraw epoch second).1 =
        (ledger.withdraw epoch (first + second)).1 ∧
      (ledger.withdraw epoch first).2 +
        ((ledger.withdraw epoch first).1.withdraw epoch second).2 =
        (ledger.withdraw epoch (first + second)).2 := by
  by_cases htotal : ledger.total = 0
  · simp only [withdraw_of_nothing (.inl htotal), Int.add_zero, and_self]
  · by_cases hnone : first = 0
    · -- The first part does not even collect, so that the second one is the whole.
      subst hnone
      simp only [withdraw_of_nothing (.inr (Int.le_refl 0)), Int.zero_add, and_self]
    · have hcollected := hformed.collect epoch
      rw [withdraw_of_some htotal (show 0 < first by omega),
        withdraw_of_some htotal (show 0 < first + second by omega),
        (hcollected.pay first).withdraw_of_collected
          (collect_pay_collect ledger epoch first) hsecond]
      exact pay_pay (ledger.collect epoch) first hsecond

def drainedLedger : Ledger := ⟨[⟨1, 5⟩, ⟨2, 0⟩, ⟨3, 0⟩, ⟨9, 3⟩], 2⟩

theorem withdraw_add_draining :
    drainedLedger.WellFormed ∧
      (drainedLedger.withdraw 3 7).1 = ⟨[⟨3, 0⟩, ⟨9, 3⟩], 0⟩ ∧
      ((drainedLedger.withdraw 3 7).1.withdraw 3 4).1 = (drainedLedger.withdraw 3 11).1 ∧
      (drainedLedger.withdraw 3 7).2 + ((drainedLedger.withdraw 3 7).1.withdraw 3 4).2 =
        (drainedLedger.withdraw 3 11).2 := by
  have hformed : drainedLedger.WellFormed := defect?_eq_none.mp (by decide)
  exact ⟨hformed, by decide, withdraw_add hformed 3 (by decide) (by decide)⟩

end RewardVesting.Ledger
