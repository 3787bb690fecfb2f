import RewardVesting.Ledger.Schedule
import RewardVesting.Proofs.Action

namespace RewardVesting.Ledger

open RewardVesting.Action

variable {spec : VestSpec} {epoch amount : Int} {before after : Ledger}
  {cause : LockRefusal}

theorem yields_lock {answer : Unit} :
    (lock epoch amount spec).Yields before answer after ↔
      (0 ≤ amount ∧ 0 < spec.stepDuration ∧ 0 < spec.vestPeriod) ∧
        ∃ additions, spec.tranches epoch amount = .ok additions ∧
          after = before.merge additions := by
  simp only [lock, yields_bind, yields_require, yields_checked, yields_modify]
  constructor
  · rintro ⟨_, _, ⟨hamount, rfl⟩, _, _, ⟨hspec, rfl⟩, additions, _, ⟨hadditions, rfl⟩, rfl⟩
    exact ⟨⟨hamount, hspec⟩, additions, hadditions, rfl⟩
  · rintro ⟨⟨hamount, hspec⟩, additions, hadditions, rfl⟩
    exact ⟨(), before, ⟨hamount, rfl⟩, (), before, ⟨hspec, rfl⟩, additions, before,
      ⟨hadditions, rfl⟩, rfl⟩

theorem refuses_lock :
    (lock epoch amount spec).Refuses before cause after ↔
      after = before ∧ (amount < 0 ∧ cause = .negativeAmount amount ∨
        0 ≤ amount ∧ ¬(0 < spec.stepDuration ∧ 0 < spec.vestPeriod) ∧
          cause = .invalidSpec spec.stepDuration spec.vestPeriod) := by
  simp only [lock, refuses_bind, refuses_require, yields_require, not_refuses_checked,
    not_refuses_modify, and_false, exists_false, or_false]
  constructor
  · rintro (⟨hnegative, rfl, rfl⟩ | ⟨_, _, ⟨hamount, rfl⟩, hspec, rfl, rfl⟩)
    · exact ⟨rfl, .inl ⟨Int.not_le.mp hnegative, rfl⟩⟩
    · exact ⟨rfl, .inr ⟨hamount, hspec, rfl⟩⟩
  · rintro ⟨rfl, ⟨hnegative, rfl⟩ | ⟨hamount, hspec, rfl⟩⟩
    · exact .inl ⟨Int.not_le.mpr hnegative, rfl, rfl⟩
    · exact .inr ⟨(), after, ⟨hamount, rfl⟩, hspec, rfl, rfl⟩

theorem unlawful_of_refuses_lock
    (hrefuses : (lock epoch amount spec).Refuses before cause after) :
    after = before ∧ ¬(0 ≤ amount ∧ 0 < spec.stepDuration ∧ 0 < spec.vestPeriod) := by
  obtain ⟨hafter, ⟨hnegative, _⟩ | ⟨_, hinvalid, _⟩⟩ := refuses_lock.mp hrefuses
  · exact ⟨hafter, fun hlawful => Int.not_lt.mpr hlawful.1 hnegative⟩
  · exact ⟨hafter, fun hlawful => hinvalid hlawful.2⟩

theorem not_refuses_lock (hstep : 0 < spec.stepDuration) (hperiod : 0 < spec.vestPeriod)
    (hamount : 0 ≤ amount) : ¬(lock epoch amount spec).Refuses before cause after := by
  intro hrefuses
  exact (unlawful_of_refuses_lock hrefuses).2 ⟨hamount, hstep, hperiod⟩

/-- A lock of this amount on this schedule is refused for this cause. -/
inductive LockRefusal.Applies (amount : Int) (spec : VestSpec) : LockRefusal → Prop
  | negativeAmount (hnegative : amount < 0) : Applies amount spec (.negativeAmount amount)
  | invalidSpec (hamount : 0 ≤ amount)
      (hspec : spec.stepDuration ≤ 0 ∨ spec.vestPeriod ≤ 0) :
      Applies amount spec (.invalidSpec spec.stepDuration spec.vestPeriod)

theorem refuses_lock_iff_applies :
    (lock epoch amount spec).Refuses before cause after ↔
      cause.Applies amount spec ∧ after = before := by
  rw [refuses_lock]
  constructor
  · rintro ⟨hafter, ⟨hnegative, rfl⟩ | ⟨hamount, hspec, rfl⟩⟩
    · exact ⟨.negativeAmount hnegative, hafter⟩
    · exact ⟨.invalidSpec hamount (by omega), hafter⟩
  · rintro ⟨happlies, hafter⟩
    cases happlies with
    | negativeAmount hnegative => exact ⟨hafter, .inl ⟨hnegative, rfl⟩⟩
    | invalidSpec hamount hspec => exact ⟨hafter, .inr ⟨hamount, by omega, rfl⟩⟩

theorem ends_collectAndLock {result : Except LockRefusal Unit} :
    (collectAndLock epoch amount spec).Ends before result after ↔
      (lock epoch amount spec).Ends (before.collect epoch) result after :=
  Iff.rfl

theorem collect_eq_self_iff :
    before.collect epoch = before ↔
      ∀ first ∈ before.tranches.head?, epoch ≤ first.epoch := by
  obtain ⟨tranches, unlocked⟩ := before
  cases tranches with
  | nil => simp [collect, sweep]
  | cons first rest =>
      by_cases hpast : first.epoch < epoch
      · -- A tranche that has vested is no longer in the table.
        have hshorter := (List.dropWhile_sublist
          (l := rest) fun tranche : Tranche => tranche.epoch < epoch).length_le
        refine iff_of_false (fun hsame => ?_) fun hlate => ?_
        · have htranches := congrArg (fun ledger => ledger.tranches.length) hsame
          simp only [collect, sweep, List.dropWhile_cons, hpast, decide_true, if_true,
            List.length_cons] at htranches
          omega
        · have hle := hlate first rfl
          omega
      · refine iff_of_true ?_ ?_
        · simp [collect, sweep, hpast]
        · simpa using hpast

/-- A lock is refused for its amount or its schedule alone.  It leaves the table as it was,
and if vested tranches are collected first, then they stay collected. -/
theorem left_by_refused_lock :
    ((lock epoch amount spec).Refuses before cause after ↔
      cause.Applies amount spec ∧ after = before) ∧
    ((collectAndLock epoch amount spec).Refuses before cause after ↔
      cause.Applies amount spec ∧ after = before.collect epoch) ∧
    (before.collect epoch).total = before.total ∧
    (before.collect epoch = before ↔
      ∀ first ∈ before.tranches.head?, epoch ≤ first.epoch) :=
  ⟨refuses_lock_iff_applies, ends_collectAndLock.trans refuses_lock_iff_applies,
    before.total_collect epoch, collect_eq_self_iff⟩

theorem refused_lock_collects :
    (collectAndLock 2 (-1) ⟨0, 10, 2, 1⟩).Refuses ⟨[⟨1, 5⟩], 0⟩
      (.negativeAmount (-1)) ⟨[], 5⟩ ∧
      (⟨[], 5⟩ : Ledger) ≠ ⟨[⟨1, 5⟩], 0⟩ :=
  ⟨rfl, by decide⟩

end RewardVesting.Ledger
