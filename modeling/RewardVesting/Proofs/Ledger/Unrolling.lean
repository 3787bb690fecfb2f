import Mathlib.Data.Rat.Floor
import RewardVesting.Proofs.Ledger.Interchange
import RewardVesting.Proofs.Ledger.Reach

namespace RewardVesting

namespace VestSpec

/-! A schedule as a loop that ends for its own condition alone. -/

/-- One pass of the loop, with all that it computes on epochs. -/
structure Pass (spec : VestSpec) (start sum next vested : Int) (tranche : Tranche) :
    Prop where
  left : vested < sum
  remainder : 1 < spec.quantization →
    Epoch.Representable (next % spec.quantization) ∧
      Epoch.Representable (spec.quantization - next % spec.quantization)
  rounded : Epoch.roundUp next spec.quantization = .ok tranche.epoch
  elapsed : Epoch.sub tranche.epoch start = .ok (tranche.epoch - start)
  amount : tranche.amount = spec.vestedAfter sum (tranche.epoch - start) - vested
  following : Epoch.add next spec.stepDuration = .ok (next + spec.stepDuration)

/-- The passes from `next` on, each of which adds its tranche, until `sum` has vested. -/
inductive Unrolls (spec : VestSpec) (start sum : Int) : Int → Int → List Tranche → Prop
  | done {next vested : Int} (hall : sum ≤ vested) : Unrolls spec start sum next vested []
  | pass {next vested : Int} {tranche : Tranche} {rest : List Tranche}
      (hpass : spec.Pass start sum next vested tranche)
      (hrest : Unrolls spec start sum (next + spec.stepDuration)
        (spec.vestedAfter sum (tranche.epoch - start)) rest) :
      Unrolls spec start sum next vested (tranche :: rest)

/-- The loop of a lock of `sum` made at `epoch`, with what is computed ahead of it. -/
structure Unrolling (spec : VestSpec) (epoch sum : Int) (tranches : List Tranche) :
    Prop where
  start : Epoch.add epoch spec.initialDelay = .ok (epoch + spec.initialDelay)
  first : Epoch.add (epoch + spec.initialDelay) spec.stepDuration =
    .ok (epoch + spec.initialDelay + spec.stepDuration)
  passes : spec.Unrolls (epoch + spec.initialDelay) sum
    (epoch + spec.initialDelay + spec.stepDuration) 0 tranches

variable {spec : VestSpec} {start sum next vested : Int} {tranche : Tranche}
  {tranches : List Tranche}

/-- A unit that can be represented leaves remainders that can be. -/
theorem representable_remainder (hunit : spec.quantization ≤ Epoch.highest)
    (hsome : 1 < spec.quantization) (next : Int) :
    Epoch.Representable (next % spec.quantization) ∧
      Epoch.Representable (spec.quantization - next % spec.quantization) := by
  have hnonneg := Int.emod_nonneg next (show spec.quantization ≠ 0 by omega)
  have hbound := Int.emod_lt_of_pos next (show 0 < spec.quantization by omega)
  simp only [Epoch.Representable, Epoch.lowest]
  omega

/-- Where the steps that are left cover the period, the loop does not end for lack of
steps. -/
theorem unrolls_of_tranchesFrom {steps : Nat} (hunit : spec.quantization ≤ Epoch.highest)
    (hcovered : spec.Covered start sum next vested steps)
    (htranches : spec.tranchesFrom start sum steps next vested = .ok tranches) :
    spec.Unrolls start sum next vested tranches := by
  induction steps generalizing next vested tranches with
  | zero =>
      cases htranches
      obtain rfl | ⟨hnone, _⟩ := hcovered
      · exact .done (Int.le_refl _)
      · exact absurd hnone (Nat.lt_irrefl 0)
  | succ steps ih =>
      obtain ⟨hall, rfl⟩ | ⟨epoch, rest, hleft, hround, helapsed, hfollowing, hrest, rfl⟩ :=
        tranchesFrom_succ htranches
      · exact .done hall
      · have hpass : spec.Pass start sum next vested
            ⟨epoch, spec.vestedAfter sum (epoch - start) - vested⟩ :=
          { left := hleft
            remainder := fun hsome => representable_remainder hunit hsome next
            rounded := hround
            elapsed := Epoch.sub_of_representable helapsed
            amount := rfl
            following := Epoch.add_of_representable hfollowing }
        exact .pass hpass (ih (hcovered.following hleft hround) hrest)

/-- As long as something is left to vest, the next pass is less than a step past the
period. -/
theorem Unrolls.reach (hunrolls : spec.Unrolls start sum next vested tranches)
    (hnext : next < start + spec.vestPeriod + 2 * spec.stepDuration)
    (hearly : vested < sum → next < start + spec.vestPeriod + spec.stepDuration) :
    next + tranches.length * spec.stepDuration <
      start + spec.vestPeriod + 2 * spec.stepDuration := by
  induction hunrolls with
  | done hall =>
      rw [List.length_nil, Int.natCast_zero, Int.zero_mul, Int.add_zero]
      exact hnext
  | pass hpass hrest ih =>
      have hbefore := hearly hpass.left
      have hlate := Epoch.le_of_roundUp hpass.rounded
      have htail := ih (by omega) fun hmore => by
        have hmiddle := elapsed_lt_of_vestedAfter_lt hmore
        omega
      rw [List.length_cons, Int.natCast_add, Int.add_mul, Int.natCast_one, Int.one_mul]
      omega

/-- The loop takes no more passes than there are steps in the period. -/
theorem Unrolling.length_le {epoch : Int} (hstep : 0 < spec.stepDuration)
    (hperiod : 0 < spec.vestPeriod) (hunrolling : spec.Unrolling epoch sum tranches) :
    (tranches.length : Int) ≤ ⌈(spec.vestPeriod : ℚ) / spec.stepDuration⌉ := by
  have hreach := hunrolling.passes.reach (by omega) (fun _ => by omega)
  have hsteps : ((tranches.length : Int) - 1) * spec.stepDuration < spec.vestPeriod := by
    rw [Int.sub_mul, Int.one_mul]
    omega
  have hstepRat : (0 : ℚ) < spec.stepDuration := Int.cast_pos.mpr hstep
  rw [Int.le_ceil_iff, lt_div_iff₀ hstepRat]
  exact_mod_cast hsteps

theorem unrolling_of_tranches {epoch : Int} (hstep : 0 < spec.stepDuration)
    (hperiod : 0 < spec.vestPeriod) (htimely : spec.Timely epoch)
    (htranches : spec.tranches epoch sum = .ok tranches) :
    spec.Unrolling epoch sum tranches := by
  obtain ⟨hfirst, hfrom⟩ := tranches_eq_ok htranches
  have hunit : spec.quantization ≤ Epoch.highest := by
    have hhigh := htimely.elapsed.2
    rw [quantum] at hhigh
    omega
  exact ⟨Epoch.add_of_representable htimely.start, Epoch.add_of_representable hfirst,
    unrolls_of_tranchesFrom hunit (covered_stepCount hstep hperiod _ _) hfrom⟩

end VestSpec

namespace Ledger

open RewardVesting.Action

variable {spec : VestSpec} {epoch amount : Int}

/-- A lock within its reach is carried out without a fault.  Its loop ends after at most one
pass for each step of the period, and adds to the table at the epochs of its passes alone,
and never less than zero. -/
theorem lock_unrolls (ledger : Ledger) (hamount : 0 ≤ amount)
    (hstep : 0 < spec.stepDuration)
    (hperiod : 0 < spec.vestPeriod) (htimely : spec.Timely epoch) :
    ∃ additions after, (lock epoch amount spec).Yields ledger () after ∧
      spec.tranches epoch amount = .ok additions ∧
      spec.Unrolling epoch amount additions ∧
      (additions.length : Int) ≤ ⌈(spec.vestPeriod : ℚ) / spec.stepDuration⌉ ∧
      (∀ addition ∈ additions, 0 ≤ addition.amount ∧
        epoch + spec.initialDelay + spec.stepDuration ≤ addition.epoch ∧
        addition.epoch ≤ epoch + spec.initialDelay + spec.vestPeriod + spec.stepDuration +
          spec.quantum - 2) ∧
      ∀ other, after.lockedAt other =
          ledger.lockedAt other + sumWhere (fun added => added = other) additions ∧
        (other ∉ epochs additions →
          after.tranches.filter (fun tranche => tranche.epoch = other) =
            ledger.tranches.filter fun tranche => tranche.epoch = other) := by
  obtain ⟨additions, hadditions⟩ := VestSpec.exists_tranches hstep hperiod htimely amount
  have hscheduled := VestSpec.scheduled_of_tranches hstep hperiod hamount hadditions
  have hunrolling := VestSpec.unrolling_of_tranches hstep hperiod htimely hadditions
  have hreach := VestSpec.le_reach_of_mem_tranchesFrom (fun _ => by omega)
    (VestSpec.tranches_eq_ok hadditions).2
  refine ⟨additions, ledger.merge additions,
    yields_lock.mpr ⟨⟨hamount, hstep, hperiod⟩, additions, hadditions, rfl⟩, hadditions,
    hunrolling, hunrolling.length_le hstep hperiod, fun addition hmem => ?_, fun other =>
      ⟨?_, filter_merge⟩⟩
  · exact ⟨hscheduled.nonneg addition hmem, hscheduled.later addition hmem,
      hreach addition hmem⟩
  · rw [lockedAt_eq, lockedAt_eq, sumWhere_merge]

def crowded : Ledger :=
  ⟨[⟨Epoch.highest - 12, 5⟩, ⟨1, 1⟩, ⟨Epoch.highest - 12, 2⟩], 0⟩

def crowdedLast : Ledger :=
  ⟨[⟨1, 1⟩, ⟨Epoch.highest - 12, 5⟩, ⟨Epoch.highest - 12, 62⟩, ⟨Epoch.highest - 7, 40⟩], 0⟩

def lastTranches : List Tranche :=
  [⟨Epoch.highest - 12, 60⟩, ⟨Epoch.highest - 12, 0⟩, ⟨Epoch.highest - 7, 40⟩]

theorem lock_unrolls_last :
    (0 : Int) ≤ 100 ∧ 0 < sharedSchedule.stepDuration ∧ 0 < sharedSchedule.vestPeriod ∧
      sharedSchedule.Timely (Epoch.highest - 20) ∧
      (lock (Epoch.highest - 20) 100 sharedSchedule).Yields crowded () crowdedLast ∧
      sharedSchedule.Unrolling (Epoch.highest - 20) 100 lastTranches ∧
      (lastTranches.length : Int) ≤
        ⌈(sharedSchedule.vestPeriod : ℚ) / sharedSchedule.stepDuration⌉ ∧
      crowdedLast.lockedAt (Epoch.highest - 12) = crowded.lockedAt (Epoch.highest - 12) +
        sumWhere (fun added => added = Epoch.highest - 12) lastTranches := by
  have hstep : 0 < sharedSchedule.stepDuration := by decide
  have hperiod : 0 < sharedSchedule.vestPeriod := by decide
  have htimely : sharedSchedule.Timely (Epoch.highest - 20) :=
    ⟨by decide, by decide, by decide, by decide⟩
  have hrun : (lock (Epoch.highest - 20) 100 sharedSchedule).Yields crowded
    () crowdedLast := rfl
  have htranches : sharedSchedule.tranches (Epoch.highest - 20) 100 = .ok lastTranches :=
    rfl
  obtain ⟨additions, after, hyields, hadditions, hunrolling, hlength, _, hamounts⟩ :=
    lock_unrolls crowded (show (0 : Int) ≤ 100 by decide) hstep hperiod htimely
  cases hrun.symm.trans hyields
  cases htranches.symm.trans hadditions
  exact ⟨by decide, hstep, hperiod, htimely, hrun, hunrolling, hlength,
    (hamounts (Epoch.highest - 12)).1⟩

end Ledger

end RewardVesting
