import Mathlib.Data.Nat.Find
import RewardVesting.Proofs.Ledger.Schedule

namespace RewardVesting.VestSpec

variable {spec : VestSpec} {start epoch : Int} {step : Nat}

/-- The rounded epoch of a step after the start of the line. -/
def stepEpoch (spec : VestSpec) (start : Int) (step : Nat) : Int :=
  Epoch.ceiling (start + step * spec.stepDuration) spec.quantization

/-- The last step whose epoch has passed, or zero if there is none. -/
def lastStep (spec : VestSpec) (start epoch : Int) : Nat :=
  Nat.findGreatest (fun step => 0 < step ∧ spec.stepEpoch start step < epoch)
    (epoch - start).toNat

/-- Of an amount locked at `locked`, what the line asks for at the last step before
`epoch`. -/
def vestedBy (spec : VestSpec) (locked amount epoch : Int) : Int :=
  let start := locked + spec.initialDelay
  let step := spec.lastStep start epoch
  let elapsed := spec.stepEpoch start step - start
  if step = 0 then 0
  else if spec.vestPeriod ≤ elapsed then amount
  else amount * elapsed / spec.vestPeriod

section Steps

variable (hstep : 0 < spec.stepDuration)

include hstep

theorem stepEpoch_mono {earlier later : Nat} (hle : earlier ≤ later) (start : Int) :
    spec.stepEpoch start earlier ≤ spec.stepEpoch start later := by
  have hscaled : (earlier : Int) * spec.stepDuration ≤ later * spec.stepDuration :=
    Int.mul_le_mul_of_nonneg_right (Int.ofNat_le.mpr hle) (Int.le_of_lt hstep)
  apply Epoch.ceiling_mono
  omega

theorem start_add_le_stepEpoch (start : Int) (step : Nat) :
    start + step ≤ spec.stepEpoch start step := by
  have hscaled : (step : Int) * 1 ≤ step * spec.stepDuration :=
    Int.mul_le_mul_of_nonneg_left hstep (Int.natCast_nonneg step)
  have hrounded := Epoch.le_ceiling (start + step * spec.stepDuration) spec.quantization
  rw [stepEpoch]
  omega

/-- The last step is the greatest one whose epoch has passed. -/
theorem le_lastStep_iff (hpositive : 0 < step) :
    step ≤ spec.lastStep start epoch ↔ spec.stepEpoch start step < epoch := by
  constructor
  · intro hle
    have hlast : 0 < spec.lastStep start epoch ∧
        spec.stepEpoch start (spec.lastStep start epoch) < epoch :=
      Nat.findGreatest_of_ne_zero (m := spec.lastStep start epoch) rfl (by omega)
    exact Int.lt_of_le_of_lt (stepEpoch_mono hstep hle start) hlast.2
  · intro hpassed
    have hreach := start_add_le_stepEpoch hstep start step
    exact Nat.le_findGreatest (by omega) ⟨hpositive, hpassed⟩

end Steps

theorem vestedAfter_eq {sum elapsed : Int} (hsum : 0 ≤ sum) (helapsed : 0 ≤ elapsed) :
    spec.vestedAfter sum elapsed =
      if spec.vestPeriod ≤ elapsed then sum else sum * elapsed / spec.vestPeriod := by
  rw [vestedAfter, Int.tdiv_eq_ediv_of_nonneg (Int.mul_nonneg hsum helapsed)]
  by_cases hlate : spec.vestPeriod ≤ elapsed
  · rw [if_pos hlate, if_neg (Int.not_lt.mpr hlate)]
  · rw [if_neg hlate, if_pos (Int.not_le.mp hlate)]

section Tranches

variable {sum : Int} (hstep : 0 < spec.stepDuration) (hperiod : 0 < spec.vestPeriod)
  (hsum : 0 ≤ sum)

include hstep hperiod hsum

theorem vestedAfter_stepEpoch_mono {earlier later : Nat} (hle : earlier ≤ later)
    (start : Int) :
    spec.vestedAfter sum (spec.stepEpoch start earlier - start) ≤
      spec.vestedAfter sum (spec.stepEpoch start later - start) := by
  have hreach := start_add_le_stepEpoch hstep start earlier
  have horder := stepEpoch_mono hstep hle start
  apply vestedAfter_mono hperiod hsum
  · omega
  · omega

/-- Once everything has vested, all later steps agree. -/
theorem vestedAfter_stepEpoch_of_le (hle : sum ≤ spec.vestedAfter sum
    (spec.stepEpoch start step - start)) {later : Nat} (hlater : step ≤ later) :
    spec.vestedAfter sum (spec.stepEpoch start later - start) = sum := by
  have hreach := start_add_le_stepEpoch hstep start later
  have hmono := vestedAfter_stepEpoch_mono hstep hperiod hsum hlater start
  have hbound := vestedAfter_le hperiod hsum
    (show 0 ≤ spec.stepEpoch start later - start by omega)
  omega

/-- The tranches from one step on bring the vested total to that of the last step before an
epoch, if they reach it at all. -/
theorem sumWhere_tranchesFrom {tranches : List Tranche} {steps : Nat} (hpositive : 0 < step)
    {vested : Int} (htranches : spec.tranchesFrom start sum steps
      (start + step * spec.stepDuration) vested = .ok tranches)
    (hvested : vested ≤ spec.vestedAfter sum (spec.stepEpoch start step - start))
    (hall : Ledger.sumOf tranches = sum - vested) :
    Ledger.sumWhere (fun other => other < epoch) tranches =
      if spec.stepEpoch start step < epoch then
        spec.vestedAfter sum (spec.stepEpoch start (spec.lastStep start epoch) - start) -
          vested
      else 0 := by
  induction tranches generalizing steps step vested with
  | nil =>
      rw [Ledger.sumOf_nil] at hall
      rw [Ledger.sumWhere_nil]
      split
      · rename_i hpassed
        have hlast := (le_lastStep_iff hstep hpositive).mpr hpassed
        have hle : sum ≤ spec.vestedAfter sum (spec.stepEpoch start step - start) := by
          omega
        have hcovered := vestedAfter_stepEpoch_of_le hstep hperiod hsum hle hlast
        omega
      · rfl
  | cons tranche rest ih =>
      cases steps with
      | zero => cases htranches
      | succ steps =>
          obtain ⟨_, hnothing⟩ | ⟨rounded, later, _, hround, _, _, hlater, hcons⟩ :=
            tranchesFrom_succ htranches
          · cases hnothing
          · cases hcons
            obtain rfl : rounded = spec.stepEpoch start step := Epoch.roundUp_eq_ok hround
            have hnext : start + step * spec.stepDuration + spec.stepDuration =
                start + (step + 1 : Nat) * spec.stepDuration := by
              rw [Int.natCast_add, Int.add_mul, Int.natCast_one, Int.one_mul]
              omega
            rw [hnext] at hlater
            rw [Ledger.sumOf_cons] at hall
            dsimp only at hall
            have horder := stepEpoch_mono hstep (Nat.le_succ step) start
            have hmono :=
              vestedAfter_stepEpoch_mono hstep hperiod hsum (Nat.le_succ step) start
            have hrest := ih (Nat.succ_pos step) hlater hmono (by omega)
            rw [Ledger.sumWhere_cons, hrest]
            dsimp only
            by_cases hpassed : spec.stepEpoch start step < epoch
            · by_cases hmore : spec.stepEpoch start (step + 1) < epoch
              · simp only [hpassed, hmore, decide_true, if_true]
                omega
              · -- No later step has passed, so that this one is the last.
                have hlast : spec.lastStep start epoch = step := by
                  have hle := (le_lastStep_iff hstep hpositive).mpr hpassed
                  have hlt := mt (le_lastStep_iff hstep (Nat.succ_pos step)).mp hmore
                  omega
                simp only [hpassed, hmore, hlast, decide_true, if_true, if_false]
                omega
            · have hnone : ¬spec.stepEpoch start (step + 1) < epoch := by
                rw [Nat.succ_eq_add_one] at horder
                omega
              simp [hpassed, hnone]

/-- What the tranches of a lock release by an epoch is what has vested by then. -/
theorem sumWhere_tranches {locked : Int} {tranches : List Tranche}
    (htranches : spec.tranches locked sum = .ok tranches) (epoch : Int) :
    Ledger.sumWhere (fun other => other < epoch) tranches =
      spec.vestedBy locked sum epoch := by
  have hscheduled := scheduled_of_tranches hstep hperiod hsum htranches
  have hreach := start_add_le_stepEpoch hstep (locked + spec.initialDelay)
  have hfirst : spec.tranchesFrom (locked + spec.initialDelay) sum spec.stepCount
      (locked + spec.initialDelay + (1 : Nat) * spec.stepDuration) 0 = .ok tranches := by
    rw [Int.natCast_one, Int.one_mul]
    exact (tranches_eq_ok htranches).2
  have hvested : 0 ≤ spec.vestedAfter sum
      (spec.stepEpoch (locked + spec.initialDelay) 1 - (locked + spec.initialDelay)) := by
    apply vestedAfter_nonneg hperiod hsum
    have hone := hreach 1
    omega
  have hall : Ledger.sumOf tranches = sum - 0 := by
    rw [hscheduled.sumOf, Int.sub_zero]
  have hlast := hreach (spec.lastStep (locked + spec.initialDelay) epoch)
  rw [sumWhere_tranchesFrom hstep hperiod hsum Nat.one_pos hfirst hvested hall,
    Int.sub_zero, vestedBy, vestedAfter_eq hsum (by omega)]
  by_cases hnone : spec.lastStep (locked + spec.initialDelay) epoch = 0
  · have hnot : ¬spec.stepEpoch (locked + spec.initialDelay) 1 < epoch := by
      rw [← le_lastStep_iff hstep Nat.one_pos]
      omega
    rw [if_neg hnot, if_pos hnone]
  · have hpassed : spec.stepEpoch (locked + spec.initialDelay) 1 < epoch := by
      rw [← le_lastStep_iff hstep Nat.one_pos]
      omega
    rw [if_pos hpassed, if_neg hnone]

end Tranches

/-- What the tranches of a lock release before an epoch. -/
def releasedBefore (spec : VestSpec) (locked amount epoch : Int) : Int :=
  match spec.tranches locked amount with
  | .ok tranches => Ledger.sumWhere (fun other => other < epoch) tranches
  | .error _ => 0

variable {locked amount : Int}

theorem releasedBefore_of_tranches {tranches : List Tranche}
    (htranches : spec.tranches locked amount = .ok tranches) (epoch : Int) :
    spec.releasedBefore locked amount epoch =
      Ledger.sumWhere (fun other => other < epoch) tranches := by
  rw [releasedBefore, htranches]

@[simp] theorem releasedBefore_zero (spec : VestSpec) (locked epoch : Int) :
    spec.releasedBefore locked 0 epoch = 0 := by
  cases htranches : spec.tranches locked 0 with
  | error fault => rw [releasedBefore, htranches]
  | ok tranches =>
      have hfrom := (tranches_eq_ok htranches).2
      have hnone : tranches = [] := by
        cases hcount : spec.stepCount with
        | zero =>
            rw [hcount] at hfrom
            cases hfrom
            rfl
        | succ steps =>
            rw [hcount] at hfrom
            obtain ⟨_, rfl⟩ | ⟨_, _, hleft, _⟩ := tranchesFrom_succ hfrom
            · rfl
            · exact absurd hleft (Int.lt_irrefl 0)
      rw [releasedBefore_of_tranches htranches, hnone, Ledger.sumWhere_nil]

section Schedule

variable (hstep : 0 < spec.stepDuration) (hperiod : 0 < spec.vestPeriod)
  (hamount : 0 ≤ amount)

include hstep hperiod hamount

theorem releasedBefore_of_le
    (hearly : epoch ≤ locked + spec.initialDelay + spec.stepDuration) :
    spec.releasedBefore locked amount epoch = 0 := by
  cases htranches : spec.tranches locked amount with
  | error fault => rw [releasedBefore, htranches]
  | ok tranches =>
      have hscheduled := scheduled_of_tranches hstep hperiod hamount htranches
      rw [releasedBefore_of_tranches htranches]
      refine Ledger.sumWhere_of_forall_not fun tranche hmem => ?_
      have hlater := hscheduled.later tranche hmem
      rw [decide_eq_true_eq]
      omega

theorem releasedBefore_le : spec.releasedBefore locked amount epoch ≤ amount := by
  cases htranches : spec.tranches locked amount with
  | error fault =>
      rw [releasedBefore, htranches]
      exact hamount
  | ok tranches =>
      have hscheduled := scheduled_of_tranches hstep hperiod hamount htranches
      rw [releasedBefore_of_tranches htranches, ← hscheduled.sumOf]
      exact Ledger.sumWhere_le_sumOf hscheduled.nonneg

end Schedule

end RewardVesting.VestSpec
