import RewardVesting.Proofs.Ledger.Schedule

namespace RewardVesting.VestSpec

variable {spec : VestSpec} {sum : Int}

/-! How far a schedule reaches. Within that reach nothing overflows. -/

/-- The unit that epochs are rounded to, at least one. -/
def quantum (spec : VestSpec) : Int := max spec.quantization 1

/-- No epoch that a lock made at `epoch` comes across is beyond what can be represented. -/
structure Timely (spec : VestSpec) (epoch : Int) : Prop where
  start : Epoch.Representable (epoch + spec.initialDelay)
  following : Epoch.Representable
    (epoch + spec.initialDelay + spec.vestPeriod + 2 * spec.stepDuration)
  rounded : Epoch.Representable
    (epoch + spec.initialDelay + spec.vestPeriod + spec.stepDuration + spec.quantum)
  elapsed : Epoch.Representable (spec.vestPeriod + spec.stepDuration + spec.quantum)

theorem stepCount_mul_le (hstep : 0 < spec.stepDuration) (hperiod : 0 < spec.vestPeriod) :
    spec.stepCount * spec.stepDuration ≤ spec.vestPeriod + spec.stepDuration - 1 := by
  have hsteps : 0 ≤ (spec.vestPeriod + spec.stepDuration - 1) / spec.stepDuration :=
    Int.ediv_nonneg (by omega) (Int.le_of_lt hstep)
  rw [stepCount, Int.toNat_of_nonneg hsteps]
  exact Int.ediv_mul_le _ (by omega)

section Tranches

variable {start next vested : Int} {steps : Nat} {tranches : List Tranche}

theorem dvd_of_mem_tranchesFrom (hunit : 1 < spec.quantization)
    (htranches : spec.tranchesFrom start sum steps next vested = .ok tranches) :
    ∀ tranche ∈ tranches, spec.quantization ∣ tranche.epoch := by
  induction steps generalizing next vested tranches with
  | zero =>
      cases htranches
      exact nofun
  | succ steps ih =>
      obtain ⟨_, rfl⟩ | ⟨epoch, rest, _, hround, _, _, hrest, rfl⟩ :=
        tranchesFrom_succ htranches
      · exact nofun
      · refine List.forall_mem_cons.mpr ⟨?_, ih hrest⟩
        rw [Epoch.roundUp_eq_ok hround]
        exact Epoch.dvd_ceiling next hunit

/-- As long as something is left to vest, the period is not over, so that the next step is
less than a step past its end. -/
theorem le_reach_of_mem_tranchesFrom
    (hnext : vested < sum → next < start + spec.vestPeriod + spec.stepDuration)
    (htranches : spec.tranchesFrom start sum steps next vested = .ok tranches) :
    ∀ tranche ∈ tranches,
      tranche.epoch ≤ start + spec.vestPeriod + spec.stepDuration + spec.quantum - 2 := by
  induction steps generalizing next vested tranches with
  | zero =>
      cases htranches
      exact nofun
  | succ steps ih =>
      obtain ⟨_, rfl⟩ | ⟨epoch, rest, hleft, hround, _, _, hrest, rfl⟩ :=
        tranchesFrom_succ htranches
      · exact nofun
      · have hlate := Epoch.le_of_roundUp hround
        have hrounded := Epoch.ceiling_lt_add_max next spec.quantization
        rw [← Epoch.roundUp_eq_ok hround, ← quantum] at hrounded
        have hearly := hnext hleft
        refine List.forall_mem_cons.mpr ⟨?_, ih (fun hmore => ?_) hrest⟩
        · dsimp only
          omega
        · have hbefore := elapsed_lt_of_vestedAfter_lt hmore
          omega

end Tranches

section Steps

variable {start next vested : Int} {steps : Nat} (hstep : 0 < spec.stepDuration)
  (hreach : next + steps * spec.stepDuration ≤
    start + spec.vestPeriod + 2 * spec.stepDuration - 1)

include hstep hreach

theorem reach_succ {left : Nat} (hleft : steps = left + 1) :
    next ≤ start + spec.vestPeriod + spec.stepDuration - 1 ∧
      next + spec.stepDuration + left * spec.stepDuration ≤
        start + spec.vestPeriod + 2 * spec.stepDuration - 1 := by
  have hscaled : 0 ≤ (left : Int) * spec.stepDuration :=
    Int.mul_nonneg (Int.natCast_nonneg left) (Int.le_of_lt hstep)
  rw [hleft, Int.natCast_add, Int.add_mul, Int.natCast_one, Int.one_mul] at hreach
  constructor <;> omega

theorem exists_tranchesFrom {epoch : Int} (htimely : spec.Timely epoch)
    (hstart : start = epoch + spec.initialDelay)
    (hnext : start + spec.stepDuration ≤ next) :
    ∃ tranches, spec.tranchesFrom start sum steps next vested = .ok tranches := by
  induction steps generalizing next vested with
  | zero => exact ⟨[], rfl⟩
  | succ steps ih =>
      obtain ⟨hlast, hleft⟩ := reach_succ hstep hreach rfl
      obtain ⟨hlow, _⟩ := htimely.start
      obtain ⟨_, hfollowing⟩ := htimely.following
      obtain ⟨_, hrounded⟩ := htimely.rounded
      obtain ⟨_, helapsed⟩ := htimely.elapsed
      have habove := Epoch.le_ceiling next spec.quantization
      have hbelow := Epoch.ceiling_lt_add_max next spec.quantization
      rw [← quantum] at hbelow
      rw [tranchesFrom]
      split
      · have hround : Epoch.roundUp next spec.quantization =
            .ok (Epoch.ceiling next spec.quantization) :=
          Epoch.roundUp_eq ⟨by omega, by omega⟩
        have hsub : Epoch.sub (Epoch.ceiling next spec.quantization) start =
            .ok (Epoch.ceiling next spec.quantization - start) := by
          refine Epoch.sub_of_representable ⟨?_, by omega⟩
          rw [Epoch.lowest]
          omega
        have hadd : Epoch.add next spec.stepDuration = .ok (next + spec.stepDuration) :=
          Epoch.add_of_representable ⟨by omega, by omega⟩
        obtain ⟨rest, hrest⟩ : ∃ rest, spec.tranchesFrom start sum steps
            (next + spec.stepDuration)
            (spec.vestedAfter sum (Epoch.ceiling next spec.quantization - start)) =
                .ok rest :=
          ih hleft (by omega)
        simp only [hround, hsub, hadd, hrest, bind, Except.bind]
        exact ⟨_, rfl⟩
      · exact ⟨[], rfl⟩

end Steps

theorem reach_stepCount (hstep : 0 < spec.stepDuration) (hperiod : 0 < spec.vestPeriod)
    (start : Int) :
    start + spec.stepDuration + spec.stepCount * spec.stepDuration ≤
      start + spec.vestPeriod + 2 * spec.stepDuration - 1 := by
  have hsteps := stepCount_mul_le hstep hperiod
  omega

theorem exists_tranches (hstep : 0 < spec.stepDuration) (hperiod : 0 < spec.vestPeriod)
    {epoch : Int} (htimely : spec.Timely epoch) (sum : Int) :
    ∃ tranches, spec.tranches epoch sum = .ok tranches := by
  obtain ⟨hlow, _⟩ := htimely.start
  obtain ⟨_, hfollowing⟩ := htimely.following
  have hfirst : Epoch.add (epoch + spec.initialDelay) spec.stepDuration =
      .ok (epoch + spec.initialDelay + spec.stepDuration) :=
    Epoch.add_of_representable ⟨by omega, by omega⟩
  obtain ⟨tranches, htranches⟩ : ∃ tranches,
    spec.tranchesFrom (epoch + spec.initialDelay) sum
      spec.stepCount (epoch + spec.initialDelay + spec.stepDuration) 0 = .ok tranches :=
    exists_tranchesFrom hstep (reach_stepCount hstep hperiod _) htimely rfl (Int.le_refl _)
  refine ⟨tranches, ?_⟩
  simp only [VestSpec.tranches, Epoch.add_of_representable htimely.start, hfirst, bind,
    Except.bind]
  exact htranches

end RewardVesting.VestSpec
