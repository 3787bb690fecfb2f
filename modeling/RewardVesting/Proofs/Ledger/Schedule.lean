import RewardVesting.Ledger.Schedule
import RewardVesting.Proofs.Epoch
import RewardVesting.Proofs.Ledger.Merge

namespace RewardVesting

namespace VestSpec

variable {spec : VestSpec} {sum : Int}

theorem vestedAfter_nonneg (hperiod : 0 < spec.vestPeriod) (hsum : 0 ≤ sum) {elapsed : Int}
    (helapsed : 0 ≤ elapsed) : 0 ≤ spec.vestedAfter sum elapsed := by
  rw [vestedAfter]
  split
  · exact Int.tdiv_nonneg (Int.mul_nonneg hsum helapsed) (Int.le_of_lt hperiod)
  · exact hsum

theorem vestedAfter_le (hperiod : 0 < spec.vestPeriod) (hsum : 0 ≤ sum) {elapsed : Int}
    (helapsed : 0 ≤ elapsed) : spec.vestedAfter sum elapsed ≤ sum := by
  rw [vestedAfter]
  split
  · rw [Int.tdiv_eq_ediv_of_nonneg (Int.mul_nonneg hsum helapsed)]
    refine Int.ediv_le_of_le_mul hperiod ?_
    exact Int.mul_le_mul_of_nonneg_left (by omega) hsum
  · exact Int.le_refl sum

theorem vestedAfter_mono (hperiod : 0 < spec.vestPeriod) (hsum : 0 ≤ sum)
    {earlier later : Int} (hearlier : 0 ≤ earlier) (hle : earlier ≤ later) :
    spec.vestedAfter sum earlier ≤ spec.vestedAfter sum later := by
  by_cases hlate : later < spec.vestPeriod
  · have hlater : 0 ≤ later := Int.le_trans hearlier hle
    rw [vestedAfter, vestedAfter, if_pos hlate, if_pos (Int.lt_of_le_of_lt hle hlate),
      Int.tdiv_eq_ediv_of_nonneg (Int.mul_nonneg hsum hearlier),
      Int.tdiv_eq_ediv_of_nonneg (Int.mul_nonneg hsum hlater)]
    exact Int.ediv_le_ediv hperiod (Int.mul_le_mul_of_nonneg_left hle hsum)
  · have hall : spec.vestedAfter sum later = sum := by rw [vestedAfter, if_neg hlate]
    rw [hall]
    exact vestedAfter_le hperiod hsum hearlier

theorem elapsed_lt_of_vestedAfter_lt {elapsed : Int}
    (hmore : spec.vestedAfter sum elapsed < sum) : elapsed < spec.vestPeriod := by
  refine Int.not_le.mp fun hpast => ?_
  rw [vestedAfter, if_neg (Int.not_lt.mpr hpast)] at hmore
  exact Int.lt_irrefl _ hmore

/-- What one step of a schedule does, if anything is left to vest. -/
theorem tranchesFrom_succ {start next vested : Int} {steps : Nat} {tranches : List Tranche}
    (htranches : spec.tranchesFrom start sum (steps + 1) next vested = .ok tranches) :
    (sum ≤ vested ∧ tranches = []) ∨
    ∃ epoch rest, vested < sum ∧ Epoch.roundUp next spec.quantization = .ok epoch ∧
      Epoch.Representable (epoch - start) ∧ Epoch.Representable (next + spec.stepDuration) ∧
      spec.tranchesFrom start sum steps (next + spec.stepDuration)
        (spec.vestedAfter sum (epoch - start)) = .ok rest ∧
      tranches = ⟨epoch, spec.vestedAfter sum (epoch - start) - vested⟩ :: rest := by
  rw [tranchesFrom] at htranches
  split at htranches
  · rename_i hleft
    cases hround : Epoch.roundUp next spec.quantization with
    | error fault => simp [hround, bind, Except.bind] at htranches
    | ok epoch =>
        cases hsub : Epoch.sub epoch start with
        | error fault => simp [hround, hsub, bind, Except.bind] at htranches
        | ok elapsed =>
            cases hadd : Epoch.add next spec.stepDuration with
            | error fault => simp [hround, hsub, hadd, bind, Except.bind] at htranches
            | ok following =>
                simp only [hround, hsub, hadd, bind, Except.bind] at htranches
                have helapsed := Epoch.representable_of_sub hsub
                have hfollowing := Epoch.representable_of_add hadd
                obtain rfl := Epoch.sub_eq_ok hsub
                obtain rfl := Epoch.add_eq_ok hadd
                split at htranches
                · cases htranches
                · rename_i rest hrest
                  cases htranches
                  exact .inr ⟨epoch, rest, hleft, rfl, helapsed, hfollowing, hrest, rfl⟩
  · cases htranches
    exact .inl ⟨by omega, rfl⟩

/-- Every tranche of a schedule lies at the first rounded epoch or later. -/
theorem le_of_mem_tranchesFrom (hstep : 0 < spec.stepDuration)
    {start next vested first : Int} {steps : Nat} {tranches : List Tranche}
    (htranches : spec.tranchesFrom start sum steps next vested = .ok tranches)
    (hfirst : Epoch.roundUp next spec.quantization = .ok first) :
    ∀ tranche ∈ tranches, first ≤ tranche.epoch := by
  induction steps generalizing next vested first tranches with
  | zero =>
      cases htranches
      exact nofun
  | succ steps ih =>
      obtain ⟨_, rfl⟩ | ⟨epoch, rest, _, hround, _, _, hrest, rfl⟩ :=
        tranchesFrom_succ htranches
      · exact nofun
      · cases hfirst.symm.trans hround
        refine List.forall_mem_cons.mpr ⟨Int.le_refl _, ?_⟩
        intro tranche hmem
        cases steps with
        | zero =>
            cases hrest
            exact absurd hmem List.not_mem_nil
        | succ steps =>
            obtain ⟨_, rfl⟩ | ⟨second, later, _, hsecond, _, _, _, rfl⟩ :=
              tranchesFrom_succ hrest
            · exact absurd hmem List.not_mem_nil
            · have hmono := Epoch.roundUp_mono (by omega) hround hsecond
              exact Int.le_trans hmono (ih hrest hsecond tranche hmem)

theorem rising_tranchesFrom (hstep : 0 < spec.stepDuration) {start next vested : Int}
    {steps : Nat} {tranches : List Tranche}
    (htranches : spec.tranchesFrom start sum steps next vested = .ok tranches) :
    tranches.Pairwise fun earlier later => earlier.epoch ≤ later.epoch := by
  induction steps generalizing next vested tranches with
  | zero =>
      cases htranches
      exact .nil
  | succ steps ih =>
      obtain ⟨_, rfl⟩ | ⟨epoch, rest, _, hround, _, _, hrest, rfl⟩ :=
        tranchesFrom_succ htranches
      · exact .nil
      · refine List.pairwise_cons.mpr ⟨?_, ih hrest⟩
        exact (List.forall_mem_cons.mp (le_of_mem_tranchesFrom hstep htranches hround)).2

/-- Each tranche brings the vested total further along the line. -/
theorem nonneg_tranchesFrom (hstep : 0 < spec.stepDuration) (hperiod : 0 < spec.vestPeriod)
    (hsum : 0 ≤ sum) {start next vested : Int} (hstart : start ≤ next) {steps : Nat}
    {tranches : List Tranche}
    (hvested : ∀ epoch, Epoch.roundUp next spec.quantization = .ok epoch →
      vested ≤ spec.vestedAfter sum (epoch - start))
    (htranches : spec.tranchesFrom start sum steps next vested = .ok tranches) :
    ∀ tranche ∈ tranches, 0 ≤ tranche.amount := by
  induction steps generalizing next vested tranches with
  | zero =>
      cases htranches
      exact nofun
  | succ steps ih =>
      obtain ⟨_, rfl⟩ | ⟨epoch, rest, _, hround, _, _, hrest, rfl⟩ :=
        tranchesFrom_succ htranches
      · exact nofun
      · have hreached := hvested epoch hround
        refine List.forall_mem_cons.mpr
          ⟨Int.sub_nonneg_of_le hreached, ih (by omega) ?_ hrest⟩
        intro following hfollowing
        have hlate := Epoch.le_of_roundUp hround
        have hmono := Epoch.roundUp_mono (by omega) hround hfollowing
        exact vestedAfter_mono hperiod hsum (by omega) (by omega)

/-- The steps that are left cover the period, or nothing is left to vest. -/
def Covered (spec : VestSpec) (start sum next vested : Int) (steps : Nat) : Prop :=
  vested = sum ∨ 0 < steps ∧
    start + spec.vestPeriod + spec.stepDuration ≤ next + steps * spec.stepDuration

theorem Covered.following {start next vested epoch : Int} {steps : Nat}
    (hcovered : spec.Covered start sum next vested (steps + 1)) (hleft : vested < sum)
    (hround : Epoch.roundUp next spec.quantization = .ok epoch) :
    spec.Covered start sum (next + spec.stepDuration) (spec.vestedAfter sum (epoch - start))
      steps := by
  obtain rfl | ⟨_, hreach⟩ := hcovered
  · exact absurd hleft (Int.lt_irrefl _)
  · rw [Int.natCast_add, Int.add_mul, Int.natCast_one, Int.one_mul] at hreach
    cases steps with
    | zero =>
        -- The last step is past the period.
        left
        have hlate := Epoch.le_of_roundUp hround
        rw [vestedAfter, if_neg (by omega)]
    | succ steps =>
        right
        exact ⟨Nat.succ_pos steps, by omega⟩

/-- If the steps that are left cover the period, then all that is left vests. -/
theorem sumOf_tranchesFrom (hperiod : 0 < spec.vestPeriod) (hsum : 0 ≤ sum)
    (hstep : 0 < spec.stepDuration) {start next vested : Int} (hstart : start ≤ next)
    {steps : Nat} {tranches : List Tranche} (hvested : vested ≤ sum)
    (hcovered : spec.Covered start sum next vested steps)
    (htranches : spec.tranchesFrom start sum steps next vested = .ok tranches) :
    Ledger.sumOf tranches = sum - vested := by
  induction steps generalizing next vested tranches with
  | zero =>
      obtain rfl | ⟨hnone, _⟩ := hcovered
      · cases htranches
        exact (Int.sub_self _).symm
      · exact absurd hnone (Nat.lt_irrefl 0)
  | succ steps ih =>
      obtain ⟨hdone, rfl⟩ | ⟨epoch, rest, hleft, hround, _, _, hrest, rfl⟩ :=
        tranchesFrom_succ htranches
      · rw [Ledger.sumOf_nil]
        omega
      · have hlate := Epoch.le_of_roundUp hround
        have htarget := vestedAfter_le hperiod hsum (show 0 ≤ epoch - start by omega)
        have htail := ih (by omega) htarget (hcovered.following hleft hround) hrest
        simp only [Ledger.sumOf_cons, htail]
        omega

theorem representable_tranchesFrom {start next vested : Int} {steps : Nat}
    {tranches : List Tranche} (hnext : Epoch.Representable next)
    (htranches : spec.tranchesFrom start sum steps next vested = .ok tranches) :
    ∀ tranche ∈ tranches, Epoch.Representable tranche.epoch := by
  induction steps generalizing next vested tranches with
  | zero =>
      cases htranches
      exact nofun
  | succ steps ih =>
      obtain ⟨_, rfl⟩ | ⟨epoch, rest, _, hround, _, hfollowing, hrest, rfl⟩ :=
        tranchesFrom_succ htranches
      · exact nofun
      · exact List.forall_mem_cons.mpr
          ⟨Epoch.representable_of_roundUp hnext hround, ih hfollowing hrest⟩

theorem overflows_of_tranchesFrom {start next vested : Int} {steps : Nat} {fault : Fault}
    (htranches : spec.tranchesFrom start sum steps next vested = .error fault) :
    Epoch.Overflows fault := by
  induction steps generalizing next vested with
  | zero => cases htranches
  | succ steps ih =>
      rw [tranchesFrom] at htranches
      split at htranches
      · cases hround : Epoch.roundUp next spec.quantization with
        | error fault =>
            simp only [hround, bind, Except.bind] at htranches
            cases htranches
            exact Epoch.overflows_of_roundUp hround
        | ok epoch =>
            cases hsub : Epoch.sub epoch start with
            | error fault =>
                simp only [hround, hsub, bind, Except.bind] at htranches
                cases htranches
                exact Epoch.overflows_of_sub hsub
            | ok elapsed =>
                cases hadd : Epoch.add next spec.stepDuration with
                | error fault =>
                    simp only [hround, hsub, hadd, bind, Except.bind] at htranches
                    cases htranches
                    exact Epoch.overflows_of_add hadd
                | ok following =>
                    simp only [hround, hsub, hadd, bind, Except.bind] at htranches
                    split at htranches
                    · rename_i hrest
                      cases htranches
                      exact ih hrest
                    · cases htranches
      · cases htranches

theorem stepCount_covers (hstep : 0 < spec.stepDuration) :
    spec.vestPeriod ≤ spec.stepCount * spec.stepDuration := by
  have hsplit :=
    Int.mul_ediv_add_emod (spec.vestPeriod + spec.stepDuration - 1) spec.stepDuration
  have hrest := Int.emod_lt_of_pos (spec.vestPeriod + spec.stepDuration - 1) hstep
  have hcount :=
    Int.self_le_toNat ((spec.vestPeriod + spec.stepDuration - 1) / spec.stepDuration)
  have hscaled := Int.mul_le_mul_of_nonneg_right hcount (Int.le_of_lt hstep)
  rw [Int.mul_comm] at hsplit
  rw [stepCount]
  omega

theorem covered_stepCount (hstep : 0 < spec.stepDuration) (hperiod : 0 < spec.vestPeriod)
    (start sum : Int) :
    spec.Covered start sum (start + spec.stepDuration) 0 spec.stepCount := by
  have hcovers := stepCount_covers hstep
  refine .inr ⟨Nat.pos_of_ne_zero fun hnone => ?_, by omega⟩
  rw [hnone] at hcovers
  omega

theorem tranches_eq_ok {epoch : Int} {tranches : List Tranche}
    (htranches : spec.tranches epoch sum = .ok tranches) :
    Epoch.Representable (epoch + spec.initialDelay + spec.stepDuration) ∧
      spec.tranchesFrom (epoch + spec.initialDelay) sum spec.stepCount
        (epoch + spec.initialDelay + spec.stepDuration) 0 = .ok tranches := by
  rw [VestSpec.tranches] at htranches
  cases hstart : Epoch.add epoch spec.initialDelay with
  | error fault => simp [hstart, bind, Except.bind] at htranches
  | ok start =>
      cases hfirst : Epoch.add start spec.stepDuration with
      | error fault => simp [hstart, hfirst, bind, Except.bind] at htranches
      | ok first =>
          have hrepresentable := Epoch.representable_of_add hfirst
          obtain rfl := Epoch.add_eq_ok hstart
          obtain rfl := Epoch.add_eq_ok hfirst
          exact ⟨hrepresentable, by simpa
            [hstart, hfirst, bind, Except.bind] using htranches⟩

theorem overflows_of_tranches {epoch : Int} {fault : Fault}
    (htranches : spec.tranches epoch sum = .error fault) : Epoch.Overflows fault := by
  rw [VestSpec.tranches] at htranches
  cases hstart : Epoch.add epoch spec.initialDelay with
  | error fault =>
      simp only [hstart, bind, Except.bind] at htranches
      cases htranches
      exact Epoch.overflows_of_add hstart
  | ok start =>
      cases hfirst : Epoch.add start spec.stepDuration with
      | error fault =>
          simp only [hstart, hfirst, bind, Except.bind] at htranches
          cases htranches
          exact Epoch.overflows_of_add hfirst
      | ok first =>
          simp only [hstart, hfirst, bind, Except.bind] at htranches
          exact overflows_of_tranchesFrom htranches

/-- What the schedule of a lock looks like. -/
structure Scheduled (spec : VestSpec) (epoch sum : Int) (tranches : List Tranche) :
    Prop where
  rising : tranches.Pairwise fun earlier later => earlier.epoch ≤ later.epoch
  nonneg : ∀ tranche ∈ tranches, 0 ≤ tranche.amount
  sumOf : Ledger.sumOf tranches = sum
  later : ∀ tranche ∈ tranches,
    epoch + spec.initialDelay + spec.stepDuration ≤ tranche.epoch
  representable : ∀ tranche ∈ tranches, Epoch.Representable tranche.epoch

theorem scheduled_of_tranches (hstep : 0 < spec.stepDuration)
    (hperiod : 0 < spec.vestPeriod) (hsum : 0 ≤ sum) {epoch : Int} {tranches : List Tranche}
    (htranches : spec.tranches epoch sum = .ok tranches) :
    Scheduled spec epoch sum tranches := by
  obtain ⟨hfirst, hfrom⟩ := tranches_eq_ok htranches
  constructor
  · exact rising_tranchesFrom hstep hfrom
  · refine nonneg_tranchesFrom hstep hperiod hsum (by omega) ?_ hfrom
    intro first hround
    have hreach := Epoch.le_of_roundUp hround
    exact vestedAfter_nonneg hperiod hsum (by omega)
  · rw [sumOf_tranchesFrom hperiod hsum hstep (by omega) hsum
      (covered_stepCount hstep hperiod _ _) hfrom, Int.sub_zero]
  · intro tranche hmem
    cases hcount : spec.stepCount with
    | zero =>
        rw [hcount] at hfrom
        cases hfrom
        exact absurd hmem List.not_mem_nil
    | succ steps =>
        rw [hcount] at hfrom
        obtain ⟨_, rfl⟩ | ⟨first, _, _, hround, _⟩ := tranchesFrom_succ hfrom
        · exact absurd hmem List.not_mem_nil
        · have hreach := Epoch.le_of_roundUp hround
          exact Int.le_trans hreach (le_of_mem_tranchesFrom hstep hfrom hround tranche hmem)
  · exact representable_tranchesFrom hfirst hfrom

end VestSpec

end RewardVesting
