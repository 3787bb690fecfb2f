import RewardVesting.Proofs.Ledger.Conservation
import RewardVesting.Proofs.Ledger.Vested

namespace RewardVesting.Ledger

open RewardVesting.Action

variable {ledger : Ledger} {spec : VestSpec}

theorem available_eq (ledger : Ledger) (epoch : Int) :
    ledger.available epoch =
      ledger.unlocked + sumWhere (fun other => other < epoch) ledger.tranches := rfl

theorem available_sweep {earlier epoch : Int} (hle : earlier ≤ epoch) (ledger : Ledger) :
    (ledger.sweep earlier).1.available epoch + (ledger.sweep earlier).2 =
      ledger.available epoch := by
  have hsplit := congrArg (sumWhere fun other => other < epoch)
    (List.takeWhile_append_dropWhile (p := fun tranche : Tranche => tranche.epoch < earlier)
      (l := ledger.tranches))
  have htaken : (ledger.tranches.takeWhile fun tranche => tranche.epoch < earlier).filter
      (fun tranche => tranche.epoch < epoch) =
        ledger.tranches.takeWhile fun tranche => tranche.epoch < earlier := by
    apply List.filter_eq_self.mpr
    intro tranche hmem
    have hlt := lt_of_mem_takeWhile tranche hmem
    rw [decide_eq_true_eq]
    omega
  rw [sumWhere_append, sumWhere, htaken] at hsplit
  rw [available_eq, available_eq]
  simp only [sweep]
  omega

theorem available_collect {earlier epoch : Int} (hle : earlier ≤ epoch) (ledger : Ledger) :
    (ledger.collect earlier).available epoch = ledger.available epoch := by
  have hsweep := available_sweep hle ledger
  rw [available_eq] at hsweep ⊢
  simp only [collect]
  omega

theorem available_merge (ledger : Ledger) (additions : List Tranche) (epoch : Int) :
    (ledger.merge additions).available epoch =
      ledger.available epoch + sumWhere (fun other => other < epoch) additions := by
  rw [available_eq, available_eq, sumWhere_merge, merge_unlocked]
  omega

theorem available_withdraw {earlier epoch : Int} (hle : earlier ≤ epoch) (ledger : Ledger)
    (requested : Int) :
    (ledger.withdraw earlier requested).1.available epoch +
      (ledger.withdraw earlier requested).2 = ledger.available epoch := by
  rw [withdraw]
  split
  · exact Int.add_zero _
  · have hcollect := available_collect hle ledger
    rw [available_eq] at hcollect ⊢
    dsimp only
    omega

namespace Movement

/-- A lawful lock, or a release of no more than has vested. -/
def Regular : Movement → Prop
  | lock _ amount spec | collectAndLock _ amount spec =>
    0 ≤ amount ∧ 0 < spec.stepDuration ∧ 0 < spec.vestPeriod
  | sweep _ | withdraw _ _ => True
  | forfeit _ _ => False

/-- What a movement locks that has vested by an epoch. -/
def vestedBy (epoch : Int) : Movement → Int
  | lock locked amount spec | collectAndLock locked amount spec =>
    spec.vestedBy locked amount epoch
  | sweep _ | forfeit _ _ | withdraw _ _ => 0

end Movement

def allVestedBy (epoch : Int) (movements : List Movement) : Int :=
  movements.foldr (fun movement sum => movement.vestedBy epoch + sum) 0

section Runs

variable {epoch : Int} {after : Ledger} {movement : Movement}
  {result : Except LockRefusal Int}

theorem available_lock {start : Ledger} {locked amount : Int}
    (hregular : 0 ≤ amount ∧ 0 < spec.stepDuration ∧ 0 < spec.vestPeriod)
    (hstart : start.available epoch = ledger.available epoch)
    (hends :
      (do Ledger.lock locked amount spec; return 0 : Action Ledger LockRefusal Int).Ends
        start result after) :
    result = .ok 0 ∧
      after.available epoch = ledger.available epoch +
        spec.vestedBy locked amount epoch := by
  obtain ⟨hamount, hstep, hperiod⟩ := hregular
  cases result with
  | ok answer =>
      obtain ⟨_, _, hlock, hanswer⟩ := yields_bind.mp hends
      obtain ⟨rfl, rfl⟩ := yields_pure.mp hanswer
      obtain ⟨_, additions, hadditions, rfl⟩ := yields_lock.mp hlock
      have hadded := VestSpec.sumWhere_tranches hstep hperiod hamount hadditions epoch
      rw [available_merge, hstart, hadded]
      exact ⟨rfl, rfl⟩
  | error cause =>
      obtain hlock | ⟨_, _, _, hanswer⟩ := refuses_bind.mp hends
      · exact absurd hlock (not_refuses_lock hstep hperiod hamount)
      · exact absurd hanswer not_refuses_pure

/-- One movement adds what it locks that vests by `epoch`, and takes away what it
returns. -/
theorem available_perform (hregular : movement.Regular) (hle : movement.epoch ≤ epoch)
    (hends : movement.perform.Ends ledger result after) :
    (∃ returned, result = .ok returned) ∧
      after.available epoch + (Posting.mk ledger movement result after).returned =
        ledger.available epoch + movement.vestedBy epoch := by
  cases movement with
  | lock locked amount spec =>
      obtain ⟨rfl, havailable⟩ := available_lock hregular rfl hends
      exact ⟨⟨0, rfl⟩, (Int.add_zero _).trans havailable⟩
  | collectAndLock locked amount spec =>
      obtain ⟨rfl, havailable⟩ :=
        available_lock hregular (available_collect hle ledger) hends
      exact ⟨⟨0, rfl⟩, (Int.add_zero _).trans havailable⟩
  | sweep earlier =>
      cases hends
      exact ⟨⟨_, rfl⟩, (available_sweep hle ledger).trans (Int.add_zero _).symm⟩
  | forfeit earlier target => exact hregular.elim
  | withdraw earlier requested =>
      cases hends
      exact ⟨⟨_, rfl⟩, (available_withdraw hle ledger requested).trans
        (Int.add_zero _).symm⟩

theorem accepted_of_recordAll {movements : List Movement} {postings : List Posting}
    {last : Ledger} (hregular : ∀ movement ∈ movements, movement.Regular)
    (hrecord : recordAll movements ledger = .ok (postings, last)) :
    ∀ posting ∈ postings, ∃ returned, posting.result = .ok returned := by
  induction movements generalizing ledger postings with
  | nil =>
      cases hrecord
      exact List.forall_mem_nil _
  | cons movement rest ih =>
      obtain ⟨result, after, later, hends, hrest, rfl⟩ := recordAll_cons hrecord
      obtain ⟨hfirst, hothers⟩ := List.forall_mem_cons.mp hregular
      exact List.forall_mem_cons.mpr
        ⟨(available_perform hfirst (Int.le_refl _) hends).1, ih hothers hrest⟩

/-- A whole run adds what its locks vest and takes away what it returns. -/
theorem available_recordAll {movements : List Movement} {postings : List Posting}
    {last : Ledger} (hregular : ∀ movement ∈ movements, movement.Regular)
    (hle : ∀ movement ∈ movements, movement.epoch ≤ epoch)
    (hrecord : recordAll movements ledger = .ok (postings, last)) :
    last.available epoch + returnedBy postings =
      ledger.available epoch + allVestedBy epoch movements := by
  induction movements generalizing ledger postings with
  | nil =>
      cases hrecord
      rfl
  | cons movement rest ih =>
      obtain ⟨result, after, later, hends, hrest, rfl⟩ := recordAll_cons hrecord
      obtain ⟨hfirst, hothers⟩ := List.forall_mem_cons.mp hregular
      obtain ⟨hearly, hlate⟩ := List.forall_mem_cons.mp hle
      obtain ⟨_, hnow⟩ := available_perform hfirst hearly hends
      have hlater := ih hothers hlate hrest
      simp only [returnedBy, allVestedBy, List.foldr_cons] at hlater hnow ⊢
      omega

end Runs

/-- However the movements of an empty ledger are timed, what is available once all of them
are past is what their locks have vested by then, less what has been returned. -/
theorem available_of_run {movements : List Movement}
    (hregular : ∀ movement ∈ movements, movement.Regular)
    (hrange : ∀ fault, recordAll movements .empty = .error fault → ¬Epoch.Overflows fault) :
    ∃ postings last, recordAll movements .empty = .ok (postings, last) ∧
      postings.map Posting.movement = movements ∧
      (∀ posting ∈ postings, ∃ returned, posting.result = .ok returned) ∧
      ∀ epoch, (∀ movement ∈ movements, movement.epoch ≤ epoch) →
        last.available epoch = allVestedBy epoch movements - returnedBy postings := by
  obtain ⟨postings, last, hrecord, hconserved⟩ :=
    conserved_of_movements wellFormed_empty hrange
  refine ⟨postings, last, hrecord, hconserved.complete,
    accepted_of_recordAll hregular hrecord, ?_⟩
  intro epoch hle
  have hrun := available_recordAll hregular hle hrecord
  have hempty : (empty : Ledger).available epoch = 0 := rfl
  omega

def sharedMovements : List Movement :=
  [.collectAndLock 0 100 sharedSchedule, .withdraw 7 20,
    .collectAndLock 7 31 sharedSchedule, .withdraw 12 1000, .withdraw 16 5]

theorem sharedMovements_run :
    (recordAll sharedMovements .empty).toOption.map (fun (postings, last) =>
      (last, returnedBy postings)) = some (⟨[⟨20, 13⟩], 33⟩, 85) := by
  decide +kernel

theorem available_of_run_shared :
    (∀ movement ∈ sharedMovements, movement.Regular) ∧
      (∀ movement ∈ sharedMovements, movement.epoch ≤ 18) ∧
      ∃ postings, recordAll sharedMovements .empty = .ok (postings, ⟨[⟨20, 13⟩], 33⟩) ∧
        returnedBy postings = 85 ∧
        (⟨[⟨20, 13⟩], 33⟩ : Ledger).available 18 = allVestedBy 18 sharedMovements - 85 ∧
        allVestedBy 18 sharedMovements = 118 := by
  have hregular : ∀ movement ∈ sharedMovements, movement.Regular := by
    simp [sharedMovements, Movement.Regular, sharedSchedule]
  have hpast : ∀ movement ∈ sharedMovements, movement.epoch ≤ 18 := by decide
  have hrun := sharedMovements_run
  have hrange : ∀ fault, recordAll sharedMovements .empty = .error fault →
      ¬Epoch.Overflows fault := by
    intro fault hfault
    rw [hfault] at hrun
    cases hrun
  obtain ⟨postings, last, hrecord, _, _, havailable⟩ := available_of_run hregular hrange
  rw [hrecord] at hrun
  simp only [Except.toOption, Option.map_some, Option.some.injEq, Prod.mk.injEq] at hrun
  obtain ⟨rfl, hreturned⟩ := hrun
  exact ⟨hregular, hpast, postings, hrecord, hreturned, hreturned ▸ havailable 18 hpast,
    by decide +kernel⟩

end RewardVesting.Ledger
