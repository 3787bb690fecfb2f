import RewardVesting.Proofs.Ledger.Lock
import RewardVesting.Proofs.Ledger.WellFormed

namespace RewardVesting.Ledger

open RewardVesting.Action

/-- Everything that can be done with a ledger, at any epochs and in any order. -/
inductive Movement
  | lock (epoch amount : Int) (spec : VestSpec)
  | collectAndLock (epoch amount : Int) (spec : VestSpec)
  | sweep (epoch : Int)
  | forfeit (epoch target : Int)
  | withdraw (epoch requested : Int)
  deriving DecidableEq, Repr

namespace Movement

def epoch : Movement → Int
  | lock epoch _ _ | collectAndLock epoch _ _ => epoch
  | sweep epoch | forfeit epoch _ | withdraw epoch _ => epoch

/-- Gives up a part of the ledger and tells how much that is. -/
def release (give : Ledger → Ledger × Int) : Action Ledger LockRefusal Int := do
  let (remaining, released) := give (← Action.read)
  Action.write remaining
  return released

/-- Carries out a movement and tells what it returns, which for a lock is nothing. -/
def perform : Movement → Action Ledger LockRefusal Int
  | lock epoch amount spec => do
    Ledger.lock epoch amount spec
    return 0
  | collectAndLock epoch amount spec => do
    Ledger.collectAndLock epoch amount spec
    return 0
  | sweep epoch => release fun ledger => ledger.sweep epoch
  | forfeit epoch target => release fun ledger => ledger.forfeit epoch target
  | withdraw epoch requested => release fun ledger => ledger.withdraw epoch requested

/-- What a movement is to lock, and how; nothing for one that releases. -/
def lock? : Movement → Option (Int × VestSpec)
  | lock _ amount spec | collectAndLock _ amount spec => some (amount, spec)
  | sweep _ | forfeit _ _ | withdraw _ _ => none

end Movement

structure Posting where
  before : Ledger
  movement : Movement
  result : Except LockRefusal Int
  after : Ledger

namespace Posting

def locked (posting : Posting) : Int :=
  match posting.movement.lock?, posting.result with
  | some (amount, _), .ok _ => amount
  | _, _ => 0

def returned (posting : Posting) : Int :=
  match posting.movement.lock?, posting.result with
  | none, .ok released => released
  | _, _ => 0

/-- A lock adds its amount to the total, or it is refused and adds nothing.  What is
released, which is never refused, is taken from the total. -/
def Balanced (posting : Posting) : Prop :=
  match posting.movement.lock?, posting.result with
  | some (amount, spec), .ok _ =>
    (0 ≤ amount ∧ 0 < spec.stepDuration ∧ 0 < spec.vestPeriod) ∧
      posting.after.total = posting.before.total + amount
  | some (amount, spec), .error _ =>
    ¬(0 ≤ amount ∧ 0 < spec.stepDuration ∧ 0 < spec.vestPeriod) ∧
      posting.after.total = posting.before.total
  | none, .ok released =>
    0 ≤ released ∧ posting.after.total + released = posting.before.total
  | none, .error _ => False

end Posting

/-- Carries out movements one after another, also past those that are refused. -/
def recordAll : List Movement → Ledger → Except Fault (List Posting × Ledger)
  | [], ledger => .ok ([], ledger)
  | movement :: rest, ledger => do
    let (result, after) ← movement.perform ledger
    let (postings, last) ← recordAll rest after
    return (⟨ledger, movement, result, after⟩ :: postings, last)

def lockedBy (postings : List Posting) : Int :=
  postings.foldr (fun posting sum => posting.locked + sum) 0

def returnedBy (postings : List Posting) : Int :=
  postings.foldr (fun posting sum => posting.returned + sum) 0

variable {ledger after : Ledger} {epoch amount : Int} {spec : VestSpec}

theorem recordAll_cons {movement : Movement} {rest : List Movement}
    {postings : List Posting} {last : Ledger}
    (hrecord : recordAll (movement :: rest) ledger = .ok (postings, last)) :
    ∃ result after later, movement.perform.Ends ledger result after ∧
      recordAll rest after = .ok (later, last) ∧
      postings = ⟨ledger, movement, result, after⟩ :: later := by
  rw [recordAll] at hrecord
  cases hperform : movement.perform ledger with
  | error fault => simp [hperform, bind, Except.bind] at hrecord
  | ok ending =>
      obtain ⟨result, after⟩ := ending
      cases hrest : recordAll rest after with
      | error fault => simp [hperform, hrest, bind, Except.bind] at hrecord
      | ok recorded =>
          simp only [hperform, hrest, bind, Except.bind] at hrecord
          cases hrecord
          exact ⟨result, after, recorded.1, hperform, hrest, rfl⟩

theorem faults_lock {fault : Fault}
    (hfaults : (Ledger.lock epoch amount spec).Faults ledger fault) :
    Epoch.Overflows fault := by
  simp only [Ledger.lock, faults_bind, not_faults_require, not_faults_modify,
    faults_checked, and_false, exists_false, false_or, or_false] at hfaults
  obtain ⟨_, _, _, _, _, _, htranches⟩ := hfaults
  exact VestSpec.overflows_of_tranches htranches

theorem not_faults_release (give : Ledger → Ledger × Int) {fault : Fault} :
    ¬(Movement.release give).Faults ledger fault := by
  simp [Movement.release, faults_bind]

theorem faults_perform {movement : Movement} {fault : Fault}
    (hfaults : movement.perform.Faults ledger fault) : Epoch.Overflows fault := by
  cases movement with
  | lock epoch amount spec =>
      simp only [Movement.perform, faults_bind, not_faults_pure, and_false, exists_false,
        or_false] at hfaults
      exact faults_lock hfaults
  | collectAndLock epoch amount spec =>
      simp only [Movement.perform, collectAndLock, faults_bind, not_faults_pure,
        not_faults_modify, and_false, exists_false, false_or, or_false] at hfaults
      obtain ⟨_, _, _, hlock⟩ := hfaults
      exact faults_lock hlock
  | sweep epoch =>
      exact absurd hfaults (not_faults_release fun ledger => ledger.sweep epoch)
  | forfeit epoch target =>
      exact absurd hfaults (not_faults_release fun ledger => ledger.forfeit epoch target)
  | withdraw epoch requested =>
      exact absurd hfaults (not_faults_release fun ledger =>
        ledger.withdraw epoch requested)

theorem overflows_of_recordAll {movements : List Movement} {fault : Fault}
    (hrecord : recordAll movements ledger = .error fault) : Epoch.Overflows fault := by
  induction movements generalizing ledger with
  | nil => cases hrecord
  | cons movement rest ih =>
      rw [recordAll] at hrecord
      cases hperform : movement.perform ledger with
      | error fault =>
          simp only [hperform, bind, Except.bind] at hrecord
          cases hrecord
          exact faults_perform hperform
      | ok ending =>
          obtain ⟨result, after⟩ := ending
          cases hrest : recordAll rest after with
          | error fault =>
              simp only [hperform, hrest, bind, Except.bind] at hrecord
              cases hrecord
              exact ih hrest
          | ok recorded =>
              simp only [hperform, hrest, bind, Except.bind] at hrecord
              cases hrecord

theorem WellFormed.lock (hformed : ledger.WellFormed) {result : Except LockRefusal Unit}
    (hends : (Ledger.lock epoch amount spec).Ends ledger result after) :
    after.WellFormed ∧
      match result with
      | .ok _ => (0 ≤ amount ∧ 0 < spec.stepDuration ∧ 0 < spec.vestPeriod) ∧
        after.total = ledger.total + amount
      | .error _ => ¬(0 ≤ amount ∧ 0 < spec.stepDuration ∧ 0 < spec.vestPeriod) ∧
        after.total = ledger.total := by
  cases result with
  | ok answer =>
      obtain ⟨⟨hamount, hstep, hperiod⟩, additions, hadditions, rfl⟩ := yields_lock.mp hends
      have hscheduled := VestSpec.scheduled_of_tranches hstep hperiod hamount hadditions
      refine ⟨hformed.merge hscheduled.rising hscheduled.nonneg,
        ⟨hamount, hstep, hperiod⟩, ?_⟩
      have hmerge := lockedTotal_merge ledger additions
      rw [hscheduled.sumOf] at hmerge
      rw [total, total, hmerge, merge_unlocked]
      omega
  | error cause =>
      obtain ⟨rfl, hunlawful⟩ := unlawful_of_refuses_lock hends
      exact ⟨hformed, hunlawful, rfl⟩

section Perform

variable {movement : Movement} {result : Except LockRefusal Int}

theorem balanced_lock (hmovement : movement.lock? = some (amount, spec)) {start : Ledger}
    (hstart : start.WellFormed) (htotal : start.total = ledger.total)
    (hends :
      (do Ledger.lock epoch amount spec; return 0 : Action Ledger LockRefusal Int).Ends
        start result after) :
    after.WellFormed ∧ Posting.Balanced ⟨ledger, movement, result, after⟩ := by
  rw [Posting.Balanced, hmovement, ← htotal]
  cases result with
  | ok answer =>
      obtain ⟨_, _, hlock, hanswer⟩ := yields_bind.mp hends
      obtain ⟨rfl, rfl⟩ := yields_pure.mp hanswer
      exact hstart.lock hlock
  | error cause =>
      obtain hlock | ⟨_, _, _, hanswer⟩ := refuses_bind.mp hends
      · exact hstart.lock hlock
      · exact absurd hanswer not_refuses_pure

theorem balanced_release (give : Ledger → Ledger × Int) (hmovement : movement.lock? = none)
    (hleft : (give ledger).1.WellFormed) (hreleased : 0 ≤ (give ledger).2)
    (htotal : (give ledger).1.total + (give ledger).2 = ledger.total)
    (hends : (Movement.release give).Ends ledger result after) :
    after.WellFormed ∧ Posting.Balanced ⟨ledger, movement, result, after⟩ := by
  cases hends
  rw [Posting.Balanced, hmovement]
  exact ⟨hleft, hreleased, htotal⟩

theorem balanced_perform (hformed : ledger.WellFormed)
    (hends : movement.perform.Ends ledger result after) :
    after.WellFormed ∧ Posting.Balanced ⟨ledger, movement, result, after⟩ := by
  cases movement with
  | lock epoch amount spec => exact balanced_lock rfl hformed rfl hends
  | collectAndLock epoch amount spec =>
      -- What is collected first stays in the total, also when the lock is refused.
      exact balanced_lock rfl (hformed.collect epoch) (ledger.total_collect epoch) hends
  | sweep epoch =>
      exact balanced_release (fun ledger => ledger.sweep epoch) rfl (hformed.sweep epoch)
        (hformed.released_nonneg epoch) (ledger.total_sweep epoch) hends
  | forfeit epoch target =>
      exact balanced_release (fun ledger => ledger.forfeit epoch target) rfl
        (hformed.forfeit epoch target) (hformed.forfeited_nonneg epoch target)
        (ledger.total_forfeit epoch target) hends
  | withdraw epoch requested =>
      exact balanced_release (fun ledger => ledger.withdraw epoch requested) rfl
        (hformed.withdraw epoch requested) (hformed.paid_nonneg epoch requested)
        (ledger.total_withdraw epoch requested) hends

end Perform

namespace Posting

variable {posting : Posting}

theorem Balanced.total_after (hbalanced : posting.Balanced) :
    posting.after.total + posting.returned = posting.before.total + posting.locked := by
  rw [Balanced] at hbalanced
  rw [returned, locked]
  split at hbalanced
  · rename_i hlock hresult
    simp only [hlock, hresult]
    omega
  · rename_i hlock hresult
    simp only [hlock, hresult]
    omega
  · rename_i hlock hresult
    simp only [hlock, hresult]
    omega
  · exact hbalanced.elim

theorem Balanced.returned_nonneg (hbalanced : posting.Balanced) : 0 ≤ posting.returned := by
  rw [Balanced] at hbalanced
  rw [returned]
  split at hbalanced
  · rename_i hlock hresult
    simp only [hlock, hresult, Int.le_refl]
  · rename_i hlock hresult
    simp only [hlock, hresult, Int.le_refl]
  · rename_i hlock hresult
    simp only [hlock, hresult, hbalanced.1]
  · exact hbalanced.elim

end Posting

/-- What a run of movements leaves of a well-formed ledger. -/
structure Conserved (ledger : Ledger) (movements : List Movement) (postings : List Posting)
    (last : Ledger) : Prop where
  complete : postings.map Posting.movement = movements
  formed : last.WellFormed
  each : ∀ posting ∈ postings,
    posting.before.WellFormed ∧ posting.after.WellFormed ∧ posting.Balanced
  returned_nonneg : ∀ posting ∈ postings, 0 ≤ posting.returned
  total : last.total + returnedBy postings = ledger.total + lockedBy postings

theorem conserved_of_recordAll (hformed : ledger.WellFormed) {movements : List Movement}
    {postings : List Posting} {last : Ledger}
    (hrecord : recordAll movements ledger = .ok (postings, last)) :
    Conserved ledger movements postings last := by
  induction movements generalizing ledger postings with
  | nil =>
      cases hrecord
      exact ⟨rfl, hformed, List.forall_mem_nil _, List.forall_mem_nil _, rfl⟩
  | cons movement rest ih =>
      obtain ⟨result, after, later, hends, hrest, rfl⟩ := recordAll_cons hrecord
      obtain ⟨hafter, hbalanced⟩ := balanced_perform hformed hends
      obtain ⟨hcomplete, hlast, heach, hreturned, htotal⟩ := ih hafter hrest
      have hfirst := hbalanced.total_after
      refine ⟨congrArg (movement :: ·) hcomplete, hlast,
        List.forall_mem_cons.mpr ⟨⟨hformed, hafter, hbalanced⟩, heach⟩,
        List.forall_mem_cons.mpr ⟨hbalanced.returned_nonneg, hreturned⟩, ?_⟩
      simp only [lockedBy, returnedBy, List.foldr_cons] at htotal hfirst ⊢
      omega

/-- Whatever is done with a well-formed ledger while epochs stay in range, it remains well
formed, and what it holds and has returned is what it held and has locked. -/
theorem conserved_of_movements {movements : List Movement} (hformed : ledger.WellFormed)
    (hrange : ∀ fault, recordAll movements ledger = .error fault → ¬Epoch.Overflows fault) :
    ∃ postings last, recordAll movements ledger = .ok (postings, last) ∧
      Conserved ledger movements postings last := by
  cases hrecord : recordAll movements ledger with
  | error fault => exact absurd (overflows_of_recordAll hrecord) (hrange fault hrecord)
  | ok recorded =>
      obtain ⟨postings, last⟩ := recorded
      exact ⟨postings, last, rfl, conserved_of_recordAll hformed hrecord⟩

def sharedSchedule : VestSpec :=
  { initialDelay := 2, vestPeriod := 10, stepDuration := 3, quantization := 5 }

def mixedMovements : List Movement :=
  [.collectAndLock 0 100 sharedSchedule, .lock 9 31 sharedSchedule, .sweep 6,
    .lock 3 (-1) sharedSchedule, .forfeit 8 70,
    .collectAndLock 16 7 { sharedSchedule with stepDuration := 0 }, .withdraw 2 5,
    .withdraw 21 1000]

theorem mixedMovements_run :
    (recordAll mixedMovements .empty).toOption.map (fun (postings, last) =>
      (last, lockedBy postings, returnedBy postings)) =
        some (⟨[⟨25, 4⟩], 0⟩, 131, 127) := by
  decide +kernel

theorem conserved_of_movements_mixed :
    ∃ postings last, recordAll mixedMovements .empty = .ok (postings, last) ∧
      Conserved .empty mixedMovements postings last ∧
      last = ⟨[⟨25, 4⟩], 0⟩ ∧ lockedBy postings = 131 ∧ returnedBy postings = 127 := by
  have hformed : (empty : Ledger).WellFormed := ⟨.nil, nofun, Int.le_refl 0⟩
  have hrun := mixedMovements_run
  have hrange : ∀ fault, recordAll mixedMovements .empty = .error fault →
      ¬Epoch.Overflows fault := by
    intro fault hfault
    rw [hfault] at hrun
    cases hrun
  obtain ⟨postings, last, hrecord, hconserved⟩ := conserved_of_movements hformed hrange
  rw [hrecord] at hrun
  simp only [Except.toOption, Option.map_some, Option.some.injEq, Prod.mk.injEq] at hrun
  exact ⟨postings, last, hrecord, hconserved, hrun⟩

end RewardVesting.Ledger
