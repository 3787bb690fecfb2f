import RewardVesting.Proofs.Ledger.Conservation
import RewardVesting.Proofs.Ledger.Forfeiture
import RewardVesting.Proofs.Ledger.Reach

namespace RewardVesting

/-- How far the tranches of a lock may lie from its epoch. -/
def VestSpec.span (spec : VestSpec) : Int :=
  spec.initialDelay + spec.vestPeriod + spec.stepDuration + spec.quantization - 2

namespace Ledger

open RewardVesting.Action

/-- A movement that follows a schedule if it locks, and then collects first. -/
def Movement.Follows (spec : VestSpec) : Movement → Prop
  | lock _ _ _ => False
  | collectAndLock _ _ other => other = spec
  | sweep _ | forfeit _ _ | withdraw _ _ => True

/-- Tranches at multiples of a unit are no more than the multiples that they lie between. -/
theorem length_le_of_multiples {tranches : List Tranche} {unit width : Int}
    (hunit : 0 < unit) (hwidth : 0 ≤ width)
    (hordered : tranches.Pairwise fun earlier later => earlier.epoch < later.epoch)
    (hmultiples : ∀ tranche ∈ tranches, unit ∣ tranche.epoch)
    (hapart : ∀ first ∈ tranches, ∀ last ∈ tranches, last.epoch ≤ first.epoch + width) :
    (tranches.length : Int) ≤ width / unit + 1 := by
  have hcount : 0 ≤ width / unit := Int.ediv_nonneg hwidth (Int.le_of_lt hunit)
  cases tranches with
  | nil =>
      rw [List.length_nil]
      omega
  | cons head rest =>
      have hmul : ∀ tranche ∈ head :: rest, tranche.epoch / unit * unit = tranche.epoch :=
        fun tranche hmem => Int.ediv_mul_cancel (hmultiples tranche hmem)
      have hhead : ∀ tranche ∈ head :: rest, head.epoch ≤ tranche.epoch :=
        List.forall_mem_cons.mpr ⟨Int.le_refl _, fun tranche hmem =>
          Int.le_of_lt ((List.pairwise_cons.mp hordered).1 tranche hmem)⟩
      -- The quotients are epochs of a table without gaps.
      let quotients := (head :: rest).map fun tranche => Tranche.mk (tranche.epoch / unit) 0
      have hrising : quotients.Pairwise fun earlier later =>
        earlier.epoch < later.epoch := by
        refine List.pairwise_map.mpr
          (hordered.imp_of_mem fun {first second} hfirst hsecond hlt => ?_)
        have hscaled : first.epoch / unit * unit < second.epoch / unit * unit := by
          rw [hmul first hfirst, hmul second hsecond]
          exact hlt
        exact Int.lt_of_mul_lt_mul_right hscaled (Int.le_of_lt hunit)
      have hwithin : ∀ quotient ∈ quotients, head.epoch / unit ≤ quotient.epoch ∧
          quotient.epoch ≤ head.epoch / unit + width / unit := by
        refine List.forall_mem_map.mpr fun tranche hmem => ?_
        have hbound := hapart head List.mem_cons_self tranche hmem
        refine ⟨Int.ediv_le_ediv hunit (hhead tranche hmem), ?_⟩
        have hrest : (tranche.epoch / unit - head.epoch / unit) * unit ≤ width := by
          rw [Int.sub_mul, hmul tranche hmem, hmul head List.mem_cons_self]
          omega
        have hquotient := (Int.le_ediv_iff_mul_le hunit).mpr hrest
        dsimp only
        omega
      have hlength := length_le_of_ordered hrising hwithin (by omega)
      rw [List.length_map] at hlength
      omega

structure Compact (spec : VestSpec) (now : Int) (ledger : Ledger) : Prop where
  formed : ledger.WellFormed
  multiples : ∀ tranche ∈ ledger.tranches, spec.quantization ∣ tranche.epoch
  reach : ∀ tranche ∈ ledger.tranches, tranche.epoch ≤ now + spec.span
  apart : ∀ first ∈ ledger.tranches, ∀ last ∈ ledger.tranches,
    last.epoch ≤ first.epoch + spec.span

variable {ledger after : Ledger} {spec : VestSpec} {now epoch amount : Int}

theorem compact_empty (spec : VestSpec) (now : Int) : Compact spec now .empty :=
  ⟨wellFormed_empty, nofun, nofun, nofun⟩

theorem compact_of_within (hformed : ledger.WellFormed)
    (hwithin : ∀ tranche ∈ ledger.tranches, spec.quantization ∣ tranche.epoch ∧
      epoch ≤ tranche.epoch ∧ tranche.epoch ≤ epoch + spec.span) :
        Compact spec epoch ledger where
  formed := hformed
  multiples tranche hmem := (hwithin tranche hmem).1
  reach tranche hmem := (hwithin tranche hmem).2.2
  apart first hfirst last hlast := by
    have hlow := (hwithin first hfirst).2.1
    have hhigh := (hwithin last hlast).2.2
    omega

namespace Compact

theorem length_le (hcompact : Compact spec now ledger) (hunit : 0 < spec.quantization)
    (hspan : 0 ≤ spec.span) :
    (ledger.tranches.length : Int) ≤ spec.span / spec.quantization + 1 :=
  length_le_of_multiples hunit hspan hcompact.formed.ordered hcompact.multiples
    hcompact.apart

/-- What is left of a compact table at any later epoch is compact. -/
theorem kept (hcompact : Compact spec now ledger) (hle : now ≤ epoch)
    (hformed : after.WellFormed)
    (hkept : ∀ tranche ∈ after.tranches, ∃ old ∈ ledger.tranches,
      old.epoch = tranche.epoch) :
    Compact spec epoch after where
  formed := hformed
  multiples tranche hmem := by
    obtain ⟨old, hold, hsame⟩ := hkept tranche hmem
    exact hsame ▸ hcompact.multiples old hold
  reach tranche hmem := by
    obtain ⟨old, hold, hsame⟩ := hkept tranche hmem
    have hreach := hcompact.reach old hold
    omega
  apart first hfirst last hlast := by
    obtain ⟨low, hlow, hfirstSame⟩ := hkept first hfirst
    obtain ⟨high, hhigh, hlastSame⟩ := hkept last hlast
    have hapart := hcompact.apart low hlow high hhigh
    omega

theorem collect (hcompact : Compact spec now ledger) (hle : now ≤ epoch) :
    (ledger.collect epoch).WellFormed ∧ ∀ tranche ∈ (ledger.collect epoch).tranches,
      spec.quantization ∣ tranche.epoch ∧ epoch ≤ tranche.epoch ∧
        tranche.epoch ≤ epoch + spec.span := by
  refine ⟨hcompact.formed.collect epoch, fun tranche hmem => ?_⟩
  have hold : tranche ∈ ledger.tranches := List.dropWhile_subset _ hmem
  have hreach := hcompact.reach tranche hold
  exact ⟨hcompact.multiples tranche hold,
    le_of_mem_dropWhile hcompact.formed.ordered tranche hmem, by omega⟩

/-- A lock stays on the grid and within its span, and what has been collected before it
makes room. -/
theorem lock (hcompact : Compact spec now ledger) (hle : now ≤ epoch)
    (hdelay : 0 ≤ spec.initialDelay) (hunit : 1 < spec.quantization)
    {result : Except LockRefusal Unit}
    (hends : (collectAndLock epoch amount spec).Ends ledger result after) :
    Compact spec epoch after := by
  obtain ⟨hformed, hwithin⟩ := hcompact.collect hle
  rw [ends_collectAndLock] at hends
  cases result with
  | ok answer =>
      obtain ⟨⟨hamount, hstep, hperiod⟩, additions, hadditions, rfl⟩ := yields_lock.mp hends
      have hscheduled := VestSpec.scheduled_of_tranches hstep hperiod hamount hadditions
      obtain ⟨_, hfrom⟩ := VestSpec.tranches_eq_ok hadditions
      have hmultiples := VestSpec.dvd_of_mem_tranchesFrom hunit hfrom
      have hreach := VestSpec.le_reach_of_mem_tranchesFrom (by omega) hfrom
      have hquantum : spec.quantum = spec.quantization :=
        Int.max_eq_left (Int.le_of_lt hunit)
      refine compact_of_within (hformed.merge hscheduled.rising hscheduled.nonneg)
        (hformed.forall_mem_merge (fun _ _ _ hfirst _ => hfirst) hwithin ?_)
      intro addition hmem
      have hlow := hscheduled.later addition hmem
      have hhigh := hreach addition hmem
      rw [VestSpec.span]
      exact ⟨hmultiples addition hmem, by omega, by omega⟩
  | error cause =>
      obtain ⟨rfl, _⟩ := refuses_lock.mp hends
      exact compact_of_within hformed hwithin

end Compact

theorem mem_of_mem_withdraw {requested : Int} {tranche : Tranche}
    (hmem : tranche ∈ (ledger.withdraw epoch requested).1.tranches) :
    tranche ∈ ledger.tranches := by
  rw [withdraw] at hmem
  split at hmem
  · exact hmem
  · exact List.dropWhile_subset _ hmem

section Runs

variable (hdelay : 0 ≤ spec.initialDelay) (hunit : 1 < spec.quantization)

include hdelay hunit

theorem compact_perform {movement : Movement} {result : Except LockRefusal Int}
    (hcompact : Compact spec now ledger) (hle : now ≤ movement.epoch)
    (hfollows : movement.Follows spec) (hends : movement.perform.Ends ledger result after) :
    Compact spec movement.epoch after := by
  have hformed := (balanced_perform hcompact.formed hends).1
  cases movement with
  | lock epoch amount other => exact hfollows.elim
  | collectAndLock epoch amount other =>
      obtain rfl : other = spec := hfollows
      cases result with
      | ok answer =>
          obtain ⟨_, _, hlock, hanswer⟩ := yields_bind.mp hends
          obtain ⟨_, rfl⟩ := yields_pure.mp hanswer
          exact hcompact.lock hle hdelay hunit hlock
      | error cause =>
          obtain hlock | ⟨_, _, _, hanswer⟩ := refuses_bind.mp hends
          · exact hcompact.lock hle hdelay hunit hlock
          · exact absurd hanswer not_refuses_pure
  | sweep epoch =>
      cases hends
      exact hcompact.kept hle hformed fun tranche hmem =>
        ⟨tranche, List.dropWhile_subset _ hmem, rfl⟩
  | forfeit epoch target =>
      cases hends
      refine hcompact.kept hle hformed fun tranche hmem => ?_
      obtain ⟨old, hold, hsame, _⟩ := exists_of_mem_forfeit hmem
      exact ⟨old, hold, hsame⟩
  | withdraw epoch requested =>
      cases hends
      exact hcompact.kept hle hformed fun tranche hmem =>
        ⟨tranche, mem_of_mem_withdraw hmem, rfl⟩

theorem compact_of_recordAll {movements : List Movement} {postings : List Posting}
    {last : Ledger} (hcompact : Compact spec now ledger)
    (hlater : ∀ movement ∈ movements, now ≤ movement.epoch)
    (hchronological : movements.Pairwise fun earlier later => earlier.epoch ≤ later.epoch)
    (hfollows : ∀ movement ∈ movements, movement.Follows spec)
    (hrecord : recordAll movements ledger = .ok (postings, last)) :
    ∀ posting ∈ postings, Compact spec posting.movement.epoch posting.after := by
  induction movements generalizing ledger now postings with
  | nil =>
      cases hrecord
      exact List.forall_mem_nil _
  | cons movement rest ih =>
      obtain ⟨result, after, later, hends, hrest, rfl⟩ := recordAll_cons hrecord
      obtain ⟨hfirst, hothers⟩ := List.pairwise_cons.mp hchronological
      obtain ⟨hnow, _⟩ := List.forall_mem_cons.mp hlater
      obtain ⟨hfollow, hfollowRest⟩ := List.forall_mem_cons.mp hfollows
      have hafter := compact_perform hdelay hunit hcompact hnow hfollow hends
      exact List.forall_mem_cons.mpr ⟨hafter, ih hafter hfirst hothers hfollowRest hrest⟩

end Runs

/-- However many locks are made on one schedule, each after what has vested is collected,
the table stays on the grid of the schedule and no longer than one span of it. -/
theorem compact_of_movements {movements : List Movement} (hdelay : 0 ≤ spec.initialDelay)
    (hstep : 0 < spec.stepDuration) (hperiod : 0 < spec.vestPeriod)
    (hunit : 2 ≤ spec.quantization)
    (hfollows : ∀ movement ∈ movements, movement.Follows spec)
    (hchronological : movements.Pairwise fun earlier later => earlier.epoch ≤ later.epoch)
    (hrange : ∀ fault, recordAll movements .empty = .error fault → ¬Epoch.Overflows fault) :
    ∃ postings last, recordAll movements .empty = .ok (postings, last) ∧
      postings.map Posting.movement = movements ∧
      ∀ posting ∈ postings,
        (∀ tranche ∈ posting.after.tranches, spec.quantization ∣ tranche.epoch) ∧
        (posting.after.tranches.length : Int) ≤
          (spec.initialDelay + spec.vestPeriod + spec.stepDuration +
            spec.quantization - 2) / spec.quantization + 1 := by
  cases hrecord : recordAll movements .empty with
  | error fault => exact absurd (overflows_of_recordAll hrecord) (hrange fault hrecord)
  | ok recorded =>
      obtain ⟨postings, last⟩ := recorded
      have hcomplete := (conserved_of_recordAll wellFormed_empty hrecord).complete
      obtain ⟨now, hlater⟩ : ∃ now, ∀ movement ∈ movements, now ≤ movement.epoch := by
        cases movements with
        | nil => exact ⟨0, nofun⟩
        | cons movement rest =>
            exact ⟨movement.epoch, List.forall_mem_cons.mpr
              ⟨Int.le_refl _, (List.pairwise_cons.mp hchronological).1⟩⟩
      have hcompact := compact_of_recordAll hdelay hunit (compact_empty spec now) hlater
        hchronological hfollows hrecord
      have hspan : 0 ≤ spec.span := by
        rw [VestSpec.span]
        omega
      exact ⟨postings, last, rfl, hcomplete, fun posting hmem =>
        ⟨(hcompact posting hmem).multiples, (hcompact posting hmem).length_le
          (by omega) hspan⟩⟩

def narrowSchedule : VestSpec :=
  { initialDelay := 0, vestPeriod := 3, stepDuration := 1, quantization := 2 }

def narrowMovements : List Movement :=
  [.collectAndLock 0 90 narrowSchedule, .withdraw 1 5,
    .collectAndLock 2 (-1) narrowSchedule, .collectAndLock 2 60 narrowSchedule,
    .withdraw 3 1000, .collectAndLock 5 7 narrowSchedule]

theorem narrowMovements_run :
    (recordAll narrowMovements .empty).toOption.map (fun (postings, _) =>
      postings.map fun posting => posting.after.tranches.map Tranche.epoch) =
        some [[2, 4], [2, 4], [2, 4], [2, 4, 6], [4, 6], [6, 8]] := by
  decide +kernel

theorem compact_of_movements_narrow :
    (∀ movement ∈ narrowMovements, movement.Follows narrowSchedule) ∧
      narrowMovements.Pairwise (fun earlier later => earlier.epoch ≤ later.epoch) ∧
      ∃ postings last, recordAll narrowMovements .empty = .ok (postings, last) ∧
        (∀ posting ∈ postings, (posting.after.tranches.length : Int) ≤ 3) ∧
        postings.map (fun posting => posting.after.tranches.length) =
          [2, 2, 2, 3, 2, 2] := by
  have hfollows : ∀ movement ∈ narrowMovements, movement.Follows narrowSchedule := by
    simp [narrowMovements, Movement.Follows]
  have hchronological : narrowMovements.Pairwise
      fun earlier later => earlier.epoch ≤ later.epoch := by decide
  have hrun := narrowMovements_run
  have hrange : ∀ fault, recordAll narrowMovements .empty = .error fault →
      ¬Epoch.Overflows fault := by
    intro fault hfault
    rw [hfault] at hrun
    cases hrun
  obtain ⟨postings, last, hrecord, _, hbounded⟩ :=
    compact_of_movements (by decide) (by decide)
    (by decide) (by decide) hfollows hchronological hrange
  rw [hrecord] at hrun
  simp only [Except.toOption, Option.map_some, Option.some.injEq] at hrun
  have hlengths := congrArg (List.map List.length) hrun
  simp only [List.map_map, Function.comp_def, List.length_map] at hlengths
  exact ⟨hfollows, hchronological, postings, last, hrecord,
    fun posting hmem => (hbounded posting hmem).2, hlengths⟩

end Ledger

end RewardVesting
