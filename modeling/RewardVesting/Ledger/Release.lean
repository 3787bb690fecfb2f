import RewardVesting.Ledger.Basic

namespace RewardVesting.Ledger

/-- Takes out the leading tranches before `epoch`, up to the first that is not. -/
def sweep (ledger : Ledger) (epoch : Int) : Ledger × Int :=
  ({ ledger with tranches := ledger.tranches.dropWhile fun tranche =>
    tranche.epoch < epoch },
    sumOf (ledger.tranches.takeWhile fun tranche => tranche.epoch < epoch))

/-- Moves what a sweep takes out into the unlocked balance. -/
def collect (ledger : Ledger) (epoch : Int) : Ledger :=
  let (remaining, released) := ledger.sweep epoch
  { remaining with unlocked := remaining.unlocked + released }

@[simp] theorem sweep_unlocked (ledger : Ledger) (epoch : Int) :
    (ledger.sweep epoch).1.unlocked = ledger.unlocked := rfl

theorem lockedTotal_sweep (ledger : Ledger) (epoch : Int) :
    (ledger.sweep epoch).1.lockedTotal + (ledger.sweep epoch).2 = ledger.lockedTotal := by
  have hsplit := congrArg sumOf
    (List.takeWhile_append_dropWhile (p := fun tranche : Tranche => tranche.epoch < epoch)
      (l := ledger.tranches))
  rw [sumOf_append] at hsplit
  simp only [sweep, lockedTotal]
  omega

theorem total_collect (ledger : Ledger) (epoch : Int) :
    (ledger.collect epoch).total = ledger.total := by
  have hsweep := ledger.lockedTotal_sweep epoch
  simp only [collect, total, lockedTotal, sweep] at hsweep ⊢
  omega

/-- What is swept early is swept late as well. -/
theorem dropWhile_dropWhile {earlier later : Int} (hle : earlier ≤ later)
    (tranches : List Tranche) :
    (tranches.dropWhile fun tranche => tranche.epoch < earlier).dropWhile
        (fun tranche => tranche.epoch < later) =
      tranches.dropWhile fun tranche => tranche.epoch < later := by
  induction tranches with
  | nil => rfl
  | cons head rest ih =>
      by_cases hhead : head.epoch < earlier
      · have hlate : head.epoch < later := Int.lt_of_lt_of_le hhead hle
        simp only [List.dropWhile_cons, hhead, hlate, decide_true, if_true, ih]
      · simp only [List.dropWhile_cons, hhead, decide_false, Bool.false_eq_true, if_false]

/-- Two sweeps, the later one not before the earlier one, take out what the later one alone
does. -/
theorem sweep_sweep (ledger : Ledger) {earlier later : Int} (hle : earlier ≤ later) :
    ((ledger.sweep earlier).1.sweep later).1 = (ledger.sweep later).1 ∧
      (ledger.sweep earlier).2 + ((ledger.sweep earlier).1.sweep later).2 =
        (ledger.sweep later).2 := by
  have hleft : ((ledger.sweep earlier).1.sweep later).1 = (ledger.sweep later).1 := by
    simp only [sweep, dropWhile_dropWhile hle]
  have hearlier := ledger.lockedTotal_sweep earlier
  have hlater := ledger.lockedTotal_sweep later
  have hboth := (ledger.sweep earlier).1.lockedTotal_sweep later
  rw [hleft] at hboth
  exact ⟨hleft, by omega⟩

/-- A sweep leaves nothing to another one at the same epoch. -/
theorem sweep_self (ledger : Ledger) (epoch : Int) :
    (ledger.sweep epoch).1.sweep epoch = ((ledger.sweep epoch).1, 0) := by
  obtain ⟨hleft, hreleased⟩ := ledger.sweep_sweep (Int.le_refl epoch)
  exact Prod.ext hleft (by omega)

/-- Takes up to `target` from the front; the last tranche touched shrinks and is not removed
unless it is used up. -/
def takeUpTo : (target : Int) → List Tranche → List Tranche × Int
  | _, [] => ([], 0)
  | target, tranche :: rest =>
    if target ≤ 0 then (tranche :: rest, 0)
    else if tranche.amount ≤ target then
      let (kept, taken) := takeUpTo (target - tranche.amount) rest
      (kept, tranche.amount + taken)
    else ({ tranche with amount := tranche.amount - target } :: rest, target)

/-- Gives up to `target` of what has not vested at `epoch`, earliest first. -/
def forfeit (ledger : Ledger) (epoch : Int) (target : Int) : Ledger × Int :=
  let vested := ledger.tranches.takeWhile fun tranche => tranche.epoch < epoch
  let (kept, taken) := takeUpTo target
    (ledger.tranches.dropWhile fun tranche => tranche.epoch < epoch)
  ({ ledger with tranches := vested ++ kept }, taken)

theorem sumOf_takeUpTo (target : Int) (tranches : List Tranche) :
    sumOf (takeUpTo target tranches).1 + (takeUpTo target tranches).2 = sumOf tranches := by
  induction tranches generalizing target with
  | nil => simp [takeUpTo]
  | cons tranche rest ih =>
      rw [takeUpTo]
      split
      · simp
      · split
        · have hrest := ih (target - tranche.amount)
          simp only [sumOf_cons]
          omega
        · simp only [sumOf_cons]
          omega

/-- Pays up to `requested` out of what has vested.  An empty ledger and a request for
nothing are left untouched. -/
def withdraw (ledger : Ledger) (epoch : Int) (requested : Int) : Ledger × Int :=
  if ledger.total = 0 ∨ requested ≤ 0 then (ledger, 0)
  else
    let collected := ledger.collect epoch
    let paid := min collected.unlocked requested
    ({ collected with unlocked := collected.unlocked - paid }, paid)

theorem total_withdraw (ledger : Ledger) (epoch : Int) (requested : Int) :
    (ledger.withdraw epoch requested).1.total + (ledger.withdraw epoch requested).2 =
      ledger.total := by
  have hcollect := ledger.total_collect epoch
  rw [withdraw]
  split
  · simp
  · simp only [total, lockedTotal] at hcollect ⊢
    omega

end RewardVesting.Ledger
