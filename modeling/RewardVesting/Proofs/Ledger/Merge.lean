import RewardVesting.Ledger.Release
import RewardVesting.Ledger.Schedule

namespace RewardVesting.Ledger

section Selected

variable (select : Int → Bool)

/-- The sum of the tranches at the selected epochs. -/
def sumWhere (tranches : List Tranche) : Int :=
  sumOf (tranches.filter fun tranche => select tranche.epoch)

@[simp] theorem sumWhere_nil : sumWhere select [] = 0 := rfl

@[simp] theorem sumWhere_cons (tranche : Tranche) (rest : List Tranche) :
    sumWhere select (tranche :: rest) =
      (if select tranche.epoch then tranche.amount else 0) + sumWhere select rest := by
  by_cases hselected : select tranche.epoch
  · simp [sumWhere, hselected]
  · simp [sumWhere, hselected]

@[simp] theorem sumWhere_append (first second : List Tranche) :
    sumWhere select (first ++ second) = sumWhere select first + sumWhere select second := by
  rw [sumWhere, List.filter_append, sumOf_append, sumWhere, sumWhere]

theorem sumWhere_of_forall_not {select : Int → Bool} {tranches : List Tranche}
    (hnone : ∀ tranche ∈ tranches, ¬select tranche.epoch) :
    sumWhere select tranches = 0 := by
  rw [sumWhere, List.filter_eq_nil_iff.mpr hnone, sumOf_nil]

theorem sumWhere_place (tranche : Tranche) (tranches : List Tranche) :
    sumWhere select (place tranche tranches) = sumWhere select (tranche :: tranches) := by
  induction tranches with
  | nil => rfl
  | cons head rest ih =>
      rw [place]
      split
      · rfl
      · rw [sumWhere_cons, ih, sumWhere_cons, sumWhere_cons, sumWhere_cons]
        omega

theorem sumWhere_sortByEpoch (tranches : List Tranche) :
    sumWhere select (sortByEpoch tranches) = sumWhere select tranches := by
  induction tranches with
  | nil => rfl
  | cons head rest ih =>
      rw [sortByEpoch, List.foldr_cons, sumWhere_place, sumWhere_cons, sumWhere_cons, ← ih,
        sortByEpoch]

theorem sumWhere_join (tranche : Tranche) (tranches : List Tranche) :
    sumWhere select (join tranche tranches) = sumWhere select (tranche :: tranches) := by
  cases tranches with
  | nil => rfl
  | cons head rest =>
      rw [join]
      split
      · rename_i hsame
        simp only [sumWhere_cons, hsame]
        split <;> omega
      · rfl

theorem sumWhere_joinAll (tranches : List Tranche) :
    sumWhere select (joinAll tranches) = sumWhere select tranches := by
  induction tranches with
  | nil => rfl
  | cons head rest ih =>
      rw [joinAll, List.foldr_cons, sumWhere_join, sumWhere_cons, sumWhere_cons,
        ← ih, joinAll]

theorem sumWhere_combine (table additions : List Tranche) :
    sumWhere select (combine table additions) =
      sumWhere select table + sumWhere select additions := by
  induction table generalizing additions with
  | nil => simp [combine]
  | cons head rest ih =>
      have hsplit := congrArg (sumWhere select) (List.takeWhile_append_dropWhile
        (p := fun addition : Tranche => addition.epoch < head.epoch) (l := additions))
      rw [sumWhere_append] at hsplit
      rw [combine]
      split
      · rename_i hlater
        rw [hlater, sumWhere_nil] at hsplit
        simp only [sumWhere_append, sumWhere_cons]
        omega
      · rename_i addition later hlater
        rw [hlater, sumWhere_cons] at hsplit
        split
        · rename_i hsame
          rw [hsame.1] at hsplit
          simp only [sumWhere_append, sumWhere_cons, ih]
          by_cases hselected : select head.epoch
          · simp only [hselected, if_true] at hsplit ⊢
            omega
          · simp only [hselected, Bool.false_eq_true, if_false] at hsplit ⊢
            omega
        · simp only [sumWhere_append, sumWhere_cons, ih] at hsplit ⊢
          omega

/-- At every epoch a merge adds what is to be added. -/
theorem sumWhere_merge (ledger : Ledger) (additions : List Tranche) :
    sumWhere select (ledger.merge additions).tranches =
      sumWhere select ledger.tranches + sumWhere select additions := by
  rw [merge, sumWhere_combine, sumWhere_sortByEpoch, sumWhere_joinAll]

end Selected

theorem sumWhere_true (tranches : List Tranche) :
    sumWhere (fun _ => true) tranches = sumOf tranches := by
  rw [sumWhere, List.filter_eq_self.mpr fun _ _ => rfl]

theorem lockedTotal_merge (ledger : Ledger) (additions : List Tranche) :
    (ledger.merge additions).lockedTotal = ledger.lockedTotal + sumOf additions := by
  have hmerge := sumWhere_merge (fun _ => true) ledger additions
  rwa [sumWhere_true, sumWhere_true, sumWhere_true] at hmerge

section Every

variable {holds : Tranche → Prop}
  (hjoin : ∀ (epoch first second : Int), holds ⟨epoch, first⟩ → holds ⟨epoch, second⟩ →
    holds ⟨epoch, first + second⟩)

include hjoin

theorem forall_mem_join {tranche : Tranche} {tranches : List Tranche}
    (htranche : holds tranche) (htranches : ∀ other ∈ tranches, holds other) :
    ∀ other ∈ join tranche tranches, holds other := by
  cases tranches with
  | nil => simpa [join] using htranche
  | cons head rest =>
      obtain ⟨hhead, hrest⟩ := List.forall_mem_cons.mp htranches
      rw [join]
      split
      · rename_i hsame
        refine List.forall_mem_cons.mpr ⟨?_, hrest⟩
        have hmoved : holds ⟨head.epoch, tranche.amount⟩ := hsame ▸ htranche
        exact hjoin head.epoch _ _ hmoved hhead
      · exact List.forall_mem_cons.mpr ⟨htranche, htranches⟩

theorem forall_mem_joinAll {tranches : List Tranche} (htranches : ∀ tranche ∈ tranches,
    holds tranche) : ∀ tranche ∈ joinAll tranches, holds tranche := by
  induction tranches with
  | nil => exact htranches
  | cons head rest ih =>
      obtain ⟨hhead, hrest⟩ := List.forall_mem_cons.mp htranches
      exact forall_mem_join hjoin hhead (ih hrest)

theorem forall_mem_combine {table additions : List Tranche}
    (htable : ∀ tranche ∈ table, holds tranche)
    (hadditions : ∀ tranche ∈ additions, holds tranche) :
    ∀ tranche ∈ combine table additions, holds tranche := by
  induction table generalizing additions with
  | nil => exact hadditions
  | cons head rest ih =>
      obtain ⟨hhead, hrest⟩ := List.forall_mem_cons.mp htable
      have hearlier :
        ∀ tranche ∈ additions.takeWhile fun addition => addition.epoch < head.epoch,
          holds tranche :=
        fun tranche hmem => hadditions tranche (List.takeWhile_subset _ hmem)
      have hdropped :
        ∀ tranche ∈ additions.dropWhile fun addition => addition.epoch < head.epoch,
          holds tranche :=
        fun tranche hmem => hadditions tranche (List.dropWhile_subset _ hmem)
      rw [combine]
      split
      · exact List.forall_mem_append.mpr ⟨hearlier, htable⟩
      · rename_i addition later hlater
        rw [hlater] at hdropped
        obtain ⟨haddition, hrestAdditions⟩ := List.forall_mem_cons.mp hdropped
        split
        · rename_i hsame
          have hmoved : holds ⟨head.epoch, addition.amount⟩ := hsame.1 ▸ haddition
          exact List.forall_mem_append.mpr ⟨hearlier, List.forall_mem_cons.mpr
            ⟨hjoin head.epoch _ _ hhead hmoved, ih hrest hrestAdditions⟩⟩
        · exact List.forall_mem_append.mpr ⟨hearlier, List.forall_mem_cons.mpr
            ⟨hhead, ih hrest hdropped⟩⟩

end Every

theorem place_of_le {tranche : Tranche} {tranches : List Tranche}
    (hle : ∀ other ∈ tranches, tranche.epoch ≤ other.epoch) :
    place tranche tranches = tranche :: tranches := by
  cases tranches with
  | nil => rfl
  | cons head rest => rw [place, if_pos (hle head List.mem_cons_self)]

theorem sortByEpoch_of_rising {tranches : List Tranche}
    (hrising : tranches.Pairwise fun earlier later => earlier.epoch ≤ later.epoch) :
    sortByEpoch tranches = tranches := by
  induction tranches with
  | nil => rfl
  | cons head rest ih =>
      obtain ⟨hhead, hrest⟩ := List.pairwise_cons.mp hrising
      have htail := ih hrest
      rw [sortByEpoch] at htail
      rw [sortByEpoch, List.foldr_cons, htail, place_of_le hhead]

theorem ordered_joinAll {tranches : List Tranche}
    (hrising : tranches.Pairwise fun earlier later => earlier.epoch ≤ later.epoch) :
    (joinAll tranches).Pairwise fun earlier later => earlier.epoch < later.epoch := by
  induction tranches with
  | nil => exact .nil
  | cons head rest ih =>
      obtain ⟨hhead, hrest⟩ := List.pairwise_cons.mp hrising
      have htail := ih hrest
      have hbound : ∀ tranche ∈ joinAll rest, head.epoch ≤ tranche.epoch :=
        forall_mem_joinAll (fun _ _ _ hfirst _ => hfirst) hhead
      rw [joinAll, List.foldr_cons, ← joinAll]
      cases hjoined : joinAll rest with
      | nil => exact List.pairwise_singleton _ _
      | cons next later =>
          rw [hjoined] at htail hbound
          rw [join]
          split
          · exact List.pairwise_cons.mpr (List.pairwise_cons.mp htail)
          · rename_i hother
            refine List.pairwise_cons.mpr ⟨?_, htail⟩
            have hnext : head.epoch < next.epoch :=
              by
              have hle := hbound next List.mem_cons_self
              omega
            intro tranche hmem
            rcases List.mem_cons.mp hmem with rfl | hlater
            · exact hnext
            · exact Int.lt_trans hnext ((List.pairwise_cons.mp htail).1 tranche hlater)

theorem le_of_mem_dropWhile {tranches : List Tranche} {epoch : Int}
    (hordered : tranches.Pairwise fun earlier later => earlier.epoch < later.epoch) :
    ∀ tranche ∈ tranches.dropWhile fun tranche => tranche.epoch < epoch,
      epoch ≤ tranche.epoch := by
  induction tranches with
  | nil => exact nofun
  | cons head rest ih =>
      obtain ⟨hhead, hrest⟩ := List.pairwise_cons.mp hordered
      rw [List.dropWhile_cons]
      split
      · exact ih hrest
      · rename_i hkept
        have hle : epoch ≤ head.epoch := by simpa using hkept
        intro tranche hmem
        rcases List.mem_cons.mp hmem with rfl | hlater
        · exact hle
        · exact Int.le_trans hle (Int.le_of_lt (hhead tranche hlater))

theorem lt_of_mem_takeWhile {tranches : List Tranche} {epoch : Int} :
    ∀ tranche ∈ tranches.takeWhile fun tranche => tranche.epoch < epoch,
      tranche.epoch < epoch := by
  intro tranche hmem
  simpa using List.all_eq_true.mp List.all_takeWhile tranche hmem

theorem takeWhile_eq_filter {tranches : List Tranche}
    (hordered : tranches.Pairwise fun earlier later => earlier.epoch < later.epoch)
    (epoch : Int) : (tranches.takeWhile fun tranche => tranche.epoch < epoch) =
      tranches.filter fun tranche => tranche.epoch < epoch := by
  have hsplit := congrArg (List.filter fun tranche : Tranche => tranche.epoch < epoch)
    (List.takeWhile_append_dropWhile (p := fun tranche : Tranche => tranche.epoch < epoch)
      (l := tranches))
  have htaken : (tranches.takeWhile fun tranche => tranche.epoch < epoch).filter
      (fun tranche => tranche.epoch < epoch) =
        tranches.takeWhile fun tranche => tranche.epoch < epoch :=
    List.filter_eq_self.mpr fun tranche hmem =>
      decide_eq_true (lt_of_mem_takeWhile tranche hmem)
  have hleft : (tranches.dropWhile fun tranche => tranche.epoch < epoch).filter
      (fun tranche => tranche.epoch < epoch) = [] := by
    refine List.filter_eq_nil_iff.mpr fun tranche hmem => ?_
    have hle := le_of_mem_dropWhile hordered tranche hmem
    simpa using hle
  rwa [List.filter_append, htaken, hleft, List.append_nil] at hsplit

theorem dropWhile_eq_filter {tranches : List Tranche}
    (hordered : tranches.Pairwise fun earlier later => earlier.epoch < later.epoch)
    (epoch : Int) : (tranches.dropWhile fun tranche => tranche.epoch < epoch) =
      tranches.filter fun tranche => epoch ≤ tranche.epoch := by
  have hsplit := congrArg (List.filter fun tranche : Tranche => epoch ≤ tranche.epoch)
    (List.takeWhile_append_dropWhile (p := fun tranche : Tranche => tranche.epoch < epoch)
      (l := tranches))
  have htaken : (tranches.takeWhile fun tranche => tranche.epoch < epoch).filter
      (fun tranche => epoch ≤ tranche.epoch) = [] := by
    refine List.filter_eq_nil_iff.mpr fun tranche hmem => ?_
    have hlt := lt_of_mem_takeWhile tranche hmem
    simpa using hlt
  have hleft : (tranches.dropWhile fun tranche => tranche.epoch < epoch).filter
      (fun tranche => epoch ≤ tranche.epoch) =
        tranches.dropWhile fun tranche => tranche.epoch < epoch :=
    List.filter_eq_self.mpr fun tranche hmem =>
      decide_eq_true (le_of_mem_dropWhile hordered tranche hmem)
  rwa [List.filter_append, htaken, hleft, List.nil_append] at hsplit

theorem ordered_place {additions later : List Tranche} {head first : Tranche}
    (hadditions : additions.Pairwise fun earlier later => earlier.epoch < later.epoch)
    (hfirst : first.epoch = head.epoch)
    (habove : ∀ tranche ∈ later, head.epoch < tranche.epoch)
    (hlater : later.Pairwise fun earlier later => earlier.epoch < later.epoch) :
    (additions.takeWhile (fun addition => addition.epoch < head.epoch) ++
      first :: later).Pairwise fun earlier later => earlier.epoch < later.epoch := by
  have hearlier := hadditions.sublist
    (List.takeWhile_sublist fun addition => addition.epoch < head.epoch)
  refine List.pairwise_append.mpr ⟨hearlier, List.pairwise_cons.mpr
    ⟨fun tranche hmem => hfirst ▸ habove tranche hmem, hlater⟩, ?_⟩
  intro left hleft right hright
  have hbelow := lt_of_mem_takeWhile left hleft
  rcases List.mem_cons.mp hright with rfl | hmem
  · exact hfirst ▸ hbelow
  · exact Int.lt_trans hbelow (habove right hmem)

theorem ordered_combine {table additions : List Tranche}
    (htable : table.Pairwise fun earlier later => earlier.epoch < later.epoch)
    (hadditions : additions.Pairwise fun earlier later => earlier.epoch < later.epoch) :
    (combine table additions).Pairwise fun earlier later =>
      earlier.epoch < later.epoch := by
  induction table generalizing additions with
  | nil => exact hadditions
  | cons head rest ih =>
      obtain ⟨hhead, hrest⟩ := List.pairwise_cons.mp htable
      have hdropped := hadditions.sublist
        (List.dropWhile_sublist fun addition => addition.epoch < head.epoch)
      have hge :
        ∀ tranche ∈ additions.dropWhile fun addition => addition.epoch < head.epoch,
          head.epoch ≤ tranche.epoch := le_of_mem_dropWhile hadditions
      rw [combine]
      split
      · exact ordered_place hadditions rfl hhead hrest
      · rename_i addition later hsplit
        rw [hsplit] at hdropped hge
        obtain ⟨haddition, hlater⟩ := List.pairwise_cons.mp hdropped
        split
        · rename_i hsame
          rw [hsame.1] at haddition
          exact ordered_place hadditions rfl
            (forall_mem_combine (fun _ _ _ hfirst _ => hfirst) hhead haddition)
            (ih hrest hlater)
        · rename_i hother
          have hapart : rest.head?.all fun next => next.epoch ≠ head.epoch := by
            cases rest with
            | nil => rfl
            | cons next _ =>
                have hnext := hhead next List.mem_cons_self
                simpa using Int.ne_of_gt hnext
          have hne : addition.epoch ≠ head.epoch := fun hsame => hother ⟨hsame, hapart⟩
          have habove : ∀ tranche ∈ addition :: later, head.epoch < tranche.epoch := by
            have hfirst := hge addition List.mem_cons_self
            intro tranche hmem
            rcases List.mem_cons.mp hmem with rfl | hmore
            · omega
            · have hfollows := haddition tranche hmore
              omega
          exact ordered_place hadditions rfl
            (forall_mem_combine (fun _ _ _ hfirst _ => hfirst) hhead habove)
            (ih hrest hdropped)

theorem sumOf_nonneg {tranches : List Tranche}
    (hnonneg : ∀ tranche ∈ tranches, 0 ≤ tranche.amount) :
    0 ≤ sumOf tranches := by
  induction tranches with
  | nil => exact Int.le_refl 0
  | cons head rest ih =>
      obtain ⟨hhead, hrest⟩ := List.forall_mem_cons.mp hnonneg
      have htail := ih hrest
      rw [sumOf_cons]
      omega

theorem sumWhere_le_sumOf {select : Int → Bool} {tranches : List Tranche}
    (hnonneg : ∀ tranche ∈ tranches, 0 ≤ tranche.amount) :
    sumWhere select tranches ≤ sumOf tranches := by
  induction tranches with
  | nil => exact Int.le_refl 0
  | cons head rest ih =>
      obtain ⟨hhead, hrest⟩ := List.forall_mem_cons.mp hnonneg
      have htail := ih hrest
      rw [sumWhere_cons, sumOf_cons]
      split <;> omega

theorem wellFormed_empty : empty.WellFormed :=
  ⟨.nil, nofun, Int.le_refl 0⟩

namespace WellFormed

variable {ledger : Ledger} (hformed : ledger.WellFormed)

include hformed

/-- What holds of every tranche still does after a merge, if it is kept when tranches are
joined. -/
theorem forall_mem_merge {holds : Tranche → Prop}
    (hjoin : ∀ (epoch first second : Int), holds ⟨epoch, first⟩ → holds ⟨epoch, second⟩ →
      holds ⟨epoch, first + second⟩) {additions : List Tranche}
    (htranches : ∀ tranche ∈ ledger.tranches, holds tranche)
    (hadditions : ∀ addition ∈ additions, holds addition) :
    ∀ tranche ∈ (ledger.merge additions).tranches, holds tranche := by
  rw [Ledger.merge, sortByEpoch_of_rising (hformed.ordered.imp Int.le_of_lt)]
  exact forall_mem_combine hjoin htranches (forall_mem_joinAll hjoin hadditions)

theorem merge {additions : List Tranche}
    (hrising : additions.Pairwise fun earlier later => earlier.epoch ≤ later.epoch)
    (hnonneg : ∀ addition ∈ additions, 0 ≤ addition.amount) :
    (ledger.merge additions).WellFormed := by
  constructor
  · rw [Ledger.merge, sortByEpoch_of_rising (hformed.ordered.imp Int.le_of_lt)]
    exact ordered_combine hformed.ordered (ordered_joinAll hrising)
  · exact hformed.forall_mem_merge
      (fun _ _ _ => Int.add_nonneg) hformed.tranches_nonneg hnonneg
  · exact hformed.unlocked_nonneg

theorem sweep (epoch : Int) : (ledger.sweep epoch).1.WellFormed where
  ordered := hformed.ordered.sublist (List.dropWhile_sublist _)
  tranches_nonneg tranche hmem :=
    hformed.tranches_nonneg tranche (List.dropWhile_subset _ hmem)
  unlocked_nonneg := hformed.unlocked_nonneg

/-- A sweep of a well-formed ledger takes every tranche before the epoch. -/
theorem sweep_released (epoch : Int) :
    (ledger.sweep epoch).2 = sumWhere (fun other => other < epoch) ledger.tranches :=
  congrArg sumOf (takeWhile_eq_filter hformed.ordered epoch)

theorem released_nonneg (epoch : Int) : 0 ≤ (ledger.sweep epoch).2 :=
  sumOf_nonneg fun tranche hmem =>
    hformed.tranches_nonneg tranche (List.takeWhile_subset _ hmem)

theorem released_le_lockedTotal (epoch : Int) :
    (ledger.sweep epoch).2 ≤ ledger.lockedTotal := by
  have hsweep := ledger.lockedTotal_sweep epoch
  have hremaining := sumOf_nonneg (hformed.sweep epoch).tranches_nonneg
  rw [← lockedTotal] at hremaining
  omega

end WellFormed

end RewardVesting.Ledger
