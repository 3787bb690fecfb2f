import Mathlib.Data.List.Sort
import RewardVesting.Proofs.Ledger.Merge

namespace RewardVesting.Ledger

/-! A merge sorts the table first, and tranches of one epoch keep their order. -/

def NoLater (first second : Tranche) : Prop := first.epoch ≤ second.epoch

instance : DecidableRel NoLater := fun _ _ => inferInstanceAs (Decidable (_ ≤ _))

instance : Std.Total NoLater := ⟨fun first second => Int.le_total first.epoch second.epoch⟩

instance : IsTrans Tranche NoLater := ⟨fun _ _ _ => Int.le_trans⟩

theorem place_eq_orderedInsert (tranche : Tranche) (tranches : List Tranche) :
    place tranche tranches = tranches.orderedInsert NoLater tranche := by
  induction tranches with
  | nil => rfl
  | cons head rest ih =>
      rw [place, List.orderedInsert_cons, ih]
      rfl

theorem sortByEpoch_eq_insertionSort (tranches : List Tranche) :
    sortByEpoch tranches = tranches.insertionSort NoLater := by
  induction tranches with
  | nil => rfl
  | cons head rest ih =>
      rw [sortByEpoch, List.foldr_cons, ← sortByEpoch, ih, place_eq_orderedInsert,
        List.insertionSort_cons]

theorem sortByEpoch_perm (tranches : List Tranche) :
    (sortByEpoch tranches).Perm tranches := by
  rw [sortByEpoch_eq_insertionSort]
  exact List.perm_insertionSort NoLater tranches

theorem rising_sortByEpoch (tranches : List Tranche) :
    (sortByEpoch tranches).Pairwise fun earlier later => earlier.epoch ≤ later.epoch := by
  rw [sortByEpoch_eq_insertionSort]
  exact List.pairwise_insertionSort NoLater tranches

theorem filter_sortByEpoch (tranches : List Tranche) (epoch : Int) :
    (sortByEpoch tranches).filter (fun tranche => tranche.epoch = epoch) =
      tranches.filter fun tranche => tranche.epoch = epoch := by
  have hlength := ((sortByEpoch_perm tranches).filter
    fun tranche => tranche.epoch = epoch).length_eq
  have hsame : (tranches.filter fun tranche => tranche.epoch = epoch).Pairwise NoLater := by
    refine List.pairwise_of_forall_mem_list fun first hfirst second hsecond => ?_
    have hfirstEpoch := (List.mem_filter.mp hfirst).2
    have hsecondEpoch := (List.mem_filter.mp hsecond).2
    rw [decide_eq_true_eq] at hfirstEpoch hsecondEpoch
    rw [NoLater]
    omega
  have hkept := (List.sublist_insertionSort hsame List.filter_sublist).filter
    fun tranche => tranche.epoch = epoch
  rw [← sortByEpoch_eq_insertionSort] at hkept
  simp only [List.filter_filter, Bool.and_self] at hkept
  exact (hkept.eq_of_length hlength.symm).symm

/-- No two tranches lie at one epoch. -/
def Distinct (tranches : List Tranche) : Prop :=
  tranches.Pairwise fun first second => first.epoch ≠ second.epoch

theorem ordered_sortByEpoch {tranches : List Tranche} (hdistinct : Distinct tranches) :
    (sortByEpoch tranches).Pairwise fun earlier later => earlier.epoch < later.epoch := by
  have hapart : Distinct (sortByEpoch tranches) :=
    (sortByEpoch_perm tranches).symm.pairwise hdistinct fun hne => hne.symm
  refine ((rising_sortByEpoch tranches).and hapart).imp ?_
  rintro first second ⟨hle, hne⟩
  omega

def epochs (tranches : List Tranche) : List Int := tranches.map Tranche.epoch

@[simp] theorem epochs_nil : epochs [] = [] := rfl

@[simp] theorem epochs_cons (tranche : Tranche) (rest : List Tranche) :
    epochs (tranche :: rest) = tranche.epoch :: epochs rest := rfl

@[simp] theorem epochs_append (first second : List Tranche) :
    epochs (first ++ second) = epochs first ++ epochs second :=
  List.map_append

variable {epoch : Int} {table additions : List Tranche} {ledger : Ledger}

theorem mem_epochs_joinAll :
    epoch ∈ epochs (joinAll additions) ↔ epoch ∈ epochs additions := by
  induction additions with
  | nil => exact Iff.rfl
  | cons head rest ih =>
      rw [joinAll, List.foldr_cons, ← joinAll, epochs_cons, List.mem_cons, ← ih]
      cases hjoined : joinAll rest with
      | nil => simp [join]
      | cons next later =>
          rw [join]
          split
          · rename_i hsame
            simp [hsame]
          · simp

/-- The additions on both sides of a place in the table. -/
theorem mem_epochs_split (additions : List Tranche) (head : Tranche) :
    epoch ∈ epochs additions ↔
      epoch ∈ epochs (additions.takeWhile fun addition => addition.epoch < head.epoch) ∨
        epoch ∈ epochs (additions.dropWhile fun addition =>
          addition.epoch < head.epoch) := by
  rw [← List.mem_append, ← epochs_append, List.takeWhile_append_dropWhile]

theorem mem_epochs_combine :
    epoch ∈ epochs (combine table additions) ↔
      epoch ∈ epochs table ∨ epoch ∈ epochs additions := by
  induction table generalizing additions with
  | nil => simp [combine]
  | cons head rest ih =>
      rw [combine, mem_epochs_split additions head]
      split
      · rename_i hlater
        simp only [hlater, epochs_append, epochs_cons, epochs_nil, List.mem_append,
          List.mem_cons]
        tauto
      · rename_i addition later hlater
        split
        · rename_i hsame
          simp only [hlater, epochs_append, epochs_cons, List.mem_append, List.mem_cons,
            ih, hsame.1]
          tauto
        · simp only [hlater, epochs_append, epochs_cons, List.mem_append, List.mem_cons, ih]
          tauto

theorem mem_epochs_merge :
    epoch ∈ epochs (ledger.merge additions).tranches ↔
      epoch ∈ epochs ledger.tranches ∨ epoch ∈ epochs additions := by
  have hsorted : epoch ∈ epochs (sortByEpoch ledger.tranches) ↔
      epoch ∈ epochs ledger.tranches :=
    ((sortByEpoch_perm ledger.tranches).map Tranche.epoch).mem_iff
  rw [merge, mem_epochs_combine, mem_epochs_joinAll, hsorted]

theorem ordered_merge (hdistinct : Distinct ledger.tranches)
    (hrising : additions.Pairwise fun earlier later => earlier.epoch ≤ later.epoch) :
    (ledger.merge additions).tranches.Pairwise fun earlier later =>
      earlier.epoch < later.epoch :=
  ordered_combine (ordered_sortByEpoch hdistinct) (ordered_joinAll hrising)

/-- Where a table has one tranche at most at each epoch, a tranche is known by its epoch and
by what is locked there. -/
theorem mem_iff_of_distinct {tranche : Tranche} (hdistinct : Distinct table) :
    tranche ∈ table ↔ tranche.epoch ∈ epochs table ∧
      sumWhere (fun other => other = tranche.epoch) table = tranche.amount := by
  induction table with
  | nil => simp
  | cons head rest ih =>
      obtain ⟨hhead, hrest⟩ := List.pairwise_cons.mp hdistinct
      rw [epochs_cons, List.mem_cons, List.mem_cons, sumWhere_cons]
      by_cases hsame : head.epoch = tranche.epoch
      · have hnone : tranche ∉ rest := fun hmem => hhead tranche hmem hsame
        have hothers : sumWhere (fun other => other = tranche.epoch) rest = 0 := by
          refine sumWhere_of_forall_not fun other hmem => ?_
          have hne := hhead other hmem
          rw [decide_eq_true_eq]
          omega
        simp only [hnone, or_false, hothers, hsame, decide_true, if_true,
          Int.add_zero, true_or, true_and]
        constructor
        · rintro rfl
          rfl
        · intro hamount
          obtain ⟨_, _⟩ := tranche
          obtain ⟨_, _⟩ := head
          dsimp only at hsame hamount
          rw [hsame, hamount]
      · have hother : tranche ≠ head := fun hequal => hsame (hequal ▸ rfl)
        have hapart : ¬tranche.epoch = head.epoch := fun hequal => hsame hequal.symm
        simp only [hother, hapart, hsame, decide_false, Bool.false_eq_true,
          if_false, false_or, Int.zero_add, ih hrest]

/-- Two tables in the order of epochs are one if they have the same epochs, with the same
amounts. -/
theorem eq_of_ordered {first second : List Tranche}
    (hfirst : first.Pairwise fun earlier later => earlier.epoch < later.epoch)
    (hsecond : second.Pairwise fun earlier later => earlier.epoch < later.epoch)
    (hepochs : ∀ epoch, epoch ∈ epochs first ↔ epoch ∈ epochs second)
    (hamounts : ∀ epoch, sumWhere (fun other => other = epoch) first =
      sumWhere (fun other => other = epoch) second) : first = second := by
  have : Std.Antisymm fun earlier later : Tranche => earlier.epoch < later.epoch :=
    ⟨fun _ _ hlt hgt => absurd hlt (Int.lt_asymm hgt)⟩
  have : Std.Irrefl fun earlier later : Tranche => earlier.epoch < later.epoch :=
    ⟨fun _ => Int.lt_irrefl _⟩
  refine hfirst.eq_of_mem_iff hsecond fun tranche => ?_
  rw [mem_iff_of_distinct (hfirst.imp Int.ne_of_lt),
    mem_iff_of_distinct (hsecond.imp Int.ne_of_lt), hepochs, hamounts]

/-- Additions to a table of distinct epochs can change places. -/
theorem merge_right_comm {first second : List Tranche}
    (hdistinct : Distinct ledger.tranches)
    (hfirst : first.Pairwise fun earlier later => earlier.epoch ≤ later.epoch)
    (hsecond : second.Pairwise fun earlier later => earlier.epoch ≤ later.epoch) :
    (ledger.merge first).merge second = (ledger.merge second).merge first := by
  have htranches : ((ledger.merge first).merge second).tranches =
      ((ledger.merge second).merge first).tranches := by
    refine eq_of_ordered
      (ordered_merge ((ordered_merge hdistinct hfirst).imp Int.ne_of_lt) hsecond)
      (ordered_merge ((ordered_merge hdistinct hsecond).imp Int.ne_of_lt) hfirst)
      (fun epoch => ?_) (fun epoch => ?_)
    · simp only [mem_epochs_merge]
      tauto
    · simp only [sumWhere_merge]
      omega
  exact congrArg (fun tranches => Ledger.mk tranches ledger.unlocked) htranches

/-- At an epoch without additions the tranches stay as they were, and in their order. -/
theorem filter_combine (hnone : epoch ∉ epochs additions) :
    (combine table additions).filter (fun tranche => tranche.epoch = epoch) =
      table.filter fun tranche => tranche.epoch = epoch := by
  have hothers {others : List Tranche} (habsent : epoch ∉ epochs others) :
      others.filter (fun tranche => tranche.epoch = epoch) = [] := by
    refine List.filter_eq_nil_iff.mpr fun tranche hmem => ?_
    rw [decide_eq_true_eq]
    exact fun hsame => habsent (List.mem_map.mpr ⟨tranche, hmem, hsame⟩)
  induction table generalizing additions with
  | nil => exact hothers hnone
  | cons head rest ih =>
      rw [mem_epochs_split additions head, not_or] at hnone
      rw [combine]
      split
      · rw [List.filter_append, hothers hnone.1, List.nil_append]
      · rename_i addition later hlater
        obtain ⟨hearlier, hleft⟩ := hnone
        rw [hlater] at hleft
        split
        · rename_i hsame
          rw [epochs_cons, List.mem_cons, not_or, hsame.1] at hleft
          have hapart : ¬head.epoch = epoch := fun hequal => hleft.1 hequal.symm
          simp only [List.filter_append, hothers hearlier, List.nil_append,
            List.filter_cons, hapart, decide_false, Bool.false_eq_true, if_false,
            ih hleft.2]
        · simp only [List.filter_append, hothers hearlier, List.nil_append,
            List.filter_cons, ih hleft]

theorem filter_merge (hnone : epoch ∉ epochs additions) :
    (ledger.merge additions).tranches.filter (fun tranche => tranche.epoch = epoch) =
      ledger.tranches.filter fun tranche => tranche.epoch = epoch := by
  rw [merge, filter_combine (mt mem_epochs_joinAll.mp hnone), filter_sortByEpoch]

end RewardVesting.Ledger
