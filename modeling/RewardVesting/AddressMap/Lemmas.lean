import RewardVesting.AddressMap

namespace RewardVesting.AddressMap

variable {α : Type}

private theorem find?_insertEntry (key other : Key) (value : α) (entries : List (Key × α)) :
    ((insertEntry key value entries).find? fun entry => entry.1 = other) =
      if key = other then some (key, value)
      else entries.find? fun entry => entry.1 = other := by
  induction entries with
  | nil => by_cases hkey : key = other <;> simp [insertEntry, hkey]
  | cons head tail ih =>
      rw [insertEntry]
      split
      · simp only [List.find?_cons]
        by_cases hkey : key = other <;> simp [hkey]
      · rename_i hbefore
        split
        · rename_i hafter
          have hhead : head.1 ≠ key := by
            intro heq
            rw [heq] at hafter
            exact List.lt_irrefl _ hafter
          simp only [List.find?_cons, ih]
          by_cases hkey : key = other
          · subst hkey
            simp [hhead]
          · simp [hkey]
        · rename_i hafter
          have hhead : key = head.1 :=
            Key.rank_injective (List.le_antisymm hafter hbefore)
          simp only [List.find?_cons, ← hhead]
          by_cases hkey : key = other <;> simp [hkey]

@[simp] theorem find?_empty (key : Key) : (empty : AddressMap α).find? key = none := rfl

theorem find?_insert (map : AddressMap α) (key other : Key) (value : α) :
    (map.insert key value).find? other =
      if key = other then some value else map.find? other := by
  simp only [find?, insert, find?_insertEntry]
  split <;> rfl

theorem find?_insert_address (map : AddressMap α) (owner other : Address) (value : α) :
    (map.insert (.address owner) value).find? (.address other) =
      if owner = other then some value else map.find? (.address other) := by
  rw [find?_insert]
  by_cases hsame : owner = other
  · subst hsame
    rw [if_pos rfl, if_pos rfl]
  · rw [if_neg hsame, if_neg fun hkey => hsame (Key.address_injective hkey)]

theorem find?_erase (map : AddressMap α) (key other : Key) :
    (map.erase key).find? other = if key = other then none else map.find? other := by
  simp only [find?, erase, List.find?_filter]
  split
  · rename_i hkey
    subst hkey
    simp
  · rename_i hkey
    congr 1
    apply congrArg (fun test => map.entries.find? test)
    funext entry
    by_cases hentry : entry.1 = other
    · simp [hentry, Ne.symm hkey]
    · simp [hentry]

private theorem find?_of_mem {entries : List (Key × α)} {entry : Key × α}
    (hordered : entries.Pairwise fun left right => left.1.rank < right.1.rank)
    (hmem : entry ∈ entries) :
    (entries.find? fun other => other.1 = entry.1) = some entry := by
  induction entries with
  | nil => exact absurd hmem List.not_mem_nil
  | cons head tail ih =>
      obtain ⟨hhead, htail⟩ := List.pairwise_cons.mp hordered
      rcases List.mem_cons.mp hmem with rfl | hrest
      · simp
      · have hkey : head.1 ≠ entry.1 := by
          intro hsame
          have hbefore := hhead entry hrest
          rw [hsame] at hbefore
          exact List.lt_irrefl _ hbefore
        rw [List.find?_cons_of_neg (by simpa using hkey), ih htail hrest]

theorem mem_entries {map : AddressMap α} {entry : Key × α} :
    entry ∈ map.entries ↔ map.find? entry.1 = some entry.2 := by
  rw [find?]
  constructor
  · intro hmem
    rw [find?_of_mem map.ordered hmem, Option.map_some]
  · intro hfind
    obtain ⟨found, hfound, hvalue⟩ := Option.map_eq_some_iff.mp hfind
    have hkey : found.1 = entry.1 := by simpa using List.find?_some hfound
    have hentry : found = entry := Prod.ext hkey hvalue
    exact hentry ▸ List.mem_of_find?_eq_some hfound

theorem ext_find? {left right : AddressMap α}
    (hfind : ∀ key, left.find? key = right.find? key) :
    left = right := by
  have hnodup (map : AddressMap α) : map.entries.Nodup := by
    refine map.ordered.imp fun {first second} hbefore hsame => ?_
    subst hsame
    exact List.lt_irrefl _ hbefore
  have hperm : left.entries.Perm right.entries :=
    (List.perm_ext_iff_of_nodup (hnodup left) (hnodup right)).mpr fun entry => by
      rw [mem_entries, mem_entries, hfind]
  refine ext_entries (hperm.eq_of_pairwise ?_ left.ordered right.ordered)
  intro first second _ _ hbefore hafter
  exact absurd hafter (List.lt_asymm hbefore)

/-- Values of different keys may be inserted in either order. -/
theorem insert_comm (map : AddressMap α) {first second : Key} (hkeys : first ≠ second)
    (left right : α) :
    (map.insert first left).insert second right =
      (map.insert second right).insert first left := by
  refine ext_find? fun key => ?_
  rw [find?_insert, find?_insert, find?_insert, find?_insert]
  by_cases hfirst : first = key
  · subst hfirst
    rw [if_neg hkeys.symm, if_pos rfl, if_pos rfl]
  · rw [if_neg hfirst, if_neg hfirst]

/-- Inserting a value where it is already changes nothing. -/
theorem insert_of_find? {map : AddressMap α} {key : Key} {value : α}
    (hfind : map.find? key = some value) : map.insert key value = map := by
  refine ext_find? fun other => ?_
  rw [find?_insert]
  split
  · rename_i hkey
    rw [← hkey, hfind]
  · rfl

theorem mem_values_of_find? {map : AddressMap α} {key : Key} {value : α}
    (hfind : map.find? key = some value) :
    value ∈ map.values := by
  rw [find?] at hfind
  obtain ⟨entry, hentry, rfl⟩ := Option.map_eq_some_iff.mp hfind
  exact List.mem_map_of_mem (List.mem_of_find?_eq_some hentry)

theorem forall_mem_values_insert {map : AddressMap α} {holds : α → Prop} {key : Key}
    {value : α} (hvalues : ∀ other ∈ map.values, holds other) (hvalue : holds value) :
    ∀ other ∈ (map.insert key value).values, holds other := by
  intro other hmem
  obtain ⟨entry, hentry, rfl⟩ := List.mem_map.mp hmem
  rcases mem_insertEntry hentry with rfl | hold
  · exact hvalue
  · exact hvalues _ (List.mem_map_of_mem hold)

theorem forall_mem_values_erase {map : AddressMap α} {holds : α → Prop}
    (hvalues : ∀ other ∈ map.values, holds other) (key : Key) :
    ∀ other ∈ (map.erase key).values, holds other := by
  intro other hmem
  obtain ⟨entry, hentry, rfl⟩ := List.mem_map.mp hmem
  exact hvalues _ (List.mem_map_of_mem (List.mem_filter.mp hentry).1)

private def entrySum (quantity : α → Int) (entries : List (Key × α)) : Int :=
  (entries.map Prod.snd).foldr (fun value sum => quantity value + sum) 0

private def foundIn (quantity : α → Int) (key : Key) (entries : List (Key × α)) : Int :=
  ((entries.find? fun entry => entry.1 = key).map fun entry => quantity entry.2).getD 0

private theorem entrySum_cons (quantity : α → Int) (entry : Key × α)
    (rest : List (Key × α)) :
    entrySum quantity (entry :: rest) = quantity entry.2 + entrySum quantity rest := rfl

private theorem foundIn_cons_self (quantity : α → Int) (entry : Key × α)
    (rest : List (Key × α)) :
    foundIn quantity entry.1 (entry :: rest) = quantity entry.2 := by
  simp [foundIn]

private theorem foundIn_cons_of_ne (quantity : α → Int) {key : Key} {entry : Key × α}
    (rest : List (Key × α)) (hkey : entry.1 ≠ key) :
    foundIn quantity key (entry :: rest) = foundIn quantity key rest := by
  simp [foundIn, hkey]

private theorem foundIn_of_before (quantity : α → Int) {key : Key}
    {entries : List (Key × α)} (hbefore : ∀ entry ∈ entries, key.rank < entry.1.rank) :
    foundIn quantity key entries = 0 := by
  have hnone : (entries.find? fun entry => entry.1 = key) = none := by
    refine List.find?_eq_none.mpr ?_
    intro entry hmem hkey
    have hlt := hbefore entry hmem
    rw [of_decide_eq_true hkey] at hlt
    exact List.lt_irrefl _ hlt
  rw [foundIn, hnone]
  rfl

private theorem foundIn_eq_find? (quantity : α → Int) (map : AddressMap α) (key : Key) :
    foundIn quantity key map.entries = ((map.find? key).map quantity).getD 0 := by
  rw [foundIn, find?, Option.map_map]
  rfl

private theorem entrySum_insertEntry (quantity : α → Int) (key : Key) (value : α)
    {entries : List (Key × α)}
    (hordered : entries.Pairwise fun left right => left.1.rank < right.1.rank) :
    entrySum quantity (insertEntry key value entries) =
      entrySum quantity entries - foundIn quantity key entries + quantity value := by
  induction entries with
  | nil => simp [insertEntry, entrySum, foundIn]
  | cons head tail ih =>
      obtain ⟨hhead, htail⟩ := List.pairwise_cons.mp hordered
      rw [insertEntry]
      split
      · rename_i hbefore
        have hfound : foundIn quantity key (head :: tail) = 0 := by
          refine foundIn_of_before quantity ?_
          intro entry hmem
          rcases List.mem_cons.mp hmem with rfl | hrest
          · exact hbefore
          · exact List.lt_trans hbefore (hhead entry hrest)
        simp only [entrySum_cons quantity (key, value), hfound]
        omega
      · rename_i hbefore
        split
        · rename_i hafter
          have hne : head.1 ≠ key := by
            intro heq
            rw [heq] at hafter
            exact List.lt_irrefl _ hafter
          rw [entrySum_cons, entrySum_cons, foundIn_cons_of_ne quantity tail hne, ih htail]
          omega
        · rename_i hafter
          have hkey : key = head.1 :=
            Key.rank_injective (List.le_antisymm hafter hbefore)
          subst hkey
          simp only [entrySum_cons, foundIn_cons_self]
          omega

private theorem entrySum_filter (quantity : α → Int) (key : Key) {entries : List (Key × α)}
    (hordered : entries.Pairwise fun left right => left.1.rank < right.1.rank) :
    entrySum quantity (entries.filter fun entry => entry.1 ≠ key) =
      entrySum quantity entries - foundIn quantity key entries := by
  induction entries with
  | nil => rfl
  | cons head tail ih =>
      obtain ⟨hhead, htail⟩ := List.pairwise_cons.mp hordered
      by_cases hkey : head.1 = key
      · subst hkey
        have hrest := ih htail
        rw [foundIn_of_before quantity hhead] at hrest
        simp only [List.filter_cons, ne_eq, not_true_eq_false, decide_false,
          Bool.false_eq_true, if_false] at hrest ⊢
        rw [hrest, entrySum_cons, foundIn_cons_self]
        omega
      · rw [List.filter_cons_of_pos (by simpa using hkey), entrySum_cons, entrySum_cons,
          foundIn_cons_of_ne quantity tail hkey, ih htail]
        omega

theorem sumOf_insert (map : AddressMap α) (key : Key) (value : α) (quantity : α → Int) :
    (map.insert key value).sumOf quantity =
      map.sumOf quantity - ((map.find? key).map quantity).getD 0 + quantity value := by
  have hsum := entrySum_insertEntry quantity key value map.ordered
  rw [foundIn_eq_find?] at hsum
  exact hsum

/-- A key that is not known counts as one with a value of no quantity. -/
theorem sumOf_insert_getD (map : AddressMap α) (key : Key) (value : α) {quantity : α → Int}
    {initial : α} (hinitial : quantity initial = 0) :
    (map.insert key value).sumOf quantity =
      map.sumOf quantity - quantity ((map.find? key).getD initial) + quantity value := by
  rw [sumOf_insert]
  cases map.find? key with
  | none => rw [Option.map_none, Option.getD_none, Option.getD_none, hinitial]
  | some known => rfl

theorem sumOf_erase (map : AddressMap α) (key : Key) (quantity : α → Int) :
    (map.erase key).sumOf quantity =
      map.sumOf quantity - ((map.find? key).map quantity).getD 0 := by
  have hsum := entrySum_filter quantity key map.ordered
  rw [foundIn_eq_find?] at hsum
  exact hsum

theorem sumOf_add_mul (map : AddressMap α) (first second : α → Int) (factor : Int) :
    map.sumOf (fun value => first value + factor * second value) =
      map.sumOf first + factor * map.sumOf second := by
  rw [sumOf, sumOf, sumOf]
  induction map.values with
  | nil => simp
  | cons head rest ih =>
      rw [List.foldr_cons, List.foldr_cons, List.foldr_cons, ih, Int.mul_add]
      omega

theorem sumOf_nonneg {map : AddressMap α} {quantity : α → Int}
    (hnonneg : ∀ value ∈ map.values, 0 ≤ quantity value) : 0 ≤ map.sumOf quantity := by
  rw [sumOf]
  revert hnonneg
  induction map.values with
  | nil => exact fun _ => Int.le_refl 0
  | cons head rest ih =>
      intro hnonneg
      obtain ⟨hhead, hrest⟩ := List.forall_mem_cons.mp hnonneg
      exact Int.add_nonneg hhead (ih hrest)

/-- What is counted of one value is no more than what is counted of all. -/
theorem le_sumOf {map : AddressMap α} {quantity : α → Int} {key : Key} {value : α}
    (hnonneg : ∀ value ∈ map.values, 0 ≤ quantity value)
    (hfind : map.find? key = some value) :
    quantity value ≤ map.sumOf quantity := by
  have herased := sumOf_erase map key quantity
  have hothers : 0 ≤ (map.erase key).sumOf quantity :=
    sumOf_nonneg (forall_mem_values_erase hnonneg key)
  rw [hfind, Option.map_some, Option.getD_some] at herased
  omega

end RewardVesting.AddressMap
