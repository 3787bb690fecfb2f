import RewardVesting.Key

namespace RewardVesting

/-- A finite map over keys, its entries kept in the order of their keys. -/
structure AddressMap (α : Type) where
  entries : List (Key × α)
  ordered : entries.Pairwise fun left right => left.1.rank < right.1.rank

namespace AddressMap

variable {α : Type}

theorem ext_entries {left right : AddressMap α} (hentries : left.entries = right.entries) :
    left = right := by
  cases left
  cases right
  cases hentries
  rfl

def empty : AddressMap α := ⟨[], .nil⟩

instance : Inhabited (AddressMap α) := ⟨empty⟩

def find? (map : AddressMap α) (key : Key) : Option α :=
  (map.entries.find? fun entry => entry.1 = key).map Prod.snd

def contains (map : AddressMap α) (key : Key) : Bool :=
  (map.find? key).isSome

def insertEntry (key : Key) (value : α) : List (Key × α) → List (Key × α)
  | [] => [(key, value)]
  | entry :: rest =>
    if key.rank < entry.1.rank then (key, value) :: entry :: rest
    else if entry.1.rank < key.rank then entry :: insertEntry key value rest
    else (key, value) :: rest

theorem mem_insertEntry {key : Key} {value : α} {entry : Key × α} {entries : List (Key × α)}
    (hmem : entry ∈ insertEntry key value entries) :
    entry = (key, value) ∨ entry ∈ entries := by
  induction entries with
  | nil => simpa [insertEntry] using hmem
  | cons head tail ih =>
      rw [insertEntry] at hmem
      split at hmem
      · simpa using hmem
      · split at hmem
        · rcases List.mem_cons.mp hmem with hhead | htail
          · exact .inr (hhead ▸ List.mem_cons_self)
          · exact (ih htail).imp_right (List.mem_cons_of_mem head)
        · rcases List.mem_cons.mp hmem with hnew | htail
          · exact .inl hnew
          · exact .inr (List.mem_cons_of_mem head htail)

theorem ordered_insertEntry (key : Key) (value : α) {entries : List (Key × α)}
    (hordered : entries.Pairwise fun left right => left.1.rank < right.1.rank) :
    (insertEntry key value entries).Pairwise
      fun left right => left.1.rank < right.1.rank := by
  induction entries with
  | nil => simp [insertEntry]
  | cons head tail ih =>
      obtain ⟨hhead, htail⟩ := List.pairwise_cons.mp hordered
      rw [insertEntry]
      split
      · rename_i hbefore
        refine List.pairwise_cons.mpr ⟨?_, hordered⟩
        intro entry hmem
        rcases List.mem_cons.mp hmem with rfl | hrest
        · exact hbefore
        · exact List.lt_trans hbefore (hhead entry hrest)
      · rename_i hbefore
        split
        · rename_i hafter
          refine List.pairwise_cons.mpr ⟨?_, ih htail⟩
          intro entry hmem
          rcases mem_insertEntry hmem with rfl | hrest
          · exact hafter
          · exact hhead entry hrest
        · rename_i hafter
          have hrank : key.rank = head.1.rank := List.le_antisymm hafter hbefore
          refine List.pairwise_cons.mpr ⟨?_, htail⟩
          intro entry hmem
          rw [hrank]
          exact hhead entry hmem

def insert (map : AddressMap α) (key : Key) (value : α) : AddressMap α :=
  ⟨insertEntry key value map.entries, ordered_insertEntry key value map.ordered⟩

def erase (map : AddressMap α) (key : Key) : AddressMap α :=
  ⟨map.entries.filter fun entry => entry.1 ≠ key, map.ordered.filter _⟩

def values (map : AddressMap α) : List α := map.entries.map Prod.snd

def sumOf (map : AddressMap α) (quantity : α → Int) : Int :=
  map.values.foldr (fun value sum => quantity value + sum) 0

end AddressMap

end RewardVesting
