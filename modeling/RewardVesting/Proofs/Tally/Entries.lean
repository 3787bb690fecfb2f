import RewardVesting.Proofs.Tally

namespace RewardVesting.Tally

variable {tally changed : Tally} {request : Request} {requests accepted : List Request}
  {owner : Address}

/-- What the last request about an address changes its balance by. -/
def lastEffect? (requests : List Request) (owner : Address) : Option Int :=
  (requests.filter fun request => request.owner? = some owner).getLast?.map fun request =>
    request.effect owner

/-- All changes of a balance come to nothing, and the last of them was of nothing itself. -/
def Idle (requests : List Request) (owner : Address) : Prop :=
  changes requests owner = 0 ∧ lastEffect? requests owner = some 0

instance : Decidable (Idle requests owner) := inferInstanceAs (Decidable (_ ∧ _))

theorem lastEffect?_append_of_about (howner : request.owner? = some owner) :
    lastEffect? (requests ++ [request]) owner = some (request.effect owner) := by
  rw [lastEffect?, List.filter_append, List.filter_singleton, decide_eq_true howner]
  simp

theorem lastEffect?_append_of_not_about (hother : request.owner? ≠ some owner) :
    lastEffect? (requests ++ [request]) owner = lastEffect? requests owner := by
  rw [lastEffect?, List.filter_append, List.filter_singleton, decide_eq_false hother,
    lastEffect?]
  simp

theorem find?_of_perform_about (hperform : request.perform tally = .ok changed)
    (howner : request.owner? = some owner) :
    changed.find? (.address owner) =
      if changed.balance owner = 0 ∧ request.effect owner ≠ 0 then none
      else some (changed.balance owner) := by
  rcases perform_cases hperform with ⟨target, change, htarget, hadd, heffect⟩ | ⟨hnone, _⟩
  · cases htarget.symm.trans howner
    have hself : only owner change owner = change := if_pos rfl
    rw [balance_of_add hadd, heffect, Pi.add_apply, hself]
    exact find?_of_add_self hadd
  · cases hnone.symm.trans howner

theorem find?_of_perform_not_about (hperform : request.perform tally = .ok changed)
    (hother : request.owner? ≠ some owner) :
    changed.find? (.address owner) = tally.find? (.address owner) := by
  rcases perform_cases hperform with ⟨target, change, htarget, hadd, _⟩ | ⟨_, _, rfl⟩
  · refine find?_of_add hadd fun hkey => hother ?_
    rw [htarget, Key.address_injective hkey]
  · rfl

/-- A table tells for each address what its changes come to, unless they come to nothing and
the last of them changed something. -/
structure Recorded (accepted : List Request) (tally : Tally) : Prop where
  sums : Sums accepted tally
  entry : ∀ owner, tally.find? (.address owner) =
    if changes accepted owner = 0 ∧ lastEffect? accepted owner ≠ some 0 then none
    else some (changes accepted owner)

theorem recorded_empty : Recorded [] .empty where
  sums := sums_empty
  entry _ := (if_pos ⟨rfl, nofun⟩).symm

theorem Recorded.perform (hrecorded : Recorded accepted tally)
    (hperform : request.perform tally = .ok changed) :
    Recorded (accepted ++ [request]) changed := by
  have hsums := hrecorded.sums.perform hperform
  refine ⟨hsums, fun owner => ?_⟩
  by_cases howner : request.owner? = some owner
  · rw [find?_of_perform_about hperform howner, lastEffect?_append_of_about howner,
      hsums.balance]
    simp only [ne_eq, Option.some.injEq]
  · rw [find?_of_perform_not_about hperform howner, lastEffect?_append_of_not_about howner,
      changes_append, Pi.add_apply, effect_of_ne howner, Int.add_zero]
    exact hrecorded.entry owner

theorem recorded_of_performAll {table : Tally}
    (hrun : performAll .empty requests = (accepted, table)) : Recorded accepted table := by
  have hrecorded :=
    performAll_invariant Recorded (fun _ _ _ _ => Recorded.perform) recorded_empty requests
  rwa [hrun] at hrecorded

theorem Recorded.contains_iff (hrecorded : Recorded accepted tally) (owner : Address) :
    tally.contains (.address owner) ↔ tally.balance owner ≠ 0 ∨ Idle accepted owner := by
  rw [AddressMap.contains, hrecorded.entry, hrecorded.sums.balance, Idle]
  split
  · rename_i hgone
    simp [hgone.1, hgone.2]
  · rename_i hkept
    simp only [Option.isSome_some, true_iff]
    by_cases hzero : changes accepted owner = 0
    · exact .inr ⟨hzero, of_not_not fun hlast => hkept ⟨hzero, hlast⟩⟩
    · exact .inl hzero

theorem Recorded.idle_iff (hrecorded : Recorded accepted tally) (owner : Address) :
    Idle accepted owner ↔ tally.find? (.address owner) = some 0 := by
  rw [hrecorded.entry, Idle]
  split
  · rename_i hgone
    exact iff_of_false (fun hidle => hgone.2 hidle.2) nofun
  · rename_i hkept
    rw [Option.some.injEq]
    exact ⟨And.left, fun hzero => ⟨hzero, of_not_not fun hlast => hkept ⟨hzero, hlast⟩⟩⟩

theorem Recorded.eq_iff {others : List Request} {twin : Tally}
    (hrecorded : Recorded accepted tally)
    (htwin : Recorded others twin) (hbalance : twin.balance = tally.balance) :
    twin = tally ↔ ∀ owner, Idle others owner ↔ Idle accepted owner := by
  constructor
  · rintro rfl owner
    rw [hrecorded.idle_iff, htwin.idle_iff]
  · intro hidle
    refine htwin.sums.keyed.ext hrecorded.sums.keyed fun owner => ?_
    have hchanges : changes others owner = changes accepted owner := by
      rw [← htwin.sums.balance, ← hrecorded.sums.balance, hbalance]
    have hlast : changes accepted owner = 0 →
        (lastEffect? others owner = some 0 ↔ lastEffect? accepted owner = some 0) := by
      intro hzero
      have howner := hidle owner
      rw [Idle, Idle, hchanges] at howner
      simpa [hzero] using howner
    rw [htwin.entry, hrecorded.entry, hchanges]
    refine if_congr (and_congr_right fun hzero => not_congr (hlast hzero)) rfl rfl

theorem store_eq_ok {root : Link Tally} : tally.store = .ok root ↔
    (∀ amount ∈ tally.values, Amount.Storable amount) ∧ .held tally = root := by
  rw [store]
  split
  · rename_i hstorable
    rw [Except.ok.injEq, and_iff_right hstorable]
  · rename_i hlarge
    refine iff_of_false (fun hstored => ?_) fun hstored => hlarge hstored.1
    cases hstored

theorem store_eq_iff {twin : Tally} {root : Link Tally} (hstore : tally.store = .ok root) :
    twin.store = .ok root ↔ twin = tally := by
  constructor
  · intro htwin
    have hroots := (store_eq_ok.mp htwin).2.trans (store_eq_ok.mp hstore).2.symm
    exact Link.held.inj hroots
  · rintro rfl
    exact hstore

/-- An address has an entry without a balance just if it idles.  Tables of the same balances
are the same table, and are stored alike, just if the same addresses idle in both. -/
theorem canonical_iff_not_idle {table : Tally}
    (hrun : performAll .empty requests = (accepted, table)) :
    (∀ owner, (table.contains (.address owner) ↔ table.balance owner ≠ 0) ↔
      ¬Idle accepted owner) ∧
    ∀ otherRequests otherAccepted otherTable,
      performAll .empty otherRequests = (otherAccepted, otherTable) →
      otherTable.balance = table.balance →
      (otherTable = table ↔ ∀ owner, Idle otherAccepted owner ↔ Idle accepted owner) ∧
      ∀ root, table.store = .ok root →
        (otherTable.store = .ok root ↔ ∀ owner, Idle otherAccepted owner ↔
          Idle accepted owner) := by
  have hrecorded := recorded_of_performAll hrun
  refine ⟨fun owner => ?_, ?_⟩
  · rw [hrecorded.contains_iff]
    constructor
    · intro hbalance hidle
      have hzero : table.balance owner = 0 := by rw [hrecorded.sums.balance, hidle.1]
      exact hbalance.mp (.inr hidle) hzero
    · intro hidle
      exact ⟨fun hentry => hentry.resolve_right hidle, .inl⟩
  · intro otherRequests otherAccepted otherTable hother hbalance
    have heq := hrecorded.eq_iff (recorded_of_performAll hother) hbalance
    refine ⟨heq, fun root hstore => ?_⟩
    rw [store_eq_iff hstore, heq]

/-- One address idles and another has lost its entry; where neither idles the table differs,
though all balances are the same. -/
theorem canonical_iff_not_idle_mixed :
    ∃ accepted table otherAccepted otherTable,
      performAll .empty [.add (.id 100) 0, .add (.id 101) 5, .subtract (.id 101) 7,
        .subtract (.id 101) 5] = (accepted, table) ∧
      performAll .empty [.add (.id 100) 3, .subtract (.id 100) 3] =
        (otherAccepted, otherTable) ∧
      otherTable.balance = table.balance ∧ Idle accepted (.id 100) ∧
      ¬(table.contains (.address (.id 100)) ↔ table.balance (.id 100) ≠ 0) ∧
      (table.contains (.address (.id 101)) ↔ table.balance (.id 101) ≠ 0) ∧
        otherTable ≠ table := by
  have hrun : performAll .empty [.add (.id 100) 0, .add (.id 101) 5, .subtract (.id 101) 7,
      .subtract (.id 101) 5] =
    ([.add (.id 100) 0, .add (.id 101) 5, .subtract (.id 101) 5], _) := rfl
  have hother : performAll .empty [.add (.id 100) 3, .subtract (.id 100) 3] =
    ([.add (.id 100) 3, .subtract (.id 100) 3], _) := rfl
  have hbalance : changes [.add (.id 100) 3, .subtract (.id 100) 3] =
      changes [.add (.id 100) 0, .add (.id 101) 5, .subtract (.id 101) 5] := by
    funext owner
    simp only [changes, List.map_cons, List.map_nil, List.sum_cons, List.sum_nil,
      Request.effect, only]
    split <;> split <;> rfl
  rw [← (recorded_of_performAll hrun).sums.balance,
    ← (recorded_of_performAll hother).sums.balance] at hbalance
  obtain ⟨hentries, htables⟩ := canonical_iff_not_idle hrun
  refine ⟨_, _, _, _, hrun, hother, hbalance, by decide, ?_, ?_, ?_⟩
  · rw [hentries]
    decide
  · rw [hentries]
    decide
  · rw [ne_eq, (htables _ _ _ hother hbalance).1]
    intro hidle
    exact absurd ((hidle (.id 100)).mpr (by decide)) (by decide)

/-- Nothing added for an unknown address leaves an entry without a balance, by which what is
stored differs from what is stored of an empty table. -/
theorem zero_entry_kept :
    ¬((performAll .empty [.add (.id 100) 0]).2.contains (.address (.id 100)) ↔
      (performAll .empty [.add (.id 100) 0]).2.balance (.id 100) ≠ 0) ∧
    (performAll .empty [.add (.id 100) 0]).2.balance = (performAll .empty []).2.balance ∧
    (performAll .empty [.add (.id 100) 0]).2.store ≠ (performAll .empty []).2.store := by
  have hadd : add .empty (.id 100) 0 = .ok (performAll .empty [.add (.id 100) 0]).2 := rfl
  have hnothing : only (.id 100) 0 = 0 := funext fun _ => ite_self 0
  have hstored : (performAll .empty []).2.store = .ok (.held .empty) := rfl
  refine ⟨by decide, ?_, fun hsame => ?_⟩
  · rw [balance_of_add hadd, hnothing, add_zero]
    rfl
  · have htable := (store_eq_iff hstored).mp (hsame.trans hstored)
    exact absurd (congrArg (fun table => table.contains (.address (.id 100))) htable)
      (by decide)

end RewardVesting.Tally
