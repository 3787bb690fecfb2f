import Mathlib.Algebra.BigOperators.Finprod
import RewardVesting.AddressMap.Lemmas
import RewardVesting.Tally

namespace RewardVesting.Tally

variable {tally changed : Tally} {owner : Address} {change requested : Int}
  {cause : Refusal}

theorem add_cases (hadd : tally.add owner change = .ok changed) :
    0 ≤ tally.balance owner + change ∧
      (tally.balance owner + change = 0 ∧ changed = tally.erase (.address owner) ∨
        changed = tally.insert (.address owner) (tally.balance owner + change)) := by
  rw [add] at hadd
  split at hadd
  · cases hadd
  · rename_i hsum
    split at hadd
    · rename_i hzero
      cases hadd
      exact ⟨Int.not_lt.mp hsum, .inl ⟨hzero.1, rfl⟩⟩
    · cases hadd
      exact ⟨Int.not_lt.mp hsum, .inr rfl⟩

theorem add_eq_error : tally.add owner change = .error cause ↔
    tally.balance owner + change < 0 ∧
      cause = .overdrawn (tally.balance owner + change) := by
  rw [add]
  split
  · rename_i hsum
    simp only [Except.error.injEq, hsum, true_and, eq_comm]
  · rename_i hsum
    constructor
    · intro hadd
      split at hadd <;> cases hadd
    · intro hadd
      exact absurd hadd.1 hsum

theorem exists_add : (∃ changed, tally.add owner change = .ok changed) ↔
    0 ≤ tally.balance owner + change := by
  constructor
  · rintro ⟨changed, hadd⟩
    exact (add_cases hadd).1
  · intro hsum
    cases hadd : tally.add owner change with
    | ok changed => exact ⟨changed, rfl⟩
    | error cause => exact absurd (add_eq_error.mp hadd).1 (Int.not_lt.mpr hsum)

theorem find?_of_add (hadd : tally.add owner change = .ok changed) {key : Key}
    (hkey : key ≠ .address owner) : changed.find? key = tally.find? key := by
  obtain ⟨_, ⟨_, rfl⟩ | rfl⟩ := add_cases hadd
  · rw [AddressMap.find?_erase, if_neg hkey.symm]
  · rw [AddressMap.find?_insert, if_neg hkey.symm]

theorem find?_of_add_self (hadd : tally.add owner change = .ok changed) :
    changed.find? (.address owner) =
      if tally.balance owner + change = 0 ∧ change ≠ 0 then none
      else some (tally.balance owner + change) := by
  rw [add] at hadd
  split at hadd
  · cases hadd
  · split at hadd
    · rename_i hfalls
      cases hadd
      rw [AddressMap.find?_erase, if_pos rfl, if_pos (by omega)]
    · rename_i hstays
      cases hadd
      rw [AddressMap.find?_insert, if_pos rfl, if_neg (by omega)]

theorem nonneg_of_add (hadd : tally.add owner change = .ok changed)
    (hnonneg : ∀ amount ∈ tally.values, 0 ≤ amount) :
    ∀ amount ∈ changed.values, 0 ≤ amount := by
  obtain ⟨hsum, ⟨_, rfl⟩ | rfl⟩ := add_cases hadd
  · exact AddressMap.forall_mem_values_erase hnonneg _
  · exact AddressMap.forall_mem_values_insert hnonneg hsum

/-- An amount that counts for one address alone. -/
def only (owner : Address) (amount : Int) : Address → Int :=
  fun other => if owner = other then amount else 0

theorem balance_of_add (hadd : tally.add owner change = .ok changed) :
    changed.balance = tally.balance + only owner change := by
  funext other
  rw [Pi.add_apply, only]
  by_cases hother : owner = other
  · subst hother
    rw [if_pos rfl, balance]
    obtain ⟨_, ⟨hzero, rfl⟩ | rfl⟩ := add_cases hadd
    · rw [AddressMap.find?_erase, if_pos rfl, Option.getD_none, hzero]
    · rw [AddressMap.find?_insert, if_pos rfl, Option.getD_some]
  · have hkey : Key.address other ≠ .address owner := fun hsame =>
      hother (Key.address_injective hsame).symm
    rw [if_neg hother, Int.add_zero, balance, balance, find?_of_add hadd hkey]

theorem total_of_add (hadd : tally.add owner change = .ok changed) :
    changed.total = tally.total + change := by
  have hbalance : tally.balance owner = ((tally.find? (.address owner)).map id).getD 0 := by
    rw [balance, Option.map_id, id]
  obtain ⟨_, ⟨hzero, rfl⟩ | rfl⟩ := add_cases hadd
  · rw [total, AddressMap.sumOf_erase, ← hbalance, total]
    omega
  · rw [total, AddressMap.sumOf_insert, ← hbalance, total, id]
    omega

/-- Each key is that of an address. -/
def Keyed (tally : Tally) : Prop :=
    ∀ entry ∈ tally.entries, ∃ owner, entry.1 = .address owner

theorem Keyed.add (hkeyed : Keyed tally) (hadd : tally.add owner change = .ok changed) :
    Keyed changed := by
  obtain ⟨_, ⟨_, rfl⟩ | rfl⟩ := add_cases hadd
  · intro entry hmem
    exact hkeyed entry (List.mem_filter.mp hmem).1
  · intro entry hmem
    rcases AddressMap.mem_insertEntry hmem with rfl | hold
    · exact ⟨owner, rfl⟩
    · exact hkeyed entry hold

theorem Keyed.exists_owner (hkeyed : Keyed tally) {key : Key} {amount : Int}
    (hfind : tally.find? key = some amount) : ∃ owner, key = .address owner :=
  hkeyed (key, amount) (AddressMap.mem_entries.mpr hfind)

/-- Only the keys of addresses tell one table from another. -/
theorem Keyed.ext {other : Tally} (hkeyed : Keyed tally) (hother : Keyed other)
    (hfind : ∀ owner, tally.find? (.address owner) = other.find? (.address owner)) :
    tally = other := by
  refine AddressMap.ext_find? fun key => Option.ext fun amount => ?_
  constructor
  · intro hamount
    obtain ⟨owner, rfl⟩ := hkeyed.exists_owner hamount
    rwa [← hfind]
  · intro hamount
    obtain ⟨owner, rfl⟩ := hother.exists_owner hamount
    rwa [hfind]

theorem forall_mem_values (hkeyed : Keyed tally) {holds : Int → Prop} (hzero : holds 0) :
    (∀ amount ∈ tally.values, holds amount) ↔ ∀ owner, holds (tally.balance owner) := by
  constructor
  · intro hvalues owner
    rw [balance]
    cases hfind : tally.find? (.address owner) with
    | none => exact hzero
    | some amount => exact hvalues amount (AddressMap.mem_values_of_find? hfind)
  · intro hbalances amount hmem
    obtain ⟨entry, hentry, rfl⟩ := List.mem_map.mp hmem
    obtain ⟨owner, howner⟩ := hkeyed entry hentry
    have hbalance : tally.balance owner = entry.2 := by
      rw [balance, ← howner, AddressMap.mem_entries.mp hentry, Option.getD_some]
    exact hbalance ▸ hbalances owner

theorem subtract_eq_ok : tally.subtract owner requested = .ok changed ↔
    requested ≤ tally.balance owner ∧ tally.add owner (-requested) = .ok changed := by
  rw [subtract]
  split
  · rename_i hshort
    exact ⟨nofun, fun hcovered => absurd hcovered.1 (Int.not_le.mpr hshort)⟩
  · rename_i hcovered
    rw [and_iff_right (Int.not_lt.mp hcovered)]

theorem subtract_eq_error : tally.subtract owner requested = .error cause ↔
    tally.balance owner < requested ∧
      cause = .shortfall requested (tally.balance owner) owner := by
  rw [subtract]
  split
  · rename_i hshort
    simp only [Except.error.injEq, hshort, true_and, eq_comm]
  · rename_i hcovered
    rw [add_eq_error]
    omega

theorem exists_subtract : (∃ changed, tally.subtract owner requested = .ok changed) ↔
    requested ≤ tally.balance owner := by
  simp only [subtract_eq_ok, exists_and_left, exists_add]
  omega

/-! Requests made of a table, of which a refused one leaves it as it is. -/

inductive Request
  | add (owner : Address) (change : Int)
  | subtract (owner : Address) (requested : Int)
  /-- Stores the table and reads it back. -/
  | reload
  deriving DecidableEq

namespace Request

def perform : Request → Tally → Except Refusal Tally
  | add owner change, tally => tally.add owner change
  | subtract owner requested, tally => tally.subtract owner requested
  | reload, tally => do load (← tally.store)

/-- What a request changes the balances by. -/
def effect : Request → Address → Int
  | add owner change => only owner change
  | subtract owner requested => only owner (-requested)
  | reload => 0

/-- Whether a request is accepted, by the balances alone. -/
def Covered (balances : Address → Int) : Request → Prop
  | add owner change => 0 ≤ balances owner + change
  | subtract owner requested => requested ≤ balances owner
  | reload => ∀ owner, Amount.Storable (balances owner)

/-- Whose balance a request is about. -/
def owner? : Request → Option Address
  | add owner _ | subtract owner _ => some owner
  | reload => none

def refusalCode : Request → ExitCode
  | add _ _ | subtract _ _ => .illegalArgument
  | reload => .illegalState

end Request

/-- Makes requests in turn.  Returns those that were accepted. -/
def performAll (tally : Tally) : List Request → List Request × Tally
  | [] => ([], tally)
  | request :: rest =>
    match request.perform tally with
    | .ok changed =>
      let (accepted, last) := performAll changed rest
      (request :: accepted, last)
    | .error _ => performAll tally rest

/-- The sum of what requests change the balance of each address by. -/
def changes (requests : List Request) (owner : Address) : Int :=
  (requests.map fun request => request.effect owner).sum

theorem changes_append (requests : List Request) (request : Request) :
    changes (requests ++ [request]) = changes requests + request.effect := by
  funext owner
  rw [changes, List.map_append, List.sum_append, List.map_singleton, List.sum_singleton]
  rfl

variable {request : Request} {accepted : List Request}

theorem perform_reload (tally : Tally) : Request.reload.perform tally =
    if ∀ amount ∈ tally.values, Amount.Storable amount then .ok tally
    else .error .unstorable := by
  rw [Request.perform, store]
  split <;> rfl

theorem exists_reload (hkeyed : tally.Keyed) :
    (∃ changed, Request.reload.perform tally = .ok changed) ↔
      ∀ owner, Amount.Storable (tally.balance owner) := by
  have hzero : Amount.Storable 0 := by decide
  rw [perform_reload, ← forall_mem_values hkeyed hzero]
  constructor
  · rintro ⟨changed, hreload⟩
    split at hreload
    · assumption
    · cases hreload
  · intro hvalues
    exact ⟨tally, if_pos hvalues⟩

theorem eq_of_reload (hreload : Request.reload.perform tally = .ok changed) :
    changed = tally := by
  rw [perform_reload] at hreload
  split at hreload
  · cases hreload
    rfl
  · cases hreload

/-- A request that is accepted is a change of one balance or leaves the table as it is. -/
theorem perform_cases (hperform : request.perform tally = .ok changed) :
    (∃ owner change, request.owner? = some owner ∧ tally.add owner change = .ok changed ∧
        request.effect = only owner change) ∨
      request.owner? = none ∧ request.effect = 0 ∧ changed = tally := by
  cases request with
  | add owner change => exact .inl ⟨owner, change, rfl, hperform, rfl⟩
  | subtract owner requested =>
      exact .inl ⟨owner, -requested, rfl, (subtract_eq_ok.mp hperform).2, rfl⟩
  | reload => exact .inr ⟨rfl, rfl, eq_of_reload hperform⟩

/-- A table holds for each address the sum of the changes it has accepted, and in total all
of them. -/
structure Sums (accepted : List Request) (tally : Tally) : Prop where
  keyed : tally.Keyed
  balance : tally.balance = changes accepted
  nonneg : ∀ owner, 0 ≤ tally.balance owner
  finite : (Function.support tally.balance).Finite
  total : tally.total = ∑ᶠ owner, tally.balance owner

theorem sums_empty : Sums [] .empty where
  keyed := nofun
  balance := rfl
  nonneg _ := Int.le_refl 0
  finite := by
    rw [show balance .empty = 0 from rfl, Function.support_zero]
    exact Set.finite_empty
  total := finsum_zero.symm

theorem support_only (owner : Address) (amount : Int) :
    (Function.support (only owner amount)).Finite := by
  refine (Set.finite_singleton owner).subset fun other hother => ?_
  exact (of_not_not fun hne => hother (if_neg fun hsame => hne hsame.symm) : other = owner)

theorem finsum_only (owner : Address) (amount : Int) :
    ∑ᶠ other, only owner amount other = amount := by
  have hothers : ∀ other, other ≠ owner → only owner amount other = 0 :=
    fun other hother => if_neg hother.symm
  rw [finsum_eq_single _ owner hothers, only, if_pos rfl]

theorem nonneg_balance_of_add (hadd : tally.add owner change = .ok changed)
    (hnonneg : ∀ other, 0 ≤ tally.balance other) (other : Address) :
    0 ≤ changed.balance other := by
  have hsum := (add_cases hadd).1
  rw [balance_of_add hadd, Pi.add_apply, only]
  split
  · rename_i hsame
    exact hsame ▸ hsum
  · rw [Int.add_zero]
    exact hnonneg other

theorem Sums.perform (hsums : Sums accepted tally)
    (hperform : request.perform tally = .ok changed) :
    Sums (accepted ++ [request]) changed := by
  rcases perform_cases hperform with ⟨owner, change, _, hadd, heffect⟩ | ⟨_, heffect, rfl⟩
  · have hbalance := balance_of_add hadd
    have hfinite := support_only owner change
    constructor
    · exact hsums.keyed.add hadd
    · rw [hbalance, changes_append, hsums.balance, heffect]
    · exact nonneg_balance_of_add hadd hsums.nonneg
    · rw [hbalance]
      exact (hsums.finite.union hfinite).subset (Function.support_add _ _)
    · rw [total_of_add hadd, hsums.total, hbalance]
      simp only [Pi.add_apply]
      rw [finsum_add_distrib hsums.finite hfinite, finsum_only]
  · refine { hsums with balance := ?_ }
    rw [changes_append, heffect, add_zero, hsums.balance]

/-- What every accepted request keeps holds once all requests are made. -/
theorem performAll_invariant (holds : List Request → Tally → Prop)
    (hstep : ∀ accepted tally request changed, holds accepted tally →
      request.perform tally = .ok changed → holds (accepted ++ [request]) changed)
    (hholds : holds accepted tally) (requests : List Request) :
    holds (accepted ++ (performAll tally requests).1) (performAll tally requests).2 := by
  induction requests generalizing tally accepted with
  | nil => simpa [Tally.performAll] using hholds
  | cons request rest ih =>
      rw [Tally.performAll]
      cases hperform : request.perform tally with
      | ok changed => simpa using ih (hstep _ _ _ _ hholds hperform)
      | error cause => exact ih hholds

theorem Sums.performAll (hsums : Sums accepted tally) (requests : List Request) :
    Sums (accepted ++ (performAll tally requests).1) (performAll tally requests).2 :=
  performAll_invariant Sums (fun _ _ _ _ => Sums.perform) hsums requests

/-- What comes of a request, which the balances alone decide. -/
structure Served (tally : Tally) (request : Request) : Prop where
  accepted : (∃ changed, request.perform tally = .ok changed) ↔
    request.Covered tally.balance
  effect : ∀ changed, request.perform tally = .ok changed →
    changed.balance = tally.balance + request.effect
  others : ∀ changed, request.perform tally = .ok changed →
    ∀ other, request.owner? ≠ some other → changed.balance other = tally.balance other
  reloaded : ∀ changed, request = .reload → request.perform tally = .ok changed →
    changed = tally
  refused : ∀ cause, request.perform tally = .error cause →
    cause.failure.code = request.refusalCode

theorem effect_of_ne {other : Address} (hother : request.owner? ≠ some other) :
    request.effect other = 0 := by
  cases request with
  | add owner change => exact if_neg fun hsame => hother (congrArg some hsame)
  | subtract owner requested => exact if_neg fun hsame => hother (congrArg some hsame)
  | reload => rfl

theorem served_of_keyed (hkeyed : tally.Keyed) (request : Request) :
    Served tally request := by
  have heffect : ∀ changed, request.perform tally = .ok changed →
      changed.balance = tally.balance + request.effect := by
    intro changed hperform
    rcases perform_cases hperform with ⟨owner, change, _, hadd, heffect⟩ | ⟨_, heffect, rfl⟩
    · rw [balance_of_add hadd, heffect]
    · rw [heffect, add_zero]
  refine ⟨?_, heffect, ?_, ?_, ?_⟩
  · cases request with
    | add owner change => exact exists_add
    | subtract owner requested => exact exists_subtract
    | reload => exact exists_reload hkeyed
  · intro changed hperform other hother
    rw [heffect changed hperform, Pi.add_apply, effect_of_ne hother, Int.add_zero]
  · rintro changed rfl hperform
    exact eq_of_reload hperform
  · intro cause hrefused
    cases request with
    | add owner change =>
        obtain ⟨_, rfl⟩ := add_eq_error.mp hrefused
        rfl
    | subtract owner requested =>
        obtain ⟨_, rfl⟩ := subtract_eq_error.mp hrefused
        rfl
    | reload =>
        rw [perform_reload] at hrefused
        split at hrefused
        · cases hrefused
        · cases hrefused
          rfl

theorem performAll_concat (tally : Tally) (requests : List Request) (request : Request) :
    performAll tally (requests ++ [request]) =
      match request.perform (performAll tally requests).2 with
      | .ok changed => ((performAll tally requests).1 ++ [request], changed)
      | .error _ => performAll tally requests := by
  induction requests generalizing tally with
  | nil =>
      rw [List.nil_append, performAll, performAll]
      cases request.perform tally <;> rfl
  | cons first rest ih =>
      rw [List.cons_append, performAll, performAll]
      cases hfirst : first.perform tally with
      | ok changed =>
          simp only [ih]
          cases request.perform (performAll changed rest).2 <;> rfl
      | error cause => exact ih tally

end RewardVesting.Tally
