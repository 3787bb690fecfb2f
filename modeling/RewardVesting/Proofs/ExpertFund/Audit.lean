import RewardVesting.AddressMap.Lemmas
import RewardVesting.ExpertFund.Audit
import RewardVesting.Proofs.Ledger.WellFormed

namespace RewardVesting.ExpertFund

/-- The record of an expert as an audit wants it. -/
structure Orderly (info : Expert) : Prop where
  vesting : info.vesting.WellFormed
  locked : info.locked = info.vesting.lockedTotal
  unlocked_nonneg : 0 ≤ info.unlocked
  rewardDebt_nonneg : 0 ≤ info.rewardDebt

theorem orderly_iff {info : Expert} :
    Orderly info ↔ info.vesting.defect? = none ∧ info.locked = info.vesting.lockedTotal ∧
      0 ≤ info.unlocked ∧ 0 ≤ info.rewardDebt := by
  rw [Ledger.defect?_eq_none]
  constructor
  · rintro ⟨hvesting, hlocked, hunlocked, hdebt⟩
    exact ⟨hvesting, hlocked, hunlocked, hdebt⟩
  · rintro ⟨hvesting, hlocked, hunlocked, hdebt⟩
    exact ⟨hvesting, hlocked, hunlocked, hdebt⟩

instance (info : Expert) : Decidable (Orderly info) := decidable_of_iff _ orderly_iff.symm

/-- Every key of the experts is read as an address. -/
def Legible (experts : AddressMap Expert) : Prop :=
  ∀ entry ∈ experts.entries, ∃ expert, entry.1.toAddress = .ok expert

theorem legible_empty : Legible .empty := nofun

theorem Legible.insert {experts : AddressMap Expert} (hlegible : Legible experts)
    (expert : Address) (info : Expert) :
    Legible (experts.insert (.address expert) info) := by
  intro entry hmem
  rcases AddressMap.mem_insertEntry hmem with rfl | hold
  · exact ⟨expert, Key.toAddress_address expert⟩
  · exact hlegible entry hold

/-- A fund as an audit wants it, with these experts and votes. -/
structure Approved (fund : Fund) (experts : AddressMap Expert) (votes : Tally)
    (balance : Int) : Prop where
  orderly : ∀ info ∈ experts.values, Orderly info
  totalWeight : (experts.sumOf fun info => info.weight.toNat) = fund.totalWeight.toNat
  lastBalance_le : fund.lastBalance ≤ balance
  owed_le : (experts.sumOf fun info => info.locked + info.unlocked) ≤ fund.lastBalance
  votes_nonneg : ∀ amount ∈ votes.values, 0 ≤ amount

namespace Audit

/-- The sum of a quantity over experts that are to be entered. -/
def totalOf (quantity : Expert → Int) (entries : List (Key × Expert)) : Int :=
  (entries.map Prod.snd).foldr (fun info sum => quantity info + sum) 0

@[simp] theorem totalOf_nil (quantity : Expert → Int) : totalOf quantity [] = 0 := rfl

@[simp] theorem totalOf_cons (quantity : Expert → Int) (entry : Key × Expert)
    (rest : List (Key × Expert)) :
    totalOf quantity (entry :: rest) = quantity entry.2 + totalOf quantity rest := rfl

theorem isEmpty_inspect {report : Report} {heading : String} {info : Expert} :
    (inspect report heading info).isEmpty ↔ report.isEmpty ∧ Orderly info := by
  simp [inspect, orderly_iff, and_assoc]

/-- An audit after some more experts: the weights and what is owed are summed up, and the
report is still empty if it was and all of them are orderly. -/
structure Entered (before : Audit) (entries : List (Key × Expert)) (after : Audit) :
    Prop where
  totalWeight : (after.summary.totalWeight.toNat : Int) =
    before.summary.totalWeight.toNat + totalOf (fun info => info.weight.toNat) entries
  owed : after.summary.owed =
    before.summary.owed + totalOf (fun info => info.locked + info.unlocked) entries
  report : after.report.isEmpty ↔
    before.report.isEmpty ∧ ∀ entry ∈ entries, Orderly entry.2

variable {before middle after : Audit} {entry : Key × Expert}
  {rest entries : List (Key × Expert)}

theorem entered_nil (audit : Audit) : Entered audit [] audit where
  totalWeight := (Int.add_zero _).symm
  owed := (Int.add_zero _).symm
  report := by simp

theorem Entered.cons (hfirst : Entered before [entry] middle)
    (hrest : Entered middle rest after) :
    Entered before (entry :: rest) after where
  totalWeight := by
    rw [hrest.totalWeight, hfirst.totalWeight, totalOf_cons, totalOf_cons, totalOf_nil]
    omega
  owed := by
    rw [hrest.owed, hfirst.owed, totalOf_cons, totalOf_cons, totalOf_nil]
    omega
  report := by
    rw [hrest.report, hfirst.report, List.forall_mem_singleton, List.forall_mem_cons,
      and_assoc]

theorem enter_of_fits {audit : Audit} (expert : Address)
    (hfits : audit.summary.totalWeight.toNat + entry.2.weight.toNat < UInt64.size) :
    ∃ entered, audit.enter expert entry.2 = .ok entered ∧
      Entered audit [entry] entered := by
  refine ⟨_, if_pos hfits, ?_, ?_, ?_⟩
  · simp only [totalOf_cons, totalOf_nil, UInt64.toNat_add, Nat.mod_eq_of_lt hfits]
    omega
  · simp only [Summary.owed, totalOf_cons, totalOf_nil]
    omega
  · rw [isEmpty_inspect, List.forall_mem_singleton]

theorem totalOf_weight_nonneg (entries : List (Key × Expert)) :
    0 ≤ totalOf (fun info => info.weight.toNat) entries := by
  induction entries with
  | nil => exact Int.le_refl 0
  | cons entry rest ih =>
      rw [totalOf_cons]
      exact Int.add_nonneg (Int.natCast_nonneg _) ih

theorem enterAll_cons (audit : Audit) {expert : Address}
    (hkey : entry.1.toAddress = .ok expert) :
    audit.enterAll (entry :: rest) =
      (audit.enter expert entry.2).bind fun entered => entered.enterAll rest := by
  rw [enterAll, hkey]
  rfl

/-- Entering experts faults as soon as the weights so far do not fit, so that it comes to an
end just if all weights together do. -/
theorem enterAll_cases (audit : Audit)
    (hkeys : ∀ entry ∈ entries, ∃ expert, entry.1.toAddress = .ok expert) :
    audit.summary.totalWeight.toNat + totalOf (fun info => info.weight.toNat) entries <
        UInt64.size ∧
      (∃ after, audit.enterAll entries = .ok after ∧ Entered audit entries after) ∨
    UInt64.size ≤
        audit.summary.totalWeight.toNat + totalOf (fun info => info.weight.toNat) entries ∧
      audit.enterAll entries = .error .addOverflow := by
  induction entries generalizing audit with
  | nil =>
      have hword := audit.summary.totalWeight.toNat_lt_size
      refine .inl ⟨?_, audit, rfl, entered_nil audit⟩
      rw [totalOf_nil]
      omega
  | cons entry rest ih =>
      obtain ⟨⟨expert, hkey⟩, hkeysRest⟩ := List.forall_mem_cons.mp hkeys
      rw [enterAll_cons audit hkey, totalOf_cons]
      by_cases hfits : audit.summary.totalWeight.toNat + entry.2.weight.toNat < UInt64.size
      · obtain ⟨entered, henter, hfirst⟩ := enter_of_fits expert hfits
        have hweight := hfirst.totalWeight
        rw [totalOf_cons, totalOf_nil] at hweight
        rw [henter]
        rcases ih entered hkeysRest with ⟨hsum, after, hafter, hrest⟩ | ⟨hlarge, hfault⟩
        · exact .inl ⟨by omega, after, hafter, hfirst.cons hrest⟩
        · exact .inr ⟨by omega, hfault⟩
      · -- The weights that come later cannot make up for it.
        have hnonneg := totalOf_weight_nonneg rest
        refine .inr ⟨by omega, ?_⟩
        rw [enter, if_neg hfits]
        rfl

theorem isEmpty_compareTotals {audit : Audit} {fund : Fund} {balance : Int} :
    (audit.compareTotals fund balance).report.isEmpty ↔
      audit.report.isEmpty ∧ audit.summary.totalWeight = fund.totalWeight ∧
        fund.lastBalance ≤ balance ∧ audit.summary.owed ≤ fund.lastBalance := by
  simp [compareTotals, and_assoc]

theorem isEmpty_foldl_require {α : Type} (condition : α → Bool) (message : α → String)
    (items : List α) (report : Report) :
    (items.foldl (fun report item => report.require "" (condition item) (message item))
      report).isEmpty = (report.isEmpty && items.all condition) := by
  induction items generalizing report with
  | nil => simp
  | cons item rest ih =>
      rw [List.foldl_cons, ih, Report.isEmpty_require, List.all_cons, Bool.and_assoc]

theorem isEmpty_enterVotes {audit : Audit} {fund : Fund} {votes : Tally}
    (hvotes : fund.votes = .held votes) :
    (audit.enterVotes fund).report.isEmpty ↔
      audit.report.isEmpty ∧ ∀ amount ∈ votes.values, 0 ≤ amount := by
  have htally : fund.tally = .ok votes := by
    rw [Fund.tally, hvotes]
    rfl
  rw [enterVotes, htally]
  dsimp only
  rw [isEmpty_foldl_require (fun entry : Key × Int => decide (0 ≤ entry.2)),
    Bool.and_eq_true, List.all_eq_true, AddressMap.values, List.forall_mem_map]
  simp only [decide_eq_true_eq]

end Audit

variable {fund : Fund} {experts : AddressMap Expert} {votes : Tally}

theorem audit_eq (hexperts : fund.experts = .held experts) (balance : Int) :
    audit fund balance =
      (Audit.empty.enterAll experts.entries).map fun entered =>
        (entered.compareTotals fund balance).enterVotes fund := by
  have hentered : Audit.empty.enterExperts fund = Audit.empty.enterAll experts.entries := by
    rw [Audit.enterExperts, Fund.expertMap, hexperts]
  rw [audit, hentered]
  cases Audit.empty.enterAll experts.entries <;> rfl

/-- Once all experts are entered, nothing is reported just if the fund is as it should
be. -/
theorem isEmpty_report_iff_approved {entered : Audit}
    (hentered : Audit.Entered .empty experts.entries entered)
    (hvotes : fund.votes = .held votes) (balance : Int) :
    ((entered.compareTotals fund balance).enterVotes fund).report.isEmpty ↔
      Approved fund experts votes balance := by
  have hweights : (entered.summary.totalWeight.toNat : Int) =
      experts.sumOf fun info => info.weight.toNat :=
        hentered.totalWeight.trans (Int.zero_add _)
  have howed : entered.summary.owed = experts.sumOf fun info =>
    info.locked + info.unlocked :=
    hentered.owed.trans (Int.zero_add _)
  have horderly : entered.report.isEmpty ↔ ∀ info ∈ experts.values, Orderly info := by
    rw [hentered.report, AddressMap.values, List.forall_mem_map]
    exact and_iff_right rfl
  rw [Audit.isEmpty_enterVotes hvotes, Audit.isEmpty_compareTotals, horderly, howed,
    ← UInt64.toNat_inj, ← Int.natCast_inj, hweights]
  constructor
  · rintro ⟨⟨hexperts, htotal, hbalance, hcovered⟩, hnonneg⟩
    exact ⟨hexperts, htotal, hbalance, hcovered, hnonneg⟩
  · rintro ⟨hexperts, htotal, hbalance, hcovered, hnonneg⟩
    exact ⟨⟨hexperts, htotal, hbalance, hcovered⟩, hnonneg⟩

theorem audit_cases (hexperts : fund.experts = .held experts)
    (hvotes : fund.votes = .held votes) (hlegible : Legible experts) (balance : Int) :
    (experts.sumOf fun info => info.weight.toNat) < UInt64.size ∧
      (∃ found, audit fund balance = .ok found ∧
        (found.report.isEmpty ↔ Approved fund experts votes balance)) ∨
    UInt64.size ≤ (experts.sumOf fun info => info.weight.toNat) ∧
      audit fund balance = .error .addOverflow := by
  have hsum : ((Audit.empty.summary.totalWeight.toNat : Nat) : Int) +
      Audit.totalOf (fun info => info.weight.toNat) experts.entries =
        experts.sumOf fun info => info.weight.toNat := Int.zero_add _
  rw [audit_eq hexperts]
  rcases Audit.enterAll_cases .empty hlegible with
    ⟨hfits, entered, henter, hentered⟩ | ⟨hlarge, hfault⟩
  · rw [hsum] at hfits
    rw [henter]
    exact .inl ⟨hfits, _, rfl, isEmpty_report_iff_approved hentered hvotes balance⟩
  · rw [hsum] at hlarge
    rw [hfault]
    exact .inr ⟨hlarge, rfl⟩

/-- A fund that is as an audit wants it is audited without a message, and no other is.  What
is wrong with another fund is reported as long as the weights of all experts add up to a
weight; as soon as they do not, the audit faults and reports nothing. -/
theorem audit_answers_iff (hexperts : fund.experts = .held experts)
    (hvotes : fund.votes = .held votes) (hlegible : Legible experts) (balance : Int) :
    ((∃ found, audit fund balance = .ok found ∧
        (found.report.isEmpty ↔ Approved fund experts votes balance)) ↔
      (experts.sumOf fun info => info.weight.toNat) < UInt64.size) ∧
    (UInt64.size ≤ (experts.sumOf fun info => info.weight.toNat) →
      audit fund balance = .error .addOverflow) ∧
    ((∃ found, audit fund balance = .ok found ∧ found.report.isEmpty) ↔
      Approved fund experts votes balance) := by
  rcases audit_cases hexperts hvotes hlegible balance with
    ⟨hfits, found, hfound, hempty⟩ | ⟨hlarge, hfault⟩
  · refine ⟨iff_of_true ⟨found, hfound, hempty⟩ hfits, fun hlarge => by omega, ?_⟩
    rw [← hempty, hfound]
    constructor
    · rintro ⟨_, hsame, hnone⟩
      cases hsame
      exact hnone
    · exact fun hnone => ⟨found, rfl, hnone⟩
  · have hnone : ∀ found, audit fund balance ≠ .ok found := by
      rw [hfault]
      nofun
    refine ⟨iff_of_false (fun ⟨found, hfound, _⟩ => hnone found hfound) (by omega),
      fun _ => hfault,
      iff_of_false (fun ⟨found, hfound, _⟩ => hnone found hfound) fun happroved => ?_⟩
    -- The total that an approved fund keeps is a weight, and so is the sum it agrees with.
    have hword := fund.totalWeight.toNat_lt_size
    have htotal := happroved.totalWeight
    omega

def overweightExperts : AddressMap Expert :=
  (AddressMap.empty.insert (.address (.id 1000))
    { Expert.unregistered with weight := 18446744073709551615 }).insert
      (.address (.id 1001)) { Expert.unregistered with weight := 1 }

def overweight : Fund := { Fund.empty with experts := .held overweightExperts }

theorem legible_overweight : Legible overweightExperts :=
  (legible_empty.insert _ _).insert _ _

theorem overweightExperts_weight :
    (overweightExperts.sumOf fun info => info.weight.toNat) = 18446744073709551616 := by
  decide +kernel

theorem audit_faults_on_overweight :
    overweight.experts = .held overweightExperts ∧ overweight.votes = .held .empty ∧
      Legible overweightExperts ∧ ∀ found, audit overweight 0 ≠ .ok found := by
  have hexperts : overweight.experts = .held overweightExperts := rfl
  have hweight := overweightExperts_weight
  refine ⟨hexperts, rfl, legible_overweight, fun found hfound => ?_⟩
  rcases audit_cases hexperts rfl legible_overweight 0 with ⟨hfits, _⟩ | ⟨_, hfault⟩
  · rw [hweight] at hfits
    exact absurd hfits (by decide)
  · cases hfault.symm.trans hfound

def fullExperts : AddressMap Expert :=
  (AddressMap.empty.insert (.address (.id 1000))
    { Expert.unregistered with weight := 18446744073709551614 }).insert
      (.address (.id 1001))
    { weight := 1, rewardDebt := 3, locked := 5, vesting := ⟨[⟨3, 1⟩, ⟨8, 4⟩], 0⟩,
      unlocked := 2 }

def fullVotes : Tally := AddressMap.empty.insert (.address (.id 1001)) 0

def fullFund : Fund where
  experts := .held fullExperts
  pool := .empty
  totalWeight := 18446744073709551615
  lastBalance := 7
  votes := .held fullVotes

theorem fullFund_approved : Approved fullFund fullExperts fullVotes 7 where
  orderly := by decide +kernel
  totalWeight := by decide +kernel
  lastBalance_le := by decide +kernel
  owed_le := by decide +kernel
  votes_nonneg := by decide +kernel

/-- An audit of a fund with all the weight that there can be, which passes, and which
reports a balance that is missing; and the fault of an audit with one unit of weight
more. -/
theorem audit_answers_iff_full :
    Legible fullExperts ∧ Legible overweightExperts ∧
      (∃ found, audit fullFund 7 = .ok found ∧ found.report.isEmpty) ∧
      (∃ found, audit fullFund 6 = .ok found ∧ ¬found.report.isEmpty) ∧
      audit overweight 0 = .error .addOverflow := by
  have hlegible : Legible fullExperts := (legible_empty.insert _ _).insert _ _
  have hfull : fullFund.experts = .held fullExperts := rfl
  have hover : overweight.experts = .held overweightExperts := rfl
  obtain ⟨_, _, hpasses⟩ := audit_answers_iff hfull rfl hlegible 7
  obtain ⟨hanswers, _, _⟩ := audit_answers_iff hfull rfl hlegible 6
  obtain ⟨_, hfaults, _⟩ := audit_answers_iff hover rfl legible_overweight 0
  obtain ⟨found, hfound, hreport⟩ := hanswers.mpr (by decide +kernel)
  refine ⟨hlegible, legible_overweight, hpasses.mpr fullFund_approved,
    ⟨found, hfound, fun hempty => ?_⟩, hfaults ?_⟩
  · exact absurd (hreport.mp hempty).lastBalance_le (by decide)
  · rw [overweightExperts_weight]
    decide

end RewardVesting.ExpertFund
