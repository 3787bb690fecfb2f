import RewardVesting.AddressMap.Lemmas
import RewardVesting.Proofs.Ledger.Lock
import RewardVesting.Proofs.Ledger.WellFormed
import RewardVesting.Vesting.Audit

namespace RewardVesting.Vesting

open RewardVesting.Action

/-- What is kept for a coinbase; one that is not known has nothing. -/
def ledgerOf (ledgers : AddressMap Ledger) (coinbase : Address) : Ledger :=
  (ledgers.find? (.address coinbase)).getD .empty

theorem ledgerOf_of_find? {ledgers : AddressMap Ledger} {coinbase : Address}
    {ledger : Ledger} (hfind : ledgers.find? (.address coinbase) = some ledger) :
    ledgerOf ledgers coinbase = ledger := by
  rw [ledgerOf, hfind, Option.getD_some]

theorem ledgerOf_insert (ledgers : AddressMap Ledger) (coinbase other : Address)
    (ledger : Ledger) :
    ledgerOf (ledgers.insert (.address coinbase) ledger) other =
      if coinbase = other then ledger else ledgerOf ledgers other := by
  rw [ledgerOf, AddressMap.find?_insert_address]
  split
  · rfl
  · rfl

namespace Book

variable {before after : Book} {coinbase : Address} {epoch amount requested paid : Int}

theorem ledgers_eq_ok {ledgers : AddressMap Ledger} :
    before.ledgers = .ok ledgers ↔ before.coinbases = .held ledgers := by
  rw [Book.ledgers]
  cases before.coinbases with
  | held value => simp
  | missing => simp

theorem find?_eq_ok {known : Option Ledger} :
    before.find? coinbase = .ok known ↔
      ∃ ledgers, before.coinbases = .held ledgers ∧
        ledgers.find? (.address coinbase) = known := by
  rw [find?, Book.ledgers]
  cases before.coinbases with
  | held ledgers =>
      change Except.ok (ledgers.find? (.address coinbase)) = Except.ok known ↔ _
      simp
  | missing =>
      change Except.error Refusal.unreachable = Except.ok known ↔ _
      simp

theorem put_yields {key : Key} {ledger : Ledger} {answer : Unit}
    (hyields : (put key ledger).Yields before answer after) :
    ∃ ledgers, before.coinbases = .held ledgers ∧ (Ledger.format.write ledger).isSome ∧
      after = ⟨.held (ledgers.insert key ledger)⟩ := by
  simp only [put, yields_bind, yields_read, yields_ofExcept, yields_require,
    yields_write] at hyields
  obtain ⟨_, _, ⟨rfl, rfl⟩, ledgers, _, ⟨hledgers, rfl⟩, _, _, ⟨hwritable, rfl⟩, rfl⟩ :=
    hyields
  exact ⟨ledgers, ledgers_eq_ok.mp hledgers, hwritable, rfl⟩

theorem lock_yields {spec : VestSpec} {answer : Unit}
    (hyields : (lock coinbase epoch amount spec).Yields before answer after) :
    ∃ ledgers additions, before.coinbases = .held ledgers ∧
      spec.Scheduled epoch amount additions ∧
      after = ⟨.held (ledgers.insert (.address coinbase)
        (((ledgerOf ledgers coinbase).collect epoch).merge additions))⟩ := by
  simp only [lock, Ledger.collectAndLock, yields_bind, yields_read, yields_ofExcept,
    yields_runOn, yields_mapError, yields_modify] at hyields
  obtain ⟨_, _, ⟨rfl, rfl⟩, known, _, ⟨hknown, rfl⟩, ⟨_, ledger⟩, _,
    ⟨⟨_, _, rfl, hlock⟩, rfl⟩, hput⟩ := hyields
  obtain ⟨⟨hamount, hstep, hperiod⟩, additions, hadditions, rfl⟩ :=
    Ledger.yields_lock.mp hlock
  obtain ⟨ledgers, hheld, _, rfl⟩ := put_yields hput
  obtain ⟨known, hfound, rfl⟩ := find?_eq_ok.mp hknown
  cases hfound.symm.trans hheld
  exact ⟨ledgers, additions, hheld,
    VestSpec.scheduled_of_tranches hstep hperiod hamount hadditions, rfl⟩

theorem withdraw_yields
    (hyields : (withdraw coinbase epoch requested).Yields before paid after) :
    ∃ ledgers ledger, before.coinbases = .held ledgers ∧
      ledgers.find? (.address coinbase) = some ledger ∧
      paid = (ledger.withdraw epoch requested).2 ∧
      after = ⟨.held (ledgers.insert (.address coinbase)
        (ledger.withdraw epoch requested).1)⟩ := by
  simp only [withdraw, yields_bind, yields_read, yields_ofExcept] at hyields
  obtain ⟨_, _, ⟨rfl, rfl⟩, known, _, ⟨hknown, rfl⟩, hmatch⟩ := hyields
  split at hmatch
  · exact absurd hmatch not_yields_refuse
  · rename_i ledger
    simp only [yields_bind, yields_require, yields_pure] at hmatch
    obtain ⟨_, _, ⟨_, rfl⟩, _, _, hput, rfl, rfl⟩ := hmatch
    obtain ⟨ledgers, hheld, _, rfl⟩ := put_yields hput
    obtain ⟨known, hfound, hfind⟩ := find?_eq_ok.mp hknown
    cases hfound.symm.trans hheld
    exact ⟨ledgers, ledger, hheld, hfind, rfl, rfl⟩

/-- A book that can be read, with a well-formed ledger for each of its coinbases. -/
structure Sound (book : Book) (ledgers : AddressMap Ledger) : Prop where
  held : book.coinbases = .held ledgers
  keys : ∀ entry ∈ ledgers.entries, ∃ coinbase, entry.1 = .address coinbase
  formed : ∀ ledger ∈ ledgers.values, ledger.WellFormed

theorem sound_empty : Sound .empty .empty where
  held := rfl
  keys := nofun
  formed := nofun

/-- The ledger of one coinbase gains an amount, and nothing else changes. -/
structure Gains (before after : AddressMap Ledger) (coinbase : Address) (amount : Int) :
    Prop where
  total : (ledgerOf after coinbase).total = (ledgerOf before coinbase).total + amount
  others : ∀ other, other ≠ coinbase →
    after.find? (.address other) = before.find? (.address other)
  sumOf : after.sumOf Ledger.total = before.sumOf Ledger.total + amount

section Insert

variable {ledgers : AddressMap Ledger} {ledger : Ledger}

theorem gains_insert (htotal : ledger.total = (ledgerOf ledgers coinbase).total + amount) :
    Gains ledgers (ledgers.insert (.address coinbase) ledger) coinbase amount where
  total := by rw [ledgerOf_insert, if_pos rfl, htotal]
  others other hother := by rw [AddressMap.find?_insert_address, if_neg (Ne.symm hother)]
  sumOf := by
    have hsum := AddressMap.sumOf_insert_getD ledgers (.address coinbase) ledger
      (show Ledger.empty.total = 0 from rfl)
    rw [← ledgerOf] at hsum
    omega

theorem sound_insert (hsound : Sound before ledgers) (hformed : ledger.WellFormed) :
    Sound ⟨.held (ledgers.insert (.address coinbase) ledger)⟩
      (ledgers.insert (.address coinbase) ledger) where
  held := rfl
  keys entry hentry := by
    rcases AddressMap.mem_insertEntry hentry with rfl | hold
    · exact ⟨coinbase, rfl⟩
    · exact hsound.keys entry hold
  formed := AddressMap.forall_mem_values_insert hsound.formed hformed

theorem Sound.ledgerOf (hsound : Sound before ledgers) (coinbase : Address) :
    (ledgerOf ledgers coinbase).WellFormed := by
  rw [Vesting.ledgerOf]
  cases hfind : ledgers.find? (.address coinbase) with
  | none => exact Ledger.wellFormed_empty
  | some ledger => exact hsound.formed ledger (AddressMap.mem_values_of_find? hfind)

theorem Sound.lock (hsound : Sound before ledgers) {spec : VestSpec} {answer : Unit}
    (hyields : (lock coinbase epoch amount spec).Yields before answer after) :
    ∃ revised, Sound after revised ∧ Gains ledgers revised coinbase amount := by
  obtain ⟨held, additions, hheld, hscheduled, rfl⟩ := lock_yields hyields
  cases hsound.held.symm.trans hheld
  have hformed := (hsound.ledgerOf coinbase).collect epoch
  exact ⟨_, sound_insert hsound (hformed.merge hscheduled.rising hscheduled.nonneg),
    gains_insert (Ledger.total_collect_merge hscheduled _ epoch)⟩

theorem Sound.withdraw (hsound : Sound before ledgers)
    (hyields : (withdraw coinbase epoch requested).Yields before paid after) :
    0 ≤ paid ∧ ∃ revised, Sound after revised ∧ Gains ledgers revised coinbase (-paid) := by
  obtain ⟨held, ledger, hheld, hfind, rfl, rfl⟩ := withdraw_yields hyields
  cases hsound.held.symm.trans hheld
  have hformed := hsound.formed ledger (AddressMap.mem_values_of_find? hfind)
  refine ⟨hformed.paid_nonneg epoch requested, _,
    sound_insert hsound (hformed.withdraw epoch requested), gains_insert ?_⟩
  have htotal := ledger.total_withdraw epoch requested
  rw [ledgerOf_of_find? hfind]
  omega

end Insert

theorem enterAll_of_forall {entries : List (Key × Ledger)} (audit : Audit)
    (hkeys : ∀ entry ∈ entries, ∃ coinbase, entry.1 = .address coinbase)
    (hformed : ∀ entry ∈ entries, entry.2.WellFormed) :
    (audit.enterAll entries).report = audit.report ∧
      (audit.enterAll entries).summary.owed = audit.summary.owed +
        (entries.map Prod.snd).foldr (fun ledger sum => ledger.total + sum) 0 := by
  induction entries generalizing audit with
  | nil => exact ⟨rfl, (Int.add_zero _).symm⟩
  | cons entry rest ih =>
      obtain ⟨key, ledger⟩ := entry
      obtain ⟨⟨coinbase, hkey⟩, hkeysRest⟩ := List.forall_mem_cons.mp hkeys
      obtain ⟨hledger, hformedRest⟩ := List.forall_mem_cons.mp hformed
      obtain rfl : key = .address coinbase := hkey
      obtain ⟨hreport, howed⟩ := ih (audit.enter coinbase ledger) hkeysRest hformedRest
      rw [Audit.enterAll, Key.toAddress_address]
      refine ⟨?_, ?_⟩
      · rw [hreport, Audit.enter, Ledger.defect?_eq_none.mpr hledger]
        rfl
      · rw [howed, List.map_cons, List.foldr_cons]
        simp only [Audit.enter, Summary.owed, Ledger.total]
        omega

theorem Sound.audit {ledgers : AddressMap Ledger} {balance : Int} {book : Book}
    (hsound : Sound book ledgers) (hcovered : ledgers.sumOf Ledger.total ≤ balance) :
    (audit book balance).report = .empty := by
  have hformed : ∀ entry ∈ ledgers.entries, entry.2.WellFormed :=
    fun entry hentry => hsound.formed entry.2 (List.mem_map_of_mem hentry)
  obtain ⟨hreport, howed⟩ := enterAll_of_forall .empty hsound.keys hformed
  rw [← AddressMap.values, ← AddressMap.sumOf] at howed
  have hentered : Audit.empty.enterBook book = Audit.empty.enterAll ledgers.entries := by
    rw [Audit.enterBook, ledgers_eq_ok.mpr hsound.held]
  have hempty : Audit.empty.summary.owed = 0 := rfl
  rw [Vesting.audit, hentered]
  dsimp only
  rw [hreport, Report.require, if_pos]
  · rfl
  · rw [decide_eq_true_eq]
    omega

end Book

end RewardVesting.Vesting
