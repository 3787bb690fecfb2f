import Mathlib.Algebra.Group.Int.Defs
import RewardVesting.ExpertFund.Expert
import RewardVesting.ExpertFund.Message
import RewardVesting.Proofs.Parameter
import RewardVesting.Proofs.Wire.Delimited
import RewardVesting.Reward.Message
import RewardVesting.Reward.State
import RewardVesting.Vesting.Message

namespace RewardVesting.Wire

namespace Format

variable {α β : Type}

structure Unambiguous (format : Format α) (depth : Nat) : Prop where
  readsBack : format.ReadsBack depth
  delimited : format.Delimited

theorem unambiguous_integer : integer.Unambiguous 0 :=
    ⟨readsBack_integer, delimited_integer⟩

theorem unambiguous_word : word.Unambiguous 0 := ⟨readsBack_word, delimited_word⟩

theorem unambiguous_flag : flag.Unambiguous 0 := ⟨readsBack_flag, delimited_flag⟩

theorem unambiguous_amount : amount.Unambiguous 0 := ⟨readsBack_amount, delimited_amount⟩

theorem unambiguous_address : address.Unambiguous 0 :=
    ⟨readsBack_address, delimited_address⟩

namespace Unambiguous

variable {format : Format α} {other : Format β} {depth : Nat}

theorem mono {deeper : Nat} (hformat : format.Unambiguous depth) (hdepth : depth ≤ deeper) :
    format.Unambiguous deeper :=
  ⟨fun nesting hnesting => hformat.readsBack nesting (Nat.le_trans hdepth hnesting),
    hformat.delimited⟩

theorem pair (hformat : format.Unambiguous depth) (hother : other.Unambiguous depth) :
    (format.pair other).Unambiguous depth :=
  ⟨hformat.readsBack.pair hother.readsBack, hformat.delimited.pair hother.delimited⟩

theorem list (hformat : format.Unambiguous depth) : format.list.Unambiguous (depth + 1) :=
  ⟨hformat.readsBack.list, hformat.delimited.list⟩

/-- A record is a tuple of its fields. -/
theorem fields (hformat : format.Unambiguous depth) (count : Nat) (layout : Layout α β) :
    ((format.tuple count).record layout).Unambiguous (depth + 1) :=
  ⟨(hformat.readsBack.tuple count).record layout,
    (hformat.delimited.tuple count).record layout⟩

theorem decode_encode (hformat : format.Unambiguous depth) (hdepth : depth ≤ nestingLimit)
    {value : α} {bytes : Bytes} (hencode : format.encode value = .ok bytes) :
    format.decode bytes = .ok value :=
  hformat.readsBack.decode hdepth hencode

theorem eq_of_encode (hformat : format.Unambiguous depth) (hdepth : depth ≤ nestingLimit)
    {first second : α} {bytes : Bytes} (hfirst : format.encode first = .ok bytes)
    (hsecond : format.encode second = .ok bytes) : second = first := by
  have hdecode := hformat.decode_encode hdepth hfirst
  rw [hformat.decode_encode hdepth hsecond] at hdecode
  exact Except.ok.inj hdecode

theorem decode_part (hformat : format.Unambiguous depth) (hdepth : depth ≤ nestingLimit)
    {value : α} {bytes part : Bytes} (hencode : format.encode value = .ok bytes)
    (hpart : part <+: bytes) (hstrict : part ≠ bytes) :
    format.decode part = .error .malformed := by
  obtain ⟨rest, rfl⟩ := hpart
  refine decode_eq_malformed fun shorter hdecode => hstrict ?_
  rw [hformat.delimited.suffix_eq_nil hdecode (hformat.decode_encode hdepth hencode),
    List.append_nil]

theorem decode_extended (hformat : format.Unambiguous depth) (hdepth : depth ≤ nestingLimit)
    {value : α} {bytes more : Bytes} (hencode : format.encode value = .ok bytes)
    (hmore : more ≠ []) : format.decode (bytes ++ more) = .error .malformed :=
  decode_eq_malformed fun _ hdecode =>
    hmore (hformat.delimited.suffix_eq_nil (hformat.decode_encode hdepth hencode) hdecode)

end Unambiguous

end Format

theorem Format.isSome_of_serialize {α : Type} {format : Format α} {subject : String}
    {value : α} {bytes : Bytes} (hserialize : format.serialize subject value = .ok bytes) :
    (format.write value).isSome := by
  have hencode := mapError_eq_ok.mp hserialize
  rw [encode] at hencode
  split at hencode
  · rename_i written hwrite
    rw [hwrite]
    rfl
  · cases hencode

inductive Record
  | tranche
  | ledger
  | pool
  | expert
  | deposit
  | claim
  | reset
  | voteChange
  | inquiry
  | standing
  | control
  | rewardState
  | awardRequest
  | delivery
  | epochReward
  | networkUpdate
  | minerReward
  | additionRequest
  | withdrawalRequest
  | withdrawal
  deriving DecidableEq

namespace Record

@[reducible] def Value : Record → Type
  | tranche => Tranche
  | ledger => Ledger
  | pool => Pool
  | expert => Expert
  | deposit => ExpertFund.Deposit
  | claim => ExpertFund.Claim
  | reset => ExpertFund.Reset
  | voteChange => ExpertFund.VoteChange
  | inquiry => ExpertFund.Inquiry
  | standing => ExpertFund.Standing
  | control => ExpertFund.Control
  | rewardState => Reward.State
  | awardRequest => Reward.AwardRequest
  | delivery => Reward.Delivery
  | epochReward => Reward.EpochReward
  | networkUpdate => Reward.NetworkUpdate
  | minerReward => Reward.MinerReward
  | additionRequest => Vesting.AdditionRequest
  | withdrawalRequest => Vesting.WithdrawalRequest
  | withdrawal => Vesting.Withdrawal

def format : (record : Record) → Format record.Value
  | tranche => Tranche.format
  | ledger => Ledger.format
  | pool => Pool.format
  | expert => Expert.format
  | deposit => ExpertFund.Deposit.format
  | claim => ExpertFund.Claim.format
  | reset => ExpertFund.Reset.format
  | voteChange => ExpertFund.VoteChange.format
  | inquiry => ExpertFund.Inquiry.format
  | standing => ExpertFund.Standing.format
  | control => ExpertFund.Control.format
  | rewardState => Reward.State.format
  | awardRequest => Reward.AwardRequest.format
  | delivery => Reward.Delivery.format
  | epochReward => Reward.EpochReward.format
  | networkUpdate => Reward.NetworkUpdate.format
  | minerReward => Reward.MinerReward.format
  | additionRequest => Vesting.AdditionRequest.format
  | withdrawalRequest => Vesting.WithdrawalRequest.format
  | withdrawal => Vesting.Withdrawal.format

/-- The integers of unbounded size in a value. -/
def amounts : (record : Record) → record.Value → List Int
  | tranche, held => [held.amount]
  | ledger, held => held.unlocked :: held.tranches.map Tranche.amount
  | pool, held => [held.accPerShare]
  | expert, held =>
    [held.rewardDebt, held.locked, held.unlocked, held.vesting.unlocked] ++
      held.vesting.tranches.map Tranche.amount
  | claim, request => [request.amount]
  | voteChange, request => [request.amount]
  | standing, answer => [answer.votes]
  | rewardState, held =>
    [held.epochReward, held.realizedPower, held.totals.power, held.totals.vote,
      held.totals.expert, held.totals.knowledge, held.totals.retrieval]
  | awardRequest, request => [request.penalty, request.gas, request.pledged]
  | delivery, answer =>
    [answer.power, answer.gas, answer.vote, answer.expert, answer.knowledge,
      answer.bandwidth, answer.undelivered]
  | epochReward, answer => [answer.reward, answer.realizedPower]
  | networkUpdate, request => [request.realizedPower]
  | minerReward, request => [request.reward, request.penalty]
  | withdrawalRequest, request => [request.amount]
  | withdrawal, answer => [answer.amount]
  | deposit, _ | reset, _ | inquiry, _ | control, _ | additionRequest, _ => []

/-- The epochs and counts in a value. -/
def counts : (record : Record) → record.Value → List Int
  | tranche, held => [held.epoch]
  | ledger, held => held.tranches.map Tranche.epoch
  | pool, held => [held.lastEpoch]
  | expert, held => held.vesting.tranches.map Tranche.epoch
  | rewardState, held => [held.epoch]
  | awardRequest, request => [request.winCount, request.shareCount]
  | epochReward, answer => [answer.epoch]
  | _, _ => []

def lengths : (record : Record) → record.Value → List Nat
  | ledger, held => [held.tranches.length]
  | expert, held => [held.vesting.tranches.length]
  | _, _ => []

/-- A value that a machine can hold: epochs and counts have 64 bits, and so have the lengths
of lists. -/
structure Held (record : Record) (value : record.Value) : Prop where
  counts : ∀ count ∈ record.counts value, Epoch.Representable count
  lengths : ∀ length ∈ record.lengths value, length < UInt64.size

theorem unambiguous (record : Record) : record.format.Unambiguous 4 := by
  have hinteger := Format.unambiguous_integer
  have hword := Format.unambiguous_word
  have hflag := Format.unambiguous_flag
  have hamount := Format.unambiguous_amount
  have haddress := Format.unambiguous_address
  have htranche : Tranche.format.Unambiguous 1 := (hinteger.pair hamount).fields 2 _
  have hledger : Ledger.format.Unambiguous 3 :=
    (htranche.list.pair (hamount.mono (by decide))).fields 2 _
  cases record with
  | tranche => exact htranche.mono (by decide)
  | ledger => exact hledger.mono (by decide)
  | pool => exact ((hinteger.pair hamount).fields 2 _).mono (by decide)
  | expert =>
      have hdeep := hamount.mono (show 0 ≤ 3 by decide)
      exact ((hword.mono (by decide)).pair
        (hdeep.pair (hdeep.pair (hledger.pair hdeep)))).fields 5 _
  | deposit => exact (hword.fields 1 _).mono (by decide)
  | claim => exact ((haddress.pair hamount).fields 2 _).mono (by decide)
  | reset => exact (haddress.fields 1 _).mono (by decide)
  | voteChange => exact ((haddress.pair hamount).fields 2 _).mono (by decide)
  | inquiry => exact (haddress.fields 1 _).mono (by decide)
  | standing =>
      exact ((hflag.pair (hflag.pair (hword.pair hamount))).fields 4 _).mono (by decide)
  | control => exact (haddress.fields 1 _).mono (by decide)
  | rewardState =>
      exact ((hamount.pair (hamount.pair (hinteger.pair (hamount.pair (hamount.pair
        (hamount.pair (hamount.pair hamount))))))).fields 8 _).mono (by decide)
  | awardRequest =>
      exact ((haddress.pair (hamount.pair (hamount.pair (hinteger.pair
        (hinteger.pair hamount))))).fields 6 _).mono (by decide)
  | delivery =>
      exact ((hamount.pair (hamount.pair (hamount.pair (hamount.pair (hamount.pair
        (hamount.pair hamount)))))).fields 7 _).mono (by decide)
  | epochReward =>
      exact ((hamount.pair (hamount.pair hinteger)).fields 3 _).mono (by decide)
  | networkUpdate => exact (hamount.fields 1 _).mono (by decide)
  | minerReward => exact ((hamount.pair hamount).fields 2 _).mono (by decide)
  | additionRequest => exact (haddress.fields 1 _).mono (by decide)
  | withdrawalRequest => exact ((haddress.pair hamount).fields 2 _).mono (by decide)
  | withdrawal => exact (hamount.fields 1 _).mono (by decide)

/-- A value can be written exactly when a machine can hold it and its amounts are not too
long. -/
theorem isSome_write {record : Record} {value : record.Value} :
    (record.format.write value).isSome ↔
      record.Held value ∧ ∀ amount ∈ record.amounts value, Amount.Storable amount := by
  have hheld : record.Held value ↔
      (∀ count ∈ record.counts value, Epoch.Representable count) ∧
        ∀ length ∈ record.lengths value, length < Head.argumentLimit :=
    ⟨fun held => ⟨held.counts, held.lengths⟩, fun ⟨hcounts, hlengths⟩ =>
      ⟨hcounts, hlengths⟩⟩
  have htranches (tranches : List Tranche) :
      (∀ tranche ∈ tranches,
          Epoch.Representable tranche.epoch ∧ Amount.Storable tranche.amount) ↔
        (∀ count ∈ tranches.map Tranche.epoch, Epoch.Representable count) ∧
          ∀ amount ∈ tranches.map Tranche.amount, Amount.Storable amount := by
    simp only [List.forall_mem_map, forall_and]
  rw [hheld]
  cases record with
  | tranche => simp [format, counts, lengths, amounts, Tranche.isSome_write]
  | ledger =>
      simp only [format, counts, lengths, amounts, Ledger.isSome_write, htranches,
        List.forall_mem_cons]
      constructor
      · rintro ⟨⟨hlength, hcounts, hamounts⟩, hunlocked⟩
        exact ⟨⟨hcounts, hlength, nofun⟩, hunlocked, hamounts⟩
      · rintro ⟨⟨hcounts, hlength, -⟩, hunlocked, hamounts⟩
        exact ⟨⟨hlength, hcounts, hamounts⟩, hunlocked⟩
  | expert =>
      simp only [format, counts, lengths, amounts, Expert.isSome_write, Ledger.isSome_write,
        htranches, List.forall_mem_cons, List.forall_mem_append]
      constructor
      · rintro ⟨hdebt, hlocked, ⟨⟨hlength, hcounts, hamounts⟩, hreleased⟩, hunlocked⟩
        exact ⟨⟨hcounts, hlength, nofun⟩, ⟨hdebt, hlocked, hunlocked, hreleased, nofun⟩,
          hamounts⟩
      · rintro ⟨⟨hcounts, hlength, -⟩, ⟨hdebt, hlocked, hunlocked, hreleased, -⟩, hamounts⟩
        exact ⟨hdebt, hlocked, ⟨⟨hlength, hcounts, hamounts⟩, hreleased⟩, hunlocked⟩
  | deposit | reset | inquiry | control | additionRequest =>
      simp [format, counts, lengths, amounts, ExpertFund.Deposit.format,
        ExpertFund.Reset.format, ExpertFund.Inquiry.format, ExpertFund.Control.format,
        Vesting.AdditionRequest.format, Format.isSome_write_tuple]
  | claim | voteChange | withdrawalRequest =>
      simp [format, counts, lengths, amounts, ExpertFund.Claim.format,
        ExpertFund.Claim.layout, ExpertFund.VoteChange.format, ExpertFund.VoteChange.layout,
        Vesting.WithdrawalRequest.format, Vesting.WithdrawalRequest.layout,
        Format.isSome_write_tuple]
  | networkUpdate | withdrawal | minerReward =>
      simp [format, counts, lengths, amounts, Reward.NetworkUpdate.format,
        Reward.NetworkUpdate.layout, Reward.MinerReward.format, Reward.MinerReward.layout,
        Vesting.Withdrawal.format, Vesting.Withdrawal.layout, Format.isSome_write_tuple]
  | pool =>
      simp [format, counts, lengths, amounts, Pool.format, Pool.layout,
        Format.isSome_write_tuple]
  | standing =>
      simp [format, counts, lengths, amounts, ExpertFund.Standing.format,
        ExpertFund.Standing.layout, Format.isSome_write_tuple]
  | delivery =>
      simp [format, counts, lengths, amounts, Reward.Delivery.format,
        Reward.Delivery.layout, Format.isSome_write_tuple]
  | rewardState =>
      simp [format, counts, lengths, amounts, Reward.State.format, Reward.State.layout,
        Format.isSome_write_tuple, and_left_comm]
  | awardRequest =>
      simp [format, counts, lengths, amounts, Reward.AwardRequest.format,
        Reward.AwardRequest.layout, Format.isSome_write_tuple, and_assoc,
        and_left_comm, and_comm]
  | epochReward =>
      simp [format, counts, lengths, amounts, Reward.EpochReward.format,
        Reward.EpochReward.layout, Format.isSome_write_tuple, and_assoc, and_comm]

/-- A record can be written exactly when none of its amounts reaches a magnitude of 2^1016.
It is then read back as it was, no other value has its bytes, and neither a part of them nor
anything longer that begins with them can be read. -/
theorem roundTrip (record : Record) (subject : String) (value : record.Value) :
    ((∃ bytes, record.format.serialize subject value = .ok bytes) ↔
      record.Held value ∧ ∀ amount ∈ record.amounts value, amount.natAbs < 2 ^ 1016) ∧
    ∀ bytes, record.format.serialize subject value = .ok bytes →
      record.format.deserialize subject bytes = .ok value ∧
      (∀ other, record.format.serialize subject other = .ok bytes → other = value) ∧
      (∀ part, part <+: bytes → part ≠ bytes →
        record.format.deserialize subject part = .error (.unreadable subject)) ∧
      ∀ more, more ≠ [] →
        record.format.deserialize subject (bytes ++ more) =
          .error (.unreadable subject) := by
  have hformat := record.unambiguous
  have hdepth : 4 ≤ nestingLimit := by decide
  have hlimit : Amount.storageLimit = 2 ^ 1016 := by decide +kernel
  refine ⟨⟨?_, ?_⟩, ?_⟩
  · rintro ⟨bytes, hserialize⟩
    obtain ⟨hheld, hamounts⟩ := isSome_write.mp (Format.isSome_of_serialize hserialize)
    exact ⟨hheld, fun amount hamount => hlimit ▸ hamounts amount hamount⟩
  · rintro ⟨hheld, hamounts⟩
    refine Format.serialize_of_isSome subject
      (isSome_write.mpr ⟨hheld, fun amount hamount => ?_⟩)
    rw [Amount.Storable, hlimit]
    exact hamounts amount hamount
  · intro bytes hserialize
    have hencode := mapError_eq_ok.mp hserialize
    refine ⟨?_, fun other hother => ?_, fun part hpart hstrict => ?_, fun more hmore => ?_⟩
    · rw [Format.deserialize, hformat.decode_encode hdepth hencode]
      rfl
    · exact hformat.eq_of_encode hdepth hencode (mapError_eq_ok.mp hother)
    · rw [Format.deserialize, hformat.decode_part hdepth hencode hpart hstrict]
      rfl
    · rw [Format.deserialize, hformat.decode_extended hdepth hencode hmore]
      rfl

/-- The largest negative amount survives; one more is refused. -/
theorem roundTrip_at_limit :
    (∃ bytes, networkUpdate.format.serialize "update" ⟨1 - 2 ^ 1016⟩ = .ok bytes ∧
      networkUpdate.format.deserialize "update" bytes = .ok ⟨1 - 2 ^ 1016⟩) ∧
    ¬∃ bytes, networkUpdate.format.serialize "update" ⟨-2 ^ 1016⟩ = .ok bytes := by
  obtain ⟨hwritten, hread⟩ := roundTrip networkUpdate "update" ⟨1 - 2 ^ 1016⟩
  obtain ⟨bytes, hbytes⟩ := hwritten.mpr ⟨⟨nofun, nofun⟩, by decide +kernel⟩
  refine ⟨⟨bytes, hbytes, (hread bytes hbytes).1⟩, fun hlarge => ?_⟩
  have hbounded :=
    ((roundTrip networkUpdate "update" ⟨-2 ^ 1016⟩).1.mp hlarge).2 (-2 ^ 1016)
    (List.mem_singleton_self _)
  exact absurd hbounded (by decide +kernel)

end Record

end RewardVesting.Wire
