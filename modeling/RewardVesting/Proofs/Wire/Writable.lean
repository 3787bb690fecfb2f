import Mathlib.Algebra.Group.Nat.Defs
import RewardVesting.ExpertFund.Expert

namespace RewardVesting

namespace Bytes

theorem length_ofNat (width value : Nat) : (ofNat width value).length = width := by
  induction width generalizing value with
  | zero => rfl
  | succ width ih => simp [ofNat, ih]

theorem width_le {value bits : Nat} (hvalue : value < 2 ^ (8 * bits)) :
    width value ≤ bits := by
  rw [width]
  split
  · exact Nat.zero_le bits
  · rename_i hsome
    have hlog := (Nat.log2_lt hsome).mpr hvalue
    omega

theorem toNatFrom_lt (value : Nat) (bytes : Bytes) :
    toNatFrom value bytes < (value + 1) * 256 ^ bytes.length := by
  induction bytes generalizing value with
  | nil =>
      rw [toNatFrom, List.length_nil, Nat.pow_zero, Nat.mul_one]
      exact Nat.lt_succ_self value
  | cons byte rest ih =>
      have hbyte : value * 256 + byte.toNat + 1 ≤ (value + 1) * 256 := by
        have hlt : byte.toNat < 256 := byte.toNat_lt
        omega
      rw [toNatFrom, List.length_cons, Nat.pow_succ', ← Nat.mul_assoc]
      exact Nat.lt_of_lt_of_le (ih _) (Nat.mul_le_mul_right _ hbyte)

theorem toNat_lt (bytes : Bytes) : toNat bytes < 256 ^ bytes.length := by
  have hbound := toNatFrom_lt 0 bytes
  rwa [Nat.zero_add, Nat.one_mul] at hbound

end Bytes

theorem Amount.storable_of_between {low amount high : Int} (hlow : Storable low)
    (hhigh : Storable high) (hge : low ≤ amount) (hle : amount ≤ high) :
    Storable amount := by
  simp only [Storable] at hlow hhigh ⊢
  omega

theorem Amount.storable_of_nonneg {amount : Int} (hnonneg : 0 ≤ amount)
    (hlt : amount < storageLimit) : Storable amount := by
  rw [Storable]
  omega

theorem Amount.storable_zero : Storable 0 :=
  storable_of_nonneg (Int.le_refl 0) (by decide)

theorem Varint.length_groups_le (limit value : Nat) :
    (groups limit value).length ≤ limit := by
  induction limit generalizing value with
  | zero => exact Nat.le_refl 0
  | succ limit ih =>
      rw [groups]
      split
      · exact Nat.succ_le_succ (Nat.zero_le limit)
      · exact Nat.succ_le_succ (ih (value / 128))

theorem Address.length_toBytes_le (address : Address) : address.toBytes.length ≤ 65 := by
  have hnumber : ∀ number, (Varint.encode number).length ≤ 10 := fun number =>
    Varint.length_groups_le Varint.groupLimit number.toNat
  cases address with
  | id number =>
      have hlength := hnumber number
      rw [toBytes, List.length_cons]
      omega
  | secp payload =>
      rw [toBytes, List.length_cons, payload.property]
      decide
  | actor payload =>
      rw [toBytes, List.length_cons, payload.property]
      decide
  | bls payload =>
      rw [toBytes, List.length_cons, payload.property]
      decide
  | delegated manager subaddress =>
      have hmanager := hnumber manager
      have hsubaddress := subaddress.property
      rw [toBytes, List.length_cons, List.length_append]
      omega

namespace Wire

namespace Head

theorem isSome_write {head : Head} :
    (head.write).isSome ↔ head.argument < argumentLimit := by
  have hlimit : argumentLimit = 18446744073709551616 := rfl
  rw [write]
  split
  · simp only [Option.isSome_some, true_iff]
    omega
  · split
    · simp only [Option.isSome_some, true_iff]
      rename_i hsmall
      have hsize : UInt8.size = 256 := rfl
      omega
    · split
      · simp only [Option.isSome_some, true_iff]
        rename_i hsmall
        have hsize : UInt16.size = 65536 := rfl
        omega
      · split
        · simp only [Option.isSome_some, true_iff]
          rename_i hsmall
          have hsize : UInt32.size = 4294967296 := rfl
          omega
        · split
          · rename_i hsmall
            simpa using hsmall
          · rename_i hlarge
            simpa using hlarge

end Head

namespace Format

variable {α β : Type}

theorem isSome_write_byteString {bytes : Bytes} :
    (byteString.write bytes).isSome ↔ bytes.length < Head.argumentLimit := by
  have hhead : (Head.write ⟨Head.byteString, bytes.length⟩).isSome ↔
      bytes.length < Head.argumentLimit := Head.isSome_write
  rw [← hhead]
  simp only [byteString]
  cases Head.write ⟨Head.byteString, bytes.length⟩ <;> simp

@[simp] theorem isSome_write_amount {value : Int} :
    (amount.write value).isSome ↔ Amount.Storable value := by
  rw [amount]
  dsimp only
  split
  · rename_i hstorable
    refine iff_of_true (isSome_write_byteString.mpr ?_) hstorable
    have hlimit : Head.argumentLimit = 18446744073709551616 := rfl
    have hbits : Amount.storageLimit = 2 ^ (8 * 127) := by decide +kernel
    rw [Amount.Storable, hbits] at hstorable
    have hwidth := Bytes.width_le hstorable
    rw [amountToBytes]
    split
    · rw [List.length_nil]
      omega
    · rw [List.length_cons, Bytes.length_ofNat]
      omega
  · rename_i hunstorable
    exact iff_of_false (by simp) hunstorable

@[simp] theorem isSome_write_integer {value : Int} :
    (integer.write value).isSome ↔ Epoch.Representable value := by
  have hlimit : Head.argumentLimit = 18446744073709551616 := rfl
  rw [integer]
  dsimp only
  split
  · rename_i hrepresentable
    have ⟨hlow, hhigh⟩ := hrepresentable
    simp only [Epoch.lowest, Epoch.highest] at hlow hhigh
    split
    · refine iff_of_true (Head.isSome_write.mpr ?_) hrepresentable
      dsimp only
      omega
    · refine iff_of_true (Head.isSome_write.mpr ?_) hrepresentable
      dsimp only
      omega
  · rename_i hunrepresentable
    exact iff_of_false (by simp) hunrepresentable

@[simp] theorem isSome_write_word {value : UInt64} : (word.write value).isSome :=
  Head.isSome_write.mpr value.toNat_lt

@[simp] theorem isSome_write_flag {value : Bool} : (flag.write value).isSome := rfl

@[simp] theorem isSome_write_address {value : Address} : (address.write value).isSome :=
  isSome_write_byteString.mpr (Nat.lt_of_le_of_lt value.length_toBytes_le (by decide))

@[simp] theorem isSome_write_pair {first : Format α} {second : Format β} {value : α × β} :
    ((first.pair second).write value).isSome ↔
      (first.write value.1).isSome ∧ (second.write value.2).isSome := by
  rw [pair]
  dsimp only
  cases first.write value.1 with
  | none => simp
  | some head => cases second.write value.2 <;> simp

theorem isSome_write_tuple {count : Nat} (hcount : count < 24) {items : Format α}
    {value : α} :
    ((items.tuple count).write value).isSome ↔ (items.write value).isSome := by
  rw [tuple]
  dsimp only
  rw [Head.write, if_pos hcount]
  cases items.write value <;> simp

@[simp] theorem isSome_write_record {format : Format α} {layout : Layout α β} {value : β} :
    ((format.record layout).write value).isSome ↔
      (format.write (layout.parts value)).isSome :=
  Iff.rfl

theorem isSome_writeAll {item : Format α} {values : List α} :
    (item.writeAll values).isSome ↔ ∀ value ∈ values, (item.write value).isSome := by
  induction values with
  | nil => exact iff_of_true rfl nofun
  | cons value rest ih =>
      rw [List.forall_mem_cons, ← ih, writeAll]
      cases item.write value with
      | none => simp
      | some head => cases item.writeAll rest <;> simp

theorem isSome_write_list {item : Format α} {values : List α} :
    (item.list.write values).isSome ↔
      values.length < Head.argumentLimit ∧ ∀ value ∈ values, (item.write value).isSome := by
  have hhead : (Head.write ⟨Head.array, values.length⟩).isSome ↔
      values.length < Head.argumentLimit := Head.isSome_write
  rw [← hhead, ← isSome_writeAll, list]
  dsimp only
  cases Head.write ⟨Head.array, values.length⟩ with
  | none => simp
  | some head => cases item.writeAll values <;> simp

theorem encode_of_isSome {format : Format α} {value : α}
    (hwritable : (format.write value).isSome) :
    ∃ bytes, format.encode value = .ok bytes := by
  obtain ⟨bytes, hbytes⟩ := Option.isSome_iff_exists.mp hwritable
  exact ⟨bytes, by rw [encode, hbytes]⟩

theorem serialize_of_isSome {format : Format α} {value : α} (subject : String)
    (hwritable : (format.write value).isSome) :
    ∃ bytes, format.serialize subject value = .ok bytes := by
  obtain ⟨bytes, hbytes⟩ := encode_of_isSome hwritable
  exact ⟨bytes, by rw [serialize, hbytes]; rfl⟩

theorem storable_of_amountOfBytes? {bytes : Bytes} {value : Int}
    (hread : amountOfBytes? bytes = some value) : Amount.Storable value := by
  have hmagnitude (magnitude : Bytes) (hlength : magnitude.length ≤ 127) :
      Bytes.toNat magnitude < Amount.storageLimit := by
    have hlimit : Amount.storageLimit = 256 ^ 127 := by decide +kernel
    have hbound := Bytes.toNat_lt magnitude
    rw [hlimit]
    exact Nat.lt_of_lt_of_le hbound (Nat.pow_le_pow_right (by decide) hlength)
  unfold amountOfBytes? amountLimit at hread
  split at hread
  · cases hread
  · rename_i hshort
    split at hread
    · cases hread
      exact Amount.storable_zero
    · rename_i magnitude
      cases hread
      rw [List.length_cons] at hshort
      rw [Amount.Storable, Int.natAbs_natCast]
      exact hmagnitude magnitude (by omega)
    · rename_i magnitude
      cases hread
      rw [List.length_cons] at hshort
      rw [Amount.Storable, Int.natAbs_neg, Int.natAbs_natCast]
      exact hmagnitude magnitude (by omega)
    · cases hread

/-- Whatever the format reads, it can write. -/
def Rewrites (format : Format α) : Prop :=
  ∀ nesting bytes value rest, format.read nesting bytes = some (value, rest) →
    (format.write value).isSome

theorem Rewrites.methodParameters {format : Format α} (hformat : format.Rewrites)
    {params : Bytes} {value : α} (hparams : format.methodParameters params = .ok value) :
    (format.write value).isSome := by
  rw [Format.methodParameters, deserialize, decode] at hparams
  split at hparams
  · rename_i read hread
    cases hparams
    exact hformat _ _ _ _ hread
  · cases hparams

end Format

end Wire

theorem Tranche.isSome_write {tranche : Tranche} :
    (Tranche.format.write tranche).isSome ↔
      Epoch.Representable tranche.epoch ∧ Amount.Storable tranche.amount := by
  rw [Tranche.format, Wire.Format.isSome_write_record,
    Wire.Format.isSome_write_tuple (by decide), Wire.Format.isSome_write_pair,
    Wire.Format.isSome_write_integer, Wire.Format.isSome_write_amount]
  rfl

theorem Ledger.isSome_write {ledger : Ledger} :
    (Ledger.format.write ledger).isSome ↔
      (ledger.tranches.length < Wire.Head.argumentLimit ∧
        ∀ tranche ∈ ledger.tranches,
          Epoch.Representable tranche.epoch ∧ Amount.Storable tranche.amount) ∧
      Amount.Storable ledger.unlocked := by
  rw [Ledger.format, Wire.Format.isSome_write_record,
    Wire.Format.isSome_write_tuple (by decide), Wire.Format.isSome_write_pair,
    Wire.Format.isSome_write_list, Wire.Format.isSome_write_amount]
  simp only [Tranche.isSome_write]
  rfl

theorem Expert.isSome_write {info : Expert} :
    (Expert.format.write info).isSome ↔
      Amount.Storable info.rewardDebt ∧ Amount.Storable info.locked ∧
        (Ledger.format.write info.vesting).isSome ∧ Amount.Storable info.unlocked := by
  rw [Expert.format, Wire.Format.isSome_write_record,
    Wire.Format.isSome_write_tuple (by decide)]
  simp only [Wire.Format.isSome_write_pair, Wire.Format.isSome_write_word,
    Wire.Format.isSome_write_amount, true_and]
  rfl

end RewardVesting
