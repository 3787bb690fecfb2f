import RewardVesting.Bytes

namespace RewardVesting

/-! Unsigned 64-bit numbers in groups of seven bits, the lowest group first.  Every byte but
the last has its high bit set.  A last group of zero after others is refused, and of a tenth
group only the lowest bit counts. -/

namespace Varint

/-- Seven-bit groups in sixty-four bits. -/
def groupLimit : Nat := 10

def groups : (limit : Nat) → (value : Nat) → Bytes
  | 0, _ => []
  | limit + 1, value =>
    if value < 128 then [UInt8.ofNat value]
    else UInt8.ofNat (value % 128 + 128) :: groups limit (value / 128)

def encode (number : UInt64) : Bytes := groups groupLimit number.toNat

def readGroups : (limit : Nat) → Bytes → Option (Nat × Bytes)
  | 0, _ => none
  | _ + 1, [] => none
  | limit + 1, byte :: rest =>
    if byte < 128 then some (byte.toNat, rest)
    else do
      let (high, rest) ← readGroups limit rest
      if high = 0 then none
      return (byte.toNat - 128 + 128 * high, rest)

/-- Bits above the sixty-fourth are dropped. -/
def decode (bytes : Bytes) : Option (UInt64 × Bytes) :=
  (readGroups groupLimit bytes).map fun (value, rest) => (UInt64.ofNat value, rest)

private theorem readGroups_groups (limit value : Nat) (rest : Bytes) (hlimit : 0 < limit)
    (hvalue : value < Nat.pow 128 limit) :
    readGroups limit (groups limit value ++ rest) = some (value, rest) := by
  induction limit generalizing value with
  | zero => contradiction
  | succ limit ih =>
      rw [groups]
      split
      · rename_i hsmall
        have hbyte : UInt8.ofNat value < 128 := by
          rw [UInt8.lt_iff_toNat_lt, UInt8.toNat_ofNat']
          exact Nat.lt_of_le_of_lt (Nat.mod_le _ _) hsmall
        rw [List.singleton_append, readGroups, if_pos hbyte,
          UInt8.toNat_ofNat_of_lt' (Nat.lt_trans hsmall (by decide))]
      · rename_i hlarge
        have hhigh : value / 128 < Nat.pow 128 limit :=
          Nat.div_lt_of_lt_mul (by rw [Nat.mul_comm]; exact hvalue)
        have hmore : 0 < limit := by
          rcases Nat.eq_zero_or_pos limit with rfl | hpos
          · exact absurd hvalue hlarge
          · exact hpos
        have hbyte : (UInt8.ofNat (value % 128 + 128)).toNat = value % 128 + 128 :=
          UInt8.toNat_ofNat_of_lt' (Nat.add_lt_add_right (Nat.mod_lt value (by decide)) 128)
        have hflag : ¬ UInt8.ofNat (value % 128 + 128) < 128 := by
          rw [UInt8.lt_iff_toNat_lt, hbyte]
          exact Nat.not_lt.mpr (Nat.le_add_left 128 _)
        rw [List.cons_append, readGroups, if_neg hflag, ih (value / 128) hmore hhigh]
        have hnonzero : value / 128 ≠ 0 := by omega
        simp only [Option.bind_eq_bind, Option.bind_some, if_neg hnonzero, hbyte]
        simp only [Option.pure_def, Option.some.injEq, Prod.mk.injEq, and_true]
        omega

/-- A number is read back with whatever follows it. -/
@[simp] theorem decode_encode_append (number : UInt64) (rest : Bytes) :
    decode (encode number ++ rest) = some (number, rest) := by
  have hread := readGroups_groups groupLimit number.toNat rest (by decide)
    (Nat.lt_trans number.toNat_lt (by decide))
  rw [decode, encode, hread]
  simp

theorem length_groups_mono (limit : Nat) {value larger : Nat} (hle : value ≤ larger) :
    (groups limit value).length ≤ (groups limit larger).length := by
  induction limit generalizing value larger with
  | zero => exact Nat.le_refl 0
  | succ limit ih =>
      rw [groups, groups]
      split
      · split
        · exact Nat.le_refl 1
        · exact Nat.succ_le_succ (Nat.zero_le _)
      · rw [if_neg (by omega), List.length_cons, List.length_cons]
        exact Nat.succ_le_succ (ih (Nat.div_le_div_right hle))

private theorem length_groups_of_readGroups {limit value : Nat} {bytes rest : Bytes}
    (hread : readGroups limit bytes = some (value, rest)) :
    (groups limit value).length + rest.length ≤ bytes.length := by
  induction limit generalizing bytes value with
  | zero => cases hread
  | succ limit ih =>
      cases bytes with
      | nil => cases hread
      | cons byte later =>
          rw [readGroups] at hread
          rw [groups]
          split at hread
          · rename_i hlast
            cases hread
            have hsmall : byte.toNat < 128 := UInt8.lt_iff_toNat_lt.mp hlast
            rw [if_pos hsmall, List.length_singleton, List.length_cons]
            omega
          · simp only [Option.bind_eq_bind, Option.bind_eq_some_iff, Prod.exists] at hread
            obtain ⟨high, after, hhigh, hvalue⟩ := hread
            have hbyte : byte.toNat < 256 := byte.toNat_lt
            split at hvalue
            · cases hvalue
            · rename_i hnonzero
              cases hvalue
              have hquotient : (byte.toNat - 128 + 128 * high) / 128 = high := by omega
              have hshorter := ih hhigh
              rw [if_neg (by omega), hquotient, List.length_cons, List.length_cons]
              omega

/-- Written again, a number takes no more bytes than it was read from. -/
theorem length_encode_of_decode {number : UInt64} {bytes rest : Bytes}
    (hdecode : decode bytes = some (number, rest)) :
    (encode number).length + rest.length ≤ bytes.length := by
  simp only [decode, Option.map_eq_some_iff, Prod.mk.injEq, Prod.exists] at hdecode
  obtain ⟨value, after, hread, rfl, rfl⟩ := hdecode
  have hshorter := length_groups_of_readGroups hread
  have htruncated : (UInt64.ofNat value).toNat ≤ value := by
    rw [UInt64.toNat_ofNat']
    exact Nat.mod_le value _
  have hmono := length_groups_mono groupLimit htruncated
  rw [encode]
  omega

theorem encode_ne_nil (number : UInt64) : encode number ≠ [] := by
  rw [encode, groupLimit, groups]
  split <;> exact List.cons_ne_nil _ _

end Varint

end RewardVesting
