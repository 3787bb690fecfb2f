import RewardVesting.Proofs.Wire.Writable

namespace RewardVesting

namespace Bytes

theorem toNatFrom_append (value : Nat) (first second : Bytes) :
    toNatFrom value (first ++ second) = toNatFrom (toNatFrom value first) second := by
  induction first generalizing value with
  | nil => rfl
  | cons byte rest ih => exact ih _

theorem toNatFrom_ofNat (start : Nat) {width value : Nat} (hvalue : value < 256 ^ width) :
    toNatFrom start (ofNat width value) = start * 256 ^ width + value := by
  induction width generalizing value with
  | zero =>
      rw [Nat.pow_zero] at hvalue
      rw [ofNat, toNatFrom]
      omega
  | succ width ih =>
      rw [Nat.pow_succ] at hvalue
      have hbyte : (UInt8.ofNat (value % 256)).toNat = value % 256 :=
        UInt8.toNat_ofNat_of_lt' (Nat.mod_lt _ (by decide))
      rw [ofNat, toNatFrom_append, ih (by omega), toNatFrom, toNatFrom, hbyte, Nat.pow_succ,
        ← Nat.mul_assoc]
      omega

theorem toNat_ofNat {width value : Nat} (hvalue : value < 256 ^ width) :
    toNat (ofNat width value) = value := by
  rw [toNat, toNatFrom_ofNat 0 hvalue, Nat.zero_mul, Nat.zero_add]

theorem lt_pow_width (value : Nat) : value < 256 ^ width value := by
  rw [width]
  split
  · rename_i hzero
    rw [hzero]
    decide
  · have hpow : 256 ^ (value.log2 / 8 + 1) = 2 ^ (8 * (value.log2 / 8 + 1)) := by
      rw [Nat.pow_mul]
    rw [hpow]
    calc
      value < 2 ^ (value.log2 + 1) := Nat.lt_log2_self
      _ ≤ 2 ^ (8 * (value.log2 / 8 + 1)) := Nat.pow_le_pow_right (by decide) (by omega)

end Bytes

namespace Wire

namespace Head

theorem split?_append {count : Nat} {first : Bytes} (hlength : first.length = count)
    (rest : Bytes) : split? count (first ++ rest) = some (first, rest) := by
  rw [split?, List.take_left' hlength, List.drop_left' hlength, if_pos hlength]

theorem toNat_first {major information : Nat} (hmajor : major < 8)
    (hinformation : information < 32) :
    (UInt8.ofNat (major * 32 + information)).toNat = major * 32 + information :=
  UInt8.toNat_ofNat_of_lt' (show _ < 256 by omega)

theorem read_withWidth {major information width argument : Nat} (hmajor : major < 8)
    (hlow : 24 ≤ information) (hhigh : information < 32)
    (hwidth : argumentWidth? information = some width) (hargument : argument < 256 ^ width)
    (suffix : Bytes) :
    read (withWidth major information width argument ++ suffix) =
      some (⟨major, argument⟩, suffix) := by
  have hdiv : (major * 32 + information) / 32 = major := by omega
  have hmod : (major * 32 + information) % 32 = information := by omega
  rw [withWidth, List.cons_append, read, toNat_first hmajor hhigh, hdiv, hmod,
    if_neg (Nat.not_lt.mpr hlow), hwidth]
  simp only [Option.bind_eq_bind, Option.bind_some,
    split?_append (Bytes.length_ofNat width argument), Bytes.toNat_ofNat hargument,
    Option.pure_def]

theorem read_write {head : Head} (hmajor : head.major < 8) {bytes : Bytes}
    (hwrite : head.write = some bytes) (suffix : Bytes) :
    read (bytes ++ suffix) = some (head, suffix) := by
  rw [write] at hwrite
  split at hwrite
  · rename_i hsmall
    cases hwrite
    have hdiv : (head.major * 32 + head.argument) / 32 = head.major := by omega
    have hmod : (head.major * 32 + head.argument) % 32 = head.argument := by omega
    rw [List.cons_append, List.nil_append, read, toNat_first hmajor (by omega), hdiv, hmod,
      if_pos hsmall]
  · split at hwrite
    · rename_i hargument
      cases hwrite
      exact read_withWidth hmajor (by decide) (by decide) rfl hargument suffix
    · split at hwrite
      · rename_i hargument
        cases hwrite
        exact read_withWidth hmajor (by decide) (by decide) rfl hargument suffix
      · split at hwrite
        · rename_i hargument
          cases hwrite
          exact read_withWidth hmajor (by decide) (by decide) rfl hargument suffix
        · split at hwrite
          · rename_i hargument
            cases hwrite
            exact read_withWidth hmajor (by decide) (by decide) rfl hargument suffix
          · cases hwrite

theorem readArgument_write {major argument : Nat} (hmajor : major < 8) {bytes : Bytes}
    (hwrite : write ⟨major, argument⟩ = some bytes) (suffix : Bytes) :
    readArgument major (bytes ++ suffix) = some (argument, suffix) := by
  simp only [readArgument, read_write hmajor hwrite, Option.bind_eq_bind, Option.bind_some,
    true_or, if_true, Option.pure_def]

end Head

namespace Format

variable {α β : Type}

/-- With this much nesting left, whatever is written is read back, and what follows it is
left. -/
def ReadsBack (format : Format α) (depth : Nat) : Prop :=
  ∀ nesting, depth ≤ nesting → ∀ value bytes, format.write value = some bytes →
    ∀ suffix, format.read nesting (bytes ++ suffix) = some (value, suffix)

/-- What is written of a byte string never looks like a string that comes in chunks. -/
theorem head?_write_byteString {length : Nat} {head : Bytes}
    (hwrite : Head.write ⟨Head.byteString, length⟩ = some head) (rest : Bytes) :
    (head ++ rest).head? ≠ some chunksMark := by
  have hread := Head.read_write (show Head.byteString < 8 by decide) hwrite []
  intro hmark
  cases head with
  | nil => cases hread
  | cons first later =>
      rw [List.cons_append, List.head?_cons, Option.some.injEq] at hmark
      -- The mark is a head without a definite argument, of which none is written.
      subst hmark
      simp [Head.read, chunksMark, Head.argumentWidth?] at hread

theorem readsBack_byteString : byteString.ReadsBack 0 := by
  intro nesting _ value bytes hwrite suffix
  simp only [byteString, Option.bind_eq_bind, Option.bind_eq_some_iff, Option.pure_def,
    Option.some.injEq] at hwrite
  obtain ⟨head, hhead, rfl⟩ := hwrite
  have hwhole : readWhole (head ++ (value ++ suffix)) = some (value, suffix) := by
    simp only [readWhole, Head.readArgument_write (by decide) hhead, Option.bind_eq_bind,
      Option.bind_some, Head.split?_append rfl]
  have hmark := head?_write_byteString hhead (value ++ suffix)
  rw [List.append_assoc]
  cases nesting with
  | zero =>
      change readStringOf _ _ = _
      rw [readStringOf, if_neg hmark, hwhole]
  | succ nesting =>
      change readStringOf _ _ = _
      rw [readStringOf, if_neg hmark, hwhole]

theorem amountOfBytes?_amountToBytes {value : Int} (hstorable : Amount.Storable value) :
    amountOfBytes? (amountToBytes value) = some value := by
  have hbits : Amount.storageLimit = 2 ^ (8 * 127) := by decide +kernel
  rw [Amount.Storable, hbits] at hstorable
  have hwidth := Bytes.width_le hstorable
  have hmagnitude := Bytes.toNat_ofNat (Bytes.lt_pow_width value.natAbs)
  rw [amountToBytes]
  split
  · rename_i hzero
    rw [hzero]
    rfl
  · have hlength : ∀ sign, ¬amountLimit <
        (sign :: Bytes.ofNat (Bytes.width value.natAbs) value.natAbs).length := by
      intro sign
      rw [List.length_cons, Bytes.length_ofNat, amountLimit]
      omega
    by_cases hnegative : value < 0
    · rw [if_pos hnegative, amountOfBytes?, if_neg (hlength 1), hmagnitude]
      exact congrArg some (by omega)
    · rw [if_neg hnegative, amountOfBytes?, if_neg (hlength 0), hmagnitude]
      exact congrArg some (by omega)

theorem readsBack_amount : amount.ReadsBack 0 := by
  intro nesting hdepth value bytes hwrite suffix
  rw [amount] at hwrite
  dsimp only at hwrite
  split at hwrite
  · rename_i hstorable
    have hcontent := readsBack_byteString nesting hdepth _ bytes hwrite suffix
    simp only [amount, hcontent, Option.bind_eq_bind, Option.bind_some,
      amountOfBytes?_amountToBytes hstorable, Option.pure_def]
  · cases hwrite

theorem readsBack_integer : integer.ReadsBack 0 := by
  intro nesting _ value bytes hwrite suffix
  simp only [integer] at hwrite
  split at hwrite
  · rename_i hrepresentable
    obtain ⟨hlow, hhigh⟩ := hrepresentable
    split at hwrite
    · rename_i hnonneg
      have hread := Head.read_write (show Head.unsigned < 8 by decide) hwrite suffix
      have hvalue : (value.toNat : Int) = value := Int.toNat_of_nonneg hnonneg
      simp only [integer, hread, Option.bind_eq_bind, Option.bind_some, hvalue,
        if_pos hhigh, if_true, Option.pure_def]
    · rename_i hnegative
      have hread := Head.read_write (show Head.negative < 8 by decide) hwrite suffix
      have hvalue : ((-1 - value).toNat : Int) = -1 - value :=
        Int.toNat_of_nonneg (by omega)
      have hback : -1 - (-1 - value) = value := by omega
      have hbelow : -1 - value ≤ Epoch.highest := by
        simp only [Epoch.lowest, Epoch.highest] at hlow ⊢
        omega
      simp only [integer, hread, Option.bind_eq_bind, Option.bind_some, hvalue,
        if_pos hbelow, if_neg (show Head.negative ≠ Head.unsigned by decide), if_true,
        hback, Option.pure_def]
  · cases hwrite

theorem readsBack_word : word.ReadsBack 0 := by
  intro nesting _ value bytes hwrite suffix
  simp only [word, Head.readArgument_write (by decide) hwrite suffix, Option.bind_eq_bind,
    Option.bind_some, UInt64.ofNat_toNat, Option.pure_def]

theorem readsBack_flag : flag.ReadsBack 0 := by
  intro nesting _ value bytes hwrite suffix
  cases Option.some.inj hwrite
  cases value <;> rfl

theorem readsBack_address : address.ReadsBack 0 := by
  intro nesting hdepth value bytes hwrite suffix
  have hcontent := readsBack_byteString nesting hdepth value.toBytes bytes hwrite suffix
  simp only [address, hcontent, Option.bind_eq_bind, Option.bind_some,
    Address.ofBytes_toBytes, Option.pure_def]

theorem ReadsBack.pair {first : Format α} {second : Format β} {depth : Nat}
    (hfirst : first.ReadsBack depth) (hsecond : second.ReadsBack depth) :
    (first.pair second).ReadsBack depth := by
  intro nesting hdepth value bytes hwrite suffix
  simp only [Format.pair, Option.bind_eq_bind, Option.bind_eq_some_iff, Option.pure_def,
    Option.some.injEq] at hwrite
  obtain ⟨head, hhead, tail, htail, rfl⟩ := hwrite
  simp only [Format.pair, List.append_assoc, hfirst nesting hdepth _ head hhead,
    hsecond nesting hdepth _ tail htail, Option.bind_eq_bind, Option.bind_some,
    Option.pure_def]

theorem ReadsBack.tuple {items : Format α} {depth : Nat} (hitems : items.ReadsBack depth)
    (count : Nat) : (items.tuple count).ReadsBack (depth + 1) := by
  intro nesting hdepth value bytes hwrite suffix
  simp only [Format.tuple, Option.bind_eq_bind, Option.bind_eq_some_iff, Option.pure_def,
    Option.some.injEq] at hwrite
  obtain ⟨head, hhead, content, hcontent, rfl⟩ := hwrite
  cases nesting with
  | zero => exact absurd hdepth (Nat.not_succ_le_zero depth)
  | succ nesting =>
      simp only [Format.tuple, List.append_assoc, Head.readArgument_write (by decide) hhead,
        Option.bind_eq_bind, Option.bind_some, if_true,
        hitems nesting (Nat.le_of_succ_le_succ hdepth) _ content hcontent]

theorem ReadsBack.many {item : Format α} {depth : Nat} (hitem : item.ReadsBack depth)
    {nesting : Nat} (hdepth : depth ≤ nesting) {values : List α} {bytes : Bytes}
    (hwrite : item.writeAll values = some bytes) (suffix : Bytes) :
    item.readMany nesting values.length (bytes ++ suffix) = some (values, suffix) := by
  induction values generalizing bytes with
  | nil =>
      cases hwrite
      rfl
  | cons value rest ih =>
      simp only [writeAll, Option.bind_eq_bind, Option.bind_eq_some_iff, Option.pure_def,
        Option.some.injEq] at hwrite
      obtain ⟨head, hhead, tail, htail, rfl⟩ := hwrite
      simp only [List.length_cons, readMany, List.append_assoc,
        hitem nesting hdepth value head hhead, ih htail, Option.bind_eq_bind,
        Option.bind_some, Option.pure_def]

theorem ReadsBack.list {item : Format α} {depth : Nat} (hitem : item.ReadsBack depth) :
    item.list.ReadsBack (depth + 1) := by
  intro nesting hdepth values bytes hwrite suffix
  simp only [Format.list, Option.bind_eq_bind, Option.bind_eq_some_iff, Option.pure_def,
    Option.some.injEq] at hwrite
  obtain ⟨head, hhead, content, hcontent, rfl⟩ := hwrite
  cases nesting with
  | zero => exact absurd hdepth (Nat.not_succ_le_zero depth)
  | succ nesting =>
      simp only [Format.list, List.append_assoc, Head.readArgument_write (by decide) hhead,
        Option.bind_eq_bind, Option.bind_some,
        hitem.many (Nat.le_of_succ_le_succ hdepth) hcontent]

theorem ReadsBack.record {format : Format α} {depth : Nat}
    (hformat : format.ReadsBack depth)
    (layout : Layout α β) : (format.record layout).ReadsBack depth := by
  intro nesting hdepth value bytes hwrite suffix
  have hread := hformat nesting hdepth _ bytes hwrite suffix
  simp only [Format.record, hread, Option.map_some, layout.build_parts]

theorem ReadsBack.decode {format : Format α} {depth : Nat}
    (hformat : format.ReadsBack depth)
    (hdepth : depth ≤ nestingLimit) {value : α} {bytes : Bytes}
    (hencode : format.encode value = .ok bytes) : format.decode bytes = .ok value := by
  rw [encode] at hencode
  split at hencode
  · rename_i written hwrite
    cases hencode
    have hread := hformat nestingLimit hdepth value bytes hwrite []
    rw [List.append_nil] at hread
    rw [Format.decode, hread]
  · cases hencode

end Format

end Wire

end RewardVesting
