import RewardVesting.Proofs.Wire.Writable

namespace RewardVesting.Wire

/-! Writing what has been read never takes more bytes than reading it took. -/

namespace Head

theorem length_withWidth (major information width argument : Nat) :
    (withWidth major information width argument).length = width + 1 := by
  rw [withWidth, List.length_cons, Bytes.length_ofNat]

/-- A head is written in its shortest form, and so in no more bytes than any form it fits
in. -/
theorem exists_write {information width argument : Nat} (major : Nat)
    (hwidth : argumentWidth? information = some width)
    (hargument : argument < 256 ^ width) :
    ∃ written, write ⟨major, argument⟩ = some written ∧ written.length ≤ width + 1 := by
  have hwidths : width = 1 ∨ width = 2 ∨ width = 4 ∨ width = 8 := by
    unfold argumentWidth? at hwidth
    split at hwidth <;> cases hwidth <;> decide
  have hneeded : argument < 18446744073709551616 ∧ 1 ≤ width ∧
    (256 ≤ argument → 2 ≤ width) ∧
      (65536 ≤ argument → 4 ≤ width) ∧ (4294967296 ≤ argument → 8 ≤ width) := by
    obtain rfl | rfl | rfl | rfl := hwidths <;> omega
  have hbyte : UInt8.size = 256 := rfl
  have hshort : UInt16.size = 65536 := rfl
  have hlong : UInt32.size = 4294967296 := rfl
  have hlimit : argumentLimit = 18446744073709551616 := rfl
  have hfits (marker needed : Nat) (hle : needed ≤ width) :
      ∃ written, some (withWidth major marker needed argument) = some written ∧
        written.length ≤ width + 1 := by
    refine ⟨_, rfl, ?_⟩
    rw [length_withWidth]
    omega
  rw [write]
  dsimp only
  split
  · exact ⟨_, rfl, Nat.succ_le_succ (Nat.zero_le width)⟩
  · split
    · exact hfits _ 1 hneeded.2.1
    · split
      · exact hfits _ 2 (by omega)
      · split
        · exact hfits _ 4 (by omega)
        · rw [if_pos (hlimit ▸ hneeded.1)]
          exact hfits _ 8 (by omega)

/-- Any argument up to one that has been read is written in no more bytes. -/
theorem exists_write_of_read {head : Head} {bytes rest : Bytes} {argument : Nat}
    (major : Nat)
    (hread : read bytes = some (head, rest)) (hle : argument ≤ head.argument) :
    ∃ written, write ⟨major, argument⟩ = some written ∧
      written.length + rest.length ≤ bytes.length := by
  cases bytes with
  | nil => cases hread
  | cons first later =>
      rw [read] at hread
      dsimp only at hread
      split at hread
      · rename_i hsmall
        cases hread
        dsimp only at hle
        have hlow : argument < 24 := by omega
        refine ⟨[UInt8.ofNat (major * 32 + argument)], if_pos hlow, ?_⟩
        rw [List.length_singleton, List.length_cons]
        omega
      · simp only [Option.bind_eq_bind, Option.bind_eq_some_iff, Option.pure_def,
          Option.some.injEq, Prod.mk.injEq, Prod.exists] at hread
        obtain ⟨width, hwidth, held, after, hsplit, rfl, rfl⟩ := hread
        rw [split?] at hsplit
        split at hsplit
        · rename_i hlength
          cases hsplit
          have hbound := Bytes.toNat_lt (later.take width)
          rw [hlength] at hbound
          obtain ⟨written, hwrite, hshort⟩ :=
            exists_write major hwidth (Nat.lt_of_le_of_lt hle hbound)
          rw [List.length_take] at hlength
          refine ⟨written, hwrite, ?_⟩
          rw [List.length_drop, List.length_cons]
          omega
        · cases hsplit

theorem exists_write_of_readArgument {major argument lower : Nat} {bytes rest : Bytes}
    (other : Nat) (hread : readArgument major bytes = some (argument, rest))
    (hle : lower ≤ argument) :
    ∃ written, write ⟨other, lower⟩ = some written ∧
      written.length + rest.length ≤ bytes.length := by
  simp only [readArgument, Option.bind_eq_bind, Option.bind_eq_some_iff,
    Prod.exists] at hread
  obtain ⟨head, after, hhead, hmajor⟩ := hread
  split at hmajor
  · cases hmajor
    exact exists_write_of_read other hhead hle
  · cases hmajor

end Head

namespace Format

variable {α β : Type}

/-- What is read is contained in the bytes that are used up. -/
def Contained (readChunk : Bytes → Option (Bytes × Bytes)) : Prop :=
  ∀ bytes content rest, readChunk bytes = some (content, rest) →
    content.length + rest.length ≤ bytes.length

theorem length_of_readChunks {readChunk : Bytes → Option (Bytes × Bytes)}
    (hchunk : Contained readChunk) {steps : Nat} {bytes content rest : Bytes}
    (hread : readChunks readChunk steps bytes = some (content, rest)) :
    content.length + rest.length + 1 ≤ bytes.length := by
  induction steps generalizing bytes content with
  | zero => cases hread
  | succ steps ih =>
      cases bytes with
      | nil => cases hread
      | cons first later =>
          rw [readChunks] at hread
          split at hread
          · cases hread
            rw [List.length_nil, List.length_cons]
            omega
          · simp only [Option.bind_eq_bind, Option.bind_eq_some_iff, Option.pure_def,
              Option.some.injEq, Prod.mk.injEq, Prod.exists] at hread
            obtain ⟨chunk, between, hfirst, others, after, hothers, rfl, rfl⟩ := hread
            have hcontained := hchunk _ _ _ hfirst
            have hrest := ih hothers
            rw [List.length_append]
            omega

theorem split_of_readWhole {bytes content rest : Bytes}
    (hread : readWhole bytes = some (content, rest)) :
    ∃ between, Head.readArgument Head.byteString bytes = some (content.length, between) ∧
      between.length = content.length + rest.length := by
  simp only [readWhole, Option.bind_eq_bind, Option.bind_eq_some_iff, Prod.exists] at hread
  obtain ⟨length, between, hlength, hsplit⟩ := hread
  rw [Head.split?] at hsplit
  split at hsplit
  · rename_i htaken
    cases hsplit
    refine ⟨between, htaken.symm ▸ hlength, ?_⟩
    rw [← List.length_append, List.take_append_drop]
  · cases hsplit

/-- A short string, no longer than one that has been read, is written in no more bytes. -/
theorem exists_write_of_readStringOf {readChunk : Bytes → Option (Bytes × Bytes)}
    (hchunk : Contained readChunk) {bytes content rest shorter : Bytes}
    (hread : readStringOf readChunk bytes = some (content, rest))
    (hle : shorter.length ≤ content.length) (hshort : shorter.length < UInt8.size) :
    ∃ written, byteString.write shorter = some written ∧
      written.length + rest.length ≤ bytes.length := by
  rw [readStringOf] at hread
  split at hread
  · -- The marks around the chunks take no less than the head of a short string.
    rename_i hmark
    have hchunks := length_of_readChunks hchunk hread
    obtain ⟨later, rfl⟩ := List.head?_eq_some_iff.mp hmark
    rw [List.tail_cons] at hchunks
    obtain ⟨head, hhead, hlength⟩ :=
      Head.exists_write Head.byteString
        (show Head.argumentWidth? 24 = some 1 from rfl) hshort
    refine ⟨head ++ shorter, by simp only [byteString, hhead]; rfl, ?_⟩
    rw [List.length_append, List.length_cons]
    omega
  · obtain ⟨between, hlength, hsplit⟩ := split_of_readWhole hread
    obtain ⟨head, hhead, hshorter⟩ :=
      Head.exists_write_of_readArgument Head.byteString hlength hle
    refine ⟨head ++ shorter, by simp only [byteString, hhead]; rfl, ?_⟩
    rw [List.length_append]
    omega

theorem contained_readStringOf {readChunk : Bytes → Option (Bytes × Bytes)}
    (hchunk : Contained readChunk) : Contained (readStringOf readChunk) := by
  intro bytes content rest hread
  rw [readStringOf] at hread
  split at hread
  · have hchunks := length_of_readChunks hchunk hread
    rw [List.length_tail] at hchunks
    omega
  · obtain ⟨between, hlength, hsplit⟩ := split_of_readWhole hread
    obtain ⟨_, _, hshorter⟩ :=
      Head.exists_write_of_readArgument Head.byteString hlength (Nat.le_refl _)
    omega

theorem contained_none : Contained fun _ => none := by
  intro bytes content rest hread
  cases hread

theorem contained_readString (nesting : Nat) : Contained (readString nesting) := by
  induction nesting with
  | zero => exact contained_readStringOf contained_none
  | succ nesting ih => exact contained_readStringOf ih

theorem exists_write_of_read_byteString {nesting : Nat} {bytes content rest shorter : Bytes}
    (hread : byteString.read nesting bytes = some (content, rest))
    (hle : shorter.length ≤ content.length) (hshort : shorter.length < UInt8.size) :
    ∃ written, byteString.write shorter = some written ∧
      written.length + rest.length ≤ bytes.length := by
  cases nesting with
  | zero => exact exists_write_of_readStringOf contained_none hread hle hshort
  | succ nesting =>
      exact exists_write_of_readStringOf (contained_readString nesting) hread hle hshort

/-- Whatever the format reads, it can write, and in no more bytes. -/
def Condenses (format : Format α) : Prop :=
  ∀ nesting bytes value rest, format.read nesting bytes = some (value, rest) →
    ∃ written, format.write value = some written ∧
      written.length + rest.length ≤ bytes.length

theorem Condenses.rewrites {format : Format α} (hformat : format.Condenses) :
    format.Rewrites := by
  intro nesting bytes value rest hread
  obtain ⟨written, hwrite, _⟩ := hformat nesting bytes value rest hread
  exact Option.isSome_iff_exists.mpr ⟨written, hwrite⟩

theorem condenses_integer : integer.Condenses := by
  intro nesting bytes value rest hread
  simp only [integer, Option.bind_eq_bind, Option.bind_eq_some_iff, Prod.exists] at hread
  obtain ⟨head, after, hhead, hsign⟩ := hread
  have hlowest : Epoch.lowest = -1 - Epoch.highest := rfl
  have hhighest : 0 ≤ Epoch.highest := by decide
  split at hsign
  · rename_i hbounded
    split at hsign
    · cases hsign
      have hrepresentable : Epoch.Representable head.argument := ⟨by omega, hbounded⟩
      obtain ⟨written, hwrite, hshorter⟩ :=
        Head.exists_write_of_read Head.unsigned hhead (Nat.le_refl _)
      refine ⟨written, ?_, hshorter⟩
      simp only [integer, if_pos hrepresentable, if_pos (Int.natCast_nonneg _),
        Int.toNat_natCast, hwrite]
    · split at hsign
      · cases hsign
        have hrepresentable : Epoch.Representable (-1 - head.argument) :=
          ⟨by omega, by omega⟩
        have hnegative : ¬0 ≤ -1 - (head.argument : Int) := by omega
        have hargument : (-1 - (-1 - (head.argument : Int))).toNat = head.argument := by
          omega
        obtain ⟨written, hwrite, hshorter⟩ :=
          Head.exists_write_of_read Head.negative hhead (Nat.le_refl _)
        refine ⟨written, ?_, hshorter⟩
        simp only [integer, if_pos hrepresentable, if_neg hnegative, hargument, hwrite]
      · cases hsign
  · cases hsign

theorem condenses_word : word.Condenses := by
  intro nesting bytes value rest hread
  simp only [word, Option.bind_eq_bind, Option.bind_eq_some_iff, Option.pure_def,
    Option.some.injEq, Prod.mk.injEq, Prod.exists] at hread
  obtain ⟨argument, after, hargument, rfl, rfl⟩ := hread
  have htruncated : (UInt64.ofNat argument).toNat ≤ argument := by
    rw [UInt64.toNat_ofNat']
    exact Nat.mod_le argument _
  exact Head.exists_write_of_readArgument Head.unsigned hargument htruncated

theorem condenses_flag : flag.Condenses := by
  intro nesting bytes value rest hread
  simp only [flag] at hread
  split at hread <;> cases hread <;>
    exact ⟨_, rfl, Nat.le_of_eq (Nat.add_comm 1 rest.length)⟩

theorem length_le_amountLimit {bytes : Bytes} {value : Int}
    (hread : amountOfBytes? bytes = some value) : bytes.length ≤ amountLimit := by
  unfold amountOfBytes? at hread
  split at hread
  · cases hread
  · rename_i hshort
    exact Nat.not_lt.mp hshort

/-- Written again, an amount takes no more bytes than it was read from. -/
theorem length_amountToBytes {bytes : Bytes} {value : Int}
    (hread : amountOfBytes? bytes = some value) :
    (amountToBytes value).length ≤ bytes.length := by
  have hmagnitude (magnitude : Bytes) : Bytes.width (Bytes.toNat magnitude) ≤
      magnitude.length := by
    have hbound := Bytes.toNat_lt magnitude
    apply Bytes.width_le
    rwa [Nat.pow_mul]
  have hlength : (amountToBytes value).length ≤ Bytes.width value.natAbs + 1 := by
    rw [amountToBytes]
    split
    · exact Nat.zero_le _
    · exact Nat.le_of_eq (by rw [List.length_cons, Bytes.length_ofNat])
  unfold amountOfBytes? at hread
  split at hread
  · cases hread
  · split at hread
    · cases hread
      exact Nat.le_refl _
    · cases hread
      rw [Int.natAbs_natCast] at hlength
      exact Nat.le_trans hlength (Nat.succ_le_succ (hmagnitude _))
    · cases hread
      rw [Int.natAbs_neg, Int.natAbs_natCast] at hlength
      exact Nat.le_trans hlength (Nat.succ_le_succ (hmagnitude _))
    · cases hread

theorem condenses_amount : amount.Condenses := by
  intro nesting bytes value rest hread
  simp only [amount, Option.bind_eq_bind, Option.bind_eq_some_iff, Option.pure_def,
    Option.some.injEq, Prod.mk.injEq, Prod.exists] at hread
  obtain ⟨content, after, hcontent, held, hheld, rfl, rfl⟩ := hread
  have hshorter := length_amountToBytes hheld
  have hshort : (amountToBytes held).length < UInt8.size :=
    Nat.lt_of_le_of_lt (Nat.le_trans hshorter (length_le_amountLimit hheld)) (by decide)
  obtain ⟨written, hwrite, hlength⟩ :=
    exists_write_of_read_byteString hcontent hshorter hshort
  exact ⟨written, by simp only [amount, if_pos (storable_of_amountOfBytes? hheld), hwrite],
    hlength⟩

theorem condenses_address : address.Condenses := by
  intro nesting bytes value rest hread
  simp only [address, Option.bind_eq_bind, Option.bind_eq_some_iff, Prod.exists] at hread
  obtain ⟨content, after, hcontent, haddress⟩ := hread
  split at haddress
  · rename_i held hheld
    cases haddress
    have hshort : value.toBytes.length < UInt8.size :=
      Nat.lt_of_le_of_lt value.length_toBytes_le (by decide)
    exact exists_write_of_read_byteString hcontent
      (Address.length_toBytes_of_ofBytes hheld) hshort
  · cases haddress

namespace Condenses

variable {format : Format α} {other : Format β}

theorem pair (hformat : format.Condenses) (hother : other.Condenses) :
    (format.pair other).Condenses := by
  intro nesting bytes value rest hread
  simp only [Format.pair, Option.bind_eq_bind, Option.bind_eq_some_iff, Option.pure_def,
    Option.some.injEq, Prod.mk.injEq, Prod.exists] at hread
  obtain ⟨left, between, hleft, right, after, hright, rfl, rfl⟩ := hread
  obtain ⟨head, hhead, hfirst⟩ := hformat nesting _ _ _ hleft
  obtain ⟨tail, htail, hsecond⟩ := hother nesting _ _ _ hright
  refine ⟨head ++ tail, by simp only [Format.pair, hhead, htail]; rfl, ?_⟩
  rw [List.length_append]
  omega

theorem tuple (hformat : format.Condenses) (count : Nat) :
    (format.tuple count).Condenses := by
  intro nesting bytes value rest hread
  cases nesting with
  | zero => cases hread
  | succ nesting =>
      simp only [Format.tuple, Option.bind_eq_bind, Option.bind_eq_some_iff,
        Prod.exists] at hread
      obtain ⟨length, after, hlength, hcontent⟩ := hread
      split at hcontent
      · rename_i hcount
        obtain ⟨head, hhead, hfirst⟩ :=
          Head.exists_write_of_readArgument Head.array hlength (Nat.le_of_eq hcount.symm)
        obtain ⟨content, hwrite, hsecond⟩ := hformat nesting _ _ _ hcontent
        refine ⟨head ++ content, by simp only [Format.tuple, hhead, hwrite]; rfl, ?_⟩
        rw [List.length_append]
        omega
      · cases hcontent

theorem many (hformat : format.Condenses) {nesting count : Nat} {bytes rest : Bytes}
    {values : List α} (hread : format.readMany nesting count bytes = some (values, rest)) :
    values.length = count ∧ ∃ written, format.writeAll values = some written ∧
      written.length + rest.length ≤ bytes.length := by
  induction count generalizing bytes values with
  | zero =>
      cases hread
      exact ⟨rfl, [], rfl, Nat.le_of_eq (Nat.zero_add _)⟩
  | succ count ih =>
      simp only [readMany, Option.bind_eq_bind, Option.bind_eq_some_iff, Option.pure_def,
        Option.some.injEq, Prod.mk.injEq, Prod.exists] at hread
      obtain ⟨value, between, hvalue, others, after, hothers, rfl, rfl⟩ := hread
      obtain ⟨head, hhead, hfirst⟩ := hformat nesting _ _ _ hvalue
      obtain ⟨hcount, tail, htail, hsecond⟩ := ih hothers
      refine ⟨by rw [List.length_cons, hcount], head ++ tail,
        by simp only [writeAll, hhead, htail]; rfl, ?_⟩
      rw [List.length_append]
      omega

theorem list (hformat : format.Condenses) : format.list.Condenses := by
  intro nesting bytes values rest hread
  cases nesting with
  | zero => cases hread
  | succ nesting =>
      simp only [Format.list, Option.bind_eq_bind, Option.bind_eq_some_iff,
        Prod.exists] at hread
      obtain ⟨length, after, hlength, hcontent⟩ := hread
      obtain ⟨hcount, content, hwrite, hsecond⟩ := hformat.many hcontent
      obtain ⟨head, hhead, hfirst⟩ :=
        Head.exists_write_of_readArgument Head.array hlength (Nat.le_of_eq hcount)
      refine ⟨head ++ content, by simp only [Format.list, hhead, hwrite]; rfl, ?_⟩
      rw [List.length_append]
      omega

theorem record (hformat : format.Condenses) (layout : Layout α β) :
    (format.record layout).Condenses := by
  intro nesting bytes value rest hread
  simp only [Format.record, Option.map_eq_some_iff, Prod.mk.injEq, Prod.exists] at hread
  obtain ⟨fields, after, hfields, rfl, rfl⟩ := hread
  obtain ⟨written, hwrite, hlength⟩ := hformat nesting _ _ _ hfields
  refine ⟨written, ?_, hlength⟩
  simp only [Format.record, layout.parts_build, hwrite]

/-- A tuple of fields condenses as they do. -/
theorem fields (hformat : format.Condenses) (count : Nat) (layout : Layout α β) :
    ((format.tuple count).record layout).Condenses :=
  (hformat.tuple count).record layout

end Condenses

end Format

end RewardVesting.Wire
