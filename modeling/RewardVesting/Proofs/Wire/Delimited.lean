import RewardVesting.Proofs.Wire.RoundTrip

namespace RewardVesting.Wire

/-! Reading takes what it needs from the front and never looks further. -/

/-- Whatever stands behind the bytes of a successful reading is left over, and changes
nothing. -/
def Frontal {α : Type} (read : Bytes → Option (α × Bytes)) : Prop :=
  ∀ bytes value rest, read bytes = some (value, rest) →
    ∀ suffix, read (bytes ++ suffix) = some (value, rest ++ suffix)

namespace Head

theorem split?_eq_some {count : Nat} {bytes first rest : Bytes} :
    split? count bytes = some (first, rest) ↔
      first.length = count ∧ bytes = first ++ rest := by
  constructor
  · intro hsplit
    rw [split?] at hsplit
    split at hsplit
    · rename_i hlength
      cases hsplit
      exact ⟨hlength, (List.take_append_drop count bytes).symm⟩
    · cases hsplit
  · rintro ⟨hlength, rfl⟩
    exact split?_append hlength rest

theorem frontal_split? (count : Nat) : Frontal (split? count) := by
  intro bytes value rest hsplit suffix
  obtain ⟨hlength, rfl⟩ := split?_eq_some.mp hsplit
  rw [List.append_assoc]
  exact split?_append hlength (rest ++ suffix)

theorem frontal_read : Frontal read := by
  intro bytes head rest hread suffix
  cases bytes with
  | nil => cases hread
  | cons first later =>
      rw [read] at hread
      rw [List.cons_append, read]
      split at hread
      · rename_i hsmall
        cases hread
        exact if_pos hsmall
      · rename_i hwide
        rw [if_neg hwide]
        simp only [Option.bind_eq_bind, Option.bind_eq_some_iff, Option.pure_def,
          Option.some.injEq, Prod.mk.injEq, Prod.exists] at hread
        obtain ⟨width, hwidth, argument, after, hsplit, rfl, rfl⟩ := hread
        simp only [hwidth, frontal_split? width _ _ _ hsplit suffix, Option.bind_eq_bind,
          Option.bind_some, Option.pure_def]

theorem frontal_readArgument (major : Nat) : Frontal (readArgument major) := by
  intro bytes argument rest hread suffix
  simp only [readArgument, Option.bind_eq_bind, Option.bind_eq_some_iff,
    Prod.exists] at hread
  obtain ⟨head, after, hhead, hmajor⟩ := hread
  simp only [readArgument, frontal_read _ _ _ hhead suffix, Option.bind_eq_bind,
    Option.bind_some]
  split at hmajor
  · rename_i hallowed
    cases hmajor
    exact if_pos hallowed
  · cases hmajor

end Head

namespace Format

variable {α β : Type}

/-! Chunks are counted by the length of what is read, and that grows with what follows
it. -/

theorem readChunks_append {readChunk : Bytes → Option (Bytes × Bytes)}
    (hchunk : Frontal readChunk) {steps more : Nat} (hsteps : steps ≤ more)
    {bytes content rest : Bytes}
    (hread : readChunks readChunk steps bytes = some (content, rest)) (suffix : Bytes) :
    readChunks readChunk more (bytes ++ suffix) = some (content, rest ++ suffix) := by
  induction steps generalizing more bytes content with
  | zero => cases hread
  | succ steps ih =>
      obtain ⟨more, rfl⟩ : ∃ fewer, more = fewer + 1 := ⟨more - 1, by omega⟩
      cases bytes with
      | nil => cases hread
      | cons first later =>
          rw [readChunks] at hread
          rw [List.cons_append, readChunks]
          split at hread
          · rename_i hend
            cases hread
            exact if_pos hend
          · rename_i hmore
            rw [if_neg hmore]
            simp only [Option.bind_eq_bind, Option.bind_eq_some_iff, Option.pure_def,
              Option.some.injEq, Prod.mk.injEq, Prod.exists] at hread
            obtain ⟨chunk, between, hfirst, others, after, hothers, rfl, rfl⟩ := hread
            have hlonger := hchunk _ _ _ hfirst suffix
            rw [List.cons_append] at hlonger
            simp only [hlonger, ih (Nat.le_of_succ_le_succ hsteps) hothers,
              Option.bind_eq_bind, Option.bind_some, Option.pure_def]

theorem frontal_readWhole : Frontal readWhole := by
  intro bytes content rest hread suffix
  simp only [readWhole, Option.bind_eq_bind, Option.bind_eq_some_iff, Prod.exists] at hread
  obtain ⟨length, after, hlength, hsplit⟩ := hread
  simp only [readWhole, Head.frontal_readArgument _ _ _ _ hlength suffix,
    Option.bind_eq_bind, Option.bind_some, Head.frontal_split? length _ _ _ hsplit suffix]

theorem frontal_readStringOf {readChunk : Bytes → Option (Bytes × Bytes)}
    (hchunk : Frontal readChunk) : Frontal (readStringOf readChunk) := by
  intro bytes content rest hread suffix
  cases bytes with
  | nil => cases hread
  | cons first later =>
      rw [readStringOf] at hread
      rw [readStringOf, List.cons_append, List.head?_cons]
      rw [List.head?_cons] at hread
      split at hread
      · rename_i hmark
        have hlonger : (first :: later).length ≤ (first :: (later ++ suffix)).length := by
          simp only [List.length_cons, List.length_append]
          omega
        rw [if_pos hmark]
        exact readChunks_append hchunk hlonger hread suffix
      · rename_i hmark
        rw [if_neg hmark]
        exact frontal_readWhole _ _ _ hread suffix

theorem frontal_readString (nesting : Nat) : Frontal (readString nesting) := by
  induction nesting with
  | zero => exact frontal_readStringOf nofun
  | succ nesting ih => exact frontal_readStringOf ih

/-- At any nesting, reading stops where the value ends. -/
def Delimited (format : Format α) : Prop :=
  ∀ nesting, Frontal (format.read nesting)

theorem delimited_integer : integer.Delimited := by
  intro nesting bytes value rest hread suffix
  simp only [integer, Option.bind_eq_bind, Option.bind_eq_some_iff, Prod.exists] at hread
  obtain ⟨head, after, hhead, hsign⟩ := hread
  simp only [integer, Head.frontal_read _ _ _ hhead suffix, Option.bind_eq_bind,
    Option.bind_some]
  split at hsign
  · rename_i hbounded
    rw [if_pos hbounded]
    split at hsign
    · rename_i hunsigned
      cases hsign
      exact if_pos hunsigned
    · rename_i hsigned
      rw [if_neg hsigned]
      split at hsign
      · rename_i hnegative
        cases hsign
        exact if_pos hnegative
      · cases hsign
  · cases hsign

theorem delimited_word : word.Delimited := by
  intro nesting bytes value rest hread suffix
  simp only [word, Option.bind_eq_bind, Option.bind_eq_some_iff, Option.pure_def,
    Option.some.injEq, Prod.mk.injEq, Prod.exists] at hread
  obtain ⟨argument, after, hargument, rfl, rfl⟩ := hread
  simp only [word, Head.frontal_readArgument _ _ _ _ hargument suffix, Option.bind_eq_bind,
    Option.bind_some, Option.pure_def]

theorem delimited_flag : flag.Delimited := by
  intro nesting bytes value rest hread suffix
  simp only [flag] at hread
  split at hread <;> cases hread <;> rfl

theorem delimited_byteString : byteString.Delimited := frontal_readString

theorem delimited_amount : amount.Delimited := by
  intro nesting bytes value rest hread suffix
  simp only [amount, Option.bind_eq_bind, Option.bind_eq_some_iff, Option.pure_def,
    Option.some.injEq, Prod.mk.injEq, Prod.exists] at hread
  obtain ⟨content, after, hcontent, held, hheld, rfl, rfl⟩ := hread
  simp only [amount, delimited_byteString nesting _ _ _ hcontent suffix, hheld,
    Option.bind_eq_bind, Option.bind_some, Option.pure_def]

theorem delimited_address : address.Delimited := by
  intro nesting bytes value rest hread suffix
  simp only [address, Option.bind_eq_bind, Option.bind_eq_some_iff, Prod.exists] at hread
  obtain ⟨content, after, hcontent, haddress⟩ := hread
  simp only [address, delimited_byteString nesting _ _ _ hcontent suffix,
    Option.bind_eq_bind, Option.bind_some]
  split at haddress
  · cases haddress
    rfl
  · cases haddress

theorem Delimited.pair {first : Format α} {second : Format β} (hfirst : first.Delimited)
    (hsecond : second.Delimited) : (first.pair second).Delimited := by
  intro nesting bytes value rest hread suffix
  simp only [Format.pair, Option.bind_eq_bind, Option.bind_eq_some_iff, Option.pure_def,
    Option.some.injEq, Prod.mk.injEq, Prod.exists] at hread
  obtain ⟨left, between, hleft, right, after, hright, rfl, rfl⟩ := hread
  simp only [Format.pair, hfirst nesting _ _ _ hleft suffix,
    hsecond nesting _ _ _ hright suffix, Option.bind_eq_bind, Option.bind_some,
    Option.pure_def]

theorem Delimited.tuple {items : Format α} (hitems : items.Delimited) (count : Nat) :
    (items.tuple count).Delimited := by
  intro nesting bytes value rest hread suffix
  cases nesting with
  | zero => cases hread
  | succ nesting =>
      simp only [Format.tuple, Option.bind_eq_bind, Option.bind_eq_some_iff,
        Prod.exists] at hread
      obtain ⟨length, after, hlength, hcontent⟩ := hread
      simp only [Format.tuple, Head.frontal_readArgument _ _ _ _ hlength suffix,
        Option.bind_eq_bind, Option.bind_some]
      split at hcontent
      · rename_i hcount
        rw [if_pos hcount]
        exact hitems nesting _ _ _ hcontent suffix
      · cases hcontent

theorem Delimited.many {item : Format α} (hitem : item.Delimited) (nesting count : Nat) :
    Frontal (item.readMany nesting count) := by
  induction count with
  | zero =>
      intro bytes values rest hread suffix
      cases hread
      rfl
  | succ count ih =>
      intro bytes values rest hread suffix
      simp only [readMany, Option.bind_eq_bind, Option.bind_eq_some_iff, Option.pure_def,
        Option.some.injEq, Prod.mk.injEq, Prod.exists] at hread
      obtain ⟨value, between, hvalue, others, after, hothers, rfl, rfl⟩ := hread
      simp only [readMany, hitem nesting _ _ _ hvalue suffix, ih _ _ _ hothers suffix,
        Option.bind_eq_bind, Option.bind_some, Option.pure_def]

theorem Delimited.list {item : Format α} (hitem : item.Delimited) :
    item.list.Delimited := by
  intro nesting bytes values rest hread suffix
  cases nesting with
  | zero => cases hread
  | succ nesting =>
      simp only [Format.list, Option.bind_eq_bind, Option.bind_eq_some_iff,
        Prod.exists] at hread
      obtain ⟨length, after, hlength, hcontent⟩ := hread
      simp only [Format.list, Head.frontal_readArgument _ _ _ _ hlength suffix,
        Option.bind_eq_bind, Option.bind_some,
        hitem.many nesting length _ _ _ hcontent suffix]

theorem Delimited.record {format : Format α} (hformat : format.Delimited)
    (layout : Layout α β) : (format.record layout).Delimited := by
  intro nesting bytes value rest hread suffix
  simp only [Format.record, Option.map_eq_some_iff, Prod.mk.injEq, Prod.exists] at hread
  obtain ⟨fields, after, hfields, rfl, rfl⟩ := hread
  simp only [Format.record, hformat nesting _ _ _ hfields suffix, Option.map_some]

theorem decode_eq_ok {format : Format α} {bytes : Bytes} {value : α} :
    format.decode bytes = .ok value ↔
      format.read nestingLimit bytes = some (value, []) := by
  rw [decode]
  constructor
  · intro hdecode
    split at hdecode
    · rename_i read hread
      cases hdecode
      exact hread
    · cases hdecode
  · intro hread
    rw [hread]

theorem decode_eq_malformed {format : Format α} {bytes : Bytes}
    (hunread : ∀ value, format.decode bytes ≠ .ok value) :
    format.decode bytes = .error .malformed := by
  cases hdecode : format.decode bytes with
  | ok value => exact absurd hdecode (hunread value)
  | error error =>
      rw [decode] at hdecode
      split at hdecode
      · cases hdecode
      · exact hdecode.symm

/-- Of two byte sequences that begin alike, a delimited format takes at most one. -/
theorem Delimited.suffix_eq_nil {format : Format α} (hformat : format.Delimited)
    {bytes suffix : Bytes} {value longer : α} (hdecode : format.decode bytes = .ok value)
    (hlonger : format.decode (bytes ++ suffix) = .ok longer) : suffix = [] := by
  have hread := hformat nestingLimit _ _ _ (decode_eq_ok.mp hdecode) suffix
  rw [decode_eq_ok.mp hlonger, Option.some.injEq, Prod.mk.injEq] at hread
  exact hread.2.symm

end Format

end RewardVesting.Wire
