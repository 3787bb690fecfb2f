import RewardVesting.Proofs.Wire.Condensing
import RewardVesting.Proofs.Wire.Records

namespace RewardVesting.Wire

/-! A value may be read from many byte sequences, and is written as only one of them. -/

namespace Format

variable {α : Type} {format : Format α} {subject : String} {bytes : Bytes} {value : α}

/-- Reads a value and writes it again. -/
def reencode (format : Format α) (subject : String) (bytes : Bytes) :
    Except Failure Bytes := do
  let value ← format.deserialize subject bytes
  format.serialize subject value

theorem reencode_eq_ok {written : Bytes} :
    format.reencode subject bytes = .ok written ↔
      ∃ value, format.deserialize subject bytes = .ok value ∧
        format.serialize subject value = .ok written := by
  rw [reencode]
  cases format.deserialize subject bytes with
  | error failure => exact ⟨nofun, nofun⟩
  | ok value =>
      constructor
      · intro hwritten
        exact ⟨value, rfl, hwritten⟩
      · rintro ⟨_, hvalue, hwritten⟩
        cases hvalue
        exact hwritten

theorem read_of_deserialize (hread : format.deserialize subject bytes = .ok value) :
    format.read nestingLimit bytes = some (value, []) :=
  decode_eq_ok.mp (mapError_eq_ok.mp hread)

theorem Condenses.serialize (hformat : format.Condenses)
    (hread : format.deserialize subject bytes = .ok value) :
    ∃ written, format.serialize subject value = .ok written ∧
      written.length ≤ bytes.length := by
  obtain ⟨written, hwrite, hlength⟩ := hformat _ _ _ _ (read_of_deserialize hread)
  exact ⟨written, by rw [Format.serialize, encode, hwrite]; rfl, hlength⟩

end Format

namespace Record

theorem condenses (record : Record) : record.format.Condenses := by
  have hinteger := Format.condenses_integer
  have hword := Format.condenses_word
  have hflag := Format.condenses_flag
  have hamount := Format.condenses_amount
  have haddress := Format.condenses_address
  have htranche : Tranche.format.Condenses := (hinteger.pair hamount).fields 2 _
  have hledger : Ledger.format.Condenses := (htranche.list.pair hamount).fields 2 _
  cases record with
  | tranche => exact htranche
  | ledger => exact hledger
  | pool => exact (hinteger.pair hamount).fields 2 _
  | expert =>
      exact (hword.pair (hamount.pair (hamount.pair (hledger.pair hamount)))).fields 5 _
  | deposit => exact hword.fields 1 _
  | claim => exact (haddress.pair hamount).fields 2 _
  | reset => exact haddress.fields 1 _
  | voteChange => exact (haddress.pair hamount).fields 2 _
  | inquiry => exact haddress.fields 1 _
  | standing => exact (hflag.pair (hflag.pair (hword.pair hamount))).fields 4 _
  | control => exact haddress.fields 1 _
  | rewardState =>
      exact (hamount.pair (hamount.pair (hinteger.pair (hamount.pair (hamount.pair
        (hamount.pair (hamount.pair hamount))))))).fields 8 _
  | awardRequest =>
      exact (haddress.pair (hamount.pair (hamount.pair (hinteger.pair
        (hinteger.pair hamount))))).fields 6 _
  | delivery =>
      exact (hamount.pair (hamount.pair (hamount.pair (hamount.pair (hamount.pair
        (hamount.pair hamount)))))).fields 7 _
  | epochReward => exact (hamount.pair (hamount.pair hinteger)).fields 3 _
  | networkUpdate => exact hamount.fields 1 _
  | minerReward => exact (hamount.pair hamount).fields 2 _
  | additionRequest => exact haddress.fields 1 _
  | withdrawalRequest => exact (haddress.pair hamount).fields 2 _
  | withdrawal => exact hamount.fields 1 _

/-- Whatever is accepted as a value can be written again, in no more bytes.  What is written
is read as the same value and written as it is, and it is what exactly the byte sequences
that are read as this value come to when they are written again. -/
theorem canonical_of_deserialize {record : Record} {subject : String} {bytes : Bytes}
    {value : record.Value} (hread : record.format.deserialize subject bytes = .ok value) :
    ∃ canonical, record.format.serialize subject value = .ok canonical ∧
      canonical.length ≤ bytes.length ∧
      record.format.deserialize subject canonical = .ok value ∧
      record.format.reencode subject canonical = .ok canonical ∧
      ∀ other, record.format.reencode subject other = .ok canonical ↔
        record.format.deserialize subject other = .ok value := by
  have hformat := record.unambiguous
  have hdepth : 4 ≤ nestingLimit := by decide
  obtain ⟨canonical, hwrite, hlength⟩ := record.condenses.serialize hread
  have hencode := mapError_eq_ok.mp hwrite
  have hback : record.format.deserialize subject canonical = .ok value :=
    mapError_eq_ok.mpr (hformat.decode_encode hdepth hencode)
  refine ⟨canonical, hwrite, hlength, hback,
    Format.reencode_eq_ok.mpr ⟨value, hback, hwrite⟩, fun other => ⟨?_, ?_⟩⟩
  · intro hother
    obtain ⟨held, hheld, hsame⟩ := Format.reencode_eq_ok.mp hother
    rwa [hformat.eq_of_encode hdepth hencode (mapError_eq_ok.mp hsame)] at hheld
  · intro hother
    exact Format.reencode_eq_ok.mpr ⟨value, hother, hwrite⟩

/-- A ledger of one tranche with wide heads, a leading zero in chunks and a bare sign. -/
def wideLedger : Bytes :=
  [0x98, 0x02, 0x81, 0x82, 0x19, 0x00, 0x05, 0x5f, 0x41, 0x00, 0x42, 0x00, 0x1e, 0xff,
    0x41, 0x01]

theorem wideLedger_read :
    ledger.format.deserialize "ledger" wideLedger = .ok ⟨[⟨5, 30⟩], 0⟩ := rfl

theorem canonical_of_deserialize_wide :
    ledger.format.deserialize "ledger" wideLedger = .ok ⟨[⟨5, 30⟩], 0⟩ ∧
      ledger.format.reencode "ledger" wideLedger =
        .ok [0x82, 0x81, 0x82, 0x05, 0x42, 0x00, 0x1e, 0x40] ∧
      [0x82, 0x81, 0x82, 0x05, 0x42, 0x00, 0x1e, 0x40].length ≤ wideLedger.length := by
  obtain ⟨canonical, hwrite, hlength, _, _, hclass⟩ :=
    canonical_of_deserialize wideLedger_read
  have hwritten : ledger.format.serialize "ledger" ⟨[⟨5, 30⟩], 0⟩ =
      .ok [0x82, 0x81, 0x82, 0x05, 0x42, 0x00, 0x1e, 0x40] := rfl
  cases hwritten.symm.trans hwrite
  exact ⟨wideLedger_read, (hclass wideLedger).mpr wideLedger_read, hlength⟩

end Record

end RewardVesting.Wire
