namespace RewardVesting

abbrev Bytes := List UInt8

namespace Bytes

private def hexDigit (nibble : Nat) : Char :=
  (Nat.digitChar nibble).toLower

/-- Two lower-case hexadecimal digits for each byte. -/
def hex (bytes : Bytes) : String :=
  String.ofList (bytes.flatMap fun byte =>
    [hexDigit (byte.toNat / 16), hexDigit (byte.toNat % 16)])

private def nibble? (digit : Char) : Option Nat :=
  if digit.isDigit then some (digit.toNat - '0'.toNat)
  else if 'a' ≤ digit ∧ digit ≤ 'f' then some (digit.toNat - 'a'.toNat + 10)
  else none

private def ofHexDigits? : List Char → Option Bytes
  | [] => some []
  | [_] => none
  | high :: low :: rest => do
      let highNibble ← nibble? high
      let lowNibble ← nibble? low
      let bytes ← ofHexDigits? rest
      return UInt8.ofNat (highNibble * 16 + lowNibble) :: bytes

def ofHex? (digits : String) : Option Bytes :=
  ofHexDigits? digits.toList

def toNatFrom (value : Nat) : Bytes → Nat
  | [] => value
  | byte :: rest => toNatFrom (value * 256 + byte.toNat) rest

def toNat (bytes : Bytes) : Nat := toNatFrom 0 bytes

/-- The lowest `width` bytes of `value`. -/
def ofNat : (width : Nat) → (value : Nat) → Bytes
  | 0, _ => []
  | width + 1, value => ofNat width (value / 256) ++ [UInt8.ofNat (value % 256)]

/-- How many bytes the magnitude needs: none for zero. -/
def width (value : Nat) : Nat :=
  if value = 0 then 0 else value.log2 / 8 + 1

end Bytes

end RewardVesting
