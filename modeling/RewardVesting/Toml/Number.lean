namespace RewardVesting.Toml

/-! Numbers.  A word is a number by its shape.  Whether it also has a value is settled
apart: it has none when it is too large, or when its digits are missing or not of its
base. -/

inductive Number
  | integer (value : Int)
  | float
  | valueless
  deriving DecidableEq

def digitValue? (base : Nat) (character : Char) : Option Nat :=
  let value? :=
    if character.isDigit then some (character.toNat - '0'.toNat)
    else if 'a' ≤ character ∧ character ≤ 'f' then some (character.toNat - 'a'.toNat + 10)
    else if 'A' ≤ character ∧ character ≤ 'F' then some (character.toNat - 'A'.toNat + 10)
    else none
  value?.filter fun value => value < base

def isDigitIn (base : Nat) (character : Char) : Bool := (digitValue? base character).isSome

def digitValues? (base : Nat) : List Char → Option (List Nat)
  | [] => some []
  | digit :: rest => do return (← digitValue? base digit) :: (← digitValues? base rest)

def valueOf (base : Nat) (digits : List Nat) : Nat :=
  digits.foldl (fun value digit => value * base + digit) 0

/-- The number that digits write; there must be some. -/
def natural? (base : Nat) (digits : List Char) : Option Nat :=
  if digits.isEmpty then none else (digitValues? base digits).map (valueOf base)

def splitSign : List Char → Bool × List Char
  | '-' :: rest => (true, rest)
  | '+' :: rest => (false, rest)
  | text => (false, text)

def withoutGaps (text : List Char) : List Char := text.filter (· != '_')

private def gapsFitAfter (isDigit : Char → Bool) : (ready : Bool) → List Char → Bool
  | _, [] => true
  | ready, character :: rest =>
    if character == '_' then
      ready && rest.head?.any isDigit && gapsFitAfter isDigit false rest
    else gapsFitAfter isDigit (isDigit character) rest

/-- Tells whether every gap has a digit on both sides. -/
def gapsFit (isDigit : Char → Bool) (text : List Char) : Bool :=
    gapsFitAfter isDigit false text

/-! Integers are decimal with an optional sign and no zeros in front, or have their base in
front.  Any hexadecimal digit may stand beside a gap. -/

/-- Integers from here on, or below the negative of half of it, are too large. -/
def integerLimit : Nat := UInt64.size * UInt64.size

private def ofInteger? : Option Int → Number
  | some value =>
    if -(integerLimit / 2 : Nat) ≤ value ∧ value < integerLimit then .integer value
    else .valueless
  | none => .valueless

private def inBase? (base : Nat) (digits : List Char) : Option Number :=
  if gapsFit (isDigitIn 16) digits && (withoutGaps digits).all (isDigitIn base) then
    some (ofInteger? ((natural? base (withoutGaps digits)).map Int.ofNat))
  else none

private def hasZeroInFront : List Char → Bool
  | '0' :: _ :: _ => true
  | _ => false

/-- After its first gap, a decimal integer needs only to have no spaces and gaps that
fit. -/
private def decimal? (word : List Char) : Option Number :=
  let (negative, magnitude) := splitSign word
  let rest := magnitude.dropWhile Char.isDigit
  if !magnitude.isEmpty && !hasZeroInFront magnitude && gapsFit (isDigitIn 16) word &&
      (rest.isEmpty || rest.head? == some '_') && !rest.contains ' ' then
    some (ofInteger? ((natural? 10 (withoutGaps magnitude)).map fun value =>
      if negative then -(value : Int) else value))
  else none

/-- The least number that a double rounds to infinity. -/
def doubleLimit : Nat := ((1 <<< 54) - 1) <<< 970

private def doubleLimitDigits : Nat := 309

/-- Tells whether a mantissa in decimal digits, moved by a power of ten, is a finite
double. -/
def isFinite (mantissa : List Nat) (exponent : Int) : Bool :=
  let significant := mantissa.dropWhile (· == 0)
  let magnitude : Int := significant.length + exponent
  if significant.isEmpty || magnitude < doubleLimitDigits then true
  else if (doubleLimitDigits : Int) < magnitude then false
  else
    valueOf 10 significant * Nat.pow 10 exponent.toNat <
      doubleLimit * Nat.pow 10 (-exponent).toNat

private def isDigitOrGap (character : Char) : Bool :=
  character.isDigit || character == '_'

/-- Takes digits with gaps off the front of a text; there must be some. -/
private def takeDigits? (text : List Char) : Option (List Nat × List Char) := do
  let digits ← digitValues? 10 (withoutGaps (text.takeWhile isDigitOrGap))
  if digits.isEmpty then none else some (digits, text.dropWhile isDigitOrGap)

private def takeFraction? : List Char → Option (List Nat × List Char)
  | '.' :: rest => takeDigits? rest
  | text => some ([], text)

private def exponent? : List Char → Option Int
  | [] => some 0
  | letter :: rest =>
    let (negative, magnitude) := splitSign rest
    match takeDigits? magnitude with
    | some (digits, []) =>
      let value : Int := valueOf 10 digits
      if letter == 'e' || letter == 'E' then some (if negative then -value else value)
      else none
    | _ => none

private def float? (word : List Char) : Option Number := do
  let magnitude := (splitSign word).2
  let (whole, rest) ← takeDigits? magnitude
  let (fraction, rest) ← takeFraction? rest
  let exponent ← exponent? rest
  if (1 < whole.length ∧ magnitude.head? = some '0') ∨ !gapsFit Char.isDigit word then none
  else if isFinite (whole ++ fraction) (exponent - fraction.length) then some .float
  else some .valueless

private def isFloatMark (character : Char) : Bool :=
  character == '.' || character == 'e' || character == 'E'

private def isNamed (word : List Char) : Bool :=
  let magnitude := (splitSign word).2
  magnitude == "inf".toList || magnitude == "nan".toList

def Number.ofWord? (word : List Char) : Option Number :=
  match word with
  | '0' :: 'x' :: digits => inBase? 16 digits
  | '0' :: 'o' :: digits => inBase? 8 digits
  | '0' :: 'b' :: digits => inBase? 2 digits
  | _ =>
    if isNamed word then some .float
    else if word.any isFloatMark then float? word
    else decimal? word

end RewardVesting.Toml
