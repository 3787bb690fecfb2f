namespace RewardVesting.Toml

/-! Dates and times.  Seconds may be left out, and a moment with a date may have an
offset. -/

private def twoDigits? : List Char → Option (Nat × List Char)
  | tens :: units :: rest =>
    if tens.isDigit && units.isDigit then
      some ((tens.toNat - '0'.toNat) * 10 + (units.toNat - '0'.toNat), rest)
    else none
  | _ => none

private def expect? (expected : Char) : List Char → Option (List Char)
  | character :: rest => if character == expected then some rest else none
  | [] => none

private def atMost? (limit : Nat) (read : Option (Nat × List Char)) :
    Option (Nat × List Char) :=
  read.filter fun (value, _) => value ≤ limit

def daysInMonth (year month : Nat) : Nat :=
  match month with
  | 2 => if year % 4 = 0 ∧ (year % 100 ≠ 0 ∨ year % 400 = 0) then 29 else 28
  | 4 | 6 | 9 | 11 => 30
  | _ => 31

/-- What follows a date of the calendar. -/
def afterDate? (text : List Char) : Option (List Char) := do
  let (century, rest) ← twoDigits? text
  let (decade, rest) ← twoDigits? rest
  let (month, rest) ← atMost? 12 (twoDigits? (← expect? '-' rest))
  let (day, rest) ← atMost? (daysInMonth (century * 100 + decade) month)
    (twoDigits? (← expect? '-' rest))
  if month = 0 ∨ day = 0 then none else some rest

private def afterFraction? : List Char → Option (List Char)
  | '.' :: digit :: rest =>
    if digit.isDigit then some (rest.dropWhile Char.isDigit) else none
  | '.' :: [] => none
  | text => some text

/-- What follows a time of the day, in which a leap second may be. -/
def afterTime? (text : List Char) : Option (List Char) := do
  let (_, rest) ← atMost? 23 (twoDigits? text)
  let (_, rest) ← atMost? 59 (twoDigits? (← expect? ':' rest))
  match rest with
  | ':' :: rest => do
    let (_, rest) ← atMost? 60 (twoDigits? rest)
    afterFraction? rest
  | rest => some rest

private def isOffset : List Char → Bool
  | [] => true
  | ['Z'] => true
  | ['z'] => true
  | sign :: rest =>
    let rest? := do
      let (_, rest) ← atMost? 23 (twoDigits? rest)
      let (_, rest) ← atMost? 59 (twoDigits? (← expect? ':' rest))
      return rest
    (sign == '+' || sign == '-') && rest? == some []

def isMoment (text : List Char) : Bool :=
  match afterDate? text with
  | some [] => true
  | some (separator :: rest) =>
    (separator == 'T' || separator == 't' || separator == ' ') &&
      ((afterTime? rest).map isOffset).getD false
  | none => afterTime? text == some []

end RewardVesting.Toml
