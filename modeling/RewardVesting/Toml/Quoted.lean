import RewardVesting.Toml.Number
import RewardVesting.Toml.Text

namespace RewardVesting.Toml

/-! Quoted text: between double quotes with escapes, or between single quotes as it is; on
one line, or on many between three quotes.  As many steps as the text has characters are
enough. -/

private def codePoint? (digits : List Char) : Option Char := do
  let number ← natural? 16 digits
  if number.isValidChar then some (Char.ofNat number) else none

private def readCodePoint (count : Nat) (text : List Char) : Option (Char × List Char) := do
  let digits := text.take count
  if digits.length < count then none
  else return (← codePoint? digits, text.drop count)

/-- Reads an escape after its backslash. -/
def readEscape : List Char → Option (Char × List Char)
  | 'b' :: rest => some ('\x08', rest)
  | 't' :: rest => some ('\t', rest)
  | 'n' :: rest => some ('\n', rest)
  | 'f' :: rest => some ('\x0c', rest)
  | 'r' :: rest => some ('\r', rest)
  | 'e' :: rest => some ('\x1b', rest)
  | '"' :: rest => some ('"', rest)
  | '\\' :: rest => some ('\\', rest)
  | 'x' :: rest => readCodePoint 2 rest
  | 'u' :: rest => readCodePoint 4 rest
  | 'U' :: rest => readCodePoint 8 rest
  | _ => none

/-- What follows a backslash at the end of a line: the blanks after it are left out. -/
private def afterJoint? (text : List Char) : Option (List Char) :=
  (afterLineEnd? (skipSpace text)).map skipSpaceAndLineEnds

/-- What follows the quotes that close a text on many lines, with how many of them belong to
the text. -/
private def closing? (quote : Char) (text : List Char) : Option (Nat × List Char) :=
  let count := (text.takeWhile (· == quote)).length
  if count < 3 then none else
    let kept := min (count - 3) 2
    some (kept, text.drop (kept + 3))

private def readContent (quote : Char) (manyLines : Bool) :
    (steps : Nat) → List Char → Option (List Char × List Char)
  | 0, _ => none
  | steps + 1, text =>
    let keep (character : Char) (rest : List Char) := do
      let (content, rest) ← readContent quote manyLines steps rest
      return (character :: content, rest)
    let closed? :=
      if manyLines then (closing? quote text).map fun (kept, rest) =>
        (List.replicate kept quote, rest)
      else
        match text with
        | character :: rest => if character == quote then some ([], rest) else none
        | [] => none
    match closed? with
    | some closed => some closed
    | none =>
      match text with
      | [] => none
      | character :: rest =>
        if character == '\\' && quote == '"' then
          match if manyLines then afterJoint? rest else none with
          | some rest => readContent quote manyLines steps rest
          | none => do
            let (escaped, rest) ← readEscape rest
            keep escaped rest
        else if isPlain character then keep character rest
        else if manyLines then do keep '\n' (← afterLineEnd? text)
        else none

def readOnOneLine (steps : Nat) (quote : Char) (text : List Char) :
    Option (String × List Char) := do
  let (content, rest) ← readContent quote false steps text
  return (String.ofList content, rest)

/-- Reads a text on many lines after its opening quotes; a line end right after them is left
out. -/
def readOnManyLines (steps : Nat) (quote : Char) (text : List Char) :
    Option (String × List Char) := do
  let text := (afterLineEnd? text).getD text
  let (content, rest) ← readContent quote true steps text
  return (String.ofList content, rest)

end RewardVesting.Toml
