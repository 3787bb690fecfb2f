import RewardVesting.Toml.Document
import RewardVesting.Toml.Moment
import RewardVesting.Toml.Quoted

namespace RewardVesting.Toml

/-! From text to documents.  Each reader takes what it reads from the front of the text, in
no more steps than it is given; as many as the text has characters are enough. -/

def isBare (character : Char) : Bool :=
  character.isAlphanum || character == '_' || character == '-'

private def readName (steps : Nat) : List Char → Option (String × List Char)
  | '"' :: rest => readOnOneLine steps '"' rest
  | '\'' :: rest => readOnOneLine steps '\'' rest
  | text =>
    let name := text.takeWhile isBare
    if name.isEmpty then none else some (String.ofList name, text.dropWhile isBare)

/-- Reads at most so many names with dots between them. -/
private def readSomeNames (steps : Nat) :
    (limit : Nat) → List Char → Option (List String × List Char)
  | 0, _ => none
  | limit + 1, text => do
    let (name, rest) ← readName steps (skipSpace text)
    match skipSpace rest with
    | '.' :: rest => do
      let (names, rest) ← readSomeNames steps limit rest
      return (name :: names, rest)
    | rest => return ([name], rest)

/-- How many names may have dots between them. -/
def nameLimit : Nat := 80

/-- Reads names with dots between them and the spaces around each. -/
def readNames (steps : Nat) (text : List Char) : Option (List String × List Char) :=
  readSomeNames steps nameLimit text

/-- A word goes on up to a sign of the document, a blank or a line end. -/
private def isInWord : Char → Bool
  | '=' | ',' | '[' | ']' | '{' | '}' | '#' | ' ' | '\t' | '\r' | '\n' => false
  | _ => true

def wordValue? (word : List Char) : Option Value :=
  if word == "true".toList || word == "false".toList then some .boolean
  else
    match Number.ofWord? word with
    | some number => some (.number number)
    | none => if isMoment word then some .moment else none

private def resumesWord : Char → Bool
  | '.' | '"' | '\'' => false
  | character => isInWord character

/-- Takes a word off the front of a text.  It goes on after blanks where more of it
follows. -/
private def takeWord : (steps : Nat) → List Char → List Char × List Char
  | 0, text => ([], text)
  | steps + 1, text =>
    let front := text.takeWhile isInWord
    let rest := text.dropWhile isInWord
    let blanks := rest.takeWhile isSpace
    let following := rest.dropWhile isSpace
    if !front.isEmpty && !blanks.isEmpty && following.head?.any resumesWord then
      let (more, rest) := takeWord steps following
      (front ++ blanks ++ more, rest)
    else (front, rest)

private def readWord (steps : Nat) (text : List Char) : Option (Value × List Char) := do
  let (word, rest) := takeWord steps text
  return (← wordValue? word, rest)

/-- How deep values may lie inside one another. -/
def depthLimit : Nat := 80

private abbrev ValueReader := List Char → Option (Value × List Char)

/-- Reads the items of a list up to its end. -/
private def readItems (readItem : ValueReader) :
    (steps : Nat) → List Char → Option (List Value × List Char)
  | 0, _ => none
  | steps + 1, text => do
    match ← afterBlanks? text with
    | ']' :: rest => return ([], rest)
    | text => do
      let (item, rest) ← readItem text
      match ← afterBlanks? rest with
      | ',' :: rest => do
        let (items, rest) ← readItems readItem steps rest
        return (item :: items, rest)
      | ']' :: rest => return ([item], rest)
      | _ => none

/-- Reads a name and its value into the table at `base`; `skip` passes over what may stand
on both sides of the sign between them. -/
private def readAssignment (steps : Nat) (readItem : ValueReader)
    (skip : List Char → Option (List Char)) (document : Document) (base : Path)
    (text : List Char) : Option (Document × List Char) := do
  let (names, rest) ← readNames steps text
  match ← skip rest with
  | '=' :: rest => do
    let (value, rest) ← readItem (← skip rest)
    return (← document.assign base names value, rest)
  | _ => none

/-- Reads the fields of an inline table up to its end. -/
private def readFields (readItem : ValueReader) :
    (steps : Nat) → Document → List Char → Option (Document × List Char)
  | 0, _, _ => none
  | steps + 1, document, text => do
    match ← afterBlanks? text with
    | '}' :: rest => return (document, rest)
    | text => do
      let (document, rest) ← readAssignment steps readItem afterBlanks? document [] text
      match ← afterBlanks? rest with
      | ',' :: rest => readFields readItem steps document rest
      | '}' :: rest => return (document, rest)
      | _ => none

def readValue (steps : Nat) : (depth : Nat) → List Char → Option (Value × List Char)
  | _, '"' :: '"' :: '"' :: rest => readText (readOnManyLines steps '"' rest)
  | _, '\'' :: '\'' :: '\'' :: rest => readText (readOnManyLines steps '\'' rest)
  | _, '"' :: rest => readText (readOnOneLine steps '"' rest)
  | _, '\'' :: rest => readText (readOnOneLine steps '\'' rest)
  | depth + 1, '[' :: rest => do
    let (items, rest) ← readItems (readValue steps depth) steps rest
    return (.list items, rest)
  | depth + 1, '{' :: rest => do
    let (document, rest) ← readFields (readValue steps depth) steps .empty rest
    return (.table document, rest)
  | _, text => readWord steps text
where
  readText (read : Option (String × List Char)) : Option (Value × List Char) :=
    read.map fun (content, rest) => (.text content, rest)

private def readLines :
    (steps : Nat) → Document → (base : Path) → List Char → Option Document
  | 0, _, _, _ => none
  | steps + 1, document, base, text => do
    match skipSpace text with
    | [] => return document
    | '[' :: '[' :: rest => do
      let (names, rest) ← readNames steps rest
      match rest with
      | ']' :: ']' :: rest => do
        let (document, base) ← document.openItem names
        readLines steps document base (← afterLine? rest)
      | _ => none
    | '[' :: rest => do
      let (names, rest) ← readNames steps rest
      match rest with
      | ']' :: rest => do
        let (document, base) ← document.openTable names
        readLines steps document base (← afterLine? rest)
      | _ => none
    | text =>
      match afterLine? text with
      | some rest => readLines steps document base rest
      | none => do
        let (document, rest) ← readAssignment steps (readValue steps depthLimit)
          (some ∘ skipSpace) document base text
        readLines steps document base (← afterLine? rest)

/-- Reads a whole document; a byte order mark in front of it is left out. -/
def Document.ofString? (text : String) : Option Document :=
  let text := match text.toList with
    | '\ufeff' :: rest => rest
    | other => other
  readLines (text.length + 1) .empty [] text

end RewardVesting.Toml
