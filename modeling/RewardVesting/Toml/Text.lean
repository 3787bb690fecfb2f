namespace RewardVesting.Toml

def isSpace (character : Char) : Bool :=
  character == ' ' || character == '\t'

/-- Characters that may stand for themselves: all but control characters other than the
tab. -/
def isPlain (character : Char) : Bool :=
  character == '\t' || (' ' ≤ character && character != '\x7f')

def skipSpace (text : List Char) : List Char := text.dropWhile isSpace

/-- What follows a line end, if the text begins with one. -/
def afterLineEnd? : List Char → Option (List Char)
  | '\n' :: rest => some rest
  | '\r' :: '\n' :: rest => some rest
  | _ => none

def skipSpaceAndLineEnds : List Char → List Char
  | [] => []
  | '\r' :: '\n' :: rest => skipSpaceAndLineEnds rest
  | character :: rest =>
    if isSpace character || character == '\n' then skipSpaceAndLineEnds rest
    else character :: rest

private def endsLine (character : Char) : Bool :=
  character == '\n' || character == '\r'

/-- What follows a comment up to the end of its line. -/
def afterComment? (text : List Char) : Option (List Char) :=
  if (text.takeWhile fun character => !endsLine character).all isPlain then
    some (text.dropWhile fun character => !endsLine character)
  else none

/-- What follows the rest of a line that holds nothing more than a comment. -/
def afterLine? (text : List Char) : Option (List Char) := do
  let text ← match skipSpace text with
    | '#' :: comment => afterComment? comment
    | other => some other
  if text.isEmpty then some [] else afterLineEnd? text

private def skipBlanks : (inComment : Bool) → List Char → Option (List Char)
  | _, [] => some []
  | _, '\n' :: rest => skipBlanks false rest
  | _, '\r' :: '\n' :: rest => skipBlanks false rest
  | inComment, character :: rest =>
    if inComment then if isPlain character then skipBlanks true rest else none
    else if character == '#' then skipBlanks true rest
    else if isSpace character then skipBlanks false rest
    else some (character :: rest)

/-- What follows any spaces, line ends and comments. -/
def afterBlanks? (text : List Char) : Option (List Char) := skipBlanks false text

end RewardVesting.Toml
