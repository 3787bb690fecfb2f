namespace RewardVesting.Report

/-! Patterns over the text of a message: literal characters, any character, any run of
characters, and the two ends of the text.  A line break is not among the any characters. -/

inductive Piece
  | literal (character : Char)
  | anyCharacter
  | anyRun
  | textStart
  | textEnd
  deriving DecidableEq, Repr

abbrev Pattern := List Piece

namespace Pattern

def ofChars : List Char → Pattern
  | [] => []
  | '.' :: '*' :: rest => .anyRun :: ofChars rest
  | '.' :: rest => .anyCharacter :: ofChars rest
  | '^' :: rest => .textStart :: ofChars rest
  | '$' :: rest => .textEnd :: ofChars rest
  | character :: rest => .literal character :: ofChars rest

def ofString (text : String) : Pattern := ofChars text.toList

/-- For each tail of a pattern, the whole first and the empty one last, whether it
matches. -/
abbrev Row := List Bool

def Row.first (row : Row) : Bool := row.headD false

/-- The row where a text has ended; `whole` says that nothing stands before it. -/
def rowAtEnd (whole : Bool) : Pattern → Row
  | [] => [true]
  | piece :: pieces =>
    let row := rowAtEnd whole pieces
    let holds := match piece with
      | .textStart => whole && Row.first row
      | .textEnd | .anyRun => Row.first row
      | .anyCharacter | .literal _ => false
    holds :: row

/-- The row in front of a character, from the row right after it. -/
def rowBefore (whole : Bool) (character : Char) : Pattern → (after : Row) → Row
  | [], _ => [true]
  | piece :: pieces, after =>
    let row := rowBefore whole character pieces after.tail
    let holds := match piece with
      | .textStart => whole && Row.first row
      | .textEnd => false
      | .anyRun => Row.first row || (character != '\n' && Row.first after)
      | .anyCharacter => character != '\n' && Row.first after.tail
      | .literal expected => character == expected && Row.first after.tail
    holds :: row

/-- The row in front of a text, and whether the whole pattern matches somewhere in it. -/
def scan (pattern : Pattern) (whole : Bool) : List Char → Row × Bool
  | [] =>
    let row := rowAtEnd whole pattern
    (row, row.first)
  | character :: rest =>
    let (after, found) := scan pattern false rest
    let row := rowBefore whole character pattern after
    (row, found || row.first)

/-- A pattern may match anywhere in the text. -/
def occursIn (pattern : Pattern) (text : String) : Bool :=
  (scan pattern true text.toList).2

end Pattern

end RewardVesting.Report
