import RewardVesting.Toml.Number

namespace RewardVesting.Toml

/-! A document assigns an entry to each of its paths.  Every name is given once, and a table
that has been completed is not opened again. -/

/-- One step down: to a name in a table, or to an item of a series of tables. -/
inductive Part
  | name (text : String)
  | item (index : Nat)
  deriving DecidableEq

abbrev Path := List Part

/-- How a table came about: under a header of its own, by a name with dots, or because a
header named something inside it. -/
inductive Origin
  | stated
  | dotted
  | implied
  deriving DecidableEq

mutual

inductive Value
  | text (content : String)
  | number (number : Number)
  | boolean
  | moment
  | list (items : List Value)
  | table (entries : List (Path × Entry))

inductive Entry
  | value (value : Value)
  | table (origin : Origin)
  | series (count : Nat)

end

abbrev Document := List (Path × Entry)

mutual

def Value.isReadable : Value → Bool
  | .number number => number != .valueless
  | .list items => areReadable items
  | .table entries => allReadable entries
  | .text _ | .boolean | .moment => true

def Entry.isReadable : Entry → Bool
  | .value value => value.isReadable
  | .table _ | .series _ => true

def areReadable : List Value → Bool
  | [] => true
  | item :: rest => item.isReadable && areReadable rest

def allReadable : List (Path × Entry) → Bool
  | [] => true
  | (_, entry) :: rest => entry.isReadable && allReadable rest

end

namespace Document

def empty : Document := [([], .table .stated)]

def find? (document : Document) (path : Path) : Option Entry :=
  document.lookup path

def set (document : Document) (path : Path) (entry : Entry) : Document :=
  (path, entry) :: document

/-- The table that names lead to from `base`; those on the way are made as needed.  Names
with dots lead through no table that was stated, and claim the others that they lead
through. -/
def descend (dotted : Bool) (document : Document) (base : Path) :
    List String → Option (Document × Path)
  | [] => some (document, base)
  | name :: rest =>
    let path := base ++ [.name name]
    let origin := if dotted then Origin.dotted else .implied
    match document.find? path with
    | none => descend dotted (document.set path (.table origin)) path rest
    | some (.value _) => none
    | some (.series count) => descend dotted document (path ++ [.item (count - 1)]) rest
    | some (.table known) =>
      if !dotted then descend dotted document path rest
      else if known = .stated then none
      else descend dotted (document.set path (.table .dotted)) path rest

/-- Gives a value to a name in the table at `base`, or in one that a name with dots leads
to.  A dotted name fills only dotted tables, and a plain one only the others. -/
def assign (document : Document) (base : Path) (names : List String) (value : Value) :
    Option Document := do
  let last ← names.getLast?
  let dotted := 1 < names.length
  let (document, parent) ← document.descend dotted base names.dropLast
  let isDotted := match document.find? parent with
    | some (.table .dotted) => true
    | _ => false
  let path := parent ++ [.name last]
  if isDotted == dotted && (document.find? path).isNone then
    some (document.set path (.value value))
  else none

def openTable (document : Document) (names : List String) : Option (Document × Path) := do
  let last ← names.getLast?
  let (document, parent) ← document.descend false [] names.dropLast
  let path := parent ++ [.name last]
  match document.find? path with
  | none | some (.table .implied) => some (document.set path (.table .stated), path)
  | _ => none

/-- Opens one more item of the series of tables that a header names. -/
def openItem (document : Document) (names : List String) : Option (Document × Path) := do
  let last ← names.getLast?
  let (document, parent) ← document.descend false [] names.dropLast
  let path := parent ++ [.name last]
  let count ← match document.find? path with
    | none => some 0
    | some (.series count) => some count
    | _ => none
  let item := path ++ [.item count]
  return ((document.set path (.series (count + 1))).set item (.table .stated), item)

end Document

end RewardVesting.Toml
