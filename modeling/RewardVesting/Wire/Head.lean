import RewardVesting.Bytes

namespace RewardVesting.Wire

/-! Every item of the wire format begins with a head: a major type and an argument.  Heads
are written in their shortest form and read in any. -/

structure Head where
  major : Nat
  argument : Nat
  deriving DecidableEq, Repr

namespace Head

def unsigned : Nat := 0
def negative : Nat := 1
def byteString : Nat := 2
def array : Nat := 4

/-- Arguments from here on have no head. -/
def argumentLimit : Nat := UInt64.size

def withWidth (major information width argument : Nat) : Bytes :=
  UInt8.ofNat (major * 32 + information) :: Bytes.ofNat width argument

def write (head : Head) : Option Bytes :=
  if head.argument < 24 then some [UInt8.ofNat (head.major * 32 + head.argument)]
  else if head.argument < UInt8.size then some (withWidth head.major 24 1 head.argument)
  else if head.argument < UInt16.size then some (withWidth head.major 25 2 head.argument)
  else if head.argument < UInt32.size then some (withWidth head.major 26 4 head.argument)
  else if head.argument < argumentLimit then some (withWidth head.major 27 8 head.argument)
  else none

/-- The first `count` bytes and what follows them. -/
def split? (count : Nat) (bytes : Bytes) : Option (Bytes × Bytes) :=
  if (bytes.take count).length = count then some (bytes.take count, bytes.drop count)
  else none

/-- How many bytes of argument follow the first byte; none for a head without a definite
argument. -/
def argumentWidth? (information : Nat) : Option Nat :=
  match information with
  | 24 => some 1
  | 25 => some 2
  | 26 => some 4
  | 27 => some 8
  | _ => none

def read : Bytes → Option (Head × Bytes)
  | [] => none
  | first :: rest =>
    let major := first.toNat / 32
    let information := first.toNat % 32
    if information < 24 then some (⟨major, information⟩, rest)
    else do
      let width ← argumentWidth? information
      let (argument, rest) ← split? width rest
      return (⟨major, Bytes.toNat argument⟩, rest)

/-- Reads the argument of a head of the given major type.  A head of an unsigned number may
stand in its place. -/
def readArgument (major : Nat) (bytes : Bytes) : Option (Nat × Bytes) := do
  let (head, rest) ← read bytes
  if head.major = major ∨ head.major = unsigned then return (head.argument, rest) else none

end Head

end RewardVesting.Wire
