import RewardVesting.Address
import RewardVesting.Amount
import RewardVesting.Epoch
import RewardVesting.Wire.Head

namespace RewardVesting

/-- A record as the tuple of its fields, in order. -/
structure Layout (α β : Type) where
  build : α → β
  parts : β → α
  build_parts : ∀ record, build (parts record) = record := by intros; rfl
  parts_build : ∀ fields, parts (build fields) = fields := by intros; rfl

namespace Wire

/-- How many items may lie inside one another in what is read. -/
def nestingLimit : Nat := 256

/-- A way to write values as bytes and to read them back from the front of a byte sequence.
Reading is given how many levels of nesting are left. -/
structure Format (α : Type) where
  write : α → Option Bytes
  read : (nesting : Nat) → Bytes → Option (α × Bytes)

namespace Format

variable {α β : Type}

def integer : Format Int where
  write value :=
    if Epoch.Representable value then
      if 0 ≤ value then Head.write ⟨Head.unsigned, value.toNat⟩
      else Head.write ⟨Head.negative, (-1 - value).toNat⟩
    else none
  read _ bytes := do
    let (head, rest) ← Head.read bytes
    if (head.argument : Int) ≤ Epoch.highest then
      if head.major = Head.unsigned then return (head.argument, rest)
      else if head.major = Head.negative then return (-1 - head.argument, rest)
      else none
    else none

def word : Format UInt64 where
  write value := Head.write ⟨Head.unsigned, value.toNat⟩
  read _ bytes := do
    let (argument, rest) ← Head.readArgument Head.unsigned bytes
    return (UInt64.ofNat argument, rest)

def flag : Format Bool where
  write value := some [if value then 0xf5 else 0xf4]
  read
    | _, 0xf4 :: rest => some (false, rest)
    | _, 0xf5 :: rest => some (true, rest)
    | _, _ => none

/-! Byte strings are written whole.  What is read may come in chunks, up to an end mark, and
a chunk may come in chunks itself. -/

def chunksMark : UInt8 := 0x5f

def chunksEnd : UInt8 := 0xff

/-- Reads chunks up to their end mark and joins them. -/
def readChunks (readChunk : Bytes → Option (Bytes × Bytes)) :
    (steps : Nat) → Bytes → Option (Bytes × Bytes)
  | 0, _ => none
  | _ + 1, [] => none
  | steps + 1, first :: rest =>
    if first = chunksEnd then some ([], rest)
    else do
      let (chunk, rest) ← readChunk (first :: rest)
      let (content, rest) ← readChunks readChunk steps rest
      return (chunk ++ content, rest)

def readWhole (bytes : Bytes) : Option (Bytes × Bytes) := do
  let (length, rest) ← Head.readArgument Head.byteString bytes
  Head.split? length rest

def readStringOf (readChunk : Bytes → Option (Bytes × Bytes)) (bytes : Bytes) :
    Option (Bytes × Bytes) :=
  if bytes.head? = some chunksMark then readChunks readChunk bytes.length bytes.tail
  else readWhole bytes

/-- Every chunk lies one level deeper, so that no level left means no chunks at all. -/
def readString : (nesting : Nat) → Bytes → Option (Bytes × Bytes)
  | 0 => readStringOf fun _ => none
  | nesting + 1 => readStringOf (readString nesting)

def byteString : Format Bytes where
  write bytes := do
    let head ← Head.write ⟨Head.byteString, bytes.length⟩
    return head ++ bytes
  read := readString

/-- The most bytes that an amount may take, its sign included. -/
def amountLimit : Nat := 128

/-- Zero has no bytes; any other amount has a sign byte and then its magnitude. -/
def amountToBytes (amount : Int) : Bytes :=
  if amount = 0 then []
  else (if amount < 0 then 1 else 0) ::
    Bytes.ofNat (Bytes.width amount.natAbs) amount.natAbs

def amountOfBytes? (bytes : Bytes) : Option Int :=
  if amountLimit < bytes.length then none
  else
    match bytes with
    | [] => some 0
    | 0 :: magnitude => some (Bytes.toNat magnitude)
    | 1 :: magnitude => some (-Bytes.toNat magnitude)
    | _ => none

/-- Exact integers of any sign, as long as they are short enough to store. -/
def amount : Format Int where
  write value :=
    if Amount.Storable value then byteString.write (amountToBytes value) else none
  read nesting bytes := do
    let (content, rest) ← byteString.read nesting bytes
    let value ← amountOfBytes? content
    return (value, rest)

def address : Format Address where
  write value := byteString.write value.toBytes
  read nesting bytes := do
    let (content, rest) ← byteString.read nesting bytes
    match Address.ofBytes content with
    | .ok value => return (value, rest)
    | .error _ => none

def pair (first : Format α) (second : Format β) : Format (α × β) where
  write value := do
    let head ← first.write value.1
    let tail ← second.write value.2
    return head ++ tail
  read nesting bytes := do
    let (left, rest) ← first.read nesting bytes
    let (right, rest) ← second.read nesting rest
    return ((left, right), rest)

/-- A tuple of `count` items, which `items` writes one after another. -/
def tuple (count : Nat) (items : Format α) : Format α where
  write value := do
    let head ← Head.write ⟨Head.array, count⟩
    let content ← items.write value
    return head ++ content
  read
    | 0, _ => none
    | nesting + 1, bytes => do
      let (length, rest) ← Head.readArgument Head.array bytes
      if length = count then items.read nesting rest else none

def writeAll (item : Format α) : List α → Option Bytes
  | [] => some []
  | value :: rest => do
    let head ← item.write value
    let tail ← writeAll item rest
    return head ++ tail

def readMany (item : Format α) (nesting : Nat) :
    (count : Nat) → Bytes → Option (List α × Bytes)
  | 0, bytes => some ([], bytes)
  | count + 1, bytes => do
    let (value, rest) ← item.read nesting bytes
    let (values, rest) ← readMany item nesting count rest
    return (value :: values, rest)

def list (item : Format α) : Format (List α) where
  write values := do
    let head ← Head.write ⟨Head.array, values.length⟩
    let content ← item.writeAll values
    return head ++ content
  read
    | 0, _ => none
    | nesting + 1, bytes => do
      let (length, rest) ← Head.readArgument Head.array bytes
      item.readMany nesting length rest

/-- The bytes of a record are those of its fields. -/
def record (format : Format α) (layout : Layout α β) : Format β where
  write value := format.write (layout.parts value)
  read nesting bytes :=
    (format.read nesting bytes).map fun (fields, rest) => (layout.build fields, rest)

def encode (format : Format α) (value : α) : Except CodecError Bytes :=
  match format.write value with
  | some bytes => .ok bytes
  | none => .error .tooLarge

/-- Nothing may follow the value. -/
def decode (format : Format α) (bytes : Bytes) : Except CodecError α :=
  match format.read nestingLimit bytes with
  | some (value, []) => .ok value
  | _ => .error .malformed

def serialize (format : Format α) (subject : String) (value : α) : Except Failure Bytes :=
  (format.encode value).mapError fun _ => .unwritable subject

def deserialize (format : Format α) (subject : String) (bytes : Bytes) : Except Failure α :=
  (format.decode bytes).mapError fun _ => .unreadable subject

def methodParameters (format : Format α) (bytes : Bytes) : Except Failure α :=
  format.deserialize "method parameters" bytes

end Format

end Wire

end RewardVesting
