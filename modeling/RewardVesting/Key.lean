import RewardVesting.Address

namespace RewardVesting

/-- A key of a stored map: the bytes that an address is written as, or others. -/
structure Key where
  bytes : Bytes
  deriving DecidableEq

namespace Key

def address (owner : Address) : Key := ⟨owner.toBytes⟩

/-- Reads the key back as an address.  Keys that differ may be read as one address. -/
def toAddress (key : Key) : Except AddressDefect Address := Address.ofBytes key.bytes

@[simp] theorem toAddress_address (owner : Address) :
    (address owner).toAddress = .ok owner :=
  Address.ofBytes_toBytes owner

theorem address_injective {left right : Address} (hkey : address left = address right) :
    left = right :=
  Address.toBytes_injective (congrArg bytes hkey)

private def numbers (bytes : Bytes) : List Nat := bytes.map UInt8.toNat

private def unreadablePlace : List Nat := [UInt8.size]

private def place (key : Key) : List Nat :=
  match key.toAddress with
  | .ok (.id number) => [0, number.toNat]
  | .ok other => numbers other.toBytes
  | .error _ => unreadablePlace

/-- Identifier addresses come first, by number; then the other addresses, by their bytes;
and then the keys that are no address.  Keys of one place are ordered by their own bytes. -/
def rank (key : Key) : List (List Nat) := [key.place, numbers key.bytes]

/-- Keys of one rank are one key. -/
theorem rank_injective {left right : Key} (hrank : left.rank = right.rank) :
    left = right := by
  have hnumbers : numbers left.bytes = numbers right.bytes := by
    simp only [rank, List.cons.injEq, and_true] at hrank
    exact hrank.2
  have hbytes : left.bytes = right.bytes :=
    (List.map_inj_right fun _ _ htoNat => UInt8.toNat_inj.mp htoNat).mp hnumbers
  cases left
  cases right
  exact congrArg Key.mk hbytes

def text (key : Key) : String :=
  "BytesKey([" ++ ", ".intercalate (key.bytes.map toString) ++ "])"

end Key

end RewardVesting
