import RewardVesting.Varint

namespace RewardVesting

abbrev FixedBytes (length : Nat) := { bytes : Bytes // bytes.length = length }

abbrev ShortBytes (limit : Nat) := { bytes : Bytes // bytes.length ≤ limit }

namespace FixedBytes

def ofBytes? (length : Nat) (bytes : Bytes) : Option (FixedBytes length) :=
  if hlength : bytes.length = length then some ⟨bytes, hlength⟩ else none

end FixedBytes

namespace ShortBytes

def ofBytes? (limit : Nat) (bytes : Bytes) : Option (ShortBytes limit) :=
  if hlength : bytes.length ≤ limit then some ⟨bytes, hlength⟩ else none

end ShortBytes

/-- An actor's address: a number, a hash or key under one of three protocols, or a name
given out by another actor. -/
inductive Address
  | id (number : UInt64)
  | secp (payload : FixedBytes 20)
  | actor (payload : FixedBytes 20)
  | bls (payload : FixedBytes 48)
  | delegated (manager : UInt64) (subaddress : ShortBytes 54)
  deriving DecidableEq

inductive AddressDefect
  | tooShort
  | unknownProtocol
  | badPayload
  | payloadLength (length : Nat)
  deriving DecidableEq, Repr

namespace AddressDefect

def message : AddressDefect → String
  | tooShort => "Invalid address length"
  | unknownProtocol => "Unknown address protocol"
  | badPayload => "Invalid address payload"
  | payloadLength length => "Invalid payload length: " ++ toString length

end AddressDefect

namespace Address

instance : Inhabited Address := ⟨.id 0⟩

def toBytes : Address → Bytes
  | id number => 0 :: Varint.encode number
  | secp payload => 1 :: payload.val
  | actor payload => 2 :: payload.val
  | bls payload => 3 :: payload.val
  | delegated manager subaddress => 4 :: (Varint.encode manager ++ subaddress.val)

private def ofFixed (length : Nat) (build : FixedBytes length → Address)
    (payload : Bytes) : Except AddressDefect Address :=
  match FixedBytes.ofBytes? length payload with
  | some fixed => .ok (build fixed)
  | none => .error (.payloadLength payload.length)

private def ofPayload (protocol : UInt8) (payload : Bytes) : Except AddressDefect Address :=
  match protocol with
  | 0 =>
    match Varint.decode payload with
    | some (number, []) => .ok (id number)
    | _ => .error .badPayload
  | 1 => ofFixed 20 secp payload
  | 2 => ofFixed 20 actor payload
  | 3 => ofFixed 48 bls payload
  | 4 =>
    match Varint.decode payload with
    | some (manager, rest) =>
      match ShortBytes.ofBytes? 54 rest with
      | some subaddress => .ok (delegated manager subaddress)
      | none => .error (.payloadLength rest.length)
    | none => .error .badPayload
  | _ => .error .unknownProtocol

def ofBytes : Bytes → Except AddressDefect Address
  | protocol :: first :: rest => ofPayload protocol (first :: rest)
  | _ => .error .tooShort

private theorem ofFixed_val {length : Nat} (build : FixedBytes length → Address)
    (payload : FixedBytes length) :
    ofFixed length build payload.val = .ok (build payload) := by
  simp [ofFixed, FixedBytes.ofBytes?, payload.property]

private theorem ofBytes_cons {payload : Bytes} (protocol : UInt8)
    (hpayload : payload ≠ []) :
    ofBytes (protocol :: payload) = ofPayload protocol payload := by
  cases payload with
  | nil => contradiction
  | cons first rest => rfl

private theorem fixedBytes_ne_nil {length : Nat} (hlength : 0 < length)
    (payload : FixedBytes length) : payload.val ≠ [] := by
  intro hnil
  have hsize := payload.property
  rw [hnil] at hsize
  exact Nat.ne_of_lt hlength hsize

/-- Every address is read back from its bytes. -/
@[simp] theorem ofBytes_toBytes (address : Address) :
    ofBytes address.toBytes = .ok address := by
  cases address with
  | id number =>
      have hread := Varint.decode_encode_append number []
      rw [List.append_nil] at hread
      rw [toBytes, ofBytes_cons 0 (Varint.encode_ne_nil number)]
      simp [ofPayload, hread]
  | secp payload =>
      rw [toBytes, ofBytes_cons 1 (fixedBytes_ne_nil (by decide) payload)]
      exact ofFixed_val secp payload
  | actor payload =>
      rw [toBytes, ofBytes_cons 2 (fixedBytes_ne_nil (by decide) payload)]
      exact ofFixed_val actor payload
  | bls payload =>
      rw [toBytes, ofBytes_cons 3 (fixedBytes_ne_nil (by decide) payload)]
      exact ofFixed_val bls payload
  | delegated manager subaddress =>
      have hnonempty : Varint.encode manager ++ subaddress.val ≠ [] :=
        List.append_ne_nil_of_left_ne_nil (Varint.encode_ne_nil manager) _
      rw [toBytes, ofBytes_cons 4 hnonempty]
      simp [ofPayload, ShortBytes.ofBytes?, subaddress.property]

private theorem val_of_ofFixed {length : Nat} {build : FixedBytes length → Address}
    {payload : Bytes} {address : Address}
    (hread : ofFixed length build payload = .ok address) :
    ∃ fixed, address = build fixed ∧ fixed.val = payload := by
  rw [ofFixed] at hread
  split at hread
  · rename_i fixed hfixed
    cases hread
    rw [FixedBytes.ofBytes?] at hfixed
    split at hfixed
    · cases hfixed
      exact ⟨_, rfl, rfl⟩
    · cases hfixed
  · cases hread

private theorem length_of_ofPayload {protocol : UInt8} {payload : Bytes} {address : Address}
    (hread : ofPayload protocol payload = .ok address) :
    address.toBytes.length ≤ payload.length + 1 := by
  unfold ofPayload at hread
  split at hread
  · split at hread
    · rename_i number hnumber
      cases hread
      have hshorter := Varint.length_encode_of_decode hnumber
      exact Nat.succ_le_succ hshorter
    · cases hread
  · obtain ⟨fixed, rfl, rfl⟩ := val_of_ofFixed hread
    exact Nat.le_refl _
  · obtain ⟨fixed, rfl, rfl⟩ := val_of_ofFixed hread
    exact Nat.le_refl _
  · obtain ⟨fixed, rfl, rfl⟩ := val_of_ofFixed hread
    exact Nat.le_refl _
  · split at hread
    · rename_i manager rest hmanager
      have hshorter := Varint.length_encode_of_decode hmanager
      rw [ShortBytes.ofBytes?] at hread
      split at hread
      · rename_i subaddress hsubaddress
        cases hread
        split at hsubaddress
        · cases hsubaddress
          rw [toBytes, List.length_cons, List.length_append]
          exact Nat.succ_le_succ hshorter
        · cases hsubaddress
      · cases hread
    · cases hread
  · cases hread

/-- Written again, an address takes no more bytes than it was read from. -/
theorem length_toBytes_of_ofBytes {bytes : Bytes} {address : Address}
    (hread : ofBytes bytes = .ok address) : address.toBytes.length ≤ bytes.length := by
  unfold ofBytes at hread
  split at hread
  · exact length_of_ofPayload hread
  · cases hread

theorem toBytes_injective {left right : Address} (hbytes : left.toBytes = right.toBytes) :
    left = right := by
  have hread := ofBytes_toBytes left
  rw [hbytes, ofBytes_toBytes] at hread
  exact (Except.ok.inj hread).symm

def text : Address → String
  | id number => "f0" ++ toString number.toNat
  | other => "0x" ++ other.toBytes.hex

/-- An address as it appears inside a list of them. -/
def quotedText (address : Address) : String :=
  "Address(\"" ++ address.text ++ "\")"

end Address

end RewardVesting
