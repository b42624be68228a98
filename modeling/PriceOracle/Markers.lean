import Mathlib.Data.List.Dedup
import Mathlib.Data.List.Sort
import PriceOracle.OpReturn
import PriceOracle.VotingMessages

/-!
# Markers

What the network writes into `OP_RETURN` outputs and reads back from any of them: the vouchers of an
issuance, the members at genesis and after a migration, and the member behind a payment. Each marker
has an encoder and a decoder of its own.
-/

namespace PriceOracle

open OpReturn

/-- An issued UTXO; `signer` is set for a Verifier. -/
structure IssuedUtxoDescriptor where
  outputIndex : UInt32
  reserveOutputIndex : UInt32
  accountOwnerPubkey : Bytes32
  authKind : UInt8
  authData : Bytes32
  signer : Option Bytes32
  deriving DecidableEq

namespace Markers

section Keys

/-- Bytes that were cut to 32. -/
def toKey (bytes : List UInt8) : Bytes32 := Vector.ofFn fun i => bytes.getD i 0

/-- `sort_unstable` and `dedup`. -/
def sortedKeys (keys : List Bytes32) : List Bytes32 := (keys.insertionSort fun a b => a.toList ≤ b.toList).dedup

/-- `windows(2).all(|pair| pair[0] < pair[1])` -/
def ascending : List Bytes32 → Bool
  | a :: b :: keys => a.toList < b.toList && ascending (b :: keys)
  | _ => true

/-- `chunks_exact`, of so many chunks. -/
def chunks (size : ℕ) : ℕ → List UInt8 → List (List UInt8)
  | 0, _ => []
  | count + 1, bytes => bytes.take size :: chunks size count (bytes.drop size)

def keysOf (count : ℕ) (bytes : List UInt8) : List Bytes32 := (chunks 32 count bytes).map toKey

/-- Bytes from one position up to another. -/
def slice (first last : ℕ) (bytes : List UInt8) : List UInt8 := (bytes.take last).drop first

end Keys

section Descriptors

/-- `DESCRIPTOR_MAGIC`, `OT` -/
def descriptorMagic : List UInt8 := [0x4f, 0x54]

def descriptorVersionTicks : UInt8 := 1

def descriptorVersion : UInt8 := 2

def descriptorPrefixLen : ℕ := 5

def descriptorHeaderLen : ℕ := descriptorPrefixLen + 32

def descriptorTickRecordLen : ℕ := 73

def descriptorRecordLen : ℕ := descriptorTickRecordLen + 1

def maxIssuedDescriptors : ℕ := 100

def noSigner : Bytes32 := Vector.replicate 32 0

/-- All Verifiers of one issuance share a signer. -/
def sharedSigner (descriptors : List IssuedUtxoDescriptor) : Except String (Option Bytes32) :=
  match descriptors.filterMap IssuedUtxoDescriptor.signer with
  | [] => .ok none
  | signer :: signers =>
    if signers.any fun other => other != signer then
      .error "Oracle Verifiers of one issuance name different signers"
    else if signer = noSigner then .error "invalid Oracle Verifier signer key"
    else .ok (some signer)

def record (descriptor : IssuedUtxoDescriptor) : List UInt8 :=
  bigEndian 4 descriptor.outputIndex.toNat ++ bigEndian 4 descriptor.reserveOutputIndex.toNat ++
    descriptor.accountOwnerPubkey.toList ++ [descriptor.authKind] ++ descriptor.authData.toList ++
    [if descriptor.signer.isSome then 1 else 0]

/-- `IssuedUtxoDescriptor::script_pubkey` -/
def descriptorScript (descriptors : List IssuedUtxoDescriptor) : Except String (List UInt8) :=
  if maxIssuedDescriptors < descriptors.length then .error "too many issued UTXO descriptors"
  else if descriptors = [] then .error "issued UTXO descriptors cannot be empty"
  else do
    let signer ← sharedSigner descriptors
    return newOpReturn (descriptorMagic ++ [descriptorVersion] ++ bigEndian 2 descriptors.length ++ (signer.getD noSigner).toList ++
      descriptors.flatMap record)

/-- The signer of a record by its last byte, which records of the old version do not have. -/
def recordSigner (headerSigner : Bytes32) : Option UInt8 → Except String (Option Bytes32)
  | none => .ok none
  | some 0 => .ok none
  | some 1 => .ok (some headerSigner)
  | some _ => .error "invalid issued UTXO asset kind"

def decodeRecord (headerSigner : Bytes32) (record : List UInt8) : Except String IssuedUtxoDescriptor :=
  let authKind := record.getD 40 0
  if 2 < authKind then .error "invalid issued UTXO authentication kind"
  else do
    let signer ← recordSigner headerSigner record[descriptorTickRecordLen]?
    return {
      outputIndex := UInt32.ofNat (bigEndianValue (slice 0 4 record))
      reserveOutputIndex := UInt32.ofNat (bigEndianValue (slice 4 8 record))
      accountOwnerPubkey := toKey (slice 8 40 record)
      authKind
      authData := toKey (slice 41 73 record)
      signer }

/-- The lengths of the header and of a record. -/
def descriptorLengths (version : UInt8) : Except String (ℕ × ℕ) :=
  if version = descriptorVersionTicks then .ok (descriptorPrefixLen, descriptorTickRecordLen)
  else if version = descriptorVersion then .ok (descriptorHeaderLen, descriptorRecordLen)
  else .error "invalid issued UTXO descriptor"

/-- `IssuedUtxoDescriptor::from_script` -/
def descriptorsFromScript (script : List UInt8) : Except String (Option (List IssuedUtxoDescriptor)) :=
  match opReturnData script with
  | none => .ok none
  | some data =>
    if data.take 2 ≠ descriptorMagic then .ok none
    else if data.length < descriptorPrefixLen then .error "invalid issued UTXO descriptor"
    else do
      let (headerLen, recordLen) ← descriptorLengths (data.getD 2 0)
      let count := bigEndianValue (slice 3 5 data)
      if count = 0 ∨ maxIssuedDescriptors < count ∨ data.length ≠ headerLen + count * recordLen then
        .error "invalid issued UTXO descriptor count"
      else do
        let headerSigner :=
          if headerLen = descriptorHeaderLen then toKey (slice descriptorPrefixLen descriptorHeaderLen data) else noSigner
        let descriptors ← (chunks recordLen count (data.drop headerLen)).mapM (decodeRecord headerSigner)
        let signer ← sharedSigner descriptors
        if signer.getD noSigner ≠ headerSigner then
          .error "issued UTXO descriptor names a signer no Verifier carries"
        else .ok (some descriptors)

end Descriptors

section Members

/-- `INITIAL_MEMBERS_MAGIC`, `OM` -/
def initialMembersMagic : List UInt8 := [0x4f, 0x4d]

def initialMembersVersion : UInt8 := 1

def migratedMembersVersion : UInt8 := 2

def initialMembersHeaderLen : ℕ := 5

def membersScript (members : List Bytes32) (version : UInt8) (proposer : Option Bytes32) :
    Except String (List UInt8) :=
  let members := sortedKeys members
  if 2 ^ 16 ≤ members.length then .error "initial member count"
  else if members = [] then .error "initial members"
  else .ok (newOpReturn (initialMembersMagic ++ [version] ++ bigEndian 2 members.length ++
    members.flatMap Vector.toList ++ proposer.toList.flatMap Vector.toList))

def initialMembersScript (members : List Bytes32) : Except String (List UInt8) :=
  membersScript members initialMembersVersion none

def migratedMembersScript (members : List Bytes32) (proposer : Bytes32) : Except String (List UInt8) :=
  membersScript members migratedMembersVersion (some proposer)

def initialMembersFromScript (script : List UInt8) : Except String (Option (List Bytes32)) :=
  match opReturnData script with
  | none => .ok none
  | some data =>
    if data.take 2 ≠ initialMembersMagic then .ok none
    else if data.length < initialMembersHeaderLen ∨ data.getD 2 0 ≠ initialMembersVersion then
      .error "initial members marker"
    else
      let count := bigEndianValue (slice 3 5 data)
      if count = 0 ∨ data.length ≠ initialMembersHeaderLen + count * 32 then .error "initial members marker"
      else
        let members := keysOf count (data.drop initialMembersHeaderLen)
        if ascending members then .ok (some members) else .error "initial member order"

/-- Parses third-party chain data, so a malformed payload is "not a marker" rather than an error. -/
def migratedMembersProposerFromScript (script : List UInt8) : Option Bytes32 :=
  match opReturnData script with
  | none => none
  | some data =>
    if data.take 2 ≠ initialMembersMagic then none
    else if data.length < initialMembersHeaderLen ∨ data.getD 2 0 ≠ migratedMembersVersion then none
    else
      let count := bigEndianValue (slice 3 5 data)
      let membersEnd := initialMembersHeaderLen + count * 32
      if count = 0 ∨ data.length ≠ membersEnd + 32 then none
      else if ascending (keysOf count (data.drop initialMembersHeaderLen)) then some (toKey (data.drop membersEnd))
      else none

end Members

section Member

/-- `MEMBER_MAGIC`, `OD` -/
def memberMagic : List UInt8 := [0x4f, 0x44]

def memberVersion : UInt8 := 1

def memberDataLen : ℕ := 35

def memberScript (member : Bytes32) : List UInt8 := newOpReturn (memberMagic ++ [memberVersion] ++ member.toList)

def memberFromScript (script : List UInt8) : Option Bytes32 :=
  match opReturnData script with
  | none => none
  | some data =>
    if data.length ≠ memberDataLen ∨ data.take 2 ≠ memberMagic ∨ data.getD 2 0 ≠ memberVersion then none
    else some (toKey (data.drop 3))

end Member

end Markers

end PriceOracle
