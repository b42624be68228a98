import PriceOracle.CovenantHashing
import PriceOracle.IssuanceRounds
import PriceOracle.Musig
import PriceOracle.PriceInstructions
import PriceOracle.SdkValues
import PriceOracle.SimplicityStd
import PriceOracle.WordBytes

/-!
# Signed prices

The second signature of a round, over its rate. `signed_price_bloom` of `user_requests.rs` hands it to the user,
`verifySignedPriceData` of `web/sdk/src/index.ts` checks it against a trusted root, and `verify_price` of
`sdk/voucher_verifier.simf` against a Verifier.
-/

namespace PriceOracle

open Sha256

/-- A step of a proof, with the hash of the sibling in hexadecimal. -/
structure BloomStep where
  right : Bool
  hash : String

/-- What a user is handed of the round's price signature. -/
structure PriceBloom where
  signature : String
  branch : String
  proof : List BloomStep

/-- BIP340 as the node and the SDK call it; the keys of the node are parsed. -/
structure SchnorrLibraries (Key : Type) where
  /-- `schnorr.verify` of a signature, a message and a key. -/
  schnorrVerify : List UInt8 → List UInt8 → List UInt8 → Bool
  /-- `XOnlyPublicKey::from_slice` -/
  xOnlyFromSlice : List UInt8 → Option Key
  /-- `verify_schnorr` -/
  verifySchnorr : List UInt8 → List UInt8 → Key → Bool

/-- The libraries and the jet decide the relation of the standard, between a key, a message and a signature. -/
structure SchnorrLibraries.Decide {Key : Type} (libraries : SchnorrLibraries Key) (J : Jets Word256 (List UInt8))
    (Bip340 : List UInt8 → List UInt8 → List UInt8 → Prop) : Prop where
  schnorrVerify : ∀ signature message key, signature.length = 64 → message.length = 32 → key.length = 32 →
    (libraries.schnorrVerify signature message key = true ↔ Bip340 key message signature)
  verifySchnorr : ∀ signature message key, signature.length = 64 → message.length = 32 → key.length = 32 →
    ((∃ parsed, libraries.xOnlyFromSlice key = some parsed ∧ libraries.verifySchnorr signature message parsed = true) ↔
      Bip340 key message signature)
  bip0340Verify : ∀ (signature : List UInt8) (message key : Word256), signature.length = 64 →
    (J.bip0340Verify (key, message) signature = true ↔ Bip340 key.bytes message.bytes signature)

namespace UserRequests

open Issuance (UserRequestError)

variable {Key : Type} (libraries : SchnorrLibraries Key)

/-- The bytes of the rate and its bloom, once the signature verifies. -/
def signedPriceBloom (price : PriceFeedData) (signing : SigningResult Word256 (List UInt8)) (proof : Smt.Proof Word256) :
    Except UserRequestError (String × PriceBloom) :=
  match signing.signatures[1]? with
  | none => .error (.invalid "missing price signature")
  | some signature =>
    match libraries.xOnlyFromSlice signing.signingStormTreeBranch.bytes with
    | none => .error (.invalid "invalid Storm Eye signing branch")
    | some branchKey =>
      if signature.length ≠ 64 then .error (.invalid "invalid price signature")
      else if libraries.verifySchnorr signature price.priceHash branchKey = false then
        .error (.invalid "price signature failed independent BIP340 verification")
      else .ok (OperatorWrite.hexText price.toBytes, {
        signature := OperatorWrite.hexText signature
        branch := OperatorWrite.hexText signing.signingStormTreeBranch.bytes
        proof := proof.siblings.map fun (right, hash) => ⟨right, OperatorWrite.hexText hash.bytes⟩ })

end UserRequests

namespace Sdk

structure SignedPriceData where
  priceData : String
  stormTreeBloom : PriceBloom

/-- What the caller trusts and expects. -/
structure SignedPriceVerification where
  stormTreeRoot : String
  feedId : JsNumber
  decimals : JsNumber
  now : ℤ

/-- `PRICE_VALIDITY_SECONDS` -/
def priceValiditySeconds : ℤ := 300

/-- `MAX_STORM_TREE_DEPTH` -/
def maxStormTreeDepth : ℕ := 17

def assertFeedId (feedId : JsNumber) : Except String Unit :=
  if feedId.isInteger = false ∨ feedId.lt (.ofNat 0) = true ∨ (JsNumber.ofNat 0xffffffff).lt feedId = true then
    .error "price feed id must be an unsigned 32-bit integer"
  else .ok ()

/-- The 32 canonical bytes the network signs, as the numbers they encode. -/
def decodePriceData (priceData : String) : Except String PriceFeedData :=
  if isHex 64 priceData = false then .error "price data must be 32-byte hex"
  else do
    let bytes ← hexToBytes priceData
    return {
      feedId := UInt32.ofNat (PriceFeedData.field bytes 0 4), decimals := UInt32.ofNat (PriceFeedData.field bytes 4 4)
      price := UInt64.ofNat (PriceFeedData.field bytes 8 8), receivedAt := UInt64.ofNat (PriceFeedData.field bytes 16 8)
      validUntil := UInt64.ofNat (PriceFeedData.field bytes 24 8) }

/-- The loop over the proof; a malformed step ends it with no root. -/
def proofRoot : List BloomStep → List UInt8 → Except String (Option (List UInt8))
  | [], root => .ok (some root)
  | sibling :: proof, root =>
    if isHex 64 sibling.hash = false then .ok none
    else do
      let hash ← hexToBytes sibling.hash
      proofRoot proof (digest (if sibling.right then hash ++ root else root ++ hash))

variable {Key : Type} (libraries : SchnorrLibraries Key)

/-- The body of `verifySignedPriceData`, which may throw. -/
def checkSignedPriceData (details : SignedPriceData) (verification : SignedPriceVerification) : Except String Bool :=
  if isHex 64 verification.stormTreeRoot = false then .ok false
  else do
    assertFeedId verification.feedId
    assertFeedId verification.decimals
    if verification.now < 0 then return false
    else
      let price ← decodePriceData details.priceData
      if .ofNat price.feedId.toNat ≠ verification.feedId ∨ .ofNat price.decimals.toNat ≠ verification.decimals ∨
          verification.now < price.receivedAt.toNat ∨ price.validUntil.toNat ≤ verification.now ∨
          price.validUntil ≤ price.receivedAt ∨
          priceValiditySeconds < (price.validUntil.toNat - price.receivedAt.toNat : ℤ) then return false
      else
        let bloom := details.stormTreeBloom
        if isHex 64 bloom.branch = false ∨ isHex 128 bloom.signature = false ∨ bloom.proof.length < 1 ∨
            maxStormTreeDepth < bloom.proof.length then return false
        else
          let branch ← hexToBytes bloom.branch
          match ← proofRoot bloom.proof (digest (branch ++ [0x01])) with
          | none => return false
          | some root =>
            if OperatorWrite.hexText root ≠ toLowerCase verification.stormTreeRoot then return false
            else
              let tagHash := digest priceTag.toUTF8.toList
              let bytes ← hexToBytes details.priceData
              let message := digest (tagHash ++ tagHash ++ bytes)
              let signature ← hexToBytes bloom.signature
              return libraries.schnorrVerify signature message branch

/-- Authenticates a fresh rate; whatever throws is refused. -/
def verifySignedPriceData (details : SignedPriceData) (verification : SignedPriceVerification) : Bool :=
  match checkSignedPriceData libraries details verification with
  | .ok accepted => accepted
  | .error _ => false

end Sdk

/-- The library, with the check of an input's asset and amount. -/
structure InputStd (W : Type) extends Std W where
  assertExplicitInputAssetIdWithAmount : Env W → UInt32 → W → UInt64 → Option Unit
  assertExplicitInputAssetIdWithAmount_iff : ∀ env i a v,
    assertExplicitInputAssetIdWithAmount env i a v = some () ↔
      ∃ o, env.tx.inputs[i.toNat]? = some o ∧ o.asset = .explicit a ∧ o.amount = .explicit v

namespace VoucherVerifier

variable {W Sig : Type} (J : Jets W Sig) (std : InputStd W)

/-- A voucher has no storage, so its tap tree is the single program leaf. -/
def getVoucherScriptHash (internalKey tapleafHash : W) : W := StormTreeCovenant.getP2trScriptHash J internalKey tapleafHash

/-- The time a Tick carries. -/
def verifyTick (env : Env W) (tickInputIndex : UInt32) (tickAssetId : W) : Option UInt64 := do
  let (asset, amount) ← std.getExplicitInputAssetIdWithAmount env tickInputIndex
  std.assertEq256 asset tickAssetId
  return amount

def verifyVerifierUtxo (env : Env W) (verifierInputIndex : UInt32) (verifierAssetId tapleafHash signer : W) :
    Option Unit := do
  std.assertExplicitInputAssetIdWithAmount env verifierInputIndex verifierAssetId 1
  std.assertEq256 (← std.getInputScriptHash env verifierInputIndex) (getVoucherScriptHash J signer tapleafHash)

def verifyPrice (env : Env W) (verifierInputIndex : UInt32) (verifierAssetId tapleafHash signer : W) (signature : Sig)
    (data : PriceFeedData) (now : UInt64) : Option PriceFeedData := do
  verifyVerifierUtxo J std env verifierInputIndex verifierAssetId tapleafHash signer
  guard (J.bip0340Verify (signer, getPriceMessage J data) signature)
  guard (now < data.validUntil)
  return data

def verifyTickWithPrice (env : Env W) (tickInputIndex : UInt32) (tickAssetId : W) (verifierInputIndex : UInt32)
    (verifierAssetId tapleafHash signer : W) (signature : Sig) (data : PriceFeedData) :
    Option (UInt64 × PriceFeedData) := do
  let time ← verifyTick std env tickInputIndex tickAssetId
  let price ← verifyPrice J std env verifierInputIndex verifierAssetId tapleafHash signer signature data time
  return (time, price)

end VoucherVerifier

end PriceOracle
