import PriceOracle.StormTree

/-!
# MuSig2 and the signing messages

The signature library is a parameter: key aggregation, nonces, shares and their
verification. A secret nonce is known by the random draw it came from, so using
one twice is visible in a run.
-/

namespace PriceOracle

/-- A secret nonce: the draw of the random generator and the message it was made for. -/
structure SecretNonce (W : Type) where
  draw : ℕ
  messageHash : W

/-- The signature library over 32-byte words `W` and transport keys `T`. -/
structure Musig (W T : Type) where
  SecretKey : Type
  PublicNonce : Type
  PartialSignature : Type
  Cache : Type
  Session : Type
  Signature : Type
  KeyError : Type
  hexEncode : W → String
  nodeKey : T → Option W
  /-- The X-only key of a secret key, and whether its full key is odd. -/
  xOnlyPublicKey : SecretKey → W × Bool
  negate : SecretKey → SecretKey
  fromByteArray : W → Except KeyError Unit
  keyAggCache : List W → Cache
  aggPk : Cache → W
  newNoncePair : ℕ → Cache → SecretKey → W → PublicNonce
  nonceFromByteArray : List UInt8 → Option PublicNonce
  nonceSerialize : PublicNonce → List UInt8
  partialFromByteArray : W → Option PartialSignature
  partialSerialize : PartialSignature → W
  newSession : Cache → List PublicNonce → W → Session
  partialSign : Session → SecretNonce W → SecretKey → Cache → PartialSignature
  partialVerify : Session → Cache → PartialSignature → PublicNonce → W → Bool
  partialSigAgg : Session → List PartialSignature → Signature
  verify : Signature → W → W → Bool

def Musig.keyApi {W T : Type} (M : Musig W T) : KeyApi W M.KeyError where
  fromByteArray := M.fromByteArray
  aggregate keys := M.aggPk (M.keyAggCache keys)

inductive SigningError (W E : Type) where
  | tooFewMembers
  | invalidMessage (text : String)
  | stormTree (error : StormTree.StormTreeError W E)

structure SigningNoncesMessage (W : Type) where
  signer : W
  nonces : List (List UInt8)

structure PartialSignaturesMessage (W : Type) where
  signer : W
  partialSignatures : List W

structure SigningRequest (W : Type) where
  signingStormTreeBranch : W
  messageHashes : List W

structure SigningResult (W Signature : Type) where
  requestHash : W
  signingStormTreeBranch : W
  signatures : List Signature

end PriceOracle
