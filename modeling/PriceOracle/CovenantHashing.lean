import PriceOracle.PriceData
import PriceOracle.Sha256Digest
import PriceOracle.StormTreeProofs

/-!
# Covenant hashing

The hashes a covenant computes with single compressions, `storm_eye/storm_tree.simf` and
`sdk/voucher_verifier.simf`, against the byte hashers of `storm-tree` and `crypto.rs`. The words
are numbers of 256 bits; a 32-byte array is the bytes of one.
-/

namespace PriceOracle

open Sha256

namespace Sha256

/-- `sha256(leaf || 0x01)` -/
def hashLeaf (leaf : List UInt8) : List UInt8 := digest (leaf ++ [Smt.leafMarker])

/-- `sha256(left || right)` -/
def hashNode (left right : List UInt8) : List UInt8 := digest (left ++ right)

end Sha256

/-- `STORM_EYE_TAG` -/
def stormEyeTag : String := "OracleNetworkV1/StormEye"

/-- `PRICE_TAG` -/
def priceTag : String := "OracleNetworkV1/Price"

/-- The message an attestation signs. -/
def PriceFeedData.priceHash (feed : PriceFeedData) : List UInt8 := taggedHash digest priceTag feed.toBytes

namespace VoucherVerifier

variable {W Sig : Type} (J : Jets W Sig)

def priceMidstate : W := J.lit 0x8af552810209fa371d86431baca6eba01583cc76358485deccea9f5dc6a63190

/-- A pair of integers `into` one of twice the width: the first is the upper half. -/
def encodePriceFeedData (data : PriceFeedData) : W :=
  let ids : BitVec 64 := data.feedId.toBitVec ++ data.decimals.toBitVec
  let head : BitVec 128 := ids ++ data.price.toBitVec
  let tail : BitVec 128 := data.receivedAt.toBitVec ++ data.validUntil.toBitVec
  J.lit (head ++ tail).toNat

def getPriceMessage (data : PriceFeedData) : W :=
  J.sha256Block (priceMidstate J) (encodePriceFeedData J data) (StormTreeCovenant.padding96Tail J)

end VoucherVerifier

/-- The jets that the hashes rest on, as the machine defines them. -/
structure Jets.Compresses {Sig : Type} (J : Jets Word256 Sig) : Prop where
  lit : ∀ n < 2 ^ 256, J.lit n = Word256.ofNat n
  sha256Iv : J.sha256Iv = initialValue
  sha256Block : ∀ state first second,
    J.sha256Block state first second = Sha256.compress state (first.words ++ second.words)

namespace CovenantHashing

section Constants

def stormEyeTagHash : Word256 :=
  Word256.ofNat 0xc167b450e88f500269275c422460371cb2a57a02c22d39bcede8bd016aea2cd8

def priceTagHash : Word256 :=
  Word256.ofNat 0x1178623bda0a9a3973fd78bd9c43b12aef626196b8c7bef4e1a911ac33315d2b

theorem sha256_stormEyeTag : sha256 stormEyeTag.toUTF8.toList = stormEyeTagHash := by
  decide +kernel

theorem sha256_priceTag : sha256 priceTag.toUTF8.toList = priceTagHash := by
  decide +kernel

theorem compress_stormEyeTag : compress initialValue (stormEyeTagHash.words ++ stormEyeTagHash.words) =
    Word256.ofNat 0xb144605cf5f45223882ae168403987ae38744e847ae307aa36d03152d250c3a6 := by
  decide +kernel

theorem compress_priceTag : compress initialValue (priceTagHash.words ++ priceTagHash.words) =
    Word256.ofNat 0x8af552810209fa371d86431baca6eba01583cc76358485deccea9f5dc6a63190 := by
  decide +kernel

end Constants

section Blocks

/-- A marker byte and the padding fill the second half of the block of a leaf. -/
theorem sha256_leaf (leaf : Word256) : sha256 (leaf.bytes ++ [Smt.leafMarker]) =
    compress initialValue (leaf.words ++
      (Word256.ofNat 0x0180000000000000000000000000000000000000000000000000000000000108).words) := by
  have htail : [Smt.leafMarker] ++ padding 33 =
      (Word256.ofNat 0x0180000000000000000000000000000000000000000000000000000000000108).bytes := by decide
  have hlength : (leaf.bytes ++ [Smt.leafMarker]).length = 33 := by
    rw [List.length_append, leaf.length_bytes]
    rfl
  refine @sha256_of_blocks _ [(leaf, Word256.ofNat _)] ?_
  rw [hlength, List.append_assoc, htail, List.flatMap_cons, List.flatMap_nil, List.append_nil]

/-- Two nodes fill a block, so the padding takes a block of its own. -/
theorem sha256_node (left right : Word256) : sha256 (left.bytes ++ right.bytes) =
    compress (compress initialValue (left.words ++ right.words))
      ((Word256.ofNat 0x8000000000000000000000000000000000000000000000000000000000000000).words ++
        (Word256.ofNat 0x0000000000000000000000000000000000000000000000000000000000000200).words) := by
  have htail : padding 64 =
      (Word256.ofNat 0x8000000000000000000000000000000000000000000000000000000000000000).bytes ++
        (Word256.ofNat 0x0000000000000000000000000000000000000000000000000000000000000200).bytes := by decide
  have hlength : (left.bytes ++ right.bytes).length = 64 := by
    rw [List.length_append, left.length_bytes, right.length_bytes]
  refine @sha256_of_blocks _ [(left, right), (Word256.ofNat _, Word256.ofNat _)] ?_
  rw [hlength, htail, List.flatMap_cons, List.flatMap_cons, List.flatMap_nil, List.append_nil]

/-- The prefix of a tagged hash is one block, and a message of 32 bytes starts the second. -/
theorem sha256_tagged (tag message : Word256) : sha256 (tag.bytes ++ tag.bytes ++ message.bytes) =
    compress (compress initialValue (tag.words ++ tag.words)) (message.words ++
      (Word256.ofNat 0x8000000000000000000000000000000000000000000000000000000000000300).words) := by
  have htail : padding 96 =
      (Word256.ofNat 0x8000000000000000000000000000000000000000000000000000000000000300).bytes := by decide
  have hlength : (tag.bytes ++ tag.bytes ++ message.bytes).length = 96 := by
    rw [List.length_append, List.length_append, tag.length_bytes, message.length_bytes]
  refine @sha256_of_blocks _ [(tag, tag), (message, Word256.ofNat _)] ?_
  rw [hlength, htail, List.flatMap_cons, List.flatMap_cons, List.flatMap_nil, List.append_nil, List.append_assoc]

end Blocks

section Encoding

theorem toNat_append {m n : ℕ} (x : BitVec m) (y : BitVec n) : (x ++ y).toNat = x.toNat * 2 ^ n + y.toNat := by
  rw [BitVec.toNat_append, ← Nat.shiftLeft_add_eq_or_of_lt y.isLt, Nat.shiftLeft_eq]

/-- Appending the fields from the widest pair down to the bytes gives the canonical layout. -/
theorem bytes_encodePriceFeedData {Sig : Type} {J : Jets Word256 Sig} (hJ : J.Compresses) (data : PriceFeedData) :
    (VoucherVerifier.encodePriceFeedData J data).bytes = data.toBytes := by
  have hdecimals := data.decimals.toNat_lt
  have hprice := data.price.toNat_lt
  have hreceived := data.receivedAt.toNat_lt
  have hvalid := data.validUntil.toNat_lt
  unfold VoucherVerifier.encodePriceFeedData PriceFeedData.toBytes
  dsimp only
  rw [hJ.lit _ (BitVec.isLt _), Word256.bytes_ofNat, toNat_append, toNat_append, toNat_append, toNat_append]
  rw [List.append_assoc, bigEndianBytes_append 4 4 _ _ (by omega), bigEndianBytes_append 8 8 _ _ (by omega),
    bigEndianBytes_append 8 8 _ _ (by omega), bigEndianBytes_append 16 16 _ _ (by omega)]
  rfl

end Encoding

section Agreement

variable {Sig : Type} {J : Jets Word256 Sig} (hJ : J.Compresses)

include hJ

theorem getStormTreeLeaf_bytes (branch : Word256) :
    (StormTreeCovenant.getStormTreeLeaf J branch).bytes = hashLeaf branch.bytes := by
  unfold StormTreeCovenant.getStormTreeLeaf StormTreeCovenant.leafTail hashLeaf digest
  rw [hJ.sha256Block, hJ.sha256Iv, hJ.lit _ (by decide), sha256_leaf]

theorem foldNode_bytes (left right : Word256) :
    (StormTreeCovenant.foldNode J left right).bytes = hashNode left.bytes right.bytes := by
  unfold StormTreeCovenant.foldNode StormTreeCovenant.paddingHead StormTreeCovenant.padding64Tail hashNode digest
  dsimp only
  rw [hJ.sha256Block, hJ.sha256Block, hJ.sha256Iv, hJ.lit _ (by decide), hJ.lit _ (by decide), sha256_node]

/-- The Merkle tree's own hashes are the same digests. -/
theorem smtHashLeaf_bytes (leaf : Word256) : (Smt.hashLeaf J leaf).bytes = hashLeaf leaf.bytes := by
  rw [← StormTreeCovenant.getStormTreeLeaf_eq]
  exact getStormTreeLeaf_bytes hJ leaf

theorem smtHashNode_bytes (left right : Word256) :
    (Smt.hashNode J left right).bytes = hashNode left.bytes right.bytes := by
  rw [← StormTreeCovenant.foldNode_eq]
  exact foldNode_bytes hJ left right

/-- The covenant's midstate has the tag absorbed twice, so one compression is the tagged hash. -/
theorem tagged_bytes {tag : String} {tagHash : Word256} {midstate : ℕ} (hmidstate : midstate < 2 ^ 256)
    (htag : sha256 tag.toUTF8.toList = tagHash)
    (hcompress : Sha256.compress initialValue (tagHash.words ++ tagHash.words) = Word256.ofNat midstate)
    (message : Word256) :
    (J.sha256Block (J.lit midstate) message (StormTreeCovenant.padding96Tail J)).bytes =
      taggedHash digest tag message.bytes := by
  unfold StormTreeCovenant.padding96Tail taggedHash digest
  dsimp only
  rw [htag, sha256_tagged, hcompress, hJ.sha256Block, hJ.lit _ hmidstate, hJ.lit _ (by decide)]

/-- An unused level leaves the node as it is. -/
theorem stormTreeFoldStep_bytes (step : StormTreeCovenant.StormTreeProofStep Word256) (node : Word256) :
    (StormTreeCovenant.stormTreeFoldStep J step node).bytes =
      step.elim (fun _ => node.bytes) fun level =>
        if level.1 then hashNode level.2.bytes node.bytes else hashNode node.bytes level.2.bytes := by
  rcases step with _ | ⟨isRight, sibling⟩
  · rfl
  · cases isRight
    · exact foldNode_bytes hJ node sibling
    · exact foldNode_bytes hJ sibling node

end Agreement

/-- Every hash a covenant computes is the one its counterpart computes over bytes. -/
theorem covenant_hashing_eq_off_chain {Sig : Type} {J : Jets Word256 Sig} (hJ : J.Compresses) :
    (∀ branch : Word256, (StormTreeCovenant.getStormTreeLeaf J branch).bytes = hashLeaf branch.bytes) ∧
      (∀ (step : StormTreeCovenant.StormTreeProofStep Word256) (node : Word256),
        (StormTreeCovenant.stormTreeFoldStep J step node).bytes =
          step.elim (fun _ => node.bytes) fun level =>
            if level.1 then hashNode level.2.bytes node.bytes else hashNode node.bytes level.2.bytes) ∧
      (∀ env : Env Word256, (StormTreeCovenant.getSigningMessage J env).bytes =
        taggedHash digest stormEyeTag (J.sigAllHash env).bytes) ∧
      (∀ data : PriceFeedData, (VoucherVerifier.getPriceMessage J data).bytes = data.priceHash) ∧
      ∀ data : PriceFeedData, (VoucherVerifier.encodePriceFeedData J data).bytes = data.toBytes := by
  refine ⟨getStormTreeLeaf_bytes hJ, stormTreeFoldStep_bytes hJ, fun env => ?_, fun data => ?_,
    bytes_encodePriceFeedData hJ⟩
  · exact tagged_bytes hJ (by decide) sha256_stormEyeTag compress_stormEyeTag (J.sigAllHash env)
  · have hmessage := tagged_bytes hJ (by decide) sha256_priceTag compress_priceTag
      (VoucherVerifier.encodePriceFeedData J data)
    rw [bytes_encodePriceFeedData hJ] at hmessage
    exact hmessage

/-- The compression of the machine; the other jets are not read by the hashes. -/
def compressionJets : Jets Word256 Unit where
  lit := Word256.ofNat
  bytes := Word256.bytes
  sha256 := Sha256.sha256
  sha256Iv := initialValue
  sha256Block state first second := Sha256.compress state (first.words ++ second.words)
  buildTapbranch left right := Sha256.sha256 (left.bytes ++ right.bytes)
  buildTaptweak key node := Sha256.sha256 (key.bytes ++ node.bytes)
  sigAllHash env := Word256.ofNat env.index
  bip0340Verify _ _ := true

theorem compressionJets_compresses : compressionJets.Compresses where
  lit _ _ := rfl
  sha256Iv := rfl
  sha256Block _ _ _ := rfl

/-- A price with its last second, as the covenant and the nodes encode it. -/
theorem covenant_hashing_eq_off_chain_price :
    (VoucherVerifier.getPriceMessage compressionJets ⟨4, 9876543210, 8, 1700000000, 1700000060⟩).bytes =
      PriceFeedData.priceHash ⟨4, 9876543210, 8, 1700000000, 1700000060⟩ :=
  (covenant_hashing_eq_off_chain compressionJets_compresses).2.2.2.1 _

end CovenantHashing

end PriceOracle
