import PriceOracle.SignedPrices
import PriceOracle.StormTreeQuorum

/-!
# One verdict on a signed price

The SDK, the node and the covenant fold the same proof, hash the same bytes and compare the same times.
-/

namespace PriceOracle

open Sha256

namespace SignedPrice

/-- What the caller of the SDK requires of a rate beside its signature. -/
structure Fresh (verification : Sdk.SignedPriceVerification) (data : PriceFeedData) : Prop where
  feedId : verification.feedId = .ofNat data.feedId.toNat
  decimals : verification.decimals = .ofNat data.decimals.toNat
  received : (data.receivedAt.toNat : ℤ) ≤ verification.now
  valid : verification.now < data.validUntil.toNat
  window : data.validUntil.toNat ≤ data.receivedAt.toNat + PriceFeedData.validityWindow

/-- The strings of a signed price and of the root are the hexadecimal digits of these values, of either case. -/
structure Encodes (details : Sdk.SignedPriceData) (rootText : String) (data : PriceFeedData) (signature : List UInt8)
    (branch root : Word256) (levels : List (Bool × Word256)) : Prop where
  dataDigits : UserApi.hexDecode details.priceData.toList = some data.toBytes
  signatureDigits : UserApi.hexDecode details.stormTreeBloom.signature.toList = some signature
  signatureLength : signature.length = 64
  branchDigits : UserApi.hexDecode details.stormTreeBloom.branch.toList = some branch.bytes
  rootDigits : UserApi.hexDecode rootText.toList = some root.bytes
  steps : List.Forall₂ (fun (step : BloomStep) (level : Bool × Word256) => step.right = level.1 ∧
    UserApi.hexDecode step.hash.toList = some level.2.bytes) details.stormTreeBloom.proof levels

section Strings

theorem hexToBytes_ok_iff {text : String} {bytes : List UInt8} :
    Sdk.hexToBytes text = .ok bytes ↔ UserApi.hexDecode text.toList = some bytes := by
  unfold Sdk.hexToBytes
  cases UserApi.hexDecode text.toList <;> simp

/-- 64 digits are the bytes of one word. -/
theorem isHex_word {text : String} :
    Sdk.isHex 64 text = true ↔ ∃ word : Word256, UserApi.hexDecode text.toList = some word.bytes := by
  rw [show 64 = 2 * 32 from rfl, Sdk.isHex_iff]
  constructor
  · rintro ⟨bytes, hbytes, hlength⟩
    obtain ⟨word, rfl⟩ := exists_bytes hlength
    exact ⟨word, hbytes⟩
  · rintro ⟨word, hword⟩
    exact ⟨_, hword, word.length_bytes⟩

/-- In lower case the digits of the root are those the SDK writes. -/
theorem hexText_eq_toLowerCase {root : String} {word folded : Word256}
    (h : UserApi.hexDecode root.toList = some word.bytes) :
    OperatorWrite.hexText folded.bytes = Sdk.toLowerCase root ↔ folded = word := by
  rw [Sdk.toLowerCase_eq h]
  constructor
  · intro htext
    have hfolded := OperatorWrite.hexDecode_hexText folded.bytes
    rw [htext, OperatorWrite.hexDecode_hexText] at hfolded
    exact bytes_injective (Option.some.inj hfolded).symm
  · rintro rfl
    rfl

theorem assertFeedId_ok {id : JsNumber} {value : UInt32} (h : .ofNat value.toNat = id) :
    Sdk.assertFeedId id = .ok () := by
  have hvalue := value.toNat_lt
  subst h
  unfold Sdk.assertFeedId
  rw [if_neg]
  have hint : (JsNumber.ofNat value.toNat).isInteger = true := by
    simp [JsNumber.ofNat, JsNumber.isInteger, Rat.isInt]
  have hlow : (JsNumber.ofNat value.toNat).lt (.ofNat 0) = false := by
    simp [JsNumber.ofNat, JsNumber.lt]
  have hhigh : (JsNumber.ofNat 0xffffffff).lt (.ofNat value.toNat) = false := by
    have hle : (value.toNat : ℚ) ≤ (0xffffffff : ℕ) := by
      exact_mod_cast (by omega : value.toNat ≤ 0xffffffff)
    simpa [JsNumber.ofNat, JsNumber.lt] using hle
  simp [hint, hlow, hhigh]

theorem decodePriceData_ok_iff {text : String} {data : PriceFeedData} :
    Sdk.decodePriceData text = .ok data ↔ UserApi.hexDecode text.toList = some data.toBytes := by
  unfold Sdk.decodePriceData
  constructor
  · intro h
    split_ifs at h with hhex
    obtain ⟨bytes, hbytes, h⟩ := Db.except_bind_ok.mp h
    have hlength : bytes.length = 32 := by
      obtain ⟨word, hword⟩ := isHex_word.mp (Bool.not_eq_false _ ▸ hhex)
      rw [hexToBytes_ok_iff.mp hbytes] at hword
      rw [Option.some.inj hword, word.length_bytes]
    have hdata : PriceFeedData.fromBytes bytes = some data := by
      unfold PriceFeedData.fromBytes
      rw [if_neg (not_not.mpr hlength)]
      cases h
      rfl
    rw [hexToBytes_ok_iff.mp hbytes, PriceFeedData.toBytes_of_fromBytes hdata]
  · intro h
    have hhex : Sdk.isHex 64 text = true := by
      rw [show 64 = 2 * 32 from rfl, Sdk.isHex_iff]
      exact ⟨_, h, data.length_toBytes⟩
    have hdata := PriceFeedData.fromBytes_eq_some_iff.mpr (rfl : data.toBytes = data.toBytes)
    unfold PriceFeedData.fromBytes at hdata
    rw [if_neg (not_not.mpr data.length_toBytes)] at hdata
    rw [if_neg (by simp [hhex])]
    refine Db.except_bind_ok.mpr ⟨_, hexToBytes_ok_iff.mpr h, ?_⟩
    exact congrArg Except.ok (Option.some.inj hdata)

end Strings

section Folds

variable {J : Jets Word256 (List UInt8)} (hJ : J.Compresses)

include hJ

/-- The loop over the digits folds the words behind them. -/
theorem proofRoot_ok_iff {proof : List BloomStep} {node : Word256} {bytes : List UInt8} :
    Sdk.proofRoot proof node.bytes = .ok (some bytes) ↔
      ∃ levels, List.Forall₂ (fun (step : BloomStep) (level : Bool × Word256) => step.right = level.1 ∧
        UserApi.hexDecode step.hash.toList = some level.2.bytes) proof levels ∧
        bytes = (MerkleFold.fold (Smt.hashing J) node levels).bytes := by
  induction proof generalizing node with
  | nil =>
    unfold Sdk.proofRoot
    constructor
    · rintro ⟨⟩
      exact ⟨[], .nil, rfl⟩
    · rintro ⟨_, ⟨⟩, rfl⟩
      rfl
  | cons step proof ih =>
    have hstep : ∀ level : Word256, digest (if step.right then level.bytes ++ node.bytes else node.bytes ++ level.bytes) =
        (MerkleFold.step (Smt.hashing J) node (step.right, level)).bytes := by
      intro level
      cases step.right
      · exact (CovenantHashing.smtHashNode_bytes hJ node level).symm
      · exact (CovenantHashing.smtHashNode_bytes hJ level node).symm
    unfold Sdk.proofRoot
    constructor
    · intro h
      by_cases hhex : Sdk.isHex 64 step.hash = false
      · rw [if_pos hhex] at h
        cases h
      rw [if_neg hhex] at h
      obtain ⟨hash, hhash, h⟩ := Db.except_bind_ok.mp h
      obtain ⟨level, hlevel⟩ := isHex_word.mp (Bool.not_eq_false _ ▸ hhex)
      rw [hexToBytes_ok_iff, hlevel] at hhash
      cases hhash
      rw [hstep] at h
      obtain ⟨levels, hlevels, hbytes⟩ := ih.mp h
      exact ⟨(step.right, level) :: levels, .cons ⟨rfl, hlevel⟩ hlevels, hbytes⟩
    · rintro ⟨_, hforall, hbytes⟩
      cases hforall with
      | @cons _ level _ levels hlevel hlevels =>
        obtain ⟨isRight, level⟩ := level
        obtain ⟨rfl, hlevel⟩ := hlevel
        rw [if_neg (by simp [isHex_word.mpr ⟨level, hlevel⟩])]
        refine Db.except_bind_ok.mpr ⟨_, hexToBytes_ok_iff.mpr hlevel, ?_⟩
        dsimp only
        rw [hstep]
        exact ih.mpr ⟨levels, hlevels, hbytes⟩

/-- The leaf of the branch, as the SDK hashes it. -/
theorem digest_leaf (branch : Word256) : digest (branch.bytes ++ [0x01]) = (Smt.hashLeaf J branch).bytes :=
  (CovenantHashing.smtHashLeaf_bytes hJ branch).symm

end Folds

section Checks

variable {Key : Type} {libraries : SchnorrLibraries Key} {details : Sdk.SignedPriceData}
  {verification : Sdk.SignedPriceVerification}

theorem not_stale_iff {data : PriceFeedData} :
    ¬(.ofNat data.feedId.toNat ≠ verification.feedId ∨ .ofNat data.decimals.toNat ≠ verification.decimals ∨
      verification.now < data.receivedAt.toNat ∨ data.validUntil.toNat ≤ verification.now ∨
      data.validUntil ≤ data.receivedAt ∨
      Sdk.priceValiditySeconds < (data.validUntil.toNat - data.receivedAt.toNat : ℤ)) ↔ Fresh verification data := by
  simp only [not_or, not_not, not_lt, not_le, UInt64.not_le, UInt64.lt_iff_toNat_lt, Sdk.priceValiditySeconds]
  constructor
  · rintro ⟨hfeed, hdecimals, hreceived, hvalid, -, hwindow⟩
    refine ⟨hfeed.symm, hdecimals.symm, hreceived, hvalid, ?_⟩
    unfold PriceFeedData.validityWindow
    omega
  · intro h
    have hreceived := h.received
    have hvalid := h.valid
    have hwindow := h.window
    unfold PriceFeedData.validityWindow at hwindow
    exact ⟨h.feedId.symm, h.decimals.symm, hreceived, hvalid, by omega, by omega⟩

theorem message_eq {data : PriceFeedData} :
    digest (digest priceTag.toUTF8.toList ++ digest priceTag.toUTF8.toList ++ data.toBytes) = data.priceHash := rfl

/-- What the SDK accepts, in terms of the values behind the strings. -/
theorem checkSignedPriceData_iff {J : Jets Word256 (List UInt8)} (hJ : J.Compresses) :
    Sdk.checkSignedPriceData libraries details verification = .ok true ↔
      ∃ data signature branch root levels, Encodes details verification.stormTreeRoot data signature branch root levels ∧
        Fresh verification data ∧ 1 ≤ levels.length ∧ levels.length ≤ Sdk.maxStormTreeDepth ∧
        MerkleFold.fold (Smt.hashing J) (Smt.hashLeaf J branch) levels = root ∧
        libraries.schnorrVerify signature data.priceHash branch.bytes = true := by
  unfold Sdk.checkSignedPriceData
  constructor
  · intro h
    by_cases hroot : Sdk.isHex 64 verification.stormTreeRoot = false
    · rw [if_pos hroot] at h
      cases h
    rw [if_neg hroot] at h
    obtain ⟨root, hroot⟩ := isHex_word.mp (Bool.not_eq_false _ ▸ hroot)
    obtain ⟨-, -, h⟩ := Db.except_bind_ok.mp h
    obtain ⟨-, -, h⟩ := Db.except_bind_ok.mp h
    by_cases hnow : verification.now < 0
    · rw [if_pos hnow] at h
      cases h
    rw [if_neg hnow] at h
    obtain ⟨data, hdata, h⟩ := Db.except_bind_ok.mp h
    have hdata := decodePriceData_ok_iff.mp hdata
    dsimp only at h
    split_ifs at h with hstale hshape
    · cases h
    · cases h
    have hfresh := not_stale_iff.mp hstale
    simp only [not_or, Bool.not_eq_false, not_lt] at hshape
    obtain ⟨hbranch, hsignature, hshort, hdeep⟩ := hshape
    obtain ⟨branch, hbranch⟩ := isHex_word.mp hbranch
    obtain ⟨signature, hsignature, hlength⟩ := (@Sdk.isHex_iff 64 _).mp hsignature
    obtain ⟨_, hbytes, h⟩ := Db.except_bind_ok.mp h
    rw [hexToBytes_ok_iff, hbranch] at hbytes
    cases hbytes
    obtain ⟨folded, hfold, h⟩ := Db.except_bind_ok.mp h
    cases folded with
    | none => cases h
    | some folded =>
      rw [digest_leaf hJ] at hfold
      obtain ⟨levels, hlevels, rfl⟩ := (proofRoot_ok_iff hJ).mp hfold
      dsimp only at h
      split_ifs at h with hsame
      · cases h
      have hsame := (hexText_eq_toLowerCase hroot).mp (not_not.mp hsame)
      obtain ⟨_, hbytes, h⟩ := Db.except_bind_ok.mp h
      rw [hexToBytes_ok_iff, hdata] at hbytes
      cases hbytes
      obtain ⟨_, hbytes, h⟩ := Db.except_bind_ok.mp h
      rw [hexToBytes_ok_iff, hsignature] at hbytes
      cases hbytes
      rw [message_eq] at h
      refine ⟨data, signature, branch, root, levels, ⟨hdata, hsignature, hlength, hbranch, hroot, hlevels⟩, hfresh, ?_, ?_,
        hsame, Except.ok.inj h⟩
      · rw [← hlevels.length_eq]
        exact hshort
      · rw [← hlevels.length_eq]
        exact hdeep
  · rintro ⟨data, signature, branch, root, levels, hencodes, hfresh, hshort, hdeep, hfold, hverified⟩
    obtain ⟨hdata, hsignature, hlength, hbranch, hroot, hlevels⟩ := hencodes
    have hnow : ¬verification.now < 0 := by
      have hreceived := hfresh.received
      omega
    have hshape : ¬(Sdk.isHex 64 details.stormTreeBloom.branch = false ∨
        Sdk.isHex 128 details.stormTreeBloom.signature = false ∨ details.stormTreeBloom.proof.length < 1 ∨
        Sdk.maxStormTreeDepth < details.stormTreeBloom.proof.length) := by
      rw [hlevels.length_eq, isHex_word.mpr ⟨branch, hbranch⟩, (@Sdk.isHex_iff 64 _).mpr ⟨signature, hsignature, hlength⟩]
      simp only [Bool.true_eq_false, false_or, not_or, not_lt]
      exact ⟨hshort, hdeep⟩
    rw [if_neg (by simp [isHex_word.mpr ⟨root, hroot⟩])]
    refine Db.except_bind_ok.mpr ⟨(), assertFeedId_ok hfresh.feedId.symm, ?_⟩
    refine Db.except_bind_ok.mpr ⟨(), assertFeedId_ok hfresh.decimals.symm, ?_⟩
    rw [if_neg hnow]
    refine Db.except_bind_ok.mpr ⟨data, decodePriceData_ok_iff.mpr hdata, ?_⟩
    dsimp only
    rw [if_neg (not_stale_iff.mpr hfresh), if_neg hshape]
    refine Db.except_bind_ok.mpr ⟨branch.bytes, hexToBytes_ok_iff.mpr hbranch, ?_⟩
    refine Db.except_bind_ok.mpr ⟨some root.bytes, ?_, ?_⟩
    · rw [digest_leaf hJ]
      exact (proofRoot_ok_iff hJ).mpr ⟨levels, hlevels, congrArg Word256.bytes hfold.symm⟩
    · dsimp only
      rw [if_neg (not_not.mpr ((hexText_eq_toLowerCase hroot).mpr rfl))]
      refine Db.except_bind_ok.mpr ⟨data.toBytes, hexToBytes_ok_iff.mpr hdata, ?_⟩
      refine Db.except_bind_ok.mpr ⟨signature, hexToBytes_ok_iff.mpr hsignature, ?_⟩
      exact congrArg Except.ok hverified

end Checks

section Verdicts

variable {Key : Type} {libraries : SchnorrLibraries Key}

/-- A signer accepted the rate when it was instructed. -/
def AcceptedBySigner (price : PriceFeedData) : Prop :=
  ∃ registry own now, PriceInstruction.validate price registry own now = .ok ()

/-- The input is one Verifier, paid to the voucher of a branch. -/
def Committed {W Sig : Type} (J : Jets W Sig) (env : Env W) (verifierInputIndex : UInt32)
    (verifierAssetId tapleafHash branch : W) : Prop :=
  ∃ input, env.tx.inputs[verifierInputIndex.toNat]? = some input ∧ input.asset = .explicit verifierAssetId ∧
    input.amount = .explicit 1 ∧ input.scriptHash = VoucherVerifier.getVoucherScriptHash J branch tapleafHash

theorem verifyPrice_iff {W Sig : Type} {J : Jets W Sig} {std : InputStd W} {env : Env W} {verifierInputIndex : UInt32}
    {verifierAssetId tapleafHash signer : W} {signature : Sig} {data price : PriceFeedData} {now : UInt64} :
    VoucherVerifier.verifyPrice J std env verifierInputIndex verifierAssetId tapleafHash signer signature data now =
      some price ↔
      Committed J env verifierInputIndex verifierAssetId tapleafHash signer ∧
        J.bip0340Verify (signer, VoucherVerifier.getPriceMessage J data) signature = true ∧ now < data.validUntil ∧
        data = price := by
  unfold VoucherVerifier.verifyPrice VoucherVerifier.verifyVerifierUtxo Committed
  simp only [Option.bind_eq_bind, Option.bind_eq_some_iff, Option.guard_eq_some', Option.pure_def, Option.some.injEq,
    std.assertExplicitInputAssetIdWithAmount_iff, std.assertEq256_iff, std.getInputScriptHash_eq, Option.map_eq_some_iff]
  constructor
  · rintro ⟨-, ⟨-, ⟨input, hinput, hasset, hamount⟩, _, ⟨input', hinput', rfl⟩, hscript⟩, -, hverified, -, hnow, hdata⟩
    rw [hinput] at hinput'
    cases hinput'
    exact ⟨⟨input, hinput, hasset, hamount, hscript⟩, hverified, hnow, hdata⟩
  · rintro ⟨⟨input, hinput, hasset, hamount, hscript⟩, hverified, hnow, hdata⟩
    exact ⟨(), ⟨(), ⟨input, hinput, hasset, hamount⟩, _, ⟨input, hinput, rfl⟩, hscript⟩, (), hverified, (), hnow, hdata⟩

theorem signedPriceBloom_ok {price : PriceFeedData} {signing : SigningResult Word256 (List UInt8)}
    {proof : Smt.Proof Word256} {priceData : String} {bloom : PriceBloom}
    (h : UserRequests.signedPriceBloom libraries price signing proof = .ok (priceData, bloom)) :
    ∃ signature branchKey, signature.length = 64 ∧
      libraries.xOnlyFromSlice signing.signingStormTreeBranch.bytes = some branchKey ∧
      libraries.verifySchnorr signature price.priceHash branchKey = true ∧
      priceData = OperatorWrite.hexText price.toBytes ∧ bloom.signature = OperatorWrite.hexText signature ∧
      bloom.branch = OperatorWrite.hexText signing.signingStormTreeBranch.bytes ∧
      bloom.proof = proof.siblings.map fun level => ⟨level.1, OperatorWrite.hexText level.2.bytes⟩ := by
  unfold UserRequests.signedPriceBloom at h
  cases hsignature : signing.signatures[1]? with
  | none =>
    rw [hsignature] at h
    cases h
  | some signature =>
    rw [hsignature] at h
    dsimp only at h
    cases hkey : libraries.xOnlyFromSlice signing.signingStormTreeBranch.bytes with
    | none =>
      rw [hkey] at h
      cases h
    | some branchKey =>
      rw [hkey] at h
      dsimp only at h
      split_ifs at h with hlength hverified
      cases h
      exact ⟨signature, branchKey, not_not.mp hlength, rfl, Bool.not_eq_false _ ▸ hverified, rfl, rfl, rfl, rfl⟩

theorem signedPriceBloom_verified {price : PriceFeedData} {signing : SigningResult Word256 (List UInt8)}
    {proof : Smt.Proof Word256} {signature : List UInt8} {branchKey : Key}
    (hsignature : signing.signatures[1]? = some signature)
    (hkey : libraries.xOnlyFromSlice signing.signingStormTreeBranch.bytes = some branchKey)
    (hlength : signature.length = 64) (hverified : libraries.verifySchnorr signature price.priceHash branchKey = true) :
    UserRequests.signedPriceBloom libraries price signing proof = .ok (OperatorWrite.hexText price.toBytes, {
      signature := OperatorWrite.hexText signature
      branch := OperatorWrite.hexText signing.signingStormTreeBranch.bytes
      proof := proof.siblings.map fun (right, hash) => ⟨right, OperatorWrite.hexText hash.bytes⟩ }) := by
  unfold UserRequests.signedPriceBloom
  rw [hsignature]
  dsimp only
  rw [hkey]
  dsimp only
  rw [if_neg (not_not.mpr hlength), if_neg (by simp [hverified])]

theorem length_priceHash (data : PriceFeedData) : data.priceHash.length = 32 := Word256.length_bytes _

theorem verifySignedPriceData_iff {J : Jets Word256 (List UInt8)} (hJ : J.Compresses)
    {Bip340 : List UInt8 → List UInt8 → List UInt8 → Prop} (hlibraries : libraries.Decide J Bip340)
    {details : Sdk.SignedPriceData} {verification : Sdk.SignedPriceVerification} :
    Sdk.verifySignedPriceData libraries details verification = true ↔
      ∃ data signature branch root levels, Encodes details verification.stormTreeRoot data signature branch root levels ∧
        Fresh verification data ∧ 1 ≤ levels.length ∧ levels.length ≤ 17 ∧
        StormTree.verifyBranch J root branch ⟨branch, root, levels⟩ = true ∧
        Bip340 branch.bytes data.priceHash signature := by
  have hcheck : Sdk.verifySignedPriceData libraries details verification = true ↔
      Sdk.checkSignedPriceData libraries details verification = .ok true := by
    unfold Sdk.verifySignedPriceData
    cases Sdk.checkSignedPriceData libraries details verification <;> simp
  have hbranch : ∀ (branch root : Word256) levels, StormTree.verifyBranch J root branch ⟨branch, root, levels⟩ = true ↔
      MerkleFold.fold (Smt.hashing J) (Smt.hashLeaf J branch) levels = root := by
    intro branch root levels
    rw [StormTree.verifyBranch_iff]
    simp only [true_and]
  rw [hcheck, checkSignedPriceData_iff hJ]
  constructor
  · rintro ⟨data, signature, branch, root, levels, hencodes, hfresh, hshort, hdeep, hfold, hverified⟩
    exact ⟨data, signature, branch, root, levels, hencodes, hfresh, hshort, hdeep, (hbranch _ _ _).mpr hfold,
      (hlibraries.schnorrVerify _ _ _ hencodes.signatureLength (length_priceHash data) branch.length_bytes).mp hverified⟩
  · rintro ⟨data, signature, branch, root, levels, hencodes, hfresh, hshort, hdeep, hfold, hverified⟩
    exact ⟨data, signature, branch, root, levels, hencodes, hfresh, hshort, hdeep, (hbranch _ _ _).mp hfold,
      (hlibraries.schnorrVerify _ _ _ hencodes.signatureLength (length_priceHash data) branch.length_bytes).mpr hverified⟩

/-- The three programs give one verdict on a signed price. -/
theorem price_proofs_agree {J : Jets Word256 (List UInt8)} (hJ : J.Compresses)
    {Bip340 : List UInt8 → List UInt8 → List UInt8 → Prop} {libraries : SchnorrLibraries Key}
    (hlibraries : libraries.Decide J Bip340) :
    (∀ details verification, Sdk.verifySignedPriceData libraries details verification = true ↔
      ∃ data signature branch root levels, Encodes details verification.stormTreeRoot data signature branch root levels ∧
        Fresh verification data ∧ 1 ≤ levels.length ∧ levels.length ≤ 17 ∧
        StormTree.verifyBranch J root branch ⟨branch, root, levels⟩ = true ∧
        Bip340 branch.bytes data.priceHash signature) ∧
    (∀ {E : Type} (K : KeyApi Word256 E) nodes stormTree, StormTree.new J K nodes = .ok stormTree →
      ∀ price signing proof priceData bloom, AcceptedBySigner price →
        StormTree.proof (E := E) J stormTree signing.signingStormTreeBranch = .ok proof →
        UserRequests.signedPriceBloom libraries price signing proof = .ok (priceData, bloom) →
        ∀ verification : Sdk.SignedPriceVerification,
          UserApi.hexDecode verification.stormTreeRoot.toList = some (StormTree.root J stormTree).bytes →
          verification.feedId = .ofNat price.feedId.toNat → verification.decimals = .ofNat price.decimals.toNat →
          price.receivedAt.toNat ≤ verification.now → verification.now < price.validUntil.toNat →
          Sdk.verifySignedPriceData libraries ⟨priceData, bloom⟩ verification = true) ∧
    ∀ details verification, Sdk.verifySignedPriceData libraries details verification = true →
      ∃ (now : UInt64) (data : PriceFeedData) (signature : List UInt8) (branch : Word256),
        (now.toNat : ℤ) = verification.now ∧ Sdk.decodePriceData details.priceData = .ok data ∧
        UserApi.hexDecode details.stormTreeBloom.signature.toList = some signature ∧
        UserApi.hexDecode details.stormTreeBloom.branch.toList = some branch.bytes ∧
        ∀ std env verifierInputIndex verifierAssetId tapleafHash,
          Committed J env verifierInputIndex verifierAssetId tapleafHash branch →
          VoucherVerifier.verifyPrice J std env verifierInputIndex verifierAssetId tapleafHash branch signature data now =
            some data := by
  refine ⟨fun details verification => verifySignedPriceData_iff hJ hlibraries, ?_, ?_⟩
  · intro E K nodes stormTree hnew price signing proof priceData bloom haccepted hproof hbloom verification hroot hfeed
      hdecimals hreceived hvalid
    obtain ⟨hshort, hdeep, hverified⟩ := StormTree.proof_verified hnew hproof
    obtain ⟨signature, branchKey, hlength, hkey, hsignature, rfl, hsignatureText, hbranchText, hproofText⟩ :=
      signedPriceBloom_ok hbloom
    obtain ⟨registry, own, clock, haccepted⟩ := haccepted
    obtain ⟨-, -, hfold⟩ := StormTree.verifyBranch_iff.mp hverified
    refine (verifySignedPriceData_iff hJ hlibraries).mpr ⟨price, signature, signing.signingStormTreeBranch,
      StormTree.root J stormTree, proof.siblings, ?_, ?_, hshort, hdeep, ?_, ?_⟩
    · refine ⟨OperatorWrite.hexDecode_hexText _, ?_, hlength, ?_, hroot, ?_⟩
      · rw [hsignatureText]
        exact OperatorWrite.hexDecode_hexText _
      · rw [hbranchText]
        exact OperatorWrite.hexDecode_hexText _
      · rw [hproofText, List.forall₂_map_left_iff]
        exact List.forall₂_same.mpr fun level _ => ⟨rfl, OperatorWrite.hexDecode_hexText _⟩
    · exact ⟨hfeed, hdecimals, hreceived, hvalid, PriceInstruction.validate_ok_window haccepted⟩
    · exact StormTree.verifyBranch_iff.mpr ⟨rfl, rfl, hfold⟩
    · exact (hlibraries.verifySchnorr _ _ _ hlength (length_priceHash price) (Word256.length_bytes _)).mp
        ⟨branchKey, hkey, hsignature⟩
  · intro details verification haccepted
    obtain ⟨data, signature, branch, root, levels, hencodes, hfresh, -, -, -, hverified⟩ :=
      (verifySignedPriceData_iff hJ hlibraries).mp haccepted
    have hreceived := hfresh.received
    have hvalid := hfresh.valid
    have hbound := data.validUntil.toNat_lt
    have hnow : ((UInt64.ofNat verification.now.toNat).toNat : ℤ) = verification.now := by
      rw [UInt64.toNat_ofNat', Nat.mod_eq_of_lt (by omega)]
      omega
    refine ⟨UInt64.ofNat verification.now.toNat, data, signature, branch, hnow, decodePriceData_ok_iff.mpr hencodes.dataDigits,
      hencodes.signatureDigits, hencodes.branchDigits, ?_⟩
    intro std env verifierInputIndex verifierAssetId tapleafHash hcommitted
    have hmessage : (VoucherVerifier.getPriceMessage J data).bytes = data.priceHash :=
      (CovenantHashing.covenant_hashing_eq_off_chain hJ).2.2.2.1 data
    refine verifyPrice_iff.mpr ⟨hcommitted, ?_, ?_, rfl⟩
    · rw [hlibraries.bip0340Verify _ _ _ hencodes.signatureLength, hmessage]
      exact hverified
    · rw [UInt64.lt_iff_toNat_lt]
      omega

end Verdicts

section Example

/-- Three members, their MuSig2 keys for each pair, and the signature of the first pair over a price. -/
def exampleNodes : List Word256 :=
  [Word256.ofNat 0x79be667ef9dcbbac55a06295ce870b07029bfcdb2dce28d959f2815b16f81798,
    Word256.ofNat 0xc6047f9441ed7d6d3045406e95c07cd85c778e4b8cef3ca7abac09b95c709ee5,
    Word256.ofNat 0xf9308a019258c31049344f85f89d5229b531c845836f99b08601f113bce036f9]

def exampleBranch : Word256 := Word256.ofNat 0x3b46d262d2f610e9038b44beabdfe97ab5a0feb89870acc2264edfb7f63ec2ec

def exampleKeys : KeyApi Word256 Unit where
  fromByteArray _ := .ok ()
  aggregate nodes :=
    if nodes.head? ≠ exampleNodes[0]? then
      Word256.ofNat 0xf89c20245de19bd2889af0b0b4bad84bfa99e7e181ac8e9549aeebfcbb10fb1b
    else if nodes[1]? = exampleNodes[1]? then exampleBranch
    else Word256.ofNat 0x6e68b837de28101018371e7bf6e59b5852c9e39472794c28fd955c714b8174ba

def examplePrice : PriceFeedData := ⟨4, 9876543210, 8, 1700000000, 1700000060⟩

def exampleSignature : List UInt8 :=
  (Word256.ofNat 0x4d8e30165032d5d8e6dc4ddc5b2c764fbabd56be0f6bde318c3548a47bd6b65c).bytes ++
    (Word256.ofNat 0x56388bc1873e43807c74298e68d1b1d252c6a72d000820974bf4bed061adb876).bytes

/-- The one signature of the example. -/
def exampleBip340 (key message signature : List UInt8) : Prop :=
  key = exampleBranch.bytes ∧ message = examplePrice.priceHash ∧ signature = exampleSignature

instance (key message signature : List UInt8) : Decidable (exampleBip340 key message signature) :=
  inferInstanceAs (Decidable (_ ∧ _ ∧ _))

def exampleLibraries : SchnorrLibraries (List UInt8) where
  schnorrVerify signature message key := exampleBip340 key message signature
  xOnlyFromSlice key := some key
  verifySchnorr signature message key := exampleBip340 key message signature

def exampleJets : Jets Word256 (List UInt8) where
  lit := Word256.ofNat
  bytes := Word256.bytes
  sha256 := sha256
  sha256Iv := initialValue
  sha256Block := CovenantHashing.compressionJets.sha256Block
  buildTapbranch := CovenantHashing.compressionJets.buildTapbranch
  buildTaptweak := CovenantHashing.compressionJets.buildTaptweak
  sigAllHash := CovenantHashing.compressionJets.sigAllHash
  bip0340Verify keyMessage signature := exampleBip340 keyMessage.1.bytes keyMessage.2.bytes signature

theorem exampleJets_compresses : exampleJets.Compresses where
  lit _ _ := rfl
  sha256Iv := rfl
  sha256Block _ _ _ := rfl

theorem exampleLibraries_decide : exampleLibraries.Decide exampleJets exampleBip340 where
  schnorrVerify _ _ _ _ _ _ := decide_eq_true_iff
  verifySchnorr _ _ _ _ _ _ := by
    simp [exampleLibraries]
  bip0340Verify _ _ _ _ := decide_eq_true_iff

theorem exampleLibraries_verify {key message signature : List UInt8} (h : exampleBip340 key message signature) :
    exampleLibraries.verifySchnorr signature message key = true :=
  decide_eq_true h

theorem exampleNodes_ascending : exampleNodes.Pairwise (· < ·) := by
  decide +kernel

theorem exampleTree : ∃ stormTree, StormTree.new exampleJets exampleKeys exampleNodes = .ok stormTree := by
  rw [StormTree.new_succeeds_iff]
  refine ⟨by decide, fun _ _ => rfl, by decide, by decide, ?_⟩
  rw [← StormTree.nodup_aggregates_iff exampleKeys exampleNodes_ascending]
  decide +kernel

def exampleSigning : SigningResult Word256 (List UInt8) where
  requestHash := exampleBranch
  signingStormTreeBranch := exampleBranch
  signatures := [[], exampleSignature]

theorem length_exampleSignature : exampleSignature.length = 64 := by
  unfold exampleSignature
  rw [List.length_append, Word256.length_bytes, Word256.length_bytes]

/-- The Verifier of the first pair is the input of the transaction. -/
def exampleEnv : Env Word256 where
  tx := {
    version := 2, lockTime := 0, outputs := []
    inputs := [⟨.explicit exampleBranch, .explicit 1,
      VoucherVerifier.getVoucherScriptHash exampleJets exampleBranch exampleBranch, 0xffffffff⟩]
    inputs_lt := by decide }
  index := ⟨0, by decide⟩
  tapleafHash := exampleBranch

def exampleStd : InputStd Word256 where
  toStd := Std.documented fun height => Word256.ofNat height.toNat
  assertExplicitInputAssetIdWithAmount env i a v :=
    env.tx.inputs[i.toNat]?.bind fun o => guard (Std.explicitPair o.asset o.amount = some (a, v))
  assertExplicitInputAssetIdWithAmount_iff env i a v := by
    simp [Option.bind_eq_some_iff, Std.explicitPair_iff]

/-- The rate of a round, from its signature to the covenant. -/
theorem price_proofs_agree_round : ∃ stormTree proof priceData bloom,
    StormTree.new exampleJets exampleKeys exampleNodes = .ok stormTree ∧
      StormTree.proof (E := Unit) exampleJets stormTree exampleBranch = .ok proof ∧
      UserRequests.signedPriceBloom exampleLibraries examplePrice exampleSigning proof = .ok (priceData, bloom) ∧
      Sdk.verifySignedPriceData exampleLibraries ⟨priceData, bloom⟩
        ⟨OperatorWrite.hexText (StormTree.root exampleJets stormTree).bytes, .ofNat 4, .ofNat 8, 1700000059⟩ = true ∧
      VoucherVerifier.verifyPrice exampleJets exampleStd exampleEnv 0 exampleBranch exampleBranch exampleBranch
        exampleSignature examplePrice 1700000059 = some examplePrice := by
  obtain ⟨stormTree, hnew⟩ := exampleTree
  have hbranch : exampleBranch ∈ stormTree.branches := by
    rw [StormTree.mem_branches_iff hnew]
    have hpair : [exampleNodes[0], exampleNodes[1]] ∈ StormTree.combinations 2 exampleNodes := by decide
    obtain ⟨signers, hsigners, hsort⟩ := (StormTree.mem_combinations_iff_sort exampleNodes_ascending 2 _).mp hpair
    refine ⟨signers, hsigners, ?_⟩
    unfold StormTree.branchKey
    rw [hsort]
    decide +kernel
  obtain ⟨proof, hproof, -⟩ := @StormTree.proof_spec _ _ Unit _ _ _ _ _ hnew exampleBranch hbranch
  have hsigned : exampleBip340 exampleBranch.bytes examplePrice.priceHash exampleSignature := ⟨rfl, rfl, rfl⟩
  have hbloom := @signedPriceBloom_verified _ exampleLibraries examplePrice exampleSigning proof exampleSignature
    exampleBranch.bytes rfl rfl length_exampleSignature (exampleLibraries_verify hsigned)
  obtain ⟨-, hblooms, hcovenant⟩ := price_proofs_agree exampleJets_compresses exampleLibraries_decide
  have haccepted : AcceptedBySigner examplePrice :=
    ⟨.default, some examplePrice, 1700000000, by decide +kernel⟩
  have hstart : (examplePrice.receivedAt.toNat : ℤ) ≤ 1700000059 := by decide
  have hend : (1700000059 : ℤ) < examplePrice.validUntil.toNat := by decide
  have hsdk := hblooms exampleKeys exampleNodes stormTree hnew examplePrice exampleSigning proof _ _ haccepted
    hproof hbloom ⟨OperatorWrite.hexText (StormTree.root exampleJets stormTree).bytes, .ofNat 4, .ofNat 8, 1700000059⟩
    (OperatorWrite.hexDecode_hexText _) rfl rfl hstart hend
  refine ⟨stormTree, proof, _, _, hnew, hproof, hbloom, hsdk, ?_⟩
  obtain ⟨now, data, signature, branch, hnow, hdata, hsignature, hkey, hverified⟩ := hcovenant _ _ hsdk
  have hdata := decodePriceData_ok_iff.mp hdata
  rw [OperatorWrite.hexDecode_hexText] at hdata hsignature hkey
  have hdata := PriceFeedData.toBytes_injective (Option.some.inj hdata)
  have hsignature := Option.some.inj hsignature
  have hkey := bytes_injective (Option.some.inj hkey)
  have hnow : now = 1700000059 := by
    have hnow : (now.toNat : ℤ) = 1700000059 := hnow
    apply UInt64.toNat_inj.mp
    rw [show (1700000059 : UInt64).toNat = 1700000059 from rfl]
    omega
  subst hdata hsignature hkey hnow
  exact hverified exampleStd exampleEnv 0 exampleBranch exampleBranch ⟨_, rfl, rfl, rfl, rfl⟩

end Example

end SignedPrice

end PriceOracle
