import PriceOracle.IssuanceSoundness
import PriceOracle.IssuedOutputs

/-!
# Issuances that the indexer monitors

A block that is read gives a row for every output of an asset that an issuance in it reissues, and no other
row. The transaction of a round that signers accept, once the chain has taken it, is such an issuance, and
its rows are the vouchers that its batches asked for.
-/

namespace PriceOracle

namespace IssuedOutputs

open IssuanceRound (descriptorProgram accountScript)

variable {libraries : IssuanceLibraries} {programs : IssuancePrograms} {transaction : Transaction} {height : ℕ}
  {stormEye : NetworkAsset Bytes32} {tokens issuedAssets : List (NetworkAsset Bytes32)}
  {getRawTransaction : Bytes32 → Except IndexerError Transaction}

section Blocks

/-- A row is a voucher of an asset that stands in a transaction, with a reserve of its owner. -/
structure RowStands (libraries : IssuanceLibraries) (programs : IssuancePrograms) (transaction : Transaction) (height : ℕ)
    (stormEye asset : NetworkAsset Bytes32) (row : MonitoredUtxo Bytes32) : Prop where
  output : ∃ output, transaction.output[row.outputIndex]? = some output ∧ output.asset = .explicit asset.assetId ∧
    output.value = .explicit row.amount ∧ output.scriptPubkey = row.scriptPubkey
  kind : row.assetKind = asset.kind
  covenant : ∃ descriptor, descriptorProgram libraries programs stormEye.assetId descriptor = .ok row.scriptPubkey ∧
    row.authMethod = authMethodName descriptor ∧ row.authData = descriptor.authData.toList ∧
    row.internalKey = descriptor.signer ∧ row.assetKind = describedKind descriptor
  single : row.assetKind = Indexer.oracleVerifierKind → row.amount = 1
  reserve : row.burningFeeTxid = transaction.txid ∧ ∃ reserve value,
    transaction.output[row.burningFeeOutputIndex]? = some reserve ∧ reserve.asset = .explicit programs.policyAsset ∧
      reserve.value = .explicit value ∧ 0 < value ∧
      reserve.scriptPubkey = accountScript programs stormEye.assetId row.accountOwnerPubkey
  active : row.status = .active ∧ row.blockHeight = height ∧ row.statusBlockHeight = height ∧ row.burnTxid = none

theorem tokenOf_ok {descriptor : IssuedUtxoDescriptor} {i : ℕ} {asset : NetworkAsset Bytes32}
    (h : tokenOf tokens descriptor = .ok i) (hasset : tokens[i]? = some asset) : asset.kind = describedKind descriptor := by
  unfold tokenOf at h
  rw [Issuance.okOr_eq_ok_iff, List.findIdx?_eq_some_iff_getElem] at h
  obtain ⟨hlt, hkind, -⟩ := h
  rw [List.getElem?_eq_getElem hlt] at hasset
  cases hasset
  exact of_decide_eq_true hkind

theorem DescribedOutput.Stands.row {item : DescribedOutput}
    (h : item.Stands libraries programs transaction stormEye tokens) :
    RowStands libraries programs transaction height stormEye item.asset (item.row transaction height) := by
  have hkind := tokenOf_ok h.token h.asset
  refine ⟨⟨item.output, h.output, h.held.1, h.held.2, rfl⟩, rfl, ⟨item.descriptor, h.covenant, rfl, rfl, rfl, hkind⟩, ?_,
    ⟨rfl, h.reserve⟩, ⟨rfl, rfl, rfl, rfl⟩⟩
  intro hverifier
  refine h.single ?_
  by_contra hother
  have htick : item.asset.kind = Indexer.oracleVerifierKind := hverifier
  rw [hkind, describedKind, if_neg hother] at htick
  exact absurd htick (by decide)

theorem issuedByTransaction_ok {rows : List (MonitoredUtxo Bytes32)} :
    issuedByTransaction libraries programs getRawTransaction height stormEye issuedAssets transaction = .ok rows ↔
      issuanceTokens libraries getRawTransaction transaction stormEye issuedAssets = .ok none ∧ rows = [] ∨
      ∃ tokens, Reissues libraries getRawTransaction stormEye issuedAssets transaction tokens ∧ ∃ items,
        Indexed libraries programs transaction stormEye tokens items ∧
          rows = items.map (DescribedOutput.row transaction height) := by
  unfold issuedByTransaction
  rw [Db.except_bind_ok]
  constructor
  · rintro ⟨found, hfound, h⟩
    cases found with
    | none =>
      cases h
      exact .inl ⟨hfound, rfl⟩
    | some tokens => exact .inr ⟨tokens, issuanceTokens_ok.mp hfound, indexedIssuedOutputs_ok.mp h⟩
  · rintro (⟨hnone, rfl⟩ | ⟨tokens, htokens, hrows⟩)
    · exact ⟨none, hnone, rfl⟩
    · exact ⟨some tokens, issuanceTokens_ok.mpr htokens, indexedIssuedOutputs_ok.mpr hrows⟩

theorem Reissues.unique {other : List (NetworkAsset Bytes32)}
    (h : Reissues libraries getRawTransaction stormEye issuedAssets transaction tokens)
    (hother : Reissues libraries getRawTransaction stormEye issuedAssets transaction other) : tokens = other :=
  Option.some.inj (Except.ok.inj ((issuanceTokens_ok.mpr h).symm.trans (issuanceTokens_ok.mpr hother)))

end Blocks

end IssuedOutputs

/-- An input of a signed PSET as its transaction has it. -/
def IssuanceInput.txin (input : IssuanceInput) : ChainTxIn := ⟨input.outpoint, false, input.assetIssuance⟩

/-- The transaction of a signed PSET. -/
def IssuancePset.transaction (txid : Bytes32) (pset : IssuancePset) : Transaction :=
  ⟨txid, pset.inputs.map IssuanceInput.txin, pset.outputs.map PsetOutput.toTxout⟩

namespace IssuanceRound

open IssuedOutputs

variable {libraries : IssuanceLibraries} {programs : IssuancePrograms} {hashes : IssuanceHashes} {chain : ChainLedger Bytes32}
  {stormEye tick verifier : NetworkAsset Bytes32} {config : Issuance.ProtocolConfig} {now : ℕ} {request : ExecuteUserRequests}
  {instructed : Option PriceFeedData} {parts : AcceptedParts}
  {getRawTransaction : Bytes32 → Except IndexerError Transaction}

/-- The assets as a node has checked them when they were announced. -/
structure Announced (libraries : IssuanceLibraries) (stormEye tick verifier : NetworkAsset Bytes32) : Prop where
  kinds : tick.kind = Indexer.tickAssetKind ∧ verifier.kind = Indexer.oracleVerifierKind
  entropies : ∃ first second, tick.entropy = some first ∧ verifier.entropy = some second ∧ first ≠ second
  templates : ∀ asset, asset = tick ∨ asset = verifier → ∀ template, tokenTxout libraries asset = .ok template →
    template.scriptPubkey = asset.contractScript ∧
      ∀ secrets, libraries.unblind template = some secrets → asset.reissuanceTokenId = some secrets.1
  distinct : stormEye.assetId ≠ tick.assetId ∧ stormEye.assetId ≠ verifier.assetId
  scripts : ∀ asset ∈ [stormEye, tick, verifier], Markers.descriptorsFromScript asset.contractScript = .ok none

/-- What consensus asks of issuances: each creates something, a new one of assets of its own, and a reissuance spends a
blinded token and makes no tokens. -/
structure IssuesSoundly (programs : IssuancePrograms) (hashes : IssuanceHashes) (openings : Openings Bytes32)
    (stormEye tick verifier : NetworkAsset Bytes32) (pset : IssuancePset) : Prop where
  positive : ∀ input ∈ pset.inputs, input.assetIssuance.isNull = false →
    ∃ issued ∈ input.txin.issued hashes openings, 0 < issued.2
  fresh : ∀ input ∈ pset.inputs, input.assetIssuance.isNull = false → input.assetIssuance.assetBlindingNonce = zeroTweak →
    ∀ issued ∈ input.txin.issued hashes openings, issued.1 ≠ programs.policyAsset ∧
      ∀ asset ∈ [stormEye, tick, verifier], issued.1 ≠ asset.assetId ∧ asset.reissuanceTokenId ≠ some issued.1
  reissues : ∀ input ∈ pset.inputs, input.assetIssuance.isNull = false → input.assetIssuance.assetBlindingNonce ≠ zeroTweak →
    input.assetIssuance.inflationKeys.isNull = true ∧
      ∃ utxo commitment, input.witnessUtxo = some utxo ∧ utxo.asset = .confidential commitment

/-- What earlier rounds have left on the chain, and the node that has its transactions. -/
structure KeptOnChain (libraries : IssuanceLibraries) (chain : ChainLedger Bytes32)
    (getRawTransaction : Bytes32 → Except IndexerError Transaction) (stormEye tick verifier : NetworkAsset Bytes32) : Prop where
  stormEye : ∀ outpoint utxo, chain.utxos outpoint = some utxo → utxo.asset = .explicit stormEye.assetId →
    utxo.nonce = none ∧ utxo.surjectionProof = none ∧ utxo.rangeproof = none
  tokens : ∀ outpoint utxo, chain.utxos outpoint = some utxo → ∀ asset, asset = tick ∨ asset = verifier →
    ∀ held ∈ utxo.content chain.openings, asset.reissuanceTokenId = some held.1 → (libraries.unblind utxo).isSome
  node : ∀ outpoint utxo, chain.utxos outpoint = some utxo → previousOutput getRawTransaction outpoint = .ok utxo

section Issuances

theorem Accepted.asset_of_token
    (h : Accepted libraries programs stormEye (some tick) (some verifier) config now request instructed parts)
    {token : SpentToken} (htoken : token ∈ parts.tokens) : token.asset = tick ∨ token.asset = verifier := by
  obtain ⟨-, -, htokens⟩ := roundTokens_ok.mp h.tokens
  have hmem : token.asset ∈ parts.tokens.map SpentToken.asset := List.mem_map_of_mem htoken
  rw [htokens] at hmem
  split_ifs at hmem <;> simp at hmem <;> tauto

/-- What an accepted round holds at its outputs is known to the network. -/
theorem Accepted.held_known
    (h : Accepted libraries programs stormEye (some tick) (some verifier) config now request instructed parts)
    (hdeployed : Deployed libraries programs stormEye (some tick) (some verifier))
    (hannounced : Announced libraries stormEye tick verifier)
    (hchain : OnChain libraries programs hashes chain request.tx) (hfee : 0 < config.operationalFeeSats.toNat)
    {output : PsetOutput Bytes32} (houtput : output ∈ request.tx.outputs) {held : Bytes32 × ℕ}
    (hheld : output.toTxout.content chain.openings = some held) : held.1 = programs.policyAsset ∨
      ∃ asset ∈ [stormEye, tick, verifier], held.1 = asset.assetId ∨ asset.reissuanceTokenId = some held.1 := by
  have hplain {script : List UInt8} {amount : ℕ} {asset : Bytes32} (heq : output.toTxout = plainOutput script amount asset) :
      held.1 = asset := by
    have hcontent : (plainOutput script amount asset).content chain.openings = some (asset, amount) :=
      ChainTxOut.content_explicit rfl rfl
    rw [heq, hcontent] at hheld
    exact (congrArg Prod.fst (Option.some.inj hheld)).symm
  obtain ⟨rest, houtputs, hrest⟩ := (h.sound hdeployed hchain hfee).outputs
  have hmem := List.mem_map_of_mem (f := PsetOutput.toTxout) houtput
  rw [houtputs] at hmem
  simp only [List.cons_append, List.append_assoc, List.mem_cons, List.mem_append] at hmem
  rcases hmem with hstorm | htoken | hvoucher | hreserve | hdescriptor | hlast
  · exact .inr ⟨stormEye, by simp, .inl (hplain hstorm)⟩
  · obtain ⟨token, htoken, heq⟩ := List.mem_map.mp htoken
    have hasset := h.asset_of_token htoken
    obtain ⟨i, hi⟩ := List.getElem?_of_mem htoken
    have hkept := h.kept i token hi
    rw [← heq, hchain.unblinds _ _ hkept.returned.1] at hheld
    cases hheld
    exact .inr ⟨token.asset, by simp [hasset], .inr ((hannounced.templates _ hasset _ hkept.template).2 _ hkept.secrets)⟩
  · obtain ⟨voucher, hvoucher, heq⟩ := List.mem_map.mp hvoucher
    obtain ⟨i, hi⟩ := List.getElem?_of_mem hvoucher
    obtain ⟨requested, -, hanswer⟩ := Loops.forall₂_get h.answers hi
    have hasset := hanswer.asset
    refine .inr ⟨voucher.asset, ?_, .inl (hplain heq.symm)⟩
    split_ifs at hasset <;> cases hasset <;> simp
  · rw [reserveOutputs, List.mem_iff_getElem] at hreserve
    obtain ⟨i, hi, heq⟩ := hreserve
    rw [List.getElem_zipWith] at heq
    exact .inl (hplain heq.symm)
  · exact .inl (hplain hdescriptor)
  · have hlast := hrest.subset hlast
    simp only [List.mem_cons, List.not_mem_nil, or_false] at hlast
    rcases hlast with hlast | hlast
    · exact .inl (hplain hlast)
    · exact .inl (hplain hlast)

/-- A round makes no asset of its own: nothing would hold it. -/
theorem Accepted.reissues_only
    (h : Accepted libraries programs stormEye (some tick) (some verifier) config now request instructed parts)
    (hdeployed : Deployed libraries programs stormEye (some tick) (some verifier))
    (hannounced : Announced libraries stormEye tick verifier)
    (hchain : OnChain libraries programs hashes chain request.tx) (hfee : 0 < config.operationalFeeSats.toNat)
    (hissues : IssuesSoundly programs hashes chain.openings stormEye tick verifier request.tx) {input : IssuanceInput}
    (hinput : input ∈ request.tx.inputs) (hissued : input.assetIssuance.isNull = false) :
    input.assetIssuance.assetBlindingNonce ≠ zeroTweak := by
  intro hnew
  obtain ⟨issued, hmem, hpositive⟩ := hissues.positive input hinput hissued
  obtain ⟨hpolicy, hassets⟩ := hissues.fresh input hinput hissued hnew issued hmem
  have hbalanced := hchain.valid.balanced issued.1
  have hcreated : 0 < ((request.tx.chainTx hashes chain.openings).issued.map fun created =>
      contentOf issued.1 (some created)).sum := by
    refine lt_of_lt_of_le hpositive (List.single_le_sum (by simp) _ (List.mem_map.mpr ⟨issued, ?_, by simp [contentOf]⟩))
    exact List.mem_flatMap.mpr ⟨input, hinput, hmem⟩
  have hkept : ((request.tx.chainTx hashes chain.openings).outputs.map fun output =>
      contentOf issued.1 (output.content chain.openings)).sum = 0 := by
    rw [List.sum_eq_zero_iff]
    intro amount hamount
    simp only [IssuancePset.chainTx, List.map_map, List.mem_map, Function.comp_apply] at hamount
    obtain ⟨output, houtput, rfl⟩ := hamount
    cases hheld : output.toTxout.content chain.openings with
    | none => rfl
    | some held =>
      obtain ⟨asset, value⟩ := held
      refine contentOf_of_ne ?_
      rintro rfl
      rcases h.held_known hdeployed hannounced hchain hfee houtput hheld with heq | ⟨asset, hasset, heq | heq⟩
      · exact hpolicy heq
      · exact (hassets asset hasset).1 heq
      · exact (hassets asset hasset).2 heq
  omega

/-- Fee UTXOs issue nothing: they are of the policy asset, and a token would be blinded. -/
theorem Accepted.fees_issue_nothing
    (h : Accepted libraries programs stormEye (some tick) (some verifier) config now request instructed parts)
    (hdeployed : Deployed libraries programs stormEye (some tick) (some verifier))
    (hannounced : Announced libraries stormEye tick verifier)
    (hchain : OnChain libraries programs hashes chain request.tx) (hfee : 0 < config.operationalFeeSats.toNat)
    (hissues : IssuesSoundly programs hashes chain.openings stormEye tick verifier request.tx) {input : IssuanceInput}
    (hinput : input ∈ parts.groups.flatten) : input.assetIssuance.isNull = true := by
  rw [← h.inputs] at hinput
  have hmem := List.mem_of_mem_drop hinput
  by_contra hnull
  have hissued : input.assetIssuance.isNull = false := by simpa using hnull
  have hreissues := h.reissues_only hdeployed hannounced hchain hfee hissues hmem hissued
  obtain ⟨-, utxo, commitment, hutxo, hblinded⟩ := hissues.reissues input hmem hissued hreissues
  obtain ⟨spent, value, hspent, hasset, -⟩ := h.accounted.funded input hinput
  rw [hutxo] at hspent
  cases hspent
  rw [hblinded] at hasset
  cases hasset

end Issuances

section Read

theorem Accepted.input_reissues
    (h : Accepted libraries programs stormEye (some tick) (some verifier) config now request instructed parts)
    (hdeployed : Deployed libraries programs stormEye (some tick) (some verifier))
    (hannounced : Announced libraries stormEye tick verifier)
    (hchain : OnChain libraries programs hashes chain request.tx) (hfee : 0 < config.operationalFeeSats.toNat)
    (hissues : IssuesSoundly programs hashes chain.openings stormEye tick verifier request.tx) {token : SpentToken}
    (htoken : token ∈ parts.tokens) : ReissuesAsset [tick, verifier] token.input.txin token.asset := by
  obtain ⟨i, hi⟩ := List.getElem?_of_mem htoken
  obtain ⟨hamount, hentropy, hcommitment, -, -⟩ := h.reissued i token hi
  have hinput := List.mem_of_getElem? (h.kept i token hi).input
  have hissued : token.input.assetIssuance.isNull = false := by
    simp [IssuanceInput.assetIssuance, AssetIssuance.isNull, issuedField, hamount, hcommitment, ChainField.isNull]
  have hreissues := h.reissues_only hdeployed hannounced hchain hfee hissues hinput hissued
  refine ⟨hissued, hreissues, ?_, (hissues.reissues _ hinput hissued hreissues).1⟩
  obtain ⟨first, second, hfirst, hsecond, hne⟩ := hannounced.entropies
  have hown : token.input.txin.assetIssuance.assetEntropy = token.asset.entropy.getD zeroTweak := by
    rw [← hentropy]
    rfl
  rw [hown]
  rcases h.asset_of_token htoken with hasset | hasset
  · simp [hasset, hfirst]
  · simp [hasset, hfirst, hsecond, hne]

theorem Accepted.token_returned
    (h : Accepted libraries programs stormEye (some tick) (some verifier) config now request instructed parts)
    (hannounced : Announced libraries stormEye tick verifier)
    (hchain : OnChain libraries programs hashes chain request.tx)
    (hkeeps : KeptOnChain libraries chain getRawTransaction stormEye tick verifier) (txid : Bytes32) {i : ℕ}
    {token : SpentToken} (htoken : parts.tokens[i]? = some token) :
    TokenReturned libraries getRawTransaction (request.tx.transaction txid) (1 + i) token.asset := by
  have hkept := h.kept i token htoken
  have hmem := List.mem_of_getElem? htoken
  have hasset := h.asset_of_token hmem
  obtain ⟨hscript, hid⟩ := hannounced.templates _ hasset _ hkept.template
  have hutxo := hchain.witnessed _ (List.mem_of_getElem? hkept.input)
  rw [hkept.spent] at hutxo
  have hcontent : token.spent.content chain.openings = some token.secrets := by
    rw [← (h.returned hchain hmem).2.2]
    exact hchain.unblinds _ _ hkept.returned.1
  have hunblind : libraries.unblind token.spent = some token.secrets := by
    obtain ⟨secrets, hsecrets⟩ := Option.isSome_iff_exists.mp
      (hkeeps.tokens _ _ hutxo _ hasset token.secrets hcontent (hid _ hkept.secrets))
    have hsame := hchain.unblinds _ _ hsecrets
    rw [hcontent] at hsame
    rw [hsecrets, Option.some.inj hsame]
  refine ⟨token.input.txin, token.spent, token.secrets, token.output.toTxout, ?_, hkeeps.node _ _ hutxo, hunblind,
    hid _ hkept.secrets, hkept.script.trans hscript, ?_, hkept.returned.1, hkept.returned.2⟩
  · simp [IssuancePset.transaction, hkept.input]
  · simp [IssuancePset.transaction, hkept.output]

theorem eq_plainOutput {utxo : ChainTxOut Bytes32} {script : List UInt8} {amount : ℕ} {asset : Bytes32}
    (hasset : utxo.asset = .explicit asset) (hvalue : utxo.value = .explicit amount) (hscript : utxo.scriptPubkey = script)
    (hrest : utxo.nonce = none ∧ utxo.surjectionProof = none ∧ utxo.rangeproof = none) :
    utxo = plainOutput script amount asset := by
  obtain ⟨_, _, _, _, _, _⟩ := utxo
  obtain ⟨hnonce, hsurjection, hrangeproof⟩ := hrest
  cases hasset
  cases hvalue
  cases hscript
  cases hnonce
  cases hsurjection
  cases hrangeproof
  rfl

theorem Accepted.reissues
    (h : Accepted libraries programs stormEye (some tick) (some verifier) config now request instructed parts)
    (hdeployed : Deployed libraries programs stormEye (some tick) (some verifier))
    (hannounced : Announced libraries stormEye tick verifier)
    (hchain : OnChain libraries programs hashes chain request.tx) (hfee : 0 < config.operationalFeeSats.toNat)
    (hissues : IssuesSoundly programs hashes chain.openings stormEye tick verifier request.tx)
    (hkeeps : KeptOnChain libraries chain getRawTransaction stormEye tick verifier) (txid : Bytes32) :
    Reissues libraries getRawTransaction stormEye [tick, verifier] (request.tx.transaction txid)
      (parts.tokens.map SpentToken.asset) := by
  refine ⟨?_, ?_, h.tokens_ne_nil, ⟨(parts.tokens.map SpentToken.input).map IssuanceInput.txin,
    parts.groups.flatten.map IssuanceInput.txin, ?_, ?_, ?_⟩, ?_, ?_, ?_⟩
  · have hcomplete := h.complete
    simp only [IssuancePset.transaction, List.length_map]
    omega
  · intro input hinput
    obtain ⟨spent, -, rfl⟩ := List.mem_map.mp hinput
    rfl
  · simp [IssuancePset.transaction, h.inputs_eq]
  · simp only [List.forall₂_map_left_iff, List.forall₂_map_right_iff, List.forall₂_same]
    exact fun token htoken => h.input_reissues hdeployed hannounced hchain hfee hissues htoken
  · intro input hinput
    obtain ⟨fee, hfeeInput, rfl⟩ := List.mem_map.mp (List.mem_of_mem_head? hinput)
    exact h.fees_issue_nothing hdeployed hannounced hchain hfee hissues hfeeInput
  · obtain ⟨-, -, htokens⟩ := roundTokens_ok.mp h.tokens
    have hne : tick.kind ≠ verifier.kind := by
      rw [hannounced.kinds.1, hannounced.kinds.2]
      decide
    rw [htokens]
    split_ifs <;> simp [hne]
  · obtain ⟨utxo, hutxo, hasset, hvalue, hscript⟩ := h.stormEyeSpent
    have hwitness := hchain.witnessed _ (List.mem_of_getElem? h.stormEyeInput)
    rw [hutxo] at hwitness
    refine ⟨parts.stormEyeInput.txin, utxo, ?_, hkeeps.node _ _ hwitness, hasset, hscript, ?_⟩
    · simp [IssuancePset.transaction, h.stormEyeInput]
    · have houtputs := h.outputs_txouts
      rw [IssuancePset.transaction, houtputs, eq_plainOutput hasset hvalue hscript (hkeeps.stormEye _ _ hwitness hasset)]
      rfl
  · intro i asset hasset
    rw [List.getElem?_map, Option.map_eq_some_iff] at hasset
    obtain ⟨token, htoken, rfl⟩ := hasset
    exact h.token_returned hannounced hchain hkeeps txid htoken

end Read

section Announcement

theorem sharedSigner_ok {descriptors : List IssuedUtxoDescriptor} {shared : Option Bytes32}
    (h : Markers.sharedSigner descriptors = .ok shared) : ∃ signer ≠ Markers.noSigner, ∀ descriptor ∈ descriptors,
      descriptor.signer = none ∨ descriptor.signer = some signer := by
  unfold Markers.sharedSigner at h
  cases hsigners : descriptors.filterMap IssuedUtxoDescriptor.signer with
  | nil =>
    refine ⟨Vector.replicate 32 1, by decide, fun descriptor hdescriptor => .inl ?_⟩
    by_contra hsigner
    obtain ⟨signer, hsigner⟩ := Option.ne_none_iff_exists'.mp hsigner
    have hmem := List.mem_filterMap.mpr ⟨descriptor, hdescriptor, hsigner⟩
    rw [hsigners] at hmem
    cases hmem
  | cons signer signers =>
    rw [hsigners] at h
    dsimp only at h
    split_ifs at h with hother hnone
    refine ⟨signer, hnone, fun descriptor hdescriptor => ?_⟩
    cases hsigner : descriptor.signer with
    | none => exact .inl rfl
    | some found =>
      have hmem := List.mem_filterMap.mpr ⟨descriptor, hdescriptor, hsigner⟩
      rw [hsigners, List.mem_cons] at hmem
      rcases hmem with rfl | hmem
      · exact .inr rfl
      · refine .inr (congrArg some ?_)
        by_contra hne
        exact hother (List.any_eq_true.mpr ⟨found, hmem, by simpa using hne⟩)

theorem authOf_le {auth : UtxoAuthMethod} {authKind : UInt8} {authData : Bytes32}
    (h : authOf libraries auth = .ok (authKind, authData)) : authKind ≤ 2 := by
  unfold authOf at h
  split_ifs at h
  · cases hdecoded : decode32 auth.authData "authentication asset id" with
    | error message => simp [hdecoded, Except.map] at h
    | ok data =>
      simp [hdecoded, Except.map] at h
      simp [← h.1]
  · split at h
    · cases h
    · cases h
      decide
  · cases hdecoded : decode32 auth.authData "authentication public key" with
    | error message => simp [hdecoded, Except.map] at h
    | ok data =>
      simp [hdecoded, Except.map] at h
      simp [← h.1]

theorem Accepted.announces
    (h : Accepted libraries programs stormEye (some tick) (some verifier) config now request instructed parts) :
    Markers.descriptorsFromScript parts.descriptorScript = .ok (some (parts.vouchers.map IssuedVoucher.descriptor)) := by
  have hscript := h.script
  unfold Markers.descriptorScript at hscript
  split_ifs at hscript with hmany hnil
  obtain ⟨shared, hshared, -⟩ := Db.except_bind_ok.mp hscript
  obtain ⟨signer, hsigner, hsame⟩ := sharedSigner_ok hshared
  have hannounceable : Markers.Announceable (parts.vouchers.map IssuedVoucher.descriptor) := by
    refine ⟨hnil, Nat.not_lt.mp hmany, signer, hsigner, fun descriptor hdescriptor => ⟨?_, hsame descriptor hdescriptor⟩⟩
    obtain ⟨voucher, hvoucher, rfl⟩ := List.mem_map.mp hdescriptor
    obtain ⟨i, hi⟩ := List.getElem?_of_mem hvoucher
    obtain ⟨requested, -, hanswer⟩ := Loops.forall₂_get h.answers hi
    obtain ⟨details, -, hauth⟩ := hanswer.auth
    exact authOf_le hauth
  obtain ⟨script, hmade, hdecodes⟩ := Markers.descriptors_round_trip hannounceable
  rw [h.script] at hmade
  cases hmade
  exact hdecodes

theorem descriptors_taproot (key : Bytes32) : Markers.descriptorsFromScript (taprootScript key) = .ok none := by
  rfl

theorem descriptorProgram_taproot {stormEyeAssetId : Bytes32} {descriptor : IssuedUtxoDescriptor} {script : List UInt8}
    (h : descriptorProgram libraries programs stormEyeAssetId descriptor = .ok script) : ∃ key, script = taprootScript key := by
  unfold descriptorProgram voucherProgram at h
  obtain ⟨arguments, -, h⟩ := Db.except_bind_ok.mp h
  cases hsigner : descriptor.signer with
  | none =>
    rw [hsigner] at h
    cases h
    exact ⟨_, rfl⟩
  | some signer =>
    rw [hsigner] at h
    dsimp only at h
    split_ifs at h
    cases h
    exact ⟨_, rfl⟩

theorem Accepted.describedBy
    (h : Accepted libraries programs stormEye (some tick) (some verifier) config now request instructed parts)
    (hdeployed : Deployed libraries programs stormEye (some tick) (some verifier))
    (hannounced : Announced libraries stormEye tick verifier)
    (hchain : OnChain libraries programs hashes chain request.tx) (hfee : 0 < config.operationalFeeSats.toNat) :
    DescribedBy programs (request.tx.outputs.map PsetOutput.toTxout) (parts.vouchers.map IssuedVoucher.descriptor) := by
  obtain ⟨rest, houtputs, hrest⟩ := (h.sound hdeployed hchain hfee).outputs
  refine ⟨_, _, _, houtputs, h.announces, rfl, rfl, fun other hother => ?_⟩
  simp only [List.cons_append, List.append_assoc, List.mem_cons, List.mem_append] at hother
  rcases hother with rfl | hreturned | hissued | hreserve | hlast
  · exact hannounced.scripts stormEye (by simp)
  · obtain ⟨token, htoken, rfl⟩ := List.mem_map.mp hreturned
    obtain ⟨i, hi⟩ := List.getElem?_of_mem htoken
    have hkept := h.kept i token hi
    have hasset := h.asset_of_token htoken
    rw [hkept.returned.2, hkept.script, (hannounced.templates _ hasset _ hkept.template).1]
    exact hannounced.scripts token.asset (by simp [hasset])
  · obtain ⟨voucher, hvoucher, rfl⟩ := List.mem_map.mp hissued
    obtain ⟨i, hi⟩ := List.getElem?_of_mem hvoucher
    obtain ⟨requested, -, hanswer⟩ := Loops.forall₂_get h.answers hi
    obtain ⟨key, hkey⟩ := descriptorProgram_taproot hanswer.script
    have hscript : voucher.txout.scriptPubkey = voucher.script := rfl
    rw [hscript, hkey]
    exact descriptors_taproot key
  · rw [reserveOutputs, List.mem_iff_getElem] at hreserve
    obtain ⟨i, hi, rfl⟩ := hreserve
    rw [List.getElem_zipWith]
    exact descriptors_taproot _
  · have hlast := hrest.subset hlast
    simp only [List.mem_cons, List.not_mem_nil, or_false] at hlast
    rcases hlast with rfl | rfl
    · exact descriptors_taproot _
    · rfl

end Announcement

section Indexing

/-- A voucher of an accepted round as the indexer finds it. -/
def indexedVoucher (tokens : List (NetworkAsset Bytes32)) (voucher : IssuedVoucher) : DescribedOutput :=
  ⟨voucher.descriptor, tokenIndex tokens voucher.descriptor.signer.isSome, voucher.asset, voucher.txout, voucher.amount⟩

theorem Accepted.getElem?_voucher
    (h : Accepted libraries programs stormEye (some tick) (some verifier) config now request instructed parts) {i : ℕ}
    {voucher : IssuedVoucher} (hvoucher : parts.vouchers[i]? = some voucher) :
    (request.tx.outputs.map PsetOutput.toTxout)[voucher.descriptor.outputIndex.toNat]? = some voucher.txout := by
  obtain ⟨hindex, output, houtput, hasset, hamount, hscript⟩ := h.stands i voucher hvoucher
  rw [hindex, List.getElem?_map, houtput, Option.map_some, h.explicit_output houtput (.inr (by omega)) hasset hamount, hscript]
  rfl

theorem Accepted.getElem?_reserve
    (h : Accepted libraries programs stormEye (some tick) (some verifier) config now request instructed parts)
    (hfee : 0 < config.operationalFeeSats.toNat) (hreserve : 0 < config.tickBurnReserveSats.toNat) {requested : RequestedVoucher}
    (hrequested : requested ∈ requestedVouchers (1 + parts.tokens.length + issuedCount parts.batches) parts.batches.zipIdx) :
    ∃ reserve value, (request.tx.outputs.map PsetOutput.toTxout)[requested.reserveOutput]? = some reserve ∧
      reserve.asset = .explicit programs.policyAsset ∧ reserve.value = .explicit value ∧ 0 < value ∧
        reserve.scriptPubkey = accountScript programs stormEye.assetId requested.owner := by
  obtain ⟨⟨batch, k⟩, hitem, hrequested⟩ := List.mem_flatMap.mp hrequested
  obtain ⟨user, huser, rfl⟩ := List.mem_map.mp hrequested
  have hbatch := List.mem_zipIdx_iff_getElem?.mp hitem
  have hallocated := Issuance.allocate_allocated
    (Issuance.allocateAccountReserves_eq_ok_iff.mp h.accounted.allocated)
  have hreserved := forall₂_reserved h.groups (h.issuedCount_lt hfee) hallocated.reserved
  have hlt := (List.getElem?_eq_some_iff.mp hbatch).1
  dsimp only at hlt hbatch huser ⊢
  obtain ⟨hkbatch, hget⟩ := List.getElem?_eq_some_iff.mp hbatch
  have hkreserve : k < parts.reserves.length := by rw [h.length_reserves]; exact hlt
  have hcovers := (List.forall₂_iff_get.mp hreserved).2 k hkbatch hkreserve
  simp only [List.get_eq_getElem, hget] at hcovers
  have hpositive : 0 < parts.reserves[k].toNat :=
    lt_of_lt_of_le (Nat.mul_pos hreserve (List.length_pos_of_mem huser)) hcovers
  have hkaccount : k < (accountsOf programs stormEye parts.batches parts.groups).length := by
    rw [h.length_accounts]
    exact hlt
  have hat : ((accountsOf programs stormEye parts.batches parts.groups).zip parts.reserves)[k]? =
      some ((accountsOf programs stormEye parts.batches parts.groups)[k], parts.reserves[k]) := by
    rw [List.zip, List.getElem?_zipWith, List.getElem?_eq_getElem hkaccount, List.getElem?_eq_getElem hkreserve]
  obtain ⟨output, houtput, hscript, hasset, hamount⟩ := h.accounted.reserves k _ hat
  refine ⟨output.toTxout, parts.reserves[k].toNat, by rw [List.getElem?_map, houtput, Option.map_some], ?_⟩
  rw [h.explicit_output houtput (.inr (by omega)) hasset hamount]
  refine ⟨rfl, rfl, hpositive, ?_⟩
  have hown : output.scriptPubkey = accountScript programs stormEye.assetId batch.owner := by
    rw [hscript]
    simp only [accountsOf, List.getElem_zipWith, hget]
  exact hown

theorem tokenOf_iff {tokens : List (NetworkAsset Bytes32)} (hkinds : (tokens.map NetworkAsset.kind).Nodup)
    {descriptor : IssuedUtxoDescriptor} {i : ℕ} {asset : NetworkAsset Bytes32} (hasset : tokens[i]? = some asset)
    (hkind : asset.kind = describedKind descriptor) : tokenOf tokens descriptor = .ok i := by
  unfold tokenOf
  rw [Issuance.okOr_eq_ok_iff, List.findIdx?_eq_some_iff_getElem]
  obtain ⟨hlt, hget⟩ := List.getElem?_eq_some_iff.mp hasset
  refine ⟨hlt, by rw [hget]; exact decide_eq_true hkind, fun j hj hsame => ?_⟩
  have hjlt := hj.trans hlt
  have heq : j = i := by
    refine (List.getElem?_inj (by rwa [List.length_map]) hkinds).mp ?_
    rw [List.getElem?_map, List.getElem?_map, hasset, List.getElem?_eq_getElem hjlt, Option.map_some, Option.map_some,
      of_decide_eq_true hsame, hkind]
  omega

theorem Accepted.stands_indexed
    (h : Accepted libraries programs stormEye (some tick) (some verifier) config now request instructed parts)
    (hannounced : Announced libraries stormEye tick verifier) (hfee : 0 < config.operationalFeeSats.toNat)
    (hreserve : 0 < config.tickBurnReserveSats.toNat) (hkinds : ((parts.tokens.map SpentToken.asset).map NetworkAsset.kind).Nodup)
    (txid : Bytes32) {voucher : IssuedVoucher} (hvoucher : voucher ∈ parts.vouchers) :
    (indexedVoucher (parts.tokens.map SpentToken.asset) voucher).Stands libraries programs (request.tx.transaction txid) stormEye
      (parts.tokens.map SpentToken.asset) := by
  obtain ⟨i, hi⟩ := List.getElem?_of_mem hvoucher
  obtain ⟨requested, hrequested, hanswer⟩ := Loops.forall₂_get h.answers hi
  have hown := h.token_of_voucher hvoucher
  have hverifier : voucher.descriptor.isVerifier = issuesVerifier requested.request.kind := by
    rw [IssuedUtxoDescriptor.isVerifier, hanswer.signer]
    cases issuesVerifier requested.request.kind <;> rfl
  have hkind : voucher.asset.kind = describedKind voucher.descriptor := by
    have hasset := hanswer.asset
    rw [describedKind, hverifier]
    split_ifs at hasset ⊢ <;> cases hasset
    · exact hannounced.kinds.2
    · exact hannounced.kinds.1
  refine ⟨tokenOf_iff hkinds hown hkind, hown, h.getElem?_voucher hi, ⟨rfl, rfl⟩, ?_, hanswer.script, ?_⟩
  · intro hsingle
    have hamount := hanswer.amount
    rw [if_pos (by rw [← hverifier]; exact hsingle)] at hamount
    exact hamount
  · have hstands := h.getElem?_reserve hfee hreserve (List.mem_of_getElem? hrequested)
    rw [← hanswer.reserve, ← hanswer.owner] at hstands
    exact hstands

theorem Accepted.indexes_nodup
    (h : Accepted libraries programs stormEye (some tick) (some verifier) config now request instructed parts) :
    (parts.vouchers.map fun voucher => voucher.descriptor.outputIndex).Nodup := by
  have hpositions : (parts.vouchers.map fun voucher => voucher.descriptor.outputIndex.toNat) =
      List.range' (1 + parts.tokens.length) parts.vouchers.length := by
    refine List.ext_getElem (by simp) fun i hi _ => ?_
    rw [List.length_map] at hi
    rw [List.getElem_map, List.getElem_range', Nat.one_mul]
    exact (h.stands i _ (List.getElem?_eq_getElem hi)).1
  refine List.Nodup.of_map UInt32.toNat ?_
  rw [List.map_map]
  exact hpositions ▸ List.nodup_range'

/-- Only the vouchers of an asset hold it openly. -/
theorem Accepted.counts_match
    (h : Accepted libraries programs stormEye (some tick) (some verifier) config now request instructed parts)
    (hdeployed : Deployed libraries programs stormEye (some tick) (some verifier))
    (hannounced : Announced libraries stormEye tick verifier)
    (hchain : OnChain libraries programs hashes chain request.tx) (hfee : 0 < config.operationalFeeSats.toNat) (txid : Bytes32) :
    CountsMatch (request.tx.transaction txid) (parts.tokens.map SpentToken.asset)
      (parts.vouchers.map (indexedVoucher (parts.tokens.map SpentToken.asset))) := by
  intro i asset hasset
  rw [List.getElem?_map, Option.map_eq_some_iff] at hasset
  obtain ⟨token, htoken, rfl⟩ := hasset
  have hown := h.asset_of_token (List.mem_of_getElem? htoken)
  have hpolicy : programs.policyAsset ≠ token.asset.assetId :=
    (hdeployed.vouchers token.asset (by rcases hown with heq | heq <;> simp [heq])).symm
  have hstorm : stormEye.assetId ≠ token.asset.assetId := by
    rcases hown with heq | heq
    · exact heq ▸ hannounced.distinct.1
    · exact heq ▸ hannounced.distinct.2
  obtain ⟨rest, houtputs, hrest⟩ := (h.sound hdeployed hchain hfee).outputs
  have hnone (outputs : List (ChainTxOut Bytes32)) (hother : ∀ output ∈ outputs,
      output.asset.getExplicit ≠ some token.asset.assetId) :
      (outputs.filter fun output => output.asset.getExplicit = some token.asset.assetId) = [] :=
    List.filter_eq_nil_iff.mpr fun output houtput heq => hother output houtput (of_decide_eq_true heq)
  have hplain (script : List UInt8) (amount : ℕ) (held : Bytes32) :
      (plainOutput script amount held).asset.getExplicit = some held := rfl
  have htokens := hnone (parts.tokens.map fun token => token.output.toTxout) fun output houtput => by
    obtain ⟨other, hother, rfl⟩ := List.mem_map.mp houtput
    obtain ⟨k, hk⟩ := List.getElem?_of_mem hother
    obtain ⟨⟨commitment, hblinded⟩, -⟩ := (h.kept k other hk).blinded
    rw [hblinded]
    simp [ChainField.getExplicit]
  have hreserves := hnone (reserveOutputs programs stormEye parts.batches parts.reserves) fun output houtput => by
    obtain ⟨k, hk, rfl⟩ := List.mem_iff_getElem.mp houtput
    simp only [reserveOutputs, List.getElem_zipWith, hplain]
    simpa using hpolicy
  have hlast := hnone rest fun output houtput => by
    have hmem := hrest.subset houtput
    simp only [List.mem_cons, List.not_mem_nil, or_false] at hmem
    rcases hmem with rfl | rfl <;> simpa [hplain] using hpolicy
  have hvouchers : ((parts.vouchers.map IssuedVoucher.txout).filter fun output =>
      output.asset.getExplicit = some token.asset.assetId).length =
      (parts.vouchers.filter fun voucher => voucher.asset.assetId = token.asset.assetId).length := by
    rw [List.filter_map, List.length_map]
    refine congrArg List.length (List.filter_congr fun voucher _ => ?_)
    simp [IssuedVoucher.txout, hplain]
  have hitems : ((parts.vouchers.map (indexedVoucher (parts.tokens.map SpentToken.asset))).filter fun item => item.token = i).length =
      (parts.vouchers.filter fun voucher => voucher.asset.assetId = token.asset.assetId).length := by
    rw [List.filter_map, List.length_map]
    refine congrArg List.length (List.filter_congr fun voucher hvoucher => ?_)
    simp [indexedVoucher, h.tokenIndex_iff hdeployed htoken hvoucher]
  rw [hitems, IssuancePset.transaction, houtputs]
  simp only [List.filter_append, List.length_append, List.filter_cons, hplain, htokens, hreserves, hlast, hvouchers,
    Option.some.injEq, hpolicy, hstorm]
  simp

theorem Accepted.totals_match
    (h : Accepted libraries programs stormEye (some tick) (some verifier) config now request instructed parts) (txid : Bytes32) :
    TotalsMatch (request.tx.transaction txid) (parts.tokens.map SpentToken.asset)
      (parts.vouchers.map (indexedVoucher (parts.tokens.map SpentToken.asset))) := by
  intro i hi
  have hlt : i < parts.tokens.length := by simpa using hi
  have htoken := List.getElem?_eq_getElem hlt
  obtain ⟨hamount, -, hcommitment, -, -⟩ := h.reissued i _ htoken
  refine ⟨parts.tokens[i].input.txin, by simp [IssuancePset.transaction, (h.kept i _ htoken).input], ?_⟩
  have htotal := @getD_issuedTotals (parts.tokens.map SpentToken.asset)
    (parts.vouchers.map (indexedVoucher (parts.tokens.map SpentToken.asset))) i hi
  have hsame : describedAmounts (parts.vouchers.map (indexedVoucher (parts.tokens.map SpentToken.asset))) =
      voucherAmounts (parts.tokens.map SpentToken.asset) parts.vouchers := by
    rw [describedAmounts, List.map_map]
    rfl
  rw [hsame, List.length_map] at htotal
  rw [List.getD_eq_getElem?_getD, htotal, Option.getD_some] at hamount
  simp [IssuanceInput.txin, IssuanceInput.assetIssuance, hamount, hcommitment, issuedField]

theorem Accepted.indexed
    (h : Accepted libraries programs stormEye (some tick) (some verifier) config now request instructed parts)
    (hdeployed : Deployed libraries programs stormEye (some tick) (some verifier))
    (hannounced : Announced libraries stormEye tick verifier)
    (hchain : OnChain libraries programs hashes chain request.tx) (hfee : 0 < config.operationalFeeSats.toNat)
    (hreserve : 0 < config.tickBurnReserveSats.toNat) (hkinds : ((parts.tokens.map SpentToken.asset).map NetworkAsset.kind).Nodup)
    (txid : Bytes32) :
    Indexed libraries programs (request.tx.transaction txid) stormEye (parts.tokens.map SpentToken.asset)
      (parts.vouchers.map (indexedVoucher (parts.tokens.map SpentToken.asset))) := by
  have hdescribed := h.describedBy hdeployed hannounced hchain hfee
  have hsame : describedAmounts (parts.vouchers.map (indexedVoucher (parts.tokens.map SpentToken.asset))) =
      voucherAmounts (parts.tokens.map SpentToken.asset) parts.vouchers := by
    rw [describedAmounts, List.map_map]
    rfl
  refine ⟨?_, ?_, ?_, ?_, h.counts_match hdeployed hannounced hchain hfee txid, h.totals_match txid⟩
  · rw [List.map_map]
    exact hdescribed
  · intro item hitem
    obtain ⟨voucher, hvoucher, rfl⟩ := List.mem_map.mp hitem
    exact h.stands_indexed hannounced hfee hreserve hkinds txid hvoucher
  · rw [List.map_map]
    exact h.indexes_nodup
  · rw [hsame, List.length_map]
    exact h.fits

/-- Once the chain has taken a round that a signer accepts, the indexer finds in it the vouchers that its batches asked for,
and nothing else. -/
theorem accepted_round_indexed (hdeployed : Deployed libraries programs stormEye (some tick) (some verifier))
    (hannounced : Announced libraries stormEye tick verifier)
    (hchain : OnChain libraries programs hashes chain request.tx)
    (hissues : IssuesSoundly programs hashes chain.openings stormEye tick verifier request.tx)
    (hkeeps : KeptOnChain libraries chain getRawTransaction stormEye tick verifier)
    (hfee : 0 < config.operationalFeeSats.toNat) (hreserve : 0 < config.tickBurnReserveSats.toNat)
    (h : validateExecuteRequest libraries programs stormEye (some tick) (some verifier) config now request = .ok instructed)
    (txid : Bytes32) (height : ℕ) :
    ∃ parts, SoundRound libraries programs chain.openings stormEye (some tick) (some verifier) config now request instructed
        parts ∧
      issuedByTransaction libraries programs getRawTransaction height stormEye [tick, verifier] (request.tx.transaction txid) =
        .ok (parts.vouchers.map fun voucher => indexedRow (request.tx.transaction txid) height voucher.asset voucher.descriptor
          voucher.amount voucher.script) := by
  obtain ⟨parts, haccepted⟩ := validateExecuteRequest_ok h
  have hreissues := haccepted.reissues hdeployed hannounced hchain hfee hissues hkeeps txid
  have hindexed := haccepted.indexed hdeployed hannounced hchain hfee hreserve hreissues.kinds txid
  refine ⟨parts, haccepted.sound hdeployed hchain hfee, issuedByTransaction_ok.mpr (.inr ⟨_, hreissues, _, hindexed, ?_⟩)⟩
  rw [List.map_map]
  rfl

end Indexing

section Plain

/-- The node that has the transactions of the chain. -/
def plainRawTransaction (txid : Bytes32) : Except IndexerError Transaction :=
  .ok ⟨txid, [], if txid = keyOf 20 then [plainStormEyeUtxo.txout] else if txid = keyOf 21 then [plainToken]
    else List.replicate 8 plainFee⟩

def plainTransaction : Transaction := plainPset.transaction (keyOf 30)

theorem plain_announced : Announced plainLibraries plainStormEye plainTick plainVerifier where
  kinds := ⟨rfl, rfl⟩
  entropies := ⟨keyOf 9, keyOf 19, rfl, rfl, by decide +kernel⟩
  templates asset hasset template htemplate := by
    obtain ⟨hscript, hid⟩ := plain_template hasset htemplate
    refine ⟨hscript, fun secrets hsecrets => ?_⟩
    rw [← hid, hsecrets]
    rfl
  distinct := by decide +kernel
  scripts asset hasset := by
    simp only [List.mem_cons, List.not_mem_nil, or_false] at hasset
    rcases hasset with rfl | rfl | rfl <;> exact descriptors_taproot _

theorem plain_issues : IssuesSoundly plainPrograms plainHashes plainOpenings plainStormEye plainTick plainVerifier plainPset where
  positive := by decide +kernel
  fresh := by decide +kernel
  reissues input hinput hissued _ := by
    simp only [plainPset, List.mem_cons, List.not_mem_nil, or_false] at hinput
    rcases hinput with rfl | rfl | rfl
    · exact absurd hissued (by decide +kernel)
    · exact ⟨rfl, plainToken, _, rfl, rfl⟩
    · exact absurd hissued (by decide +kernel)

theorem plain_utxos {outpoint : Bytes32 × ℕ} {utxo : ChainTxOut Bytes32} (h : plainLedger.utxos outpoint = some utxo) :
    outpoint = (keyOf 20, 0) ∧ utxo = plainStormEyeUtxo.txout ∨ outpoint = (keyOf 21, 0) ∧ utxo = plainToken ∨
      outpoint = (keyOf 0xbb, 7) ∧ utxo = plainFee := by
  unfold plainLedger at h
  dsimp only at h
  split_ifs at h with hstorm htoken hfee
  · exact .inl ⟨hstorm, (Option.some.inj h).symm⟩
  · exact .inr (.inl ⟨htoken, (Option.some.inj h).symm⟩)
  · exact .inr (.inr ⟨hfee, (Option.some.inj h).symm⟩)

theorem plain_keeps : KeptOnChain plainLibraries plainLedger plainRawTransaction plainStormEye plainTick plainVerifier where
  stormEye outpoint utxo h hasset := by
    rcases plain_utxos h with ⟨-, rfl⟩ | ⟨-, rfl⟩ | ⟨-, rfl⟩
    · exact ⟨rfl, rfl, rfl⟩
    · cases hasset
    · exact ⟨rfl, rfl, rfl⟩
  tokens outpoint utxo h asset hasset held hheld hid := by
    have hheld := Option.mem_def.mp hheld
    rcases plain_utxos h with ⟨-, rfl⟩ | ⟨-, rfl⟩ | ⟨-, rfl⟩
    · have hcontent : plainStormEyeUtxo.txout.content plainOpenings = some (keyOf 6, 10) := rfl
      obtain rfl := Option.some.inj (hheld.symm.trans hcontent)
      rcases hasset with rfl | rfl <;> exact absurd hid (by decide +kernel)
    · decide +kernel
    · have hcontent : plainFee.content plainOpenings = some (keyOf 1, 450) := rfl
      obtain rfl := Option.some.inj (hheld.symm.trans hcontent)
      rcases hasset with rfl | rfl <;> exact absurd hid (by decide +kernel)
  node outpoint utxo h := by
    rcases plain_utxos h with ⟨rfl, rfl⟩ | ⟨rfl, rfl⟩ | ⟨rfl, rfl⟩ <;> decide +kernel

/-- The Tick of the round that a signer accepts is monitored from its block on. -/
theorem accepted_round_indexed_plain : ∃ parts, SoundRound plainLibraries plainPrograms plainOpenings plainStormEye
      (some plainTick) (some plainVerifier) plainConfig 1010 plainRequest none parts ∧
    issuedByTransaction plainLibraries plainPrograms plainRawTransaction 42 plainStormEye [plainTick, plainVerifier]
      plainTransaction = .ok (parts.vouchers.map fun voucher => indexedRow plainTransaction 42 voucher.asset voucher.descriptor
        voucher.amount voucher.script) :=
  accepted_round_indexed plain_deployed plain_announced plain_onChain plain_issues plain_keeps (by decide) (by decide)
    validateExecuteRequest_plain (keyOf 30) 42

end Plain

end IssuanceRound

namespace IssuedOutputs

open IssuanceRound

end IssuedOutputs

end PriceOracle
