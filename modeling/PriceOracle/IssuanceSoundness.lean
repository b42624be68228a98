import PriceOracle.IssuanceLayout

/-!
# What a signer of a round signs

An accepted transaction that consensus accepts as well: the Treasury's fee and the miner's are the
two outputs behind the descriptor. The validator looks for them among all outputs, and it reads
explicit fields that a blinded token output may have beside its commitments; only the balance of the
policy asset on the chain rules such an output out.
-/

namespace PriceOracle

/-- The transaction of a PSET as consensus balances it. -/
def IssuancePset.chainTx (hashes : IssuanceHashes) (openings : Openings Bytes32) (pset : IssuancePset) :
    ChainTx Bytes32 where
  inputs := pset.inputs.map IssuanceInput.outpoint
  issued := pset.inputs.flatMap fun input => ChainTxIn.issued hashes openings ⟨input.outpoint, false, input.assetIssuance⟩
  outputs := pset.outputs.map PsetOutput.toTxout

namespace IssuanceRound

open Issuance (okOr okOr_eq_ok_iff)

variable {libraries : IssuanceLibraries} {programs : IssuancePrograms} {stormEye : NetworkAsset Bytes32}
  {tickAsset verifierAsset : Option (NetworkAsset Bytes32)} {config : Issuance.ProtocolConfig} {now : ℕ}
  {request : ExecuteUserRequests} {instructed : Option PriceFeedData} {parts : AcceptedParts}

/-- The assets of a network are not the policy asset, tokens stand at some script, and no Account is the Treasury. -/
structure Deployed (libraries : IssuanceLibraries) (programs : IssuancePrograms) (stormEye : NetworkAsset Bytes32)
    (tickAsset verifierAsset : Option (NetworkAsset Bytes32)) : Prop where
  stormEyeAsset : stormEye.assetId ≠ programs.policyAsset
  vouchers : ∀ asset, tickAsset = some asset ∨ verifierAsset = some asset → asset.assetId ≠ programs.policyAsset
  distinct : ∀ tick verifier, tickAsset = some tick → verifierAsset = some verifier → tick.assetId ≠ verifier.assetId
  templates : ∀ asset, tickAsset = some asset ∨ verifierAsset = some asset → ∀ template,
    tokenTxout libraries asset = .ok template → template.scriptPubkey ≠ [] ∧
      ∀ secrets, libraries.unblind template = some secrets → secrets.1 ≠ programs.policyAsset
  accounts : ∀ owner, programs.accountKey stormEye.assetId owner ≠ programs.treasuryKey stormEye.assetId

/-- The chain that takes a transaction: the witnesses of the PSET are the outputs it spends, proofs and unblinding
are sound, and no issuance makes the policy asset. -/
structure OnChain (libraries : IssuanceLibraries) (programs : IssuancePrograms) (hashes : IssuanceHashes)
    (chain : ChainLedger Bytes32) (pset : IssuancePset) : Prop where
  valid : chain.Valid (pset.chainTx hashes chain.openings)
  witnessed : ∀ input ∈ pset.inputs, chain.utxos input.outpoint = input.witnessUtxo
  issued : ∀ issued ∈ (pset.chainTx hashes chain.openings).issued, issued.1 ≠ programs.policyAsset
  unblinds : ∀ txout secrets, libraries.unblind txout = some secrets → txout.content chain.openings = some secrets
  proves : ∀ proof asset commitment, libraries.blindAssetProofVerify proof asset commitment = true →
    chain.openings.asset commitment = asset
  provesValue : ∀ proof value commitment valueCommitment,
    libraries.blindValueProofVerify proof value commitment valueCommitment = true →
      chain.openings.value (chain.openings.asset commitment) valueCommitment = value

section Counts

theorem length_requestedVouchers (first : ℕ) (items : List (IssuedBatch × ℕ)) :
    (requestedVouchers first items).length = issuedCount (items.map Prod.fst) := by
  induction items with
  | nil => rfl
  | cons item items ih =>
    simp only [requestedVouchers, List.flatMap_cons, List.length_append, List.length_map, issuedCount, List.map_cons,
      List.sum_cons] at ih ⊢
    rw [ih]

theorem Accepted.length_vouchers
    (h : Accepted libraries programs stormEye tickAsset verifierAsset config now request instructed parts) :
    parts.vouchers.length = issuedCount parts.batches := by
  rw [← h.answers.length_eq, length_requestedVouchers, List.zipIdx_map_fst]

theorem Accepted.length_accounts
    (h : Accepted libraries programs stormEye tickAsset verifierAsset config now request instructed parts) :
    (accountsOf programs stormEye parts.batches parts.groups).length = parts.batches.length := by
  rw [accountsOf, List.length_zipWith, h.groups.length_eq, Nat.min_self]

theorem Accepted.length_reserves
    (h : Accepted libraries programs stormEye tickAsset verifierAsset config now request instructed parts) :
    parts.reserves.length = parts.batches.length := by
  have hreserved :=
    (Issuance.allocate_allocated (Issuance.allocateAccountReserves_eq_ok_iff.mp h.accounted.allocated)).reserved
  rw [← hreserved.length_eq, List.length_map, h.length_accounts]

theorem Accepted.length_outputs
    (h : Accepted libraries programs stormEye tickAsset verifierAsset config now request instructed parts) :
    request.tx.outputs.length = 1 + parts.tokens.length + issuedCount parts.batches + parts.batches.length + 1 + 2 := by
  rw [h.accounted.length, h.length_accounts]

end Counts

section Positions

/-- What stands at a position of the outputs. -/
theorem Accepted.position
    (h : Accepted libraries programs stormEye tickAsset verifierAsset config now request instructed parts) {i : ℕ}
    {output : PsetOutput Bytes32} (houtput : request.tx.outputs[i]? = some output) :
    (i = 0 ∧ output.asset = some stormEye.assetId) ∨
      (∃ k token, i = 1 + k ∧ parts.tokens[k]? = some token ∧ output = token.output) ∨
      (∃ voucher ∈ parts.vouchers, output.asset = some voucher.asset.assetId) ∨
      (∃ batch ∈ parts.batches, output.scriptPubkey = accountScript programs stormEye.assetId batch.owner) ∨
      output.scriptPubkey = parts.descriptorScript ∨
      output ∈ request.tx.outputs.drop (1 + parts.tokens.length + issuedCount parts.batches + parts.batches.length + 1) := by
  have hvouchers := h.length_vouchers
  have haccounts := h.length_accounts
  have hreserves := h.length_reserves
  by_cases hstorm : i = 0
  · subst hstorm
    obtain ⟨kept, hkept, hasset, -⟩ := h.stormEyeKept
    obtain rfl : output = kept := Option.some.inj (houtput.symm.trans hkept)
    exact .inl ⟨rfl, (PsetOutput.toTxout_asset.mp hasset).2⟩
  by_cases htoken : i < 1 + parts.tokens.length
  · obtain ⟨k, rfl⟩ : ∃ k, i = 1 + k := ⟨i - 1, by omega⟩
    have hk : parts.tokens[k]? = some parts.tokens[k] := List.getElem?_eq_getElem (by omega)
    exact .inr (.inl ⟨k, _, rfl, hk, Option.some.inj (houtput.symm.trans (h.kept k _ hk).output)⟩)
  by_cases hvoucher : i < 1 + parts.tokens.length + issuedCount parts.batches
  · obtain ⟨k, rfl⟩ : ∃ k, i = 1 + parts.tokens.length + k := ⟨i - (1 + parts.tokens.length), by omega⟩
    have hk : parts.vouchers[k]? = some parts.vouchers[k] := List.getElem?_eq_getElem (by omega)
    obtain ⟨-, found, hfound, hasset, -⟩ := h.stands k _ hk
    rw [Option.some.inj (houtput.symm.trans hfound)]
    exact .inr (.inr (.inl ⟨_, List.getElem_mem _, hasset⟩))
  by_cases hreserve : i < 1 + parts.tokens.length + issuedCount parts.batches + parts.batches.length
  · obtain ⟨k, rfl⟩ : ∃ k, i = 1 + parts.tokens.length + issuedCount parts.batches + k :=
      ⟨i - (1 + parts.tokens.length + issuedCount parts.batches), by omega⟩
    have hitem : ((accountsOf programs stormEye parts.batches parts.groups).zip parts.reserves)[k]? =
        some ((accountsOf programs stormEye parts.batches parts.groups)[k], parts.reserves[k]) := by
      rw [List.zip, List.getElem?_zipWith, List.getElem?_eq_getElem, List.getElem?_eq_getElem]
    obtain ⟨found, hfound, hscript, -⟩ := h.accounted.reserves k _ hitem
    rw [Option.some.inj (houtput.symm.trans hfound)]
    refine .inr (.inr (.inr (.inl ⟨parts.batches[k], List.getElem_mem _, ?_⟩)))
    rw [hscript]
    simp only [accountsOf, List.getElem_zipWith]
  by_cases hdescriptor : i = 1 + parts.tokens.length + issuedCount parts.batches + parts.batches.length
  · subst hdescriptor
    obtain ⟨found, hfound, -, -, hscript⟩ := h.descriptor
    rw [Option.some.inj (houtput.symm.trans hfound)]
    exact .inr (.inr (.inr (.inr (.inl hscript))))
  · refine .inr (.inr (.inr (.inr (.inr ?_))))
    obtain ⟨k, rfl⟩ : ∃ k, i = 1 + parts.tokens.length + issuedCount parts.batches + parts.batches.length + 1 + k :=
      ⟨i - (1 + parts.tokens.length + issuedCount parts.batches + parts.batches.length + 1), by omega⟩
    rw [← List.getElem?_drop] at houtput
    exact List.mem_of_getElem? houtput

end Positions

section Balance

/-- An explicit output holds of the policy asset what the validator counts for it. -/
theorem content_of_isFullyExplicit (openings : Openings Bytes32) {policyAsset : Bytes32} {output : PsetOutput Bytes32}
    (h : output.isFullyExplicit = true) :
    contentOf policyAsset (output.toTxout.content openings) = policyAmount policyAsset output := by
  have hfields := h
  unfold PsetOutput.isFullyExplicit at hfields
  simp only [Bool.and_eq_true, Option.isSome_iff_exists] at hfields
  obtain ⟨⟨⟨⟨⟨⟨⟨⟨⟨⟨⟨amount, hamount⟩, ⟨asset, hasset⟩⟩, -⟩, -⟩, -⟩, -⟩, -⟩, -⟩, -⟩, -⟩, -⟩ := hfields
  have htxout := VotingReshape.toTxout_of_isFullyExplicit h hasset hamount
  have hcontent : output.toTxout.content openings = some (asset, amount) :=
    ChainTxOut.content_explicit (by rw [htxout]; rfl) (by rw [htxout]; rfl)
  rw [hcontent, policyAmount, hasset, hamount]
  simp [contentOf, eq_comm]

theorem Accepted.outputs_eq
    (h : Accepted libraries programs stormEye tickAsset verifierAsset config now request instructed parts) :
    request.tx.outputs = request.tx.outputs.take 1 ++ parts.tokens.map SpentToken.output ++
      request.tx.outputs.drop (1 + parts.tokens.length) := by
  have htokens : ((request.tx.outputs.drop 1).take parts.tokens.length).map id = parts.tokens.map SpentToken.output :=
    segment_map fun i token htoken => ⟨token.output, (h.kept i token htoken).output, rfl⟩
  rw [List.map_id] at htokens
  rw [← htokens, List.append_assoc, ← drop_segment, List.take_append_drop]

theorem Accepted.inputs_eq
    (h : Accepted libraries programs stormEye tickAsset verifierAsset config now request instructed parts) :
    request.tx.inputs = parts.stormEyeInput :: parts.tokens.map SpentToken.input ++ parts.groups.flatten := by
  have htokens : ((request.tx.inputs.drop 1).take parts.tokens.length).map id = parts.tokens.map SpentToken.input :=
    segment_map fun i token htoken => ⟨token.input, (h.kept i token htoken).input, rfl⟩
  rw [List.map_id] at htokens
  have hhead : request.tx.inputs.take 1 = [parts.stormEyeInput] := by
    have hfirst := h.stormEyeInput
    cases hinputs : request.tx.inputs with
    | nil => simp [hinputs] at hfirst
    | cons input inputs =>
      rw [hinputs] at hfirst
      cases hfirst
      rfl
  rw [← htokens, ← h.inputs, List.cons_append, ← drop_segment, ← List.singleton_append, ← hhead, List.take_append_drop]

/-- What the fee UTXOs of a round hold together. -/
def feeFunds (groups : List (List IssuanceInput)) : ℕ := (groups.flatten.map heldValue).sum

/-- The value that the output behind an input holds of the policy asset. -/
def spentPolicy (openings : Openings Bytes32) (policyAsset : Bytes32) (input : IssuanceInput) : ℕ :=
  contentOf policyAsset (input.witnessUtxo.bind (ChainTxOut.content openings))

theorem contentOf_of_ne {asset held : Bytes32} {value : ℕ} (h : held ≠ asset) : contentOf asset (some (held, value)) = 0 := by
  simp [contentOf, h]

theorem content_confidential {openings : Openings Bytes32} {output : ChainTxOut Bytes32} {commitment valueCommitment : List UInt8}
    (hasset : output.asset = .confidential commitment) (hvalue : output.value = .confidential valueCommitment) :
    output.content openings =
      some (openings.asset commitment, openings.value (openings.asset commitment) valueCommitment) := by
  rw [ChainTxOut.content, ChainTxOut.heldAsset, hasset, hvalue]
  rfl

variable {hashes : IssuanceHashes} {chain : ChainLedger Bytes32}

/-- A token is of another asset than the policy asset. -/
theorem Accepted.token_secrets
    (h : Accepted libraries programs stormEye tickAsset verifierAsset config now request instructed parts)
    (hdeployed : Deployed libraries programs stormEye tickAsset verifierAsset) {token : SpentToken}
    (htoken : token ∈ parts.tokens) :
    ∃ i, TokenKept libraries request.tx (1 + i) token ∧ token.template.scriptPubkey ≠ [] ∧
      token.secrets.1 ≠ programs.policyAsset := by
  obtain ⟨i, hi⟩ := List.getElem?_of_mem htoken
  have hkept := h.kept i token hi
  obtain ⟨-, -, htokens⟩ := roundTokens_ok.mp h.tokens
  have hasset : tickAsset = some token.asset ∨ verifierAsset = some token.asset := by
    have hmem : token.asset ∈ parts.tokens.map SpentToken.asset := List.mem_map_of_mem htoken
    rw [htokens, List.mem_append] at hmem
    rcases hmem with hmem | hmem
    · left
      split_ifs at hmem
      · exact Option.mem_toList.mp hmem
      · simp at hmem
    · right
      split_ifs at hmem
      · exact Option.mem_toList.mp hmem
      · simp at hmem
  obtain ⟨hscript, hpolicy⟩ := hdeployed.templates token.asset hasset token.template hkept.template
  exact ⟨i, hkept, hscript, hpolicy token.secrets hkept.secrets⟩

/-- The inputs of an accepted round bring its fee funds, and nothing else of the policy asset. -/
theorem Accepted.spentPolicy_sum
    (h : Accepted libraries programs stormEye tickAsset verifierAsset config now request instructed parts)
    (hdeployed : Deployed libraries programs stormEye tickAsset verifierAsset)
    (hchain : OnChain libraries programs hashes chain request.tx) :
    (request.tx.inputs.map (spentPolicy chain.openings programs.policyAsset)).sum = feeFunds parts.groups := by
  have hstorm : spentPolicy chain.openings programs.policyAsset parts.stormEyeInput = 0 := by
    obtain ⟨utxo, hutxo, hasset, hvalue, -⟩ := h.stormEyeSpent
    rw [spentPolicy, hutxo, Option.bind_some, ChainTxOut.content_explicit hasset hvalue]
    exact contentOf_of_ne hdeployed.stormEyeAsset
  have htokens : ((parts.tokens.map SpentToken.input).map (spentPolicy chain.openings programs.policyAsset)).sum = 0 := by
    rw [List.sum_eq_zero_iff]
    intro amount hamount
    obtain ⟨input, hinput, rfl⟩ := List.mem_map.mp hamount
    obtain ⟨token, htoken, rfl⟩ := List.mem_map.mp hinput
    obtain ⟨i, hkept, -, hpolicy⟩ := h.token_secrets hdeployed htoken
    obtain ⟨proof, commitment, -, hasset, hproof⟩ := hkept.asset
    obtain ⟨-, -, valueCommitment, -, -, hvalue, -⟩ := hkept.value
    rw [spentPolicy, hkept.spent, Option.bind_some, content_confidential hasset hvalue,
      hchain.proves proof _ commitment hproof]
    exact contentOf_of_ne hpolicy
  have hfees : (parts.groups.flatten.map (spentPolicy chain.openings programs.policyAsset)) =
      parts.groups.flatten.map heldValue := by
    refine List.map_congr_left fun input hinput => ?_
    rw [← h.inputs] at hinput
    obtain ⟨utxo, value, hutxo, hasset, hvalue⟩ := h.accounted.funded input hinput
    rw [spentPolicy, hutxo, Option.bind_some, ChainTxOut.content_explicit hasset hvalue, heldValue, hutxo, Option.bind_some,
      hvalue]
    simp [contentOf, ChainField.getExplicit]
  rw [h.inputs_eq, List.cons_append, List.map_cons, List.sum_cons, List.map_append, List.sum_append, hstorm, htokens, hfees,
    feeFunds]
  omega

/-- No token output passes for one of the policy asset. -/
theorem Accepted.token_amount
    (h : Accepted libraries programs stormEye tickAsset verifierAsset config now request instructed parts)
    (hdeployed : Deployed libraries programs stormEye tickAsset verifierAsset)
    (hchain : OnChain libraries programs hashes chain request.tx) {token : SpentToken} (htoken : token ∈ parts.tokens) :
    policyAmount programs.policyAsset token.output = 0 := by
  have hcontent : ∀ output ∈ parts.tokens.map SpentToken.output,
      contentOf programs.policyAsset (output.toTxout.content chain.openings) = 0 := by
    intro output houtput
    obtain ⟨other, hother, rfl⟩ := List.mem_map.mp houtput
    obtain ⟨i, hkept, -, hpolicy⟩ := h.token_secrets hdeployed hother
    rw [hchain.unblinds _ _ hkept.returned.1]
    exact contentOf_of_ne hpolicy
  have hexplicit (outputs : List (PsetOutput Bytes32)) (hall : ∀ output ∈ outputs, output.isFullyExplicit = true) :
      (outputs.map fun output => contentOf programs.policyAsset (output.toTxout.content chain.openings)) =
        outputs.map (policyAmount programs.policyAsset) :=
    List.map_congr_left fun output houtput => content_of_isFullyExplicit _ (hall output houtput)
  have hhead : ∀ output ∈ request.tx.outputs.take 1, output.isFullyExplicit = true := by
    intro output houtput
    obtain ⟨i, hi⟩ := List.getElem?_of_mem houtput
    have hlt := (List.getElem?_eq_some_iff.mp hi).1
    rw [List.length_take] at hlt
    rw [List.getElem?_take_of_lt (by omega)] at hi
    rcases h.accounted.explicit i output hi with hbetween | hfull
    · omega
    · exact hfull
  have htail : ∀ output ∈ request.tx.outputs.drop (1 + parts.tokens.length), output.isFullyExplicit = true := by
    intro output houtput
    obtain ⟨i, hi⟩ := List.getElem?_of_mem houtput
    rw [List.getElem?_drop] at hi
    rcases h.accounted.explicit _ output hi with hbetween | hfull
    · omega
    · exact hfull
  -- The chain and the validator count the same, but for what token outputs say of the policy asset.
  have hbalanced := hchain.valid.balanced programs.policyAsset
  have hissued : (((request.tx.chainTx hashes chain.openings).issued).map fun issued =>
      contentOf programs.policyAsset (some issued)).sum = 0 := by
    rw [List.sum_eq_zero_iff]
    intro amount hamount
    obtain ⟨issued, hissued, rfl⟩ := List.mem_map.mp hamount
    exact contentOf_of_ne (hchain.issued issued hissued)
  have hspent : ((request.tx.chainTx hashes chain.openings).inputs.map fun outpoint =>
      contentOf programs.policyAsset ((chain.utxos outpoint).bind (ChainTxOut.content chain.openings))).sum =
        feeFunds parts.groups := by
    rw [← h.spentPolicy_sum hdeployed hchain]
    simp only [IssuancePset.chainTx, List.map_map]
    refine congrArg List.sum (List.map_congr_left fun input hinput => ?_)
    rw [Function.comp_apply, hchain.witnessed input hinput]
    rfl
  rw [hspent, hissued, Nat.add_zero] at hbalanced
  have hcounted := h.accounted.balanced
  rw [h.inputs] at hcounted
  change feeFunds parts.groups = _ at hcounted
  rw [hbalanced] at hcounted
  simp only [IssuancePset.chainTx, List.map_map] at hcounted
  rw [h.outputs_eq] at hcounted
  simp only [List.map_append, List.sum_append, Function.comp_def] at hcounted
  rw [hexplicit _ hhead, hexplicit _ htail] at hcounted
  have hzero : ((parts.tokens.map SpentToken.output).map fun output =>
      contentOf programs.policyAsset (output.toTxout.content chain.openings)).sum = 0 := by
    rw [List.sum_eq_zero_iff]
    intro amount hamount
    obtain ⟨output, houtput, rfl⟩ := List.mem_map.mp hamount
    exact hcontent output houtput
  rw [hzero] at hcounted
  have hle : policyAmount programs.policyAsset token.output ≤
      ((parts.tokens.map SpentToken.output).map (policyAmount programs.policyAsset)).sum :=
    List.single_le_sum (by simp) _ (List.mem_map_of_mem (List.mem_map_of_mem htoken))
  omega

end Balance

section Tail

variable {hashes : IssuanceHashes} {chain : ChainLedger Bytes32}

/-- An explicit output of a transaction. -/
def plainOutput (script : List UInt8) (amount : ℕ) (asset : Bytes32) : ChainTxOut Bytes32 :=
  (PsetOutput.new script amount asset).toTxout

theorem head_descriptorScript {descriptors : List IssuedUtxoDescriptor} {script : List UInt8}
    (h : Markers.descriptorScript descriptors = .ok script) : script.head? = some 0x6a := by
  unfold Markers.descriptorScript at h
  split_ifs at h
  obtain ⟨signer, -, h⟩ := Db.except_bind_ok.mp h
  cases h
  rfl

/-- What neither a token nor any other output in its place can be stands behind the descriptor. -/
theorem Accepted.mem_rest
    (h : Accepted libraries programs stormEye tickAsset verifierAsset config now request instructed parts)
    (hdeployed : Deployed libraries programs stormEye tickAsset verifierAsset) {output : PsetOutput Bytes32}
    (houtput : output ∈ request.tx.outputs) (hasset : output.asset = some programs.policyAsset)
    (htoken : ∀ token ∈ parts.tokens, output ≠ token.output)
    (haccount : ∀ owner, output.scriptPubkey ≠ accountScript programs stormEye.assetId owner)
    (hscript : output.scriptPubkey.head? ≠ some 0x6a) :
    output ∈ request.tx.outputs.drop (1 + parts.tokens.length + issuedCount parts.batches + parts.batches.length + 1) := by
  obtain ⟨i, hi⟩ := List.getElem?_of_mem houtput
  rcases h.position hi with ⟨-, hstorm⟩ | ⟨k, token, -, hk, rfl⟩ | ⟨voucher, hvoucher, hissued⟩ | ⟨batch, -, hreserve⟩ |
    hdescriptor | hrest
  · rw [hasset] at hstorm
    exact absurd (Option.some.inj hstorm).symm hdeployed.stormEyeAsset
  · exact absurd rfl (htoken token (List.mem_of_getElem? hk))
  · rw [hasset] at hissued
    obtain ⟨j, hj⟩ := List.getElem?_of_mem hvoucher
    obtain ⟨requested, -, hanswer⟩ := Loops.forall₂_get h.answers hj
    have hkind : tickAsset = some voucher.asset ∨ verifierAsset = some voucher.asset := by
      have hanswer := hanswer.asset
      split_ifs at hanswer
      · exact .inr hanswer
      · exact .inl hanswer
    exact absurd (Option.some.inj hissued).symm (hdeployed.vouchers voucher.asset hkind)
  · exact absurd hreserve (haccount batch.owner)
  · rw [hdescriptor] at hscript
    exact absurd (head_descriptorScript h.script) hscript
  · exact hrest

/-- Behind the descriptor there are the Treasury's fee and the miner's, and nothing else. -/
theorem Accepted.rest_perm
    (h : Accepted libraries programs stormEye tickAsset verifierAsset config now request instructed parts)
    (hdeployed : Deployed libraries programs stormEye tickAsset verifierAsset)
    (hchain : OnChain libraries programs hashes chain request.tx) (hfee : 0 < config.operationalFeeSats.toNat) :
    ((request.tx.outputs.drop (1 + parts.tokens.length + issuedCount parts.batches + parts.batches.length + 1)).map
      PsetOutput.toTxout).Perm [plainOutput (treasuryScript programs stormEye.assetId)
        (config.operationalFeeSats.toNat * issuedCount parts.batches) programs.policyAsset,
      plainOutput [] config.issuanceTransactionFeeSats.toNat programs.policyAsset] := by
  obtain ⟨treasury, htreasury, htreasuryScript, htreasuryAsset, htreasuryAmount⟩ := h.accounted.treasury
  obtain ⟨minerFee, hminerFee, hminerScript, hminerAsset, hminerAmount⟩ := h.accounted.minerFee
  have htreasuryRest := h.mem_rest hdeployed htreasury htreasuryAsset
    (fun token htoken heq => by
      have hzero := h.token_amount hdeployed hchain htoken
      rw [← heq, policyAmount, if_pos htreasuryAsset, htreasuryAmount, Option.getD_some] at hzero
      have hpos := Nat.mul_pos hfee h.issuedCount_pos
      omega)
    (fun owner heq => by
      rw [htreasuryScript] at heq
      simp only [treasuryScript, accountScript, taprootScript, List.cons.injEq, true_and] at heq
      exact hdeployed.accounts owner (Vector.toList_inj.mp heq).symm)
    (by rw [htreasuryScript]; simp [treasuryScript, taprootScript])
  have hminerRest := h.mem_rest hdeployed hminerFee hminerAsset
    (fun token htoken heq => by
      obtain ⟨i, hkept, hscript, -⟩ := h.token_secrets hdeployed htoken
      have hreturned := hkept.returned.2
      rw [hkept.script, ← heq] at hreturned
      exact hscript (hreturned.symm.trans hminerScript))
    (fun owner heq => by rw [hminerScript] at heq; simp [accountScript, taprootScript] at heq)
    (by rw [hminerScript]; simp)
  have hexplicit : ∀ output ∈ request.tx.outputs.drop
      (1 + parts.tokens.length + issuedCount parts.batches + parts.batches.length + 1), output.isFullyExplicit = true := by
    intro output houtput
    obtain ⟨i, hi⟩ := List.getElem?_of_mem houtput
    rw [List.getElem?_drop] at hi
    rcases h.accounted.explicit _ output hi with hbetween | hfull
    · omega
    · exact hfull
  have htreasuryTxout : treasury.toTxout = plainOutput (treasuryScript programs stormEye.assetId)
      (config.operationalFeeSats.toNat * issuedCount parts.batches) programs.policyAsset := by
    rw [VotingReshape.toTxout_of_isFullyExplicit (hexplicit _ htreasuryRest) htreasuryAsset htreasuryAmount, htreasuryScript]
    rfl
  have hminerTxout : minerFee.toTxout = plainOutput [] config.issuanceTransactionFeeSats.toNat programs.policyAsset := by
    rw [VotingReshape.toTxout_of_isFullyExplicit (hexplicit _ hminerRest) hminerAsset hminerAmount, hminerScript]
    rfl
  have hne : treasury ≠ minerFee := by
    intro heq
    rw [heq, hminerScript] at htreasuryScript
    simp [treasuryScript, taprootScript] at htreasuryScript
  have hlength := h.length_outputs
  rw [← htreasuryTxout, ← hminerTxout]
  obtain ⟨first, second, hrest⟩ : ∃ first second, request.tx.outputs.drop
      (1 + parts.tokens.length + issuedCount parts.batches + parts.batches.length + 1) = [first, second] :=
    List.length_eq_two.mp (by rw [List.length_drop, hlength]; omega)
  rw [hrest] at htreasuryRest hminerRest ⊢
  simp only [List.mem_cons, List.not_mem_nil, or_false] at htreasuryRest hminerRest
  rcases htreasuryRest with rfl | rfl <;> rcases hminerRest with rfl | rfl
  · exact absurd rfl hne
  · exact List.Perm.refl _
  · exact List.Perm.swap _ _ _
  · exact absurd rfl hne

end Tail

section Reissued

theorem mem_requestedVouchers {first : ℕ} {items : List (IssuedBatch × ℕ)} {requested : RequestedVoucher}
    (h : requested ∈ requestedVouchers first items) :
    requested.request ∈ (items.map Prod.fst).flatMap fun batch => batch.request.requests := by
  obtain ⟨item, hitem, hrequested⟩ := List.mem_flatMap.mp h
  obtain ⟨issued, hissued, rfl⟩ := List.mem_map.mp hrequested
  exact List.mem_flatMap.mpr ⟨item.1, List.mem_map_of_mem hitem, hissued⟩

theorem issuedCount_eq (batches : List IssuedBatch) :
    issuedCount batches = (batches.flatMap fun batch => batch.request.requests).length := by
  rw [issuedCount, List.length_flatMap]

/-- The position that a voucher's amount is counted at is that of its own token. -/
theorem Accepted.token_of_voucher
    (h : Accepted libraries programs stormEye tickAsset verifierAsset config now request instructed parts)
    {voucher : IssuedVoucher} (hvoucher : voucher ∈ parts.vouchers) :
    (parts.tokens.map SpentToken.asset)[tokenIndex (parts.tokens.map SpentToken.asset)
      voucher.descriptor.signer.isSome]? = some voucher.asset := by
  obtain ⟨i, hi⟩ := List.getElem?_of_mem hvoucher
  obtain ⟨requested, hrequested, hanswer⟩ := Loops.forall₂_get h.answers hi
  have hmem := mem_requestedVouchers (List.mem_of_getElem? hrequested)
  rw [List.zipIdx_map_fst] at hmem
  have hsigner := hanswer.signer
  have hasset := hanswer.asset
  obtain ⟨-, -, htokens⟩ := roundTokens_ok.mp h.tokens
  rw [htokens]
  cases hkind : issuesVerifier requested.request.kind with
  | true =>
    rw [hkind, if_pos rfl] at hsigner hasset
    have hcount : 0 < verifierCount parts.batches :=
      List.length_pos_of_mem (List.mem_filter.mpr ⟨hmem, hkind⟩)
    rw [hsigner, Option.isSome_some, if_pos hcount, hasset, Option.toList_some, tokenIndex, if_pos rfl]
    simp
  | false =>
    rw [hkind, if_neg Bool.false_ne_true] at hsigner hasset
    have hcount : verifierCount parts.batches < issuedCount parts.batches := by
      rw [issuedCount_eq]
      exact List.length_filter_lt_length_iff_exists.mpr ⟨_, hmem, by simp [hkind]⟩
    rw [hsigner, Option.isSome_none, if_pos hcount, hasset, Option.toList_some, tokenIndex, if_neg Bool.false_ne_true]
    rfl

/-- No two tokens of a round reissue one asset. -/
theorem Accepted.nodup_tokens
    (h : Accepted libraries programs stormEye tickAsset verifierAsset config now request instructed parts)
    (hdeployed : Deployed libraries programs stormEye tickAsset verifierAsset) :
    ((parts.tokens.map SpentToken.asset).map NetworkAsset.assetId).Nodup := by
  obtain ⟨-, -, htokens⟩ := roundTokens_ok.mp h.tokens
  rw [htokens]
  have hdistinct := hdeployed.distinct
  split_ifs <;> cases tickAsset <;> cases verifierAsset <;> simp
  exact hdistinct _ _ rfl rfl

/-- A voucher is counted at the position of the token that reissues its asset. -/
theorem Accepted.tokenIndex_iff
    (h : Accepted libraries programs stormEye tickAsset verifierAsset config now request instructed parts)
    (hdeployed : Deployed libraries programs stormEye tickAsset verifierAsset) {i : ℕ} {token : SpentToken}
    (htoken : parts.tokens[i]? = some token) {voucher : IssuedVoucher} (hvoucher : voucher ∈ parts.vouchers) :
    tokenIndex (parts.tokens.map SpentToken.asset) voucher.descriptor.signer.isSome = i ↔
      voucher.asset.assetId = token.asset.assetId := by
  have hown := h.token_of_voucher hvoucher
  constructor
  · rintro rfl
    rw [List.getElem?_map, htoken, Option.map_some, Option.some.injEq] at hown
    rw [hown]
  · intro heq
    have hnodup := h.nodup_tokens hdeployed
    refine (List.getElem?_inj ?_ hnodup).mp ?_
    · have hlt := (List.getElem?_eq_some_iff.mp hown).1
      rwa [List.length_map]
    · rw [List.getElem?_map, hown, List.getElem?_map, List.getElem?_map, htoken]
      simp [heq]

/-- A token reissues what the vouchers of its asset amount to. -/
theorem Accepted.issued_by_asset
    (h : Accepted libraries programs stormEye tickAsset verifierAsset config now request instructed parts)
    (hdeployed : Deployed libraries programs stormEye tickAsset verifierAsset) {i : ℕ} {token : SpentToken}
    (htoken : parts.tokens[i]? = some token) :
    (issuedTotals parts.tokens.length (voucherAmounts (parts.tokens.map SpentToken.asset) parts.vouchers)).getD i 0 =
      ((parts.vouchers.filter fun voucher => voucher.asset.assetId = token.asset.assetId).map IssuedVoucher.amount).sum := by
  have hi := (List.getElem?_eq_some_iff.mp htoken).1
  rw [issuedTotals, List.getD_eq_getElem?_getD, List.getElem?_map, List.getElem?_range hi, Option.map_some,
    Option.getD_some, voucherAmounts, List.filter_map, List.map_map]
  have hfilter : parts.vouchers.filter ((fun item : ℕ × ℕ => decide (item.1 = i)) ∘ fun voucher =>
      (tokenIndex (parts.tokens.map SpentToken.asset) voucher.descriptor.signer.isSome, voucher.amount)) =
      parts.vouchers.filter fun voucher => voucher.asset.assetId = token.asset.assetId :=
    List.filter_congr fun voucher hvoucher => by simp [h.tokenIndex_iff hdeployed htoken hvoucher]
  rw [hfilter]
  rfl

end Reissued

section Signed

variable {hashes : IssuanceHashes} {chain : ChainLedger Bytes32}

def IssuedVoucher.txout (voucher : IssuedVoucher) : ChainTxOut Bytes32 :=
  plainOutput voucher.script voucher.amount voucher.asset.assetId

/-- The reserves of the batches, each at the account of its owner. -/
def reserveOutputs (programs : IssuancePrograms) (stormEye : NetworkAsset Bytes32) (batches : List IssuedBatch)
    (reserves : List UInt64) : List (ChainTxOut Bytes32) :=
  List.zipWith (fun batch reserve => plainOutput (accountScript programs stormEye.assetId batch.owner) reserve.toNat
    programs.policyAsset) batches reserves

/-- What a signer signs: every input and every output of the transaction has its place here. -/
structure SoundRound (libraries : IssuanceLibraries) (programs : IssuancePrograms) (openings : Openings Bytes32)
    (stormEye : NetworkAsset Bytes32) (tickAsset verifierAsset : Option (NetworkAsset Bytes32))
    (config : Issuance.ProtocolConfig) (now : ℕ) (request : ExecuteUserRequests) (instructed : Option PriceFeedData)
    (parts : AcceptedParts) : Prop where
  batches : ReadBatches libraries request.externalRequests parts.batches parts.feeds instructed
  inputs : request.tx.inputs = parts.stormEyeInput :: parts.tokens.map SpentToken.input ++ parts.groups.flatten
  spentStormEye : ∃ utxo, parts.stormEyeInput.witnessUtxo = some utxo ∧ utxo.asset = .explicit stormEye.assetId ∧
    utxo.value = .explicit parts.stormEyeAmount ∧ utxo.scriptPubkey = stormEye.contractScript
  tokens : roundTokens tickAsset verifierAsset parts.batches = .ok (parts.tokens.map SpentToken.asset)
  returned : ∀ token ∈ parts.tokens, token.input.witnessUtxo = some token.spent ∧
    token.output.toTxout.scriptPubkey = token.spent.scriptPubkey ∧
      token.output.toTxout.content openings = token.spent.content openings
  funded : List.Forall₂ (fun batch group => List.Forall₂ (Funds (accountScript programs stormEye.assetId batch.owner))
    batch.feeUtxos group) parts.batches parts.groups
  outputs : ∃ rest, request.tx.outputs.map PsetOutput.toTxout =
      plainOutput stormEye.contractScript parts.stormEyeAmount stormEye.assetId ::
        (parts.tokens.map fun token => token.output.toTxout) ++ parts.vouchers.map IssuedVoucher.txout ++
          reserveOutputs programs stormEye parts.batches parts.reserves ++
            plainOutput parts.descriptorScript 0 programs.policyAsset :: rest ∧
    rest.Perm [plainOutput (treasuryScript programs stormEye.assetId)
        (config.operationalFeeSats.toNat * issuedCount parts.batches) programs.policyAsset,
      plainOutput [] config.issuanceTransactionFeeSats.toNat programs.policyAsset]
  answers : List.Forall₂ (Answers libraries programs stormEye tickAsset verifierAsset request.signingStormTreeBranch now)
    (requestedVouchers (1 + parts.tokens.length + issuedCount parts.batches) parts.batches.zipIdx) parts.vouchers
  reissued : ∀ token ∈ parts.tokens, token.input.issuanceValueAmount = some
    ((parts.vouchers.filter fun voucher => voucher.asset.assetId = token.asset.assetId).map IssuedVoucher.amount).sum
  reserved : List.Forall₂ (fun batch (reserve : UInt64) =>
    config.tickBurnReserveSats.toNat * batch.request.requests.length ≤ reserve.toNat) parts.batches parts.reserves
  divided : feeFunds parts.groups = (parts.reserves.map UInt64.toNat).sum +
    config.operationalFeeSats.toNat * issuedCount parts.batches + config.issuanceTransactionFeeSats.toNat

theorem Accepted.explicit_output
    (h : Accepted libraries programs stormEye tickAsset verifierAsset config now request instructed parts) {i : ℕ}
    {output : PsetOutput Bytes32} (houtput : request.tx.outputs[i]? = some output) (hi : i = 0 ∨ parts.tokens.length < i)
    {asset : Bytes32} {amount : ℕ} (hasset : output.asset = some asset) (hamount : output.amount = some amount) :
    output.toTxout = plainOutput output.scriptPubkey amount asset := by
  rcases h.accounted.explicit i output houtput with hbetween | hfull
  · omega
  · exact VotingReshape.toTxout_of_isFullyExplicit hfull hasset hamount

theorem Accepted.head_output
    (h : Accepted libraries programs stormEye tickAsset verifierAsset config now request instructed parts) :
    (request.tx.outputs.take 1).map PsetOutput.toTxout =
      [plainOutput stormEye.contractScript parts.stormEyeAmount stormEye.assetId] := by
  obtain ⟨output, houtput, hasset, hvalue, hscript⟩ := h.stormEyeKept
  have htxout := h.explicit_output houtput (.inl rfl) (PsetOutput.toTxout_asset.mp hasset).2
    (PsetOutput.toTxout_value.mp hvalue).2
  have hsame : output.scriptPubkey = stormEye.contractScript := hscript
  rw [hsame] at htxout
  cases houtputs : request.tx.outputs with
  | nil => simp [houtputs] at houtput
  | cons first rest =>
    rw [houtputs] at houtput
    cases houtput
    simp [htxout]

theorem Accepted.voucher_outputs
    (h : Accepted libraries programs stormEye tickAsset verifierAsset config now request instructed parts) :
    ((request.tx.outputs.drop (1 + parts.tokens.length)).take (issuedCount parts.batches)).map PsetOutput.toTxout =
      parts.vouchers.map IssuedVoucher.txout := by
  rw [← h.length_vouchers]
  refine segment_map fun i voucher hvoucher => ?_
  obtain ⟨-, output, houtput, hasset, hamount, hscript⟩ := h.stands i voucher hvoucher
  refine ⟨output, houtput, ?_⟩
  rw [h.explicit_output houtput (.inr (by omega)) hasset hamount, hscript]
  rfl

theorem Accepted.reserve_outputs
    (h : Accepted libraries programs stormEye tickAsset verifierAsset config now request instructed parts) :
    ((request.tx.outputs.drop (1 + parts.tokens.length + issuedCount parts.batches)).take parts.batches.length).map
      PsetOutput.toTxout = reserveOutputs programs stormEye parts.batches parts.reserves := by
  have haccounts := h.length_accounts
  have hreserves := h.length_reserves
  have hlength : ((accountsOf programs stormEye parts.batches parts.groups).zip parts.reserves).length =
      parts.batches.length := by
    rw [List.length_zip, haccounts, hreserves, Nat.min_self]
  rw [← hlength, segment_map (g := fun item => plainOutput item.1.script item.2.toNat programs.policyAsset)]
  · apply List.ext_getElem
    · rw [List.length_map, hlength, reserveOutputs, List.length_zipWith, hreserves, Nat.min_self]
    · intro i hi hi'
      simp only [List.getElem_map, List.getElem_zip, reserveOutputs, List.getElem_zipWith, accountsOf]
  · intro i item hitem
    obtain ⟨output, houtput, hscript, hasset, hamount⟩ := h.accounted.reserves i item hitem
    refine ⟨output, houtput, ?_⟩
    rw [h.explicit_output houtput (.inr (by omega)) hasset hamount, hscript]

theorem Accepted.descriptor_output
    (h : Accepted libraries programs stormEye tickAsset verifierAsset config now request instructed parts) :
    ((request.tx.outputs.drop (1 + parts.tokens.length + issuedCount parts.batches + parts.batches.length)).take 1).map
      PsetOutput.toTxout = [plainOutput parts.descriptorScript 0 programs.policyAsset] := by
  obtain ⟨output, houtput, hasset, hamount, hscript⟩ := h.descriptor
  have htxout := h.explicit_output houtput (.inr (by omega)) hasset hamount
  rw [hscript] at htxout
  obtain ⟨hlt, heq⟩ := List.getElem?_eq_some_iff.mp houtput
  rw [List.drop_eq_getElem_cons hlt, heq]
  simp [htxout]

/-- The outputs of an accepted round, one after the other. -/
theorem Accepted.outputs_txouts
    (h : Accepted libraries programs stormEye tickAsset verifierAsset config now request instructed parts) :
    request.tx.outputs.map PsetOutput.toTxout =
      plainOutput stormEye.contractScript parts.stormEyeAmount stormEye.assetId ::
        (parts.tokens.map fun token => token.output.toTxout) ++ parts.vouchers.map IssuedVoucher.txout ++
          reserveOutputs programs stormEye parts.batches parts.reserves ++
            plainOutput parts.descriptorScript 0 programs.policyAsset :: (request.tx.outputs.drop
              (1 + parts.tokens.length + issuedCount parts.batches + parts.batches.length + 1)).map PsetOutput.toTxout := by
  conv_lhs => rw [h.outputs_eq, drop_segment _ (1 + parts.tokens.length) (issuedCount parts.batches),
    drop_segment _ (1 + parts.tokens.length + issuedCount parts.batches) parts.batches.length,
    drop_segment _ (1 + parts.tokens.length + issuedCount parts.batches + parts.batches.length) 1]
  simp only [List.map_append, h.head_output, h.voucher_outputs, h.reserve_outputs, h.descriptor_output, List.map_map]
  simp [Function.comp_def]

/-- The chain holds at a token's input what its output returns. -/
theorem Accepted.returned
    (h : Accepted libraries programs stormEye tickAsset verifierAsset config now request instructed parts)
    (hchain : OnChain libraries programs hashes chain request.tx) {token : SpentToken} (htoken : token ∈ parts.tokens) :
    token.input.witnessUtxo = some token.spent ∧ token.output.toTxout.scriptPubkey = token.spent.scriptPubkey ∧
      token.output.toTxout.content chain.openings = token.spent.content chain.openings := by
  obtain ⟨i, hi⟩ := List.getElem?_of_mem htoken
  have hkept := h.kept i token hi
  obtain ⟨proof, commitment, -, hasset, hproof⟩ := hkept.asset
  obtain ⟨valueProof, commitment', valueCommitment, -, hasset', hvalue, hvalueProof⟩ := hkept.value
  obtain rfl : commitment = commitment' := ChainField.confidential.inj (hasset.symm.trans hasset')
  refine ⟨hkept.spent, hkept.returned.2, ?_⟩
  rw [hchain.unblinds _ _ hkept.returned.1, content_confidential hasset hvalue,
    hchain.provesValue _ _ _ _ hvalueProof, hchain.proves _ _ _ hproof]

theorem Accepted.funded
    (h : Accepted libraries programs stormEye tickAsset verifierAsset config now request instructed parts) :
    List.Forall₂ (fun batch group => List.Forall₂ (Funds (accountScript programs stormEye.assetId batch.owner))
      batch.feeUtxos group) parts.batches parts.groups :=
  h.groups.imp fun _ _ hbatch => hbatch.funds

theorem Accepted.issuedCount_lt
    (h : Accepted libraries programs stormEye tickAsset verifierAsset config now request instructed parts)
    (hfee : 0 < config.operationalFeeSats.toNat) : issuedCount parts.batches < 2 ^ 64 :=
  lt_of_le_of_lt (Nat.le_mul_of_pos_left _ hfee) h.accounted.operational

theorem requests_le_issuedCount {batches : List IssuedBatch} {batch : IssuedBatch} (h : batch ∈ batches) :
    batch.request.requests.length ≤ issuedCount batches :=
  List.single_le_sum (by simp) _ (List.mem_map.mpr ⟨batch, h, rfl⟩)

section Accounts

variable {batches : List IssuedBatch} {groups : List (List IssuanceInput)}

theorem sum_operationalFee (hgroups : List.Forall₂ (FundsBatch programs stormEye) batches groups)
    (hcount : issuedCount batches < 2 ^ 64) : (((accountsOf programs stormEye batches groups).map accountOf).map
      (Issuance.Account.operationalFee config)).sum = config.operationalFeeSats.toNat * issuedCount batches := by
  induction hgroups with
  | nil => simp [accountsOf, issuedCount]
  | @cons batch group batches groups hbatch hrest ih =>
    simp only [accountsOf, issuedCount, List.zipWith_cons_cons, List.map_cons, List.sum_cons] at ih hcount ⊢
    have hrequests : (UInt64.ofNat batch.request.requests.length).toNat = batch.request.requests.length :=
      Issuance.toNat_ofNat (by omega)
    rw [ih (by omega), Issuance.Account.operationalFee, accountOf, hrequests, Nat.mul_add]

theorem sum_inputTotal (hgroups : List.Forall₂ (FundsBatch programs stormEye) batches groups) :
    (((accountsOf programs stormEye batches groups).map accountOf).map fun account => account.2.toNat).sum =
      feeFunds groups := by
  induction hgroups with
  | nil => simp [accountsOf, feeFunds]
  | @cons batch group batches groups hbatch hrest ih =>
    simp only [accountsOf, feeFunds, List.zipWith_cons_cons, List.map_cons, List.sum_cons, List.flatten_cons,
      List.map_append, List.sum_append] at ih ⊢
    rw [ih, accountOf, Issuance.toNat_ofNat hbatch.fits]

theorem forall₂_reserved {reserves : List UInt64} (hgroups : List.Forall₂ (FundsBatch programs stormEye) batches groups)
    (hcount : issuedCount batches < 2 ^ 64) (h : List.Forall₂ (fun (account : Issuance.Account) (reserve : UInt64) =>
      account.burnReserve config ≤ reserve.toNat) ((accountsOf programs stormEye batches groups).map accountOf) reserves) :
    List.Forall₂ (fun batch (reserve : UInt64) =>
      config.tickBurnReserveSats.toNat * batch.request.requests.length ≤ reserve.toNat) batches reserves := by
  induction hgroups generalizing reserves with
  | nil =>
    cases h
    exact .nil
  | @cons batch group batches groups hbatch hrest ih =>
    simp only [accountsOf, issuedCount, List.zipWith_cons_cons, List.map_cons, List.sum_cons] at ih hcount h
    have hrequests : (UInt64.ofNat batch.request.requests.length).toNat = batch.request.requests.length :=
      Issuance.toNat_ofNat (by omega)
    cases h with
    | cons hreserve hreserves =>
      rw [Issuance.Account.burnReserve, accountOf, hrequests] at hreserve
      exact .cons hreserve (ih (by omega) hreserves)

end Accounts

theorem Accepted.sound
    (h : Accepted libraries programs stormEye tickAsset verifierAsset config now request instructed parts)
    (hdeployed : Deployed libraries programs stormEye tickAsset verifierAsset)
    (hchain : OnChain libraries programs hashes chain request.tx) (hfee : 0 < config.operationalFeeSats.toNat) :
    SoundRound libraries programs chain.openings stormEye tickAsset verifierAsset config now request instructed parts := by
  have hallocated := Issuance.allocate_allocated
    (Issuance.allocateAccountReserves_eq_ok_iff.mp h.accounted.allocated)
  have hcount := h.issuedCount_lt hfee
  refine ⟨h.batches, h.inputs_eq, h.stormEyeSpent, h.tokens, fun token htoken => h.returned hchain htoken, h.funded,
    ⟨_, h.outputs_txouts, h.rest_perm hdeployed hchain hfee⟩, h.answers, ?_,
    forall₂_reserved h.groups hcount hallocated.reserved, ?_⟩
  · intro token htoken
    obtain ⟨i, hi⟩ := List.getElem?_of_mem htoken
    rw [(h.reissued i token hi).1, h.issued_by_asset hdeployed hi]
  · have htotal := hallocated.total
    rw [sum_operationalFee h.groups hcount, sum_inputTotal h.groups, UInt64.toNat_zero, Nat.sub_zero] at htotal
    exact htotal.symm

/-- What a signer accepts and the chain takes returns the Storm Eye and the tokens, issues the vouchers that were asked
for, and divides the fee UTXOs of the batches into their reserves and the two fees. -/
theorem validateExecuteRequest_sound (hdeployed : Deployed libraries programs stormEye tickAsset verifierAsset)
    (hchain : OnChain libraries programs hashes chain request.tx) (hfee : 0 < config.operationalFeeSats.toNat)
    (h : validateExecuteRequest libraries programs stormEye tickAsset verifierAsset config now request = .ok instructed) :
    ∃ parts, SoundRound libraries programs chain.openings stormEye tickAsset verifierAsset config now request instructed
      parts := by
  obtain ⟨parts, haccepted⟩ := validateExecuteRequest_ok h
  exact ⟨parts, haccepted.sound hdeployed hchain hfee⟩

end Signed

section Plain

def keyOf (byte : UInt8) : Bytes32 := Vector.replicate 32 byte

/-- Commitments that show what they hide. -/
def plainOpenings : Openings Bytes32 := ⟨Markers.toKey, fun _ commitment => commitment.length⟩

def hidden (scriptPubkey : List UInt8) (asset : Bytes32) (value : ℕ) : ChainTxOut Bytes32 :=
  ⟨.confidential asset.toList, .confidential (List.replicate value 0), none, scriptPubkey, none, none⟩

def unhide (txout : ChainTxOut Bytes32) : Option (Bytes32 × ℕ) :=
  match txout.asset, txout.value with
  | .confidential asset, .confidential value => some (Markers.toKey asset, value.length)
  | _, _ => none

def plainRequests : NetworkUserRequests where
  header :=
    { signature := String.ofList (List.replicate 128 '0')
      publicKey := String.ofList (List.replicate 64 'a')
      feeUtxos := [String.ofList (List.replicate 64 'b') ++ ":7"]
      signatureScheme := none
      signingPublicKey := none }
  requests := [⟨UserApi.tickRequestKind, "tick"⟩]

def plainPrograms : IssuancePrograms where
  policyAsset := keyOf 1
  accountKey _ _ := keyOf 2
  treasuryKey _ := keyOf 3
  voucherKey _ _ := keyOf 4
  signingHash _ _ := .ok (keyOf 5)

def plainLibraries : IssuanceLibraries where
  fromStr _ := .ok ⟨⟨"scriptPubKey-auth", "51"⟩, none⟩
  toJson _ _ _ _ := none
  sha256 _ := List.replicate 32 9
  xOnlyPublicKey _ := true
  schnorrVerify _ _ _ := true
  PublicKey := Unit
  publicKeyEq := inferInstance
  publicKeyFromSlice _ := none
  xOnly _ := []
  RecoverableSignature := Unit
  recoverableFromCompact _ _ := none
  signedMsgHash _ := []
  recoverEcdsa _ _ := none
  fromSlice _ := .ok plainRequests
  hashScript _ := keyOf 10
  deserialize bytes := some ⟨keyOf 0, [], [hidden (taprootScript (keyOf 3)) (if bytes = [] then keyOf 8 else keyOf 18) 1]⟩
  unblind := unhide
  blindAssetProofVerify _ asset commitment := Markers.toKey commitment = asset
  blindValueProofVerify _ value _ commitment := commitment.length = value

def plainStormEye : NetworkAsset Bytes32 where
  kind := "storm-eye"
  name := "Storm Eye"
  assetId := keyOf 6
  reissuanceTokenId := none
  entropy := none
  issuanceTxid := keyOf 0
  contractScript := taprootScript (keyOf 6)
  contractData := some (StormEyeContractData.codec.encode ⟨keyOf 11, 144, keyOf 12⟩)
  supply := 10
  createdAtBlock := 1

def plainTick : NetworkAsset Bytes32 where
  kind := Indexer.tickAssetKind
  name := "Tick"
  assetId := keyOf 7
  reissuanceTokenId := some (keyOf 8)
  entropy := some (keyOf 9)
  issuanceTxid := keyOf 0
  contractScript := taprootScript (keyOf 3)
  contractData := some (TickAssetContractData.codec.encode ⟨[], 0⟩)
  supply := 0
  createdAtBlock := 1

def plainVerifier : NetworkAsset Bytes32 :=
  { plainTick with
    kind := Indexer.oracleVerifierKind
    name := "Oracle Verifier"
    assetId := keyOf 17
    reissuanceTokenId := some (keyOf 18)
    entropy := some (keyOf 19)
    contractData := some (TickAssetContractData.codec.encode ⟨[1], 0⟩) }

def plainConfig : Issuance.ProtocolConfig := ⟨100, 200, 150⟩

def plainInput (outpoint : Bytes32 × ℕ) (txout : ChainTxOut Bytes32) : IssuanceInput where
  previousTxid := outpoint.1
  previousOutputIndex := outpoint.2
  witnessUtxo := some txout
  asset := none
  amount := none
  blindAssetProof := none
  blindValueProof := none
  issuanceValueAmount := none
  issuanceValueComm := none
  issuanceValueRangeproof := none
  inIssuanceBlindValueProof := none
  issuanceAssetEntropy := none
  issuanceBlindingNonce := none
  issuanceInflationKeys := none
  issuanceInflationKeysComm := none

def plainStormEyeUtxo : Utxo Bytes32 := ⟨(keyOf 20, 0), keyOf 6, 10, taprootScript (keyOf 6)⟩

def plainToken : ChainTxOut Bytes32 := hidden (taprootScript (keyOf 3)) (keyOf 8) 1

def plainFee : ChainTxOut Bytes32 := plainOutput (taprootScript (keyOf 2)) 450 (keyOf 1)

def plainVoucher : IssuedUtxoDescriptor where
  outputIndex := 2
  reserveOutputIndex := 3
  accountOwnerPubkey := keyOf 0xaa
  authKind := 1
  authData := keyOf 10
  signer := none

def plainPset : IssuancePset where
  inputs :=
    [plainInput (keyOf 20, 0) plainStormEyeUtxo.txout,
      { plainInput (keyOf 21, 0) plainToken with
        asset := some (keyOf 8), amount := some 1, blindAssetProof := some [], blindValueProof := some []
        issuanceValueAmount := some 1000, issuanceAssetEntropy := some (keyOf 9), issuanceBlindingNonce := some (keyOf 13) },
      plainInput (keyOf 0xbb, 7) plainFee]
  outputs :=
    [.fromUtxo plainStormEyeUtxo,
      { PsetOutput.new (taprootScript (keyOf 3)) 0 (keyOf 8) with
        amount := none, asset := none, amountComm := some [0], assetComm := some (keyOf 8).toList },
      .new (taprootScript (keyOf 4)) 1000 (keyOf 7), .new (taprootScript (keyOf 2)) 200 (keyOf 1),
      .new ((Markers.descriptorScript [plainVoucher]).toOption.getD []) 0 (keyOf 1), .new (taprootScript (keyOf 3)) 100 (keyOf 1),
      .new [] 150 (keyOf 1)]

def plainRequest : ExecuteUserRequests where
  tx := plainPset
  signingHash := keyOf 5
  signingStormTreeBranch := keyOf 14
  externalRequests := [⟨keyOf 9, [], none⟩]


def plainLedger : ChainLedger Bytes32 where
  utxos outpoint :=
    if outpoint = (keyOf 20, 0) then some plainStormEyeUtxo.txout
    else if outpoint = (keyOf 21, 0) then some plainToken
    else if outpoint = (keyOf 0xbb, 7) then some plainFee
    else none
  openings := plainOpenings
  scripts _ := True

def plainHashes : IssuanceHashes := ⟨fun _ _ => keyOf 0, fun _ => keyOf 7, fun _ _ => keyOf 8⟩

theorem content_of_unhide {txout : ChainTxOut Bytes32} {secrets : Bytes32 × ℕ} (h : unhide txout = some secrets) :
    txout.content plainOpenings = some secrets := by
  unfold unhide at h
  cases hasset : txout.asset with
  | confidential asset =>
    cases hvalue : txout.value with
    | confidential value =>
      rw [hasset, hvalue] at h
      rw [ChainTxOut.content, ChainTxOut.heldAsset, hasset, hvalue, ← h]
      rfl
    | null | explicit _ =>
      rw [hasset, hvalue] at h
      cases h
  | null | explicit _ =>
    rw [hasset] at h
    cases h

theorem plainPset_valid : plainLedger.Valid (plainPset.chainTx plainHashes plainOpenings) where
  distinct := by decide +kernel
  spends := by decide +kernel
  held := by decide +kernel
  balanced asset := by
    have hspent : (plainPset.chainTx plainHashes plainOpenings).inputs.map (fun outpoint =>
        (plainLedger.utxos outpoint).bind (ChainTxOut.content plainOpenings)) =
          [some (keyOf 6, 10), some (keyOf 8, 1), some (keyOf 1, 450)] := by decide +kernel
    have hissued : (plainPset.chainTx plainHashes plainOpenings).issued = [(keyOf 7, 1000), (keyOf 8, 0)] := by decide +kernel
    have houtputs : (plainPset.chainTx plainHashes plainOpenings).outputs.map (ChainTxOut.content plainOpenings) =
        [some (keyOf 6, 10), some (keyOf 8, 1), some (keyOf 7, 1000), some (keyOf 1, 200), some (keyOf 1, 0),
          some (keyOf 1, 100), some (keyOf 1, 150)] := by decide +kernel
    have hin := congrArg (fun list => (list.map (contentOf asset)).sum) hspent
    have hout := congrArg (fun list => (list.map (contentOf asset)).sum) houtputs
    simp only [List.map_map, Function.comp_def] at hin hout
    rw [show plainLedger.openings = plainOpenings from rfl, hin, hout, hissued]
    simp only [List.map_cons, List.map_nil, List.sum_cons, List.sum_nil, contentOf]
    split_ifs <;> rfl
  scripts := trivial

theorem validateExecuteRequest_plain : validateExecuteRequest plainLibraries plainPrograms plainStormEye (some plainTick) (some plainVerifier)
    plainConfig 1010 plainRequest = .ok none := by
  have hsome : (validateExecuteRequest plainLibraries plainPrograms plainStormEye (some plainTick) (some plainVerifier) plainConfig 1010
      plainRequest).toOption = some none := by decide +kernel
  cases hrun : validateExecuteRequest plainLibraries plainPrograms plainStormEye (some plainTick) (some plainVerifier) plainConfig 1010
    plainRequest with
  | error error =>
    rw [hrun] at hsome
    cases hsome
  | ok instructed =>
    rw [hrun] at hsome
    rw [Option.some.inj hsome]

theorem plain_template {asset : NetworkAsset Bytes32} (hasset : asset = plainTick ∨ asset = plainVerifier)
    {template : ChainTxOut Bytes32} (h : tokenTxout plainLibraries asset = .ok template) :
    template.scriptPubkey = asset.contractScript ∧
      (plainLibraries.unblind template).map Prod.fst = asset.reissuanceTokenId := by
  have htoken : (tokenTxout plainLibraries asset).toOption.map (fun template => (template.scriptPubkey,
      (plainLibraries.unblind template).map Prod.fst)) = some (asset.contractScript, asset.reissuanceTokenId) := by
    rcases hasset with rfl | rfl <;> decide +kernel
  rw [h] at htoken
  exact Prod.mk.inj (Option.some.inj htoken)

theorem plain_deployed : Deployed plainLibraries plainPrograms plainStormEye (some plainTick) (some plainVerifier) where
  stormEyeAsset := by decide +kernel
  vouchers asset h := by
    rcases h with ⟨⟨⟩⟩ | ⟨⟨⟩⟩ <;> decide +kernel
  distinct tick verifier htick hverifier := by
    cases htick
    cases hverifier
    decide +kernel
  templates asset h template htemplate := by
    have hasset : asset = plainTick ∨ asset = plainVerifier := by
      rcases h with ⟨⟨⟩⟩ | ⟨⟨⟩⟩ <;> simp
    obtain ⟨hscript, hid⟩ := plain_template hasset htemplate
    refine ⟨?_, fun secrets hsecrets => ?_⟩
    · rw [hscript]
      rcases hasset with rfl | rfl <;> decide +kernel
    · rw [hsecrets] at hid
      rcases hasset with rfl | rfl
      · rw [show secrets.1 = keyOf 8 from Option.some.inj hid]
        decide +kernel
      · rw [show secrets.1 = keyOf 18 from Option.some.inj hid]
        decide +kernel
  accounts _ := show keyOf 2 ≠ keyOf 3 by decide +kernel

theorem plain_onChain : OnChain plainLibraries plainPrograms plainHashes plainLedger plainRequest.tx where
  valid := plainPset_valid
  witnessed := by decide +kernel
  issued := by decide +kernel
  unblinds txout secrets h := content_of_unhide h
  proves proof asset commitment h := by
    simp only [plainLibraries, decide_eq_true_eq] at h
    exact h
  provesValue proof value commitment valueCommitment h := by
    simp only [plainLibraries, decide_eq_true_eq] at h
    exact h

/-- One Tick, issued for a batch whose one fee UTXO holds what it takes. -/
theorem validateExecuteRequest_sound_plain : ∃ parts, SoundRound plainLibraries plainPrograms plainLedger.openings plainStormEye
    (some plainTick) (some plainVerifier) plainConfig 1010 plainRequest none parts :=
  validateExecuteRequest_sound plain_deployed plain_onChain (by decide) validateExecuteRequest_plain

end Plain

end IssuanceRound

end PriceOracle
