import PriceOracle.IssuanceBuilt
import PriceOracle.RoundFilling

/-!
# Leader and signers of a round

The message that a leader makes of its round for any branch has all that a signer checks, so that
every signer whose clock is close to the leader's accepts it, and reads off it the rate that the leader
signs.
-/

namespace PriceOracle

namespace IssuanceRound

open Issuance (okOr okOr_eq_ok_iff)

variable {libraries : RoundLibraries} {programs : IssuancePrograms} {node : TokenNode}
  {stormEye : NetworkAsset Bytes32} {tickAsset verifierAsset : Option (NetworkAsset Bytes32)}
  {config : Issuance.ProtocolConfig} {timestamp : ℕ} {batches : List DecodedBatch} {issued : List IssuedBatch}
  {stormEyeUtxo : Utxo Bytes32} {instructed : Option PriceFeedData} {round : LeaderRound} {parts : BuiltParts}

section Messages

/-- The outputs of a built round under a branch. -/
def branchOutputs (programs : IssuancePrograms) (stormEye : NetworkAsset Bytes32) (config : Issuance.ProtocolConfig)
    (stormEyeUtxo : Utxo Bytes32) (issued : List IssuedBatch) (parts : BuiltParts) (committed : List IssuedVoucher)
    (script : List UInt8) : List (PsetOutput Bytes32) :=
  (PsetOutput.fromUtxo stormEyeUtxo :: parts.outputs) ++ (committed.map IssuedVoucher.output ++
    (reservePsetOutputs programs stormEye issued parts.reserves ++ [.new script 0 programs.policyAsset,
      .new (treasuryScript programs stormEye.assetId)
        (config.operationalFeeSats * UInt64.ofNat (issuedCount issued)).toNat programs.policyAsset,
      .new [] config.issuanceTransactionFeeSats.toNat programs.policyAsset]))

/-- The message of a round for a branch. -/
structure BranchMessage (libraries : RoundLibraries) (programs : IssuancePrograms) (stormEye : NetworkAsset Bytes32)
    (config : Issuance.ProtocolConfig) (stormEyeUtxo : Utxo Bytes32) (batches : List DecodedBatch)
    (issued : List IssuedBatch) (instructed : Option PriceFeedData) (parts : BuiltParts) (branch : Bytes32)
    (request : ExecuteUserRequests) (committed : List IssuedVoucher) (script : List UInt8) : Prop where
  inputs : request.tx.inputs = IssuanceInput.new stormEyeUtxo :: parts.inputs ++ (feeGroups batches).flatten
  outputs : request.tx.outputs = branchOutputs programs stormEye config stormEyeUtxo issued parts committed script
  commits : List.Forall₂ (Committed libraries.toIssuanceLibraries programs stormEye branch) parts.vouchers committed
  script : Markers.descriptorScript (committed.map IssuedVoucher.descriptor) = .ok script
  signingHash : programs.signingHash request.tx stormEye = .ok request.signingHash
  branch : request.signingStormTreeBranch = branch
  externals : request.externalRequests = batches.map (roundExternal instructed)

theorem messageFor_ok (hbuilt : Built libraries programs stormEye tickAsset verifierAsset config timestamp stormEyeUtxo
      batches issued instructed round parts) {branch : Bytes32} {request : ExecuteUserRequests}
    (h : messageFor libraries programs round branch = .ok request) :
    ∃ committed script, BranchMessage libraries programs stormEye config stormEyeUtxo batches issued instructed parts branch
      request committed script := by
  unfold messageFor forBranch at h
  obtain ⟨⟨pset, signingHash⟩, hpset, h⟩ := Db.except_bind_ok.mp h
  obtain ⟨outputs, houtputs, hpset⟩ := Db.except_bind_ok.mp hpset
  obtain ⟨hash, hhash, hpset⟩ := Db.except_bind_ok.mp hpset
  cases hpset
  cases h
  obtain ⟨committed, script, hcommitted, hscript, rfl⟩ := commitOutputs_ok hbuilt.psetOutputs hbuilt.descriptors
    (fun i voucher hvoucher => by
      rw [hbuilt.places i voucher hvoucher, List.length_cons, hbuilt.counts.2, Nat.add_comm 1])
    hbuilt.descriptorOutput (by rw [hbuilt.descriptors]; exact hbuilt.script) houtputs
  rw [hbuilt.stormEye] at hcommitted hhash
  exact ⟨committed, script, hbuilt.psetInputs, rfl, hcommitted, hscript, mapError_ok.mp hhash, rfl, hbuilt.externals⟩

/-- Another key can sign for the Verifiers of a covenant that can be made. -/
theorem descriptorProgram_signer {libraries : IssuanceLibraries} {stormEyeAssetId : Bytes32} {descriptor : IssuedUtxoDescriptor}
    {script : List UInt8} (h : descriptorProgram libraries programs stormEyeAssetId descriptor = .ok script) {branch : Bytes32}
    (hvalid : libraries.xOnlyPublicKey branch.toList = true) :
    ∃ next, descriptorProgram libraries programs stormEyeAssetId { descriptor with signer := some branch } = .ok next := by
  unfold descriptorProgram voucherProgram at h ⊢
  obtain ⟨arguments, harguments, -⟩ := Db.except_bind_ok.mp h
  refine ⟨taprootScript (programs.voucherKey arguments (some branch)),
    Db.except_bind_ok.mpr ⟨arguments, harguments, ?_⟩⟩
  dsimp only
  rw [if_pos hvalid]
  rfl

/-- A built round can be committed to every branch that has a key. -/
theorem Built.commits (hbuilt : Built libraries programs stormEye tickAsset verifierAsset config timestamp stormEyeUtxo
      batches issued instructed round parts) {branch : Bytes32} (hvalid : libraries.xOnlyPublicKey branch.toList = true)
    (hkey : branch ≠ Markers.noSigner) :
    ∃ outputs, commitOutputs libraries.toIssuanceLibraries programs round.transaction branch = .ok outputs := by
  have hcount := hbuilt.counts.2
  refine commitOutputs_runs hkey (fun descriptor hdescriptor => ?_) (by rw [hbuilt.descriptors]; exact hbuilt.script) ?_
  · obtain ⟨hmem, -⟩ := List.mem_filter.mp hdescriptor
    obtain ⟨original, horiginal, rfl⟩ := List.mem_map.mp hmem
    rw [hbuilt.descriptors] at horiginal
    obtain ⟨voucher, hvoucher, rfl⟩ := List.mem_map.mp horiginal
    obtain ⟨i, hi⟩ := List.getElem?_of_mem hvoucher
    obtain ⟨requested, -, hanswer⟩ := Loops.forall₂_get hbuilt.answers hi
    have hplace := hbuilt.places i voucher hi
    have hlt := (List.getElem?_eq_some_iff.mp hi).1
    have hlength : 1 + parts.tokens.length + i < round.transaction.pset.outputs.length := by
      simp only [hbuilt.psetOutputs, List.length_append, List.length_cons, List.length_map]
      omega
    rw [hbuilt.stormEye]
    split_ifs
    · exact ⟨descriptorProgram_signer hanswer.script hvalid, by rw [hplace]; exact hlength⟩
    · exact ⟨⟨_, hanswer.script⟩, by rw [hplace]; exact hlength⟩
  · rw [hbuilt.descriptorOutput, hbuilt.psetOutputs]
    simp only [List.length_append, List.length_cons]
    omega

variable {branch : Bytes32} {request : ExecuteUserRequests} {committed : List IssuedVoucher} {script : List UInt8}

theorem BranchMessage.token_output (h : BranchMessage libraries programs stormEye config stormEyeUtxo batches issued
      instructed parts branch request committed script) {i : ℕ} {output : PsetOutput Bytes32}
    (houtput : parts.outputs[i]? = some output) : request.tx.outputs[1 + i]? = some output := by
  have hlt := (List.getElem?_eq_some_iff.mp houtput).1
  rw [h.outputs, branchOutputs, List.getElem?_append_left (by rw [List.length_cons]; omega), Nat.add_comm,
    List.getElem?_cons_succ, houtput]

theorem BranchMessage.token_input (h : BranchMessage libraries programs stormEye config stormEyeUtxo batches issued
      instructed parts branch request committed script) {i : ℕ} {input : IssuanceInput}
    (hinput : parts.inputs[i]? = some input) : request.tx.inputs[1 + i]? = some input := by
  have hlt := (List.getElem?_eq_some_iff.mp hinput).1
  rw [h.inputs, List.getElem?_append_left (by rw [List.length_cons]; omega), Nat.add_comm, List.getElem?_cons_succ, hinput]

/-- Behind the token outputs. -/
theorem BranchMessage.getElem? (h : BranchMessage libraries programs stormEye config stormEyeUtxo batches issued
      instructed parts branch request committed script) (i : ℕ) :
    request.tx.outputs[1 + parts.outputs.length + i]? = (committed.map IssuedVoucher.output ++
      (reservePsetOutputs programs stormEye issued parts.reserves ++ [.new script 0 programs.policyAsset,
        .new (treasuryScript programs stormEye.assetId)
          (config.operationalFeeSats * UInt64.ofNat (issuedCount issued)).toNat programs.policyAsset,
        .new [] config.issuanceTransactionFeeSats.toNat programs.policyAsset]))[i]? := by
  rw [h.outputs, branchOutputs, List.getElem?_append_right (by rw [List.length_cons]; omega)]
  congr 1
  rw [List.length_cons]
  omega

end Messages

section Tokens

/-- A token of the leader as a signer reads it off the message. -/
structure TokenOf (libraries : RoundLibraries) (request : ExecuteUserRequests) (i : ℕ) (ready : RoundToken)
    (token : SpentToken) : Prop where
  kept : TokenKept libraries.toIssuanceLibraries request.tx (1 + i) token
  asset : token.asset = ready.asset
  reissued : token.input.issuanceValueAmount = some ready.issuanceAmount ∧
    token.input.issuanceAssetEntropy = token.asset.entropy ∧ token.input.issuanceValueComm = none ∧
    token.input.issuanceValueRangeproof = none ∧ token.input.inIssuanceBlindValueProof = none

theorem spentToken (hlaws : LawfulBlinding libraries)
    (hbuilt : Built libraries programs stormEye tickAsset verifierAsset config timestamp stormEyeUtxo batches issued
      instructed round parts) {branch : Bytes32} {request : ExecuteUserRequests} {committed : List IssuedVoucher}
    {script : List UInt8} (hmessage : BranchMessage libraries programs stormEye config stormEyeUtxo batches issued instructed
      parts branch request committed script) {i : ℕ} {ready : RoundToken} (hready : parts.tokens[i]? = some ready) :
    ∃ token : SpentToken, TokenOf libraries request i ready token := by
  obtain ⟨entropy, input, output, hentropy, hinput, houtput, hblinded⟩ := hbuilt.reblinded i ready hready
  obtain ⟨template, htemplate⟩ := hbuilt.tokens.ready ready (List.mem_of_getElem? hready)
  obtain ⟨secrets, hsecrets, hasset, hvalue⟩ := htemplate.hidden
  obtain ⟨hwitness, hamount, hreissued, hcomm, hrangeproof, hproof⟩ :=
    hlaws.reissuance ready.utxo ready.issuanceAmount entropy
  have hnext := hblinded.input
  have hhidden : libraries.unblind template = some (ready.secrets.asset, ready.secrets.value) := by
    rw [hlaws.unblinds, hsecrets, Option.map_some, hasset, hvalue]
  refine ⟨⟨ready.asset, template, (ready.secrets.asset, ready.secrets.value), input, ready.utxo.txout, output⟩,
    ⟨htemplate.txout, hhidden, hmessage.token_input hinput, ?_, htemplate.script, ?_, hblinded.asset, hblinded.value,
      hmessage.token_output houtput, ⟨hblinded.unblinds, hblinded.script⟩, isConfidential_iff.mp hblinded.confidential.1,
      isConfidential_iff.mp hblinded.confidential.2⟩, rfl, ?_, ?_, ?_, ?_, ?_⟩
  · rw [hnext]
    exact hwitness
  · rw [hnext]
    exact ⟨rfl, rfl⟩
  · rw [hnext]
    exact hamount
  · rw [hnext, hentropy]
    exact hreissued
  · rw [hnext]
    exact hcomm
  · rw [hnext]
    exact hrangeproof
  · rw [hnext]
    exact hproof

end Tokens

section Acceptance

/-- The network of a round: its assets are not the policy asset, the lane's output is a Storm Eye, and all fee UTXOs
together hold no more than there can be. -/
structure RoundNetwork (programs : IssuancePrograms) (stormEye : NetworkAsset Bytes32)
    (tickAsset verifierAsset : Option (NetworkAsset Bytes32)) (stormEyeUtxo : Utxo Bytes32) (batches : List DecodedBatch) :
    Prop where
  stormEyeAsset : stormEye.assetId ≠ programs.policyAsset
  vouchers : ∀ asset, tickAsset = some asset ∨ verifierAsset = some asset → asset.assetId ≠ programs.policyAsset
  lane : stormEyeUtxo.asset = stormEye.assetId ∧ stormEyeUtxo.scriptPubkey = stormEye.contractScript
  supply : ((feeGroups batches).flatten.map heldValue).sum < 2 ^ 64

variable {branch : Bytes32} {request : ExecuteUserRequests} {committed : List IssuedVoucher} {script : List UInt8}

theorem Built.issuedCount_lt (hbuilt : Built libraries programs stormEye tickAsset verifierAsset config timestamp
      stormEyeUtxo batches issued instructed round parts) (hne : issued ≠ []) : issuedCount issued < 2 ^ 32 := by
  obtain ⟨read, rest, rfl⟩ := List.exists_cons_of_ne_nil hne
  have hfirst := hbuilt.indexes (read, 0) (by simp [List.zipIdx_cons])
  omega

theorem Built.length_reserves (hbuilt : Built libraries programs stormEye tickAsset verifierAsset config timestamp
      stormEyeUtxo batches issued instructed round parts) : parts.reserves.length = issued.length := by
  have hreserved := (Issuance.allocate_allocated (Issuance.allocateAccountReserves_eq_ok_iff.mp hbuilt.allocated)).reserved
  rw [← hreserved.length_eq, List.length_map, accountsOf, List.length_zipWith, hbuilt.funds.length_eq, Nat.min_self]

theorem Built.length_reserveOutputs (hbuilt : Built libraries programs stormEye tickAsset verifierAsset config timestamp
      stormEyeUtxo batches issued instructed round parts) :
    (reservePsetOutputs programs stormEye issued parts.reserves).length = issued.length := by
  rw [reservePsetOutputs, List.length_zipWith, hbuilt.length_reserves, Nat.min_self]

theorem BranchMessage.length_committed (hbuilt : Built libraries programs stormEye tickAsset verifierAsset config timestamp
      stormEyeUtxo batches issued instructed round parts) (hmessage : BranchMessage libraries programs stormEye config
      stormEyeUtxo batches issued instructed parts branch request committed script) :
    committed.length = issuedCount issued := by
  rw [← hmessage.commits.length_eq, (verifier_vouchers hbuilt.answers).2]

/-- The operational fee does not wrap: the fee UTXOs pay for it. -/
theorem Built.operationalFee (hbuilt : Built libraries programs stormEye tickAsset verifierAsset config timestamp
      stormEyeUtxo batches issued instructed round parts) (hne : issued ≠ [])
    (hsupply : ((feeGroups batches).flatten.map heldValue).sum < 2 ^ 64) :
    (parts.reserves.map UInt64.toNat).sum + config.operationalFeeSats.toNat * issuedCount issued +
        config.issuanceTransactionFeeSats.toNat = ((feeGroups batches).flatten.map heldValue).sum ∧
      (config.operationalFeeSats * UInt64.ofNat (issuedCount issued)).toNat =
        config.operationalFeeSats.toNat * issuedCount issued := by
  have hcount := hbuilt.issuedCount_lt hne
  have htotal := (Issuance.allocate_allocated (Issuance.allocateAccountReserves_eq_ok_iff.mp hbuilt.allocated)).total
  rw [sum_operationalFee hbuilt.funds (by omega), sum_inputTotal hbuilt.funds, UInt64.toNat_zero, Nat.sub_zero,
    feeFunds] at htotal
  refine ⟨htotal, ?_⟩
  rw [UInt64.toNat_mul, Issuance.toNat_ofNat (by omega), Nat.mod_eq_of_lt (by omega)]

theorem policyAmount_new {policyAsset asset : Bytes32} {scriptPubkey : List UInt8} {amount : ℕ} :
    policyAmount policyAsset (.new scriptPubkey amount asset) = if asset = policyAsset then amount else 0 := by
  simp [policyAmount, PsetOutput.new]

theorem sum_reserveOutputs (programs : IssuancePrograms) (stormEye : NetworkAsset Bytes32) :
    ∀ {issued : List IssuedBatch} {reserves : List UInt64}, reserves.length = issued.length →
      ((reservePsetOutputs programs stormEye issued reserves).map (policyAmount programs.policyAsset)).sum =
        (reserves.map UInt64.toNat).sum := by
  intro issued
  induction issued with
  | nil =>
    intro reserves hlength
    rw [List.length_eq_zero_iff.mp hlength]
    rfl
  | cons read issued ih =>
    intro reserves hlength
    obtain ⟨reserve, reserves, rfl⟩ := List.exists_cons_of_length_eq_add_one hlength
    have hrest := ih (by simpa using hlength)
    simp only [reservePsetOutputs, List.zipWith_cons_cons, List.map_cons, List.sum_cons, policyAmount_new, if_pos]
      at hrest ⊢
    rw [hrest]

/-- Only the reserves and the two fees are of the policy asset. -/
theorem BranchMessage.sum_policyAmount (hbuilt : Built libraries programs stormEye tickAsset verifierAsset config timestamp
      stormEyeUtxo batches issued instructed round parts) (hmessage : BranchMessage libraries programs stormEye config
      stormEyeUtxo batches issued instructed parts branch request committed script)
    (hnetwork : RoundNetwork programs stormEye tickAsset verifierAsset stormEyeUtxo batches) :
    (request.tx.outputs.map (policyAmount programs.policyAsset)).sum = (parts.reserves.map UInt64.toNat).sum +
      (config.operationalFeeSats * UInt64.ofNat (issuedCount issued)).toNat + config.issuanceTransactionFeeSats.toNat := by
  have htokens : (parts.outputs.map (policyAmount programs.policyAsset)).sum = 0 := by
    rw [List.sum_eq_zero_iff]
    intro amount hamount
    obtain ⟨output, houtput, rfl⟩ := List.mem_map.mp hamount
    obtain ⟨i, hi⟩ := List.getElem?_of_mem houtput
    have hlt := (List.getElem?_eq_some_iff.mp hi).1
    rw [hbuilt.counts.2] at hlt
    obtain ⟨_, _, output', -, -, houtput', hblinded⟩ := hbuilt.reblinded i _ (List.getElem?_eq_getElem hlt)
    obtain rfl := Option.some.inj (hi.symm.trans houtput')
    rw [policyAmount, hblinded.blank, if_neg (by simp)]
  have hvouchers : ((committed.map IssuedVoucher.output).map (policyAmount programs.policyAsset)).sum = 0 := by
    rw [List.sum_eq_zero_iff]
    intro amount hamount
    rw [List.map_map] at hamount
    obtain ⟨voucher, hvoucher, rfl⟩ := List.mem_map.mp hamount
    obtain ⟨i, hi⟩ := List.getElem?_of_mem hvoucher
    obtain ⟨placeholder, hplaceholder, hcommitted⟩ := Loops.forall₂_get hmessage.commits hi
    obtain ⟨requested, -, hanswer⟩ := Loops.forall₂_get hbuilt.answers hplaceholder
    have hasset := hanswer.asset
    rw [Function.comp_apply, IssuedVoucher.output, policyAmount_new, hcommitted.asset, if_neg]
    refine hnetwork.vouchers _ ?_
    split_ifs at hasset
    · exact .inr hasset
    · exact .inl hasset
  rw [hmessage.outputs, branchOutputs]
  simp only [List.map_append, List.map_cons, List.map_nil, List.sum_append, List.sum_cons, List.sum_nil, htokens, hvouchers,
    sum_reserveOutputs programs stormEye hbuilt.length_reserves, PsetOutput.fromUtxo, policyAmount_new, if_true,
    hnetwork.lane.1, hnetwork.stormEyeAsset, if_false]
  omega

theorem BranchMessage.stands (hbuilt : Built libraries programs stormEye tickAsset verifierAsset config timestamp
      stormEyeUtxo batches issued instructed round parts) (hmessage : BranchMessage libraries programs stormEye config
      stormEyeUtxo batches issued instructed parts branch request committed script) :
    StandsAt request.tx (1 + parts.tokens.length) committed := by
  intro i voucher hvoucher
  obtain ⟨placeholder, hplaceholder, hcommitted⟩ := Loops.forall₂_get hmessage.commits hvoucher
  have hindex : voucher.descriptor.outputIndex = placeholder.descriptor.outputIndex := by
    rw [hcommitted.descriptor]
    split_ifs <;> rfl
  refine ⟨by rw [hindex, hbuilt.places i placeholder hplaceholder], voucher.output, ?_, rfl, rfl, rfl⟩
  have hlt := (List.getElem?_eq_some_iff.mp hvoucher).1
  rw [← hbuilt.counts.2, hmessage.getElem?, List.getElem?_append_left (by rw [List.length_map]; exact hlt),
    List.getElem?_map, hvoucher, Option.map_some]

theorem BranchMessage.explicit (hbuilt : Built libraries programs stormEye tickAsset verifierAsset config timestamp
      stormEyeUtxo batches issued instructed round parts) (hmessage : BranchMessage libraries programs stormEye config
      stormEyeUtxo batches issued instructed parts branch request committed script) {i : ℕ} {output : PsetOutput Bytes32}
    (houtput : request.tx.outputs[i]? = some output) :
    (1 ≤ i ∧ i ≤ parts.tokens.length) ∨ output.isFullyExplicit = true := by
  have hcount := hbuilt.counts.2
  by_cases hzero : i = 0
  · subst hzero
    rw [hmessage.outputs, branchOutputs] at houtput
    cases houtput
    exact .inr rfl
  by_cases htoken : i ≤ parts.tokens.length
  · exact .inl ⟨by omega, htoken⟩
  · obtain ⟨k, rfl⟩ : ∃ k, i = 1 + parts.outputs.length + k := ⟨i - (1 + parts.outputs.length), by omega⟩
    rw [hmessage.getElem?] at houtput
    have hmem := List.mem_of_getElem? houtput
    right
    simp only [reservePsetOutputs, List.mem_append, List.mem_map, List.mem_cons, List.not_mem_nil, or_false] at hmem
    rcases hmem with ⟨voucher, -, rfl⟩ | hreserve | rfl | rfl | rfl
    · rfl
    · obtain ⟨k, hk, rfl⟩ := List.mem_iff_getElem.mp hreserve
      rw [List.getElem_zipWith]
      rfl
    · rfl
    · rfl
    · rfl

theorem accounted_round (hbuilt : Built libraries programs stormEye tickAsset verifierAsset config timestamp
      stormEyeUtxo batches issued instructed round parts) (hmessage : BranchMessage libraries programs stormEye config
      stormEyeUtxo batches issued instructed parts branch request committed script)
    (hnetwork : RoundNetwork programs stormEye tickAsset verifierAsset stormEyeUtxo batches) (hne : issued ≠ [])
    (hpolicy : ∀ batch ∈ batches, ∀ utxo ∈ batch.feeUtxos, utxo.asset = programs.policyAsset) :
    Accounted programs request.tx stormEye config (accountsOf programs stormEye issued (feeGroups batches))
      parts.tokens.length (issuedCount issued) parts.reserves := by
  obtain ⟨htotal, hoperational⟩ := hbuilt.operationalFee hne hnetwork.supply
  have hsupply := hnetwork.supply
  have hcount := hbuilt.counts
  have hcommitted := hmessage.length_committed hbuilt
  have hreserveCount := hbuilt.length_reserveOutputs
  have haccounts : (accountsOf programs stormEye issued (feeGroups batches)).length = issued.length := by
    rw [accountsOf, List.length_zipWith, hbuilt.funds.length_eq, Nat.min_self]
  have hdrop : request.tx.inputs.drop (1 + parts.tokens.length) = (feeGroups batches).flatten := by
    rw [hmessage.inputs, ← hcount.1, Nat.add_comm 1, ← List.length_cons (a := IssuanceInput.new stormEyeUtxo)]
    exact List.drop_left
  have hmem : ∀ output ∈ [PsetOutput.new script 0 programs.policyAsset,
      .new (treasuryScript programs stormEye.assetId)
        (config.operationalFeeSats * UInt64.ofNat (issuedCount issued)).toNat programs.policyAsset,
      .new [] config.issuanceTransactionFeeSats.toNat programs.policyAsset], output ∈ request.tx.outputs := by
    intro output houtput
    rw [hmessage.outputs, branchOutputs]
    exact List.mem_append_right _ (List.mem_append_right _ (List.mem_append_right _ houtput))
  refine ⟨?_, fun i output houtput => hmessage.explicit hbuilt houtput, by omega,
    ⟨_, hmem _ (.tail _ (.head _)), rfl, rfl, ?_⟩, hbuilt.allocated, ?_, ⟨_, hmem _ (.tail _ (.tail _ (.head _))), rfl, rfl, rfl⟩, ?_, ?_, by rw [hdrop]; exact hnetwork.supply, ?_⟩
  · rw [hmessage.outputs, branchOutputs, haccounts]
    simp [hcount.2, hcommitted, hreserveCount]
    omega
  · rw [hoperational]
    rfl
  · intro i item hitem
    obtain ⟨hlt, hget⟩ := List.getElem?_eq_some_iff.mp hitem
    rw [List.length_zip, haccounts, hbuilt.length_reserves, Nat.min_self] at hlt
    refine ⟨.new item.1.script item.2.toNat programs.policyAsset, ?_, rfl, rfl, rfl⟩
    rw [← hcount.2, Nat.add_assoc, hmessage.getElem?, List.getElem?_append_right (by rw [List.length_map]; omega),
      List.length_map, hcommitted, Nat.add_sub_cancel_left, List.getElem?_append_left (by omega),
      List.getElem?_eq_getElem (by omega), ← hget]
    simp only [reservePsetOutputs, List.getElem_zipWith, List.getElem_zip, accountsOf]
  · rw [hdrop]
    intro input hinput
    obtain ⟨group, hgroup, hinput⟩ := List.mem_flatten.mp hinput
    obtain ⟨batch, hbatch, rfl⟩ := List.mem_map.mp hgroup
    obtain ⟨utxo, hutxo, rfl⟩ := List.mem_map.mp hinput
    exact ⟨utxo.txout, utxo.amount, rfl, by rw [Utxo.txout, hpolicy batch hbatch utxo hutxo], rfl⟩
  · intro output houtput hasset
    obtain ⟨i, hi⟩ := List.getElem?_of_mem houtput
    rcases hmessage.explicit hbuilt hi with hbetween | hfull
    · obtain ⟨k, rfl⟩ : ∃ k, i = 1 + k := ⟨i - 1, by omega⟩
      obtain ⟨_, _, token, -, -, htoken, hblinded⟩ := hbuilt.reblinded k _ (List.getElem?_eq_getElem (by omega))
      obtain rfl := Option.some.inj (hi.symm.trans (hmessage.token_output htoken))
      rw [hblinded.blank] at hasset
      cases hasset
    · simp only [PsetOutput.isFullyExplicit, Bool.and_eq_true] at hfull
      exact hfull.1.1.1.1.1.1.1.1.1.1
  · rw [hdrop, hmessage.sum_policyAmount hbuilt hnetwork, hoperational, htotal]

theorem validateFeeUtxo_length {parsed next : List (FeeUtxo (List UInt8))} {utxo : String}
    (h : UserApi.validateFeeUtxo parsed utxo = .ok next) : next.length = parsed.length + 1 := by
  unfold UserApi.validateFeeUtxo at h
  cases hsplit : UserApi.splitOnce ':' utxo.toList with
  | none =>
    rw [hsplit] at h
    cases h
  | some halves =>
    rw [hsplit] at h
    obtain ⟨txid, -, h⟩ := Db.except_bind_ok.mp h
    cases hindex : UserApi.parseU32 halves.2 with
    | none =>
      rw [hindex] at h
      cases h
    | some index =>
      rw [hindex] at h
      dsimp only at h
      split_ifs at h
      cases h
      rw [List.length_append, List.length_singleton]

/-- Every batch names a fee UTXO. -/
theorem feeUtxos_ne_nil {libraries : IssuanceLibraries} {encoded : List UInt8} {user : NetworkUserRequests}
    {feeUtxos : List (FeeUtxo (List UInt8))} {feed : Option UInt32}
    (h : validateEncodedRequest libraries encoded = .ok (user, feeUtxos, feed)) : feeUtxos ≠ [] := by
  unfold validateEncodedRequest at h
  obtain ⟨decoded, -, h⟩ := Db.except_bind_ok.mp h
  obtain ⟨valid, hvalid, h⟩ := Db.except_bind_ok.mp h
  cases h
  rw [mapError_ok, UserApi.validateRequest] at hvalid
  split_ifs at hvalid
  obtain ⟨parsed, hparsed, hvalid⟩ := Db.except_bind_ok.mp hvalid
  obtain ⟨feed, -, hvalid⟩ := Db.except_bind_ok.mp hvalid
  obtain ⟨-, hvalid⟩ := then_ok.mp hvalid
  cases hvalid
  unfold UserApi.validateFeeUtxos at hparsed
  split_ifs at hparsed with hempty hmany
  have hlength : parsed.length = user.header.feeUtxos.length := by
    refine Loops.foldlM_ok (P := fun done (parsed : List (FeeUtxo (List UInt8))) => parsed.length = done.length) ?_ rfl hparsed
    intro done utxo parsed next hdone hstep
    rw [validateFeeUtxo_length hstep, hdone, List.length_append, List.length_singleton]
  intro hnil
  dsimp only at hnil
  rw [hnil, List.length_nil] at hlength
  exact hempty (List.length_eq_zero_iff.mp hlength.symm)

theorem Resolved.ne_nil {libraries : IssuanceLibraries} {batch : DecodedBatch} {read : IssuedBatch}
    (h : Resolved libraries programs stormEye batch read) : read.request.requests ≠ [] ∧ batch.feeUtxos ≠ [] := by
  refine ⟨requests_ne_nil h.encoded, fun hnil => feeUtxos_ne_nil h.encoded ?_⟩
  have hlength := h.feeUtxos.length_eq
  rwa [hnil, List.length_nil, List.length_eq_zero_iff] at hlength

theorem Built.tokens_ne_nil (hbuilt : Built libraries programs stormEye tickAsset verifierAsset config timestamp
      stormEyeUtxo batches issued instructed round parts) (hcount : 0 < issuedCount issued) : parts.tokens ≠ [] := by
  intro hnil
  have hassets := hbuilt.tokens.assets
  rw [hnil, List.map_nil] at hassets
  by_cases htick : 0 < issuedCount issued - verifierCount issued
  · obtain ⟨asset, rfl⟩ := Option.isSome_iff_exists.mp (hbuilt.tokens.ticks htick)
    simp [htick] at hassets
  · have hverifier : 0 < verifierCount issued := by omega
    obtain ⟨asset, rfl⟩ := Option.isSome_iff_exists.mp (hbuilt.tokens.verifiers hverifier)
    simp [htick, hverifier] at hassets

/-- The branch changes neither the kinds nor the amounts of the vouchers. -/
theorem voucherAmounts_committed {libraries : IssuanceLibraries} {vouchers committed : List IssuedVoucher}
    (h : List.Forall₂ (Committed libraries programs stormEye branch) vouchers committed)
    (assets : List (NetworkAsset Bytes32)) : voucherAmounts assets committed = voucherAmounts assets vouchers := by
  induction h with
  | nil => rfl
  | @cons voucher next _ _ hcommitted _ ih =>
    have hkind : next.descriptor.signer.isSome = voucher.descriptor.signer.isSome := by
      rw [hcommitted.descriptor]
      split_ifs with hverifier
      · exact hverifier.symm
      · rfl
    rw [voucherAmounts, List.map_cons, ← voucherAmounts, ih, hkind, hcommitted.amount]
    rfl

theorem Built.totals (hbuilt : Built libraries programs stormEye tickAsset verifierAsset config timestamp
      stormEyeUtxo batches issued instructed round parts) :
    issuedTotals parts.tokens.length (voucherAmounts (parts.tokens.map RoundToken.asset) parts.vouchers) =
      parts.tokens.map RoundToken.issuanceAmount := by
  obtain ⟨hverifiers, hcount⟩ := verifier_vouchers hbuilt.answers
  refine issuedTotals_round hbuilt.tokens hbuilt.amounts hverifiers ?_
  have hsplit := List.length_eq_length_filter_add (l := parts.vouchers) fun voucher => voucher.descriptor.isVerifier
  omega

theorem Built.amount_lt (hbuilt : Built libraries programs stormEye tickAsset verifierAsset config timestamp
      stormEyeUtxo batches issued instructed round parts) (hne : issued ≠ []) {amount : ℕ}
    (hamount : amount ∈ parts.tokens.map RoundToken.issuanceAmount) : amount < 2 ^ 64 := by
  have hcount := hbuilt.issuedCount_lt hne
  have hverifiers : verifierCount issued ≤ issuedCount issued := by
    rw [issuedCount_eq, verifierCount]
    exact List.length_filter_le _ _
  rw [hbuilt.tokens.amounts, List.mem_append] at hamount
  rcases hamount with hamount | hamount
  · split_ifs at hamount with htick
    · rw [List.mem_singleton.mp hamount]
      exact hbuilt.tokens.fits htick
    · simp at hamount
  · split_ifs at hamount with hverifier
    · rw [List.mem_singleton.mp hamount]
      omega
    · simp at hamount

theorem answers_committed {libraries : IssuanceLibraries} {now : ℕ} (hclock : absDiff timestamp now ≤ maxTickTimeSkewSecs)
    {requested : List RequestedVoucher} {vouchers : List IssuedVoucher} (hanswers : List.Forall₂
      (Answers libraries programs stormEye tickAsset verifierAsset placeholderSigner timestamp) requested vouchers) :
    ∀ {committed : List IssuedVoucher}, List.Forall₂ (Committed libraries programs stormEye branch) vouchers committed →
    (∀ voucher ∈ vouchers, voucher.amount = if voucher.descriptor.isVerifier then 1 else timestamp) →
    List.Forall₂ (Answers libraries programs stormEye tickAsset verifierAsset branch now) requested committed := by
  induction hanswers with
  | nil =>
    intro committed hcommits _
    cases hcommits
    exact .nil
  | cons hanswer _ ih =>
    intro committed hcommits hamounts
    cases hcommits with
    | cons hcommitted hrest =>
      exact .cons (hcommitted.answers hanswer (hamounts _ List.mem_cons_self) hclock)
        (ih hrest fun other hother => hamounts other (List.mem_cons_of_mem _ hother))

/-- A signer close to the leader's clock finds all it checks in the message of a built round. -/
theorem message_accepted (hlaws : LawfulBlinding libraries)
    (hresolved : List.Forall₂ (Resolved libraries.toIssuanceLibraries programs stormEye) batches issued)
    (hbuilt : Built libraries programs stormEye tickAsset verifierAsset config timestamp stormEyeUtxo batches issued
      instructed round parts)
    (hmessage : BranchMessage libraries programs stormEye config stormEyeUtxo batches issued instructed parts branch request
      committed script)
    (hnetwork : RoundNetwork programs stormEye tickAsset verifierAsset stormEyeUtxo batches) (hne : batches ≠ [])
    (hcarried : ∀ batch ∈ batches, ∀ feed, batch.namedFeed = some feed → ∃ rate, instructed = some rate ∧ rate.feedId = feed)
    (hpriced : instructed = none ↔ ∀ batch ∈ batches, batch.namedFeed = none) {now : ℕ}
    (hclock : absDiff timestamp now ≤ maxTickTimeSkewSecs) :
    ∃ accepted, Accepted libraries.toIssuanceLibraries programs stormEye tickAsset verifierAsset config now request instructed
      accepted := by
  have hissued : issued ≠ [] := fun hnil => hne (List.length_eq_zero_iff.mp (by rw [hresolved.length_eq, hnil]; rfl))
  have hcount : 0 < issuedCount issued ∧ 0 < (feeGroups batches).flatten.length := by
    obtain ⟨batch, rest, rfl⟩ := List.exists_cons_of_ne_nil hne
    cases hresolved with
    | cons hbatch _ =>
      have hrequests := List.length_pos_iff.mpr hbatch.ne_nil.1
      have hfees := List.length_pos_iff.mpr hbatch.ne_nil.2
      simp only [issuedCount, feeGroups, List.map_cons, List.sum_cons, List.flatten_cons, List.length_append, List.length_map]
      omega
  have htokens := List.length_pos_iff.mpr (hbuilt.tokens_ne_nil hcount.1)
  obtain ⟨spent, hlength, hspent⟩ := Loops.exists_list fun i ready hready => spentToken hlaws hbuilt hmessage hready
  have hassets : spent.map SpentToken.asset = parts.tokens.map RoundToken.asset := by
    refine List.ext_getElem (by simp [hlength]) fun i hi hi' => ?_
    obtain ⟨ready, hready, htoken⟩ := hspent i _ (List.getElem?_eq_getElem (by simpa using hi))
    rw [List.getElem_map, List.getElem_map, htoken.asset]
    exact congrArg RoundToken.asset (List.getElem_of_getElem? hready).2.symm
  have hpolicy : ∀ batch ∈ batches, ∀ utxo ∈ batch.feeUtxos, utxo.asset = programs.policyAsset := by
    intro batch hbatch utxo hutxo
    obtain ⟨i, hi⟩ := List.getElem?_of_mem hbatch
    obtain ⟨k, hk⟩ := List.getElem?_of_mem hutxo
    obtain ⟨read, -, hread⟩ := Loops.forall₂_get hresolved.flip hi
    obtain ⟨feeUtxo, -, hfee⟩ := Loops.forall₂_get hread.feeUtxos hk
    exact hfee.2.1
  have hinputs : request.tx.inputs.length = 1 + parts.tokens.length + (feeGroups batches).flatten.length := by
    rw [hmessage.inputs, List.length_append, List.length_cons, hbuilt.counts.1]
    omega
  have haccounted := accounted_round hbuilt hmessage hnetwork hissued hpolicy
  have haccounts : (accountsOf programs stormEye issued (feeGroups batches)).length = issued.length := by
    rw [accountsOf, List.length_zipWith, hbuilt.funds.length_eq, Nat.min_self]
  have htotals : issuedTotals spent.length (voucherAmounts (spent.map SpentToken.asset) committed) =
      parts.tokens.map RoundToken.issuanceAmount := by
    rw [hlength, hassets, voucherAmounts_committed hmessage.commits, hbuilt.totals]
  refine ⟨⟨issued, batches.map DecodedBatch.namedFeed, .new stormEyeUtxo, stormEyeUtxo.amount, spent, feeGroups batches,
    committed, script, parts.reserves⟩, ?_, ⟨by omega, ?_⟩, ?_, ?_, ⟨stormEyeUtxo.txout, rfl, ?_, rfl, hnetwork.lane.2⟩,
    ⟨.fromUtxo stormEyeUtxo, ?_, ?_, rfl, hnetwork.lane.2⟩, ?_, fun i token htoken => ?_, hbuilt.funds, ?_, ?_, ?_, ?_, ?_,
    fun i token htoken => ?_, hmessage.script, ⟨.new script 0 programs.policyAsset, ?_, rfl, rfl, rfl⟩, ?_,
    hmessage.signingHash⟩
  · rw [hmessage.externals]
    exact mt List.map_eq_nil_iff.mp hne
  · rw [haccounted.length]
    omega
  · rw [hmessage.externals]
    exact readBatches_round hresolved hcarried hpriced
  · rw [hmessage.inputs]
    rfl
  · exact congrArg ChainField.explicit hnetwork.lane.1
  · rw [hmessage.outputs]
    rfl
  · exact congrArg ChainField.explicit hnetwork.lane.1
  · refine roundTokens_ok.mpr ⟨fun htick => hbuilt.tokens.ticks (Nat.sub_pos_of_lt htick), hbuilt.tokens.verifiers, ?_⟩
    dsimp only
    rw [hassets, hbuilt.tokens.assets]
    simp only [Nat.sub_pos_iff_lt]
  · obtain ⟨ready, -, hready⟩ := hspent i token htoken
    exact hready.kept
  · dsimp only
    rw [hmessage.inputs, hlength, ← hbuilt.counts.1, Nat.add_comm 1,
      ← List.length_cons (a := IssuanceInput.new stormEyeUtxo)]
    exact List.drop_left
  · dsimp only
    rw [hlength, hmessage.branch]
    exact answers_committed hclock hbuilt.answers hmessage.commits hbuilt.amounts
  · dsimp only
    rw [hlength]
    exact hmessage.stands hbuilt
  · dsimp only
    rw [htotals]
    exact fun amount hamount => hbuilt.amount_lt hissued hamount
  · dsimp only
    rw [hlength]
    exact hbuilt.indexes
  · obtain ⟨ready, hready, htoken⟩ := hspent i token htoken
    dsimp only
    rw [htotals, List.getD_eq_getElem?_getD, List.getElem?_map, hready, Option.map_some, Option.getD_some]
    exact htoken.reissued
  · dsimp only
    have hposition := hmessage.getElem? (issuedCount issued + issued.length)
    rw [List.getElem?_append_right (by rw [List.length_map, hmessage.length_committed hbuilt]; omega), List.length_map,
      hmessage.length_committed hbuilt, Nat.add_sub_cancel_left,
      List.getElem?_append_right (by rw [hbuilt.length_reserveOutputs]), hbuilt.length_reserveOutputs, Nat.sub_self] at hposition
    rw [hlength, ← hbuilt.counts.2, Nat.add_assoc _ (issuedCount issued), hposition]
    rfl
  · dsimp only
    rw [hlength]
    exact haccounted

end Acceptance

end IssuanceRound

end PriceOracle
