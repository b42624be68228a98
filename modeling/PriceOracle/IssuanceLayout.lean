import PriceOracle.IssuanceChecks
import PriceOracle.ReshapeValidator

/-!
# The transaction that a signer of a round accepts

The checks of `validate_execute_request` put together: the inputs and outputs of an accepted PSET in
their order, up to the last two outputs, which the validator finds by what they are and not by where
they stand.
-/

namespace PriceOracle

section Segments

variable {A B C : Type}

/-- Items that are found one by one behind a position are there as a segment. -/
theorem segment_map {outputs : List A} {items : List B} {first : ℕ} {f : A → C} {g : B → C}
    (h : ∀ (i : ℕ) (item : B), items[i]? = some item → ∃ output, outputs[first + i]? = some output ∧ f output = g item) :
    ((outputs.drop first).take items.length).map f = items.map g := by
  apply List.ext_getElem?
  intro i
  rw [List.getElem?_map, List.getElem?_map]
  cases hitem : items[i]? with
  | none =>
    rw [List.getElem?_eq_none_iff] at hitem
    rw [List.getElem?_take_eq_none hitem]
    rfl
  | some item =>
    obtain ⟨output, houtput, heq⟩ := h i item hitem
    rw [List.getElem?_take_of_lt (List.getElem?_eq_some_iff.mp hitem).1, List.getElem?_drop, houtput]
    simp [heq]

theorem drop_segment (outputs : List A) (first count : ℕ) :
    outputs.drop first = (outputs.drop first).take count ++ outputs.drop (first + count) := by
  rw [← List.drop_drop, List.take_append_drop]

end Segments

namespace IssuanceRound

open Issuance (okOr okOr_eq_ok_iff)

variable {libraries : IssuanceLibraries} {programs : IssuancePrograms} {pset : IssuancePset}
  {stormEye : NetworkAsset Bytes32} {tickAsset verifierAsset : Option (NetworkAsset Bytes32)}
  {config : Issuance.ProtocolConfig}

section Accounting

/-- What an output adds to the policy asset, as the validator counts it. -/
def policyAmount (policyAsset : Bytes32) (output : PsetOutput Bytes32) : ℕ :=
  if output.asset = some policyAsset then output.amount.getD 0 else 0

/-- An input that brings an explicit amount of the policy asset. -/
def BringsPolicy (policyAsset : Bytes32) (input : IssuanceInput) : Prop :=
  ∃ utxo value, input.witnessUtxo = some utxo ∧ utxo.asset = .explicit policyAsset ∧ utxo.value = .explicit value

theorem addFeeInput_ok {total next : ℕ} {input : IssuanceInput} :
    addFeeInput programs total input = .ok next ↔
      next = total + heldValue input ∧ total + heldValue input < 2 ^ 64 ∧ BringsPolicy programs.policyAsset input := by
  unfold addFeeInput
  constructor
  · intro h
    obtain ⟨utxo, hutxo, h⟩ := Db.except_bind_ok.mp h
    obtain ⟨hasset, h⟩ := then_ok.mp h
    obtain ⟨value, hvalue, h⟩ := Db.except_bind_ok.mp h
    rw [okOr_eq_ok_iff] at hutxo hvalue
    have hheld : heldValue input = value := by rw [heldValue, hutxo, Option.bind_some, hvalue, Option.getD_some]
    rw [hheld]
    obtain ⟨hnext, hfits⟩ := addAmount_ok.mp h
    exact ⟨hnext, hfits, utxo, value, hutxo, ChainField.getExplicit_eq_some.mp (require_ok.mp hasset),
      ChainField.getExplicit_eq_some.mp hvalue⟩
  · rintro ⟨rfl, hfits, utxo, value, hutxo, hasset, hvalue⟩
    have hheld : heldValue input = value := by
      rw [heldValue, hutxo, Option.bind_some, hvalue]
      rfl
    rw [hheld] at hfits ⊢
    refine Db.except_bind_ok.mpr ⟨utxo, okOr_eq_ok_iff _ _ _ |>.mpr hutxo, ?_⟩
    refine then_ok.mpr ⟨require_ok.mpr (ChainField.getExplicit_eq_some.mpr hasset), ?_⟩
    refine Db.except_bind_ok.mpr ⟨value, okOr_eq_ok_iff _ _ _ |>.mpr (ChainField.getExplicit_eq_some.mpr hvalue), ?_⟩
    exact addAmount_ok.mpr ⟨rfl, hfits⟩

theorem addFeeInputs_ok {inputs : List IssuanceInput} {total : ℕ} :
    inputs.foldlM (addFeeInput programs) 0 = .ok total ↔ total = (inputs.map heldValue).sum ∧
      (inputs.map heldValue).sum < 2 ^ 64 ∧ ∀ input ∈ inputs, BringsPolicy programs.policyAsset input := by
  constructor
  · intro h
    have hall := Loops.foldlM_ok (P := fun done total => total = (done.map heldValue).sum ∧ total < 2 ^ 64 ∧
      ∀ input ∈ done, BringsPolicy programs.policyAsset input) (fun done input total next hP hstep => by
        obtain ⟨htotal, -, hall⟩ := hP
        obtain ⟨rfl, hfits, hinput⟩ := addFeeInput_ok.mp hstep
        exact ⟨by simp [htotal], hfits, by simpa [or_imp, forall_and] using ⟨hall, hinput⟩⟩)
      ⟨rfl, by norm_num, fun input hinput => absurd hinput List.not_mem_nil⟩ h
    exact ⟨hall.1, hall.1 ▸ hall.2.1, hall.2.2⟩
  · rintro ⟨rfl, hfits, hall⟩
    obtain ⟨last, hlast, heq⟩ := Loops.foldlM_runs (f := addFeeInput programs) (l := inputs) (s := 0)
      (P := fun done total => total = (done.map heldValue).sum) rfl (fun done input rest total hitems hP => by
        rw [hitems] at hfits hall
        simp only [List.map_append, List.map_cons, List.sum_append, List.sum_cons] at hfits
        exact ⟨_, addFeeInput_ok.mpr ⟨rfl, by omega, hall input (by simp)⟩, by simp [hP]⟩)
    rw [hlast, heq]

theorem addFeeOutput_ok {total next : ℕ} {output : PsetOutput Bytes32}
    (hstated : output.asset = some programs.policyAsset → output.amount.isSome) (htotal : total < 2 ^ 64) :
    addFeeOutput programs total output = .ok next ↔
      next = total + policyAmount programs.policyAsset output ∧
        total + policyAmount programs.policyAsset output < 2 ^ 64 := by
  unfold addFeeOutput policyAmount
  by_cases hasset : output.asset = some programs.policyAsset
  · obtain ⟨amount, hamount⟩ := Option.isSome_iff_exists.mp (hstated hasset)
    rw [if_neg (not_not.mpr hasset), if_pos hasset, hamount]
    exact addAmount_ok
  · rw [if_pos hasset, if_neg hasset, Except.ok.injEq, Nat.add_zero, and_iff_left htotal, eq_comm]

theorem addFeeOutput_stated {total next : ℕ} {output : PsetOutput Bytes32}
    (h : addFeeOutput programs total output = .ok next) (hasset : output.asset = some programs.policyAsset) :
    output.amount.isSome := by
  unfold addFeeOutput at h
  rw [if_neg (not_not.mpr hasset)] at h
  obtain ⟨amount, hamount, -⟩ := Db.except_bind_ok.mp h
  rw [okOr_eq_ok_iff] at hamount
  rw [hamount]
  rfl

theorem addFeeOutputs_ok {outputs : List (PsetOutput Bytes32)} {total : ℕ} :
    outputs.foldlM (addFeeOutput programs) 0 = .ok total ↔ total = (outputs.map (policyAmount programs.policyAsset)).sum ∧
      (outputs.map (policyAmount programs.policyAsset)).sum < 2 ^ 64 ∧
      ∀ output ∈ outputs, output.asset = some programs.policyAsset → output.amount.isSome := by
  constructor
  · intro h
    have hall := Loops.foldlM_ok (P := fun done total => total = (done.map (policyAmount programs.policyAsset)).sum ∧
      total < 2 ^ 64 ∧ ∀ output ∈ done, output.asset = some programs.policyAsset → output.amount.isSome)
      (fun done output total next hP hstep => by
        obtain ⟨htotal, hfits, hall⟩ := hP
        have hstated := addFeeOutput_stated hstep
        obtain ⟨rfl, hnext⟩ := (addFeeOutput_ok hstated hfits).mp hstep
        exact ⟨by simp [htotal], hnext, by simpa [or_imp, forall_and] using ⟨hall, hstated⟩⟩)
      ⟨rfl, by norm_num, fun output houtput => absurd houtput List.not_mem_nil⟩ h
    exact ⟨hall.1, hall.1 ▸ hall.2.1, hall.2.2⟩
  · rintro ⟨rfl, hfits, hall⟩
    obtain ⟨last, hlast, heq⟩ := Loops.foldlM_runs (f := addFeeOutput programs) (l := outputs) (s := 0)
      (P := fun done total => total = (done.map (policyAmount programs.policyAsset)).sum) rfl
      (fun done output rest total hitems hP => by
        rw [hitems] at hfits hall
        simp only [List.map_append, List.map_cons, List.sum_append, List.sum_cons] at hfits
        exact ⟨_, (addFeeOutput_ok (hall output (by simp)) (by omega)).mpr ⟨rfl, by omega⟩, by simp [hP]⟩)
    rw [hlast, heq]

/-- What the accounting of the outputs establishes. -/
structure Accounted (programs : IssuancePrograms) (pset : IssuancePset) (stormEye : NetworkAsset Bytes32)
    (config : Issuance.ProtocolConfig) (accounts : List AccountRequirement) (tokenCount issuedCount : ℕ)
    (reserves : List UInt64) : Prop where
  length : pset.outputs.length = 1 + tokenCount + issuedCount + accounts.length + 1 + 2
  explicit : ∀ (i : ℕ) (output : PsetOutput Bytes32), pset.outputs[i]? = some output →
    (1 ≤ i ∧ i ≤ tokenCount) ∨ output.isFullyExplicit = true
  operational : config.operationalFeeSats.toNat * issuedCount < 2 ^ 64
  treasury : ∃ output ∈ pset.outputs, output.scriptPubkey = treasuryScript programs stormEye.assetId ∧
    output.asset = some programs.policyAsset ∧ output.amount = some (config.operationalFeeSats.toNat * issuedCount)
  allocated : Issuance.allocateAccountReserves (accounts.map accountOf) config = .ok reserves
  reserves : ∀ (i : ℕ) (item : AccountRequirement × UInt64), (accounts.zip reserves)[i]? = some item →
    ∃ output, pset.outputs[1 + tokenCount + issuedCount + i]? = some output ∧ output.scriptPubkey = item.1.script ∧
      output.asset = some programs.policyAsset ∧ output.amount = some item.2.toNat
  minerFee : ∃ output ∈ pset.outputs, output.scriptPubkey = [] ∧ output.asset = some programs.policyAsset ∧
    output.amount = some config.issuanceTransactionFeeSats.toNat
  funded : ∀ input ∈ pset.inputs.drop (1 + tokenCount), BringsPolicy programs.policyAsset input
  stated : ∀ output ∈ pset.outputs, output.asset = some programs.policyAsset → output.amount.isSome
  fits : ((pset.inputs.drop (1 + tokenCount)).map heldValue).sum < 2 ^ 64
  balanced : ((pset.inputs.drop (1 + tokenCount)).map heldValue).sum =
    (pset.outputs.map (policyAmount programs.policyAsset)).sum

theorem checkReserve_ok {first : ℕ} {item : (AccountRequirement × UInt64) × ℕ} :
    checkReserve programs pset first item = .ok () ↔ ∃ output, pset.outputs[first + item.2]? = some output ∧
      output.scriptPubkey = item.1.1.script ∧ output.asset = some programs.policyAsset ∧
        output.amount = some item.1.2.toNat := by
  unfold checkReserve
  constructor
  · intro h
    obtain ⟨output, houtput, h⟩ := Db.except_bind_ok.mp h
    rw [okOr_eq_ok_iff] at houtput
    exact ⟨output, houtput, require_ok.mp h⟩
  · rintro ⟨output, houtput, hchecked⟩
    exact Db.except_bind_ok.mpr ⟨output, okOr_eq_ok_iff _ _ _ |>.mpr houtput, require_ok.mpr hchecked⟩

theorem validateAccountingOutputs_ok {accounts : List AccountRequirement} {tokenCount issuedCount : ℕ} :
    validateAccountingOutputs programs pset stormEye config accounts tokenCount issuedCount = .ok () ↔
      ∃ reserves, Accounted programs pset stormEye config accounts tokenCount issuedCount reserves := by
  unfold validateAccountingOutputs
  constructor
  · intro h
    obtain ⟨hlength, h⟩ := then_ok.mp h
    obtain ⟨hexplicit, h⟩ := then_ok.mp h
    obtain ⟨operational, hoperational, h⟩ := Db.except_bind_ok.mp h
    obtain ⟨htreasury, h⟩ := then_ok.mp h
    obtain ⟨reserves, hallocated, h⟩ := Db.except_bind_ok.mp h
    obtain ⟨hreserves, h⟩ := then_ok.mp h
    obtain ⟨hfee, h⟩ := then_ok.mp h
    obtain ⟨inputTotal, hinputs, h⟩ := Db.except_bind_ok.mp h
    obtain ⟨outputTotal, houtputs, h⟩ := Db.except_bind_ok.mp h
    obtain ⟨rfl, hfits⟩ := checkedMul_ok.mp hoperational
    obtain ⟨rfl, hinputsFit, hfunded⟩ := addFeeInputs_ok.mp hinputs
    obtain ⟨rfl, -, hstated⟩ := addFeeOutputs_ok.mp houtputs
    exact ⟨reserves, require_ok.mp hlength, fun i output houtput => require_ok.mp (forM_zipIdx_ok.mp hexplicit i output houtput),
      hfits, require_ok.mp htreasury, mapError_ok.mp hallocated,
      fun i item hitem => checkReserve_ok.mp (forM_zipIdx_ok.mp hreserves i item hitem), require_ok.mp hfee, hfunded,
      hstated, hinputsFit, require_ok.mp h⟩
  · rintro ⟨reserves, h⟩
    refine then_ok.mpr ⟨require_ok.mpr h.length, then_ok.mpr ⟨forM_zipIdx_ok.mpr fun i output houtput =>
      require_ok.mpr (h.explicit i output houtput), ?_⟩⟩
    refine Db.except_bind_ok.mpr ⟨_, checkedMul_ok.mpr ⟨rfl, h.operational⟩, then_ok.mpr ⟨require_ok.mpr h.treasury, ?_⟩⟩
    refine Db.except_bind_ok.mpr ⟨reserves, mapError_ok.mpr h.allocated, then_ok.mpr ⟨forM_zipIdx_ok.mpr fun i item hitem =>
      checkReserve_ok.mpr (h.reserves i item hitem), then_ok.mpr ⟨require_ok.mpr h.minerFee, ?_⟩⟩⟩
    refine Db.except_bind_ok.mpr ⟨_, addFeeInputs_ok.mpr ⟨rfl, h.fits, h.funded⟩, ?_⟩
    refine Db.except_bind_ok.mpr ⟨_, addFeeOutputs_ok.mpr ⟨rfl, h.balanced ▸ h.fits, h.stated⟩, require_ok.mpr h.balanced⟩

end Accounting

section Accepted

variable {now : ℕ} {request : ExecuteUserRequests} {instructed : Option PriceFeedData} {parts : AcceptedParts}

/-- The parts of an accepted transaction. -/
structure AcceptedParts where
  batches : List IssuedBatch
  feeds : List (Option UInt32)
  stormEyeInput : IssuanceInput
  stormEyeAmount : ℕ
  tokens : List SpentToken
  groups : List (List IssuanceInput)
  vouchers : List IssuedVoucher
  descriptorScript : List UInt8
  reserves : List UInt64

/-- What `validate_execute_request` has checked of the PSET of a message. -/
structure Accepted (libraries : IssuanceLibraries) (programs : IssuancePrograms) (stormEye : NetworkAsset Bytes32)
    (tickAsset verifierAsset : Option (NetworkAsset Bytes32)) (config : Issuance.ProtocolConfig) (now : ℕ)
    (request : ExecuteUserRequests) (instructed : Option PriceFeedData) (parts : AcceptedParts) : Prop where
  nonempty : request.externalRequests ≠ []
  complete : 3 ≤ request.tx.inputs.length ∧ 5 ≤ request.tx.outputs.length
  batches : ReadBatches libraries request.externalRequests parts.batches parts.feeds instructed
  stormEyeInput : request.tx.inputs[0]? = some parts.stormEyeInput
  stormEyeSpent : ∃ utxo, parts.stormEyeInput.witnessUtxo = some utxo ∧ utxo.asset = .explicit stormEye.assetId ∧
    utxo.value = .explicit parts.stormEyeAmount ∧ utxo.scriptPubkey = stormEye.contractScript
  stormEyeKept : ∃ output, request.tx.outputs[0]? = some output ∧ output.toTxout.asset = .explicit stormEye.assetId ∧
    output.toTxout.value = .explicit parts.stormEyeAmount ∧ output.toTxout.scriptPubkey = stormEye.contractScript
  tokens : roundTokens tickAsset verifierAsset parts.batches = .ok (parts.tokens.map SpentToken.asset)
  kept : ∀ (i : ℕ) (token : SpentToken), parts.tokens[i]? = some token → TokenKept libraries request.tx (1 + i) token
  groups : List.Forall₂ (FundsBatch programs stormEye) parts.batches parts.groups
  inputs : request.tx.inputs.drop (1 + parts.tokens.length) = parts.groups.flatten
  answers : List.Forall₂ (Answers libraries programs stormEye tickAsset verifierAsset request.signingStormTreeBranch now)
    (requestedVouchers (1 + parts.tokens.length + issuedCount parts.batches) parts.batches.zipIdx) parts.vouchers
  stands : StandsAt request.tx (1 + parts.tokens.length) parts.vouchers
  fits : ∀ amount ∈ issuedTotals parts.tokens.length (voucherAmounts (parts.tokens.map SpentToken.asset) parts.vouchers),
    amount < 2 ^ 64
  indexes : ∀ item ∈ parts.batches.zipIdx, 1 + parts.tokens.length + issuedCount parts.batches + item.2 < 2 ^ 32
  reissued : ∀ (i : ℕ) (token : SpentToken), parts.tokens[i]? = some token →
    token.input.issuanceValueAmount = some ((issuedTotals parts.tokens.length
      (voucherAmounts (parts.tokens.map SpentToken.asset) parts.vouchers)).getD i 0) ∧
    token.input.issuanceAssetEntropy = token.asset.entropy ∧ token.input.issuanceValueComm = none ∧
    token.input.issuanceValueRangeproof = none ∧ token.input.inIssuanceBlindValueProof = none
  script : Markers.descriptorScript (parts.vouchers.map IssuedVoucher.descriptor) = .ok parts.descriptorScript
  descriptor : ∃ output, request.tx.outputs[1 + parts.tokens.length + issuedCount parts.batches + parts.batches.length]? =
    some output ∧ output.asset = some programs.policyAsset ∧ output.amount = some 0 ∧
      output.scriptPubkey = parts.descriptorScript
  accounted : Accounted programs request.tx stormEye config (accountsOf programs stormEye parts.batches parts.groups)
    parts.tokens.length (issuedCount parts.batches) parts.reserves
  signingHash : programs.signingHash request.tx stormEye = .ok request.signingHash

theorem requireExplicit_ok {utxo : ChainTxOut Bytes32} {asset : Bytes32} {script : List UInt8} {name : String}
    (h : (requireExplicitUtxo utxo asset script name).mapError IssuanceError.invalid = .ok ()) :
    utxo.asset = .explicit asset ∧ utxo.scriptPubkey = script ∧ ∃ amount, utxo.value = .explicit amount :=
  requireExplicitUtxo_ok.mp (mapError_ok.mp h)

/-- The tokens of the loop, in their order. -/
theorem validateTokens_ok {tokens : List (NetworkAsset Bytes32)} (h : tokens.zipIdx.forM (validateToken libraries pset) = .ok ()) :
    ∃ spent : List SpentToken, spent.map SpentToken.asset = tokens ∧
      ∀ (i : ℕ) (token : SpentToken), spent[i]? = some token → TokenKept libraries pset (1 + i) token := by
  obtain ⟨spent, hlength, hspent⟩ := @Loops.exists_list _ _ tokens
    (fun i asset (token : SpentToken) => token.asset = asset ∧ TokenKept libraries pset (1 + i) token)
    fun i asset hasset => validateToken_ok (forM_zipIdx_ok.mp h i asset hasset)
  refine ⟨spent, List.ext_getElem? fun i => ?_, fun i token htoken => ?_⟩
  · cases htoken : spent[i]? with
    | none =>
      rw [List.getElem?_eq_none_iff] at htoken
      rw [List.getElem?_eq_none (by rw [List.length_map]; exact htoken), List.getElem?_eq_none (by omega)]
    | some token =>
      obtain ⟨asset, hasset, rfl, -⟩ := hspent i token htoken
      rw [List.getElem?_map, htoken, hasset, Option.map_some]
  · obtain ⟨asset, -, -, hkept⟩ := hspent i token htoken
    exact hkept

theorem validateTokens_iff {spent : List SpentToken} (h : ∀ (i : ℕ) (token : SpentToken), spent[i]? = some token →
    TokenKept libraries pset (1 + i) token) : (spent.map SpentToken.asset).zipIdx.forM (validateToken libraries pset) = .ok () := by
  refine forM_zipIdx_ok.mpr fun i asset hasset => ?_
  rw [List.getElem?_map, Option.map_eq_some_iff] at hasset
  obtain ⟨token, htoken, rfl⟩ := hasset
  exact (h i token htoken).validates

theorem checkReissuance_ok {item : (NetworkAsset Bytes32 × ℕ) × ℕ} :
    checkReissuance pset item = .ok () ↔ ∃ input, pset.inputs[1 + item.2]? = some input ∧
      input.issuanceValueAmount = some item.1.2 ∧ input.issuanceAssetEntropy = item.1.1.entropy ∧
        input.issuanceValueComm = none ∧ input.issuanceValueRangeproof = none ∧ input.inIssuanceBlindValueProof = none := by
  unfold checkReissuance
  rw [Db.except_bind_ok]
  simp only [okOr_eq_ok_iff, require_ok]

/-- The tokens with what each reissues, as the validator walks over them. -/
theorem zip_issuedAmounts {spent : List SpentToken} {amounts : List ℕ} (hlength : amounts.length = spent.length) {i : ℕ}
    {item : NetworkAsset Bytes32 × ℕ} :
    ((spent.map SpentToken.asset).zip amounts)[i]? = some item ↔
      ∃ token, spent[i]? = some token ∧ item = (token.asset, amounts.getD i 0) := by
  by_cases hi : i < spent.length
  · simp [List.zip, List.getD_eq_getElem?_getD, hi, hlength, eq_comm]
  · simp [List.zip, hi]

theorem checkBatches_indexes {tokens : List (NetworkAsset Bytes32)} {signer : Bytes32} {now firstReserveOutput : ℕ}
    {items : List (IssuedBatch × ℕ)} {start scan : IssuedScan}
    (h : items.foldlM (checkBatch libraries programs pset stormEye tickAsset verifierAsset tokens signer now
      firstReserveOutput) start = .ok scan) : ∀ item ∈ items, firstReserveOutput + item.2 < 2 ^ 32 := by
  refine Loops.foldlM_ok (P := fun done _ => ∀ item ∈ done, firstReserveOutput + item.2 < 2 ^ 32) ?_ (by simp) h
  intro done item scan next hdone hstep other hother
  rcases List.mem_append.mp hother with hold | hnew
  · exact hdone other hold
  · obtain rfl := List.mem_singleton.mp hnew
    obtain ⟨index, hindex, -⟩ := Db.except_bind_ok.mp hstep
    rw [← toU32_ok.mp hindex]
    exact index.toNat_lt

theorem validateExecuteRequest_ok
    (h : validateExecuteRequest libraries programs stormEye tickAsset verifierAsset config now request = .ok instructed) :
    ∃ parts, Accepted libraries programs stormEye tickAsset verifierAsset config now request instructed parts := by
  unfold validateExecuteRequest at h
  obtain ⟨hnonempty, h⟩ := then_ok.mp h
  obtain ⟨hcomplete, h⟩ := then_ok.mp h
  obtain ⟨utxo, hutxo, h⟩ := Db.except_bind_ok.mp h
  obtain ⟨hexplicit, h⟩ := then_ok.mp h
  obtain ⟨hpreserved, h⟩ := then_ok.mp h
  obtain ⟨⟨batches, rate⟩, hbatches, h⟩ := Db.except_bind_ok.mp h
  obtain ⟨tokens, htokens, h⟩ := Db.except_bind_ok.mp h
  obtain ⟨hkept, h⟩ := then_ok.mp h
  obtain ⟨⟨lastInput, accounts⟩, haccounts, h⟩ := Db.except_bind_ok.mp h
  obtain ⟨hlast, h⟩ := then_ok.mp h
  obtain ⟨scan, hscan, h⟩ := Db.except_bind_ok.mp h
  obtain ⟨hreissued, h⟩ := then_ok.mp h
  obtain ⟨script, hscript, h⟩ := Db.except_bind_ok.mp h
  obtain ⟨output, houtput, h⟩ := Db.except_bind_ok.mp h
  obtain ⟨hdescriptor, h⟩ := then_ok.mp h
  obtain ⟨haccounting, h⟩ := then_ok.mp h
  obtain ⟨hash, hhash, h⟩ := Db.except_bind_ok.mp h
  obtain ⟨hsigned, h⟩ := then_ok.mp h
  cases h
  obtain ⟨feeds, hread⟩ := readExternals_ok hbatches
  obtain ⟨input, hinput, hwitness⟩ := spent_witnessUtxo.mp (mapError_ok.mp hutxo)
  obtain ⟨hasset, hcontract, amount, hamount⟩ := requireExplicit_ok hexplicit
  obtain ⟨stormEyeOutput, hstormEyeOutput, hkeptAsset, hkeptValue, hkeptScript⟩ :=
    requirePreservedOutput_ok.mp (mapError_ok.mp hpreserved)
  obtain ⟨spent, rfl, hspent⟩ := validateTokens_ok hkept
  rw [List.length_map] at *
  obtain ⟨groups, hgroups, rfl, rfl, hinputs⟩ := checkAccounts_ok.mp haccounts
  obtain ⟨vouchers, hvouchers⟩ := checkBatches_ok hscan
  obtain ⟨reserves, hreserves⟩ := validateAccountingOutputs_ok.mp haccounting
  have hbatchCount : (accountsOf programs stormEye batches groups).length = batches.length := by
    rw [accountsOf, List.length_zipWith, hgroups.length_eq, Nat.min_self]
  have hamounts := hvouchers.amounts
  simp only [List.length_map] at hamounts
  refine ⟨⟨batches, feeds, input, amount, spent, groups, vouchers, script, reserves⟩, require_ok.mp hnonempty,
    require_ok.mp hcomplete, hread, hinput, ⟨utxo, hwitness, hasset, hamount, hcontract⟩, ⟨stormEyeOutput, hstormEyeOutput,
      by rw [hkeptAsset, hasset], by rw [hkeptValue, hamount], by rw [hkeptScript, hcontract]⟩, htokens, hspent, hgroups,
    ?_, ?_, ?_, hamounts ▸ hvouchers.fits, checkBatches_indexes hscan, ?_, ?_, ?_, hreserves, ?_⟩
  · rw [hinputs, ← require_ok.mp hlast, List.drop_length, List.append_nil]
  · have hanswers := hvouchers.answers
    simpa only [List.length_map] using hanswers
  · have hstands := hvouchers.stands
    simpa only [List.length_map] using hstands
  · intro i token htoken
    have hlength : scan.issuedAmounts.length = spent.length := by simp [hamounts, issuedTotals]
    obtain ⟨found, hfound, hchecked⟩ := checkReissuance_ok.mp
      (forM_zipIdx_ok.mp hreissued i _ ((zip_issuedAmounts hlength).mpr ⟨token, htoken, rfl⟩))
    obtain rfl : found = token.input := Option.some.inj (hfound.symm.trans (hspent i token htoken).input)
    rw [hamounts] at hchecked
    exact hchecked
  · rw [← hvouchers.descriptors]
    exact mapError_ok.mp hscript
  · rw [okOr_eq_ok_iff] at houtput
    rw [hbatchCount] at houtput
    exact ⟨output, houtput, require_ok.mp hdescriptor⟩
  · rw [mapError_ok.mp hhash, require_ok.mp hsigned]

/-- Every batch asks for a voucher. -/
theorem requests_ne_nil {encoded : List UInt8} {user : NetworkUserRequests} {feeUtxos : List (FeeUtxo (List UInt8))}
    {feed : Option UInt32} (h : validateEncodedRequest libraries encoded = .ok (user, feeUtxos, feed)) :
    user.requests ≠ [] := by
  unfold validateEncodedRequest at h
  obtain ⟨decoded, -, h⟩ := Db.except_bind_ok.mp h
  obtain ⟨valid, hvalid, h⟩ := Db.except_bind_ok.mp h
  cases h
  intro hnil
  rw [mapError_ok, UserApi.validateRequest, if_pos hnil] at hvalid
  cases hvalid

theorem Accepted.read_batch
    (h : Accepted libraries programs stormEye tickAsset verifierAsset config now request instructed parts)
    {batch : IssuedBatch} (hbatch : batch ∈ parts.batches) :
    ∃ external feed, ReadFrom libraries external batch feed := by
  obtain ⟨i, hi⟩ := List.getElem?_of_mem hbatch
  have hlt := (List.getElem?_eq_some_iff.mp hi).1
  have hlength := h.batches.length
  have hzip : (parts.batches.zip parts.feeds)[i]? = some (batch, parts.feeds[i]) := by
    rw [List.zip, List.getElem?_zipWith, hi, List.getElem?_eq_getElem (by omega)]
  obtain ⟨external, -, hread⟩ := Loops.forall₂_get h.batches.read hzip
  exact ⟨external, _, hread⟩

theorem Accepted.batches_ne_nil
    (h : Accepted libraries programs stormEye tickAsset verifierAsset config now request instructed parts) :
    parts.batches ≠ [] := by
  intro hnil
  have hlength := h.batches.read.length_eq
  rw [hnil, List.zip_nil_left, List.length_nil, List.length_eq_zero_iff] at hlength
  exact h.nonempty hlength

theorem Accepted.issuedCount_pos
    (h : Accepted libraries programs stormEye tickAsset verifierAsset config now request instructed parts) :
    0 < issuedCount parts.batches := by
  obtain ⟨batch, hbatch⟩ := List.exists_mem_of_ne_nil _ h.batches_ne_nil
  obtain ⟨external, feed, hread⟩ := h.read_batch hbatch
  have hpos := List.length_pos_iff.mpr (requests_ne_nil hread.encoded)
  have hle : batch.request.requests.length ≤ issuedCount parts.batches :=
    List.single_le_sum (by simp) _ (List.mem_map.mpr ⟨batch, hbatch, rfl⟩)
  omega

theorem Accepted.tokens_ne_nil
    (h : Accepted libraries programs stormEye tickAsset verifierAsset config now request instructed parts) :
    parts.tokens.map SpentToken.asset ≠ [] := by
  obtain ⟨htick, hverifier, htokens⟩ := roundTokens_ok.mp h.tokens
  have hpos := h.issuedCount_pos
  rw [htokens]
  by_cases hcount : verifierCount parts.batches < issuedCount parts.batches
  · obtain ⟨asset, rfl⟩ := Option.isSome_iff_exists.mp (htick hcount)
    simp [hcount]
  · have hverifiers : 0 < verifierCount parts.batches := by omega
    obtain ⟨asset, rfl⟩ := Option.isSome_iff_exists.mp (hverifier hverifiers)
    simp [hverifiers]

/-- The validator accepts what has the parts of an accepted transaction. -/
theorem Accepted.validates
    (h : Accepted libraries programs stormEye tickAsset verifierAsset config now request instructed parts) :
    validateExecuteRequest libraries programs stormEye tickAsset verifierAsset config now request = .ok instructed := by
  obtain ⟨utxo, hwitness, hasset, hamount, hcontract⟩ := h.stormEyeSpent
  obtain ⟨output, houtput, hkeptAsset, hkeptValue, hkeptScript⟩ := h.stormEyeKept
  have haccounts : (accountsOf programs stormEye parts.batches parts.groups).length = parts.batches.length := by
    rw [accountsOf, List.length_zipWith, h.groups.length_eq, Nat.min_self]
  have hinputs : request.tx.inputs.length = 1 + parts.tokens.length + parts.groups.flatten.length := by
    have hdrop := congrArg List.length h.inputs
    rw [List.length_drop] at hdrop
    have htokens := List.length_pos_iff.mpr h.tokens_ne_nil
    rw [List.length_map] at htokens
    have hlast := h.kept (parts.tokens.length - 1) _ (List.getElem?_eq_getElem (by omega))
    have hbound := (List.getElem?_eq_some_iff.mp hlast.input).1
    omega
  unfold validateExecuteRequest
  refine then_ok.mpr ⟨require_ok.mpr h.nonempty, then_ok.mpr ⟨require_ok.mpr h.complete, ?_⟩⟩
  refine Db.except_bind_ok.mpr ⟨utxo, mapError_ok.mpr (spent_witnessUtxo.mpr ⟨_, h.stormEyeInput, hwitness⟩), ?_⟩
  refine then_ok.mpr ⟨mapError_ok.mpr (requireExplicitUtxo_ok.mpr ⟨hasset, hcontract, _, hamount⟩), ?_⟩
  refine then_ok.mpr ⟨mapError_ok.mpr (requirePreservedOutput_ok.mpr ⟨output, houtput, by rw [hkeptAsset, hasset],
    by rw [hkeptValue, hamount], by rw [hkeptScript, hcontract]⟩), ?_⟩
  refine Db.except_bind_ok.mpr ⟨(parts.batches, instructed), readExternals_iff.mpr ⟨_, h.batches⟩, ?_⟩
  refine Db.except_bind_ok.mpr ⟨_, h.tokens, then_ok.mpr ⟨validateTokens_iff h.kept, ?_⟩⟩
  rw [List.length_map]
  refine Db.except_bind_ok.mpr ⟨(request.tx.inputs.length, accountsOf programs stormEye parts.batches parts.groups),
    checkAccounts_ok.mpr ⟨parts.groups, h.groups, rfl, hinputs, by rw [h.inputs, List.drop_length, List.append_nil]⟩, ?_⟩
  refine then_ok.mpr ⟨require_ok.mpr rfl, ?_⟩
  refine Db.except_bind_ok.mpr ⟨_, checkBatches_runs h.tokens_ne_nil h.indexes h.answers
    (by rw [List.length_map]; exact h.stands) (by rw [List.length_map]; exact h.fits), ?_⟩
  refine then_ok.mpr ⟨forM_zipIdx_ok.mpr fun i item hitem => ?_, ?_⟩
  · obtain ⟨token, htoken, rfl⟩ := (zip_issuedAmounts (by simp [scanOf, issuedTotals])).mp hitem
    refine checkReissuance_ok.mpr ⟨token.input, (h.kept i token htoken).input, ?_⟩
    simp only [scanOf, List.length_map]
    exact h.reissued i token htoken
  refine Db.except_bind_ok.mpr ⟨_, mapError_ok.mpr h.script, ?_⟩
  obtain ⟨descriptor, hdescriptor, hchecked⟩ := h.descriptor
  refine Db.except_bind_ok.mpr ⟨descriptor, okOr_eq_ok_iff _ _ _ |>.mpr (by rw [haccounts]; exact hdescriptor), ?_⟩
  refine then_ok.mpr ⟨require_ok.mpr hchecked, then_ok.mpr ⟨validateAccountingOutputs_ok.mpr ⟨_, h.accounted⟩, ?_⟩⟩
  exact Db.except_bind_ok.mpr ⟨_, mapError_ok.mpr h.signingHash, then_ok.mpr ⟨require_ok.mpr rfl, rfl⟩⟩

theorem validateExecuteRequest_iff : validateExecuteRequest libraries programs stormEye tickAsset verifierAsset config now
    request = .ok instructed ↔
      ∃ parts, Accepted libraries programs stormEye tickAsset verifierAsset config now request instructed parts :=
  ⟨validateExecuteRequest_ok, fun ⟨_, h⟩ => h.validates⟩

end Accepted

end IssuanceRound

end PriceOracle
