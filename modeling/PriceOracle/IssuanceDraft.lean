import PriceOracle.IssuanceBuilder
import PriceOracle.Loops

/-!
# The loops of a round's builder

What each loop of the preparation of a round makes: the tokens with what they reissue, the vouchers at
the outputs behind them, the token outputs blinded anew, and the outputs that a branch commits to.
-/

namespace PriceOracle

namespace IssuanceRound

open Issuance (okOr okOr_eq_ok_iff)

variable {libraries : RoundLibraries} {programs : IssuancePrograms} {node : TokenNode}
  {stormEye : NetworkAsset Bytes32} {tickAsset verifierAsset : Option (NetworkAsset Bytes32)} {timestamp : ℕ}

/-- What the Elements library does for a blinded output, and what the SDK says of a reissuance. -/
structure LawfulBlinding (libraries : RoundLibraries) : Prop where
  unblinds : ∀ txout, libraries.unblind txout =
    (libraries.unblindSecrets txout).map fun secrets => (secrets.asset, secrets.value)
  withTxoutSecrets : ∀ script secrets spent txout, libraries.withTxoutSecrets script secrets spent = some txout →
    libraries.unblind txout = some (secrets.asset, secrets.value) ∧ txout.scriptPubkey = script ∧
      txout.asset.isConfidential = true ∧ txout.value.isConfidential = true
  newLastConfidential : ∀ value asset script spent outputs txout,
    libraries.newLastConfidential value asset script spent outputs = some txout →
      libraries.unblind txout = some (asset, value) ∧ txout.scriptPubkey = script ∧
        txout.asset.isConfidential = true ∧ txout.value.isConfidential = true
  assetProof : ∀ txout secrets commitment proof, libraries.unblindSecrets txout = some secrets →
    txout.asset = .confidential commitment → libraries.blindAssetProof secrets.asset secrets.assetBf = some proof →
      libraries.blindAssetProofVerify proof secrets.asset commitment = true
  valueProof : ∀ txout secrets commitment valueCommitment proof, libraries.unblindSecrets txout = some secrets →
    txout.asset = .confidential commitment → txout.value = .confidential valueCommitment →
      libraries.blindValueProof secrets.value valueCommitment commitment secrets.valueBf = some proof →
        libraries.blindValueProofVerify proof secrets.value commitment valueCommitment = true
  reissuance : ∀ utxo amount entropy,
    (libraries.reissuanceInput utxo amount entropy).witnessUtxo = some utxo.txout ∧
      (libraries.reissuanceInput utxo amount entropy).issuanceValueAmount = some amount ∧
      (libraries.reissuanceInput utxo amount entropy).issuanceAssetEntropy = some entropy ∧
      (libraries.reissuanceInput utxo amount entropy).issuanceValueComm = none ∧
      (libraries.reissuanceInput utxo amount entropy).issuanceValueRangeproof = none ∧
      (libraries.reissuanceInput utxo amount entropy).inIssuanceBlindValueProof = none

section Tokens

/-- A token as the leader has found it, with the output that first held it. -/
structure TokenReady (libraries : RoundLibraries) (token : RoundToken) (template : ChainTxOut Bytes32) : Prop where
  txout : tokenTxout libraries.toIssuanceLibraries token.asset = .ok template
  hidden : ∃ secrets, libraries.unblindSecrets template = some secrets ∧ token.secrets.asset = secrets.asset ∧
    token.secrets.value = secrets.value
  unblinds : libraries.unblindSecrets token.utxo.txout = some token.secrets
  script : token.utxo.txout.scriptPubkey = template.scriptPubkey

theorem find_ok {asset : NetworkAsset Bytes32} {amount : ℕ} {token : RoundToken}
    (h : RoundToken.find libraries node asset amount = .ok token) :
    token.asset = asset ∧ token.issuanceAmount = amount ∧ ∃ template, TokenReady libraries token template := by
  unfold RoundToken.find at h
  obtain ⟨utxo, hutxo, h⟩ := Db.except_bind_ok.mp h
  obtain ⟨secrets, hsecrets, h⟩ := Db.except_bind_ok.mp h
  cases h
  rw [okOr_eq_ok_iff] at hsecrets
  obtain ⟨expected, unspents, first, length, hfound⟩ := findTokenUtxo_ok.mp hutxo
  obtain ⟨-, template, htemplate, hexpected, hscript, -⟩ := templateSecrets_ok.mp hfound.template
  obtain ⟨found, hunblinds, hsome, hasset, hvalue⟩ := hfound.holds.unblinds
  obtain rfl : found = secrets := Option.some.inj (hsome.symm.trans hsecrets)
  exact ⟨rfl, rfl, template, htemplate, ⟨expected, hexpected, hasset, hvalue⟩, hunblinds,
    hfound.holds.script.trans hscript.symm⟩

theorem roundToken_ok {kind : String} {asset : Option (NetworkAsset Bytes32)} {amount : Except IssuanceError ℕ}
    {token : RoundToken} (h : roundToken libraries node kind asset amount = .ok token) :
    asset = some token.asset ∧ amount = .ok token.issuanceAmount ∧ ∃ template, TokenReady libraries token template := by
  unfold roundToken at h
  obtain ⟨found, hfound, h⟩ := Db.except_bind_ok.mp h
  obtain ⟨count, hcount, h⟩ := Db.except_bind_ok.mp h
  rw [okOr_eq_ok_iff] at hfound
  obtain ⟨rfl, rfl, hready⟩ := find_ok h
  exact ⟨hfound, hcount, hready⟩

/-- The tokens of a round with the amounts they reissue, by the kinds of its requests. -/
structure RoundTokens (libraries : RoundLibraries) (tickAsset verifierAsset : Option (NetworkAsset Bytes32))
    (timestamp tickCount verifierCount : ℕ) (tokens : List RoundToken) : Prop where
  ready : ∀ token ∈ tokens, ∃ template, TokenReady libraries token template
  ticks : 0 < tickCount → tickAsset.isSome
  verifiers : 0 < verifierCount → verifierAsset.isSome
  assets : tokens.map RoundToken.asset = (if 0 < tickCount then tickAsset.toList else []) ++
    if 0 < verifierCount then verifierAsset.toList else []
  amounts : tokens.map RoundToken.issuanceAmount = (if 0 < tickCount then [timestamp * tickCount] else []) ++
    if 0 < verifierCount then [verifierCount] else []
  fits : 0 < tickCount → timestamp * tickCount < 2 ^ 64

theorem tokenIf_ok {count : ℕ} {kind : String} {asset : Option (NetworkAsset Bytes32)} {amount : Except IssuanceError ℕ}
    {tokens : List RoundToken} (h : tokenIf count (roundToken libraries node kind asset amount) = .ok tokens) :
    (∀ token ∈ tokens, ∃ template, TokenReady libraries token template) ∧ (0 < count → asset.isSome) ∧
      tokens.map RoundToken.asset = (if 0 < count then asset.toList else []) ∧
      ∃ total, (0 < count → amount = .ok total) ∧ tokens.map RoundToken.issuanceAmount = if 0 < count then [total] else [] := by
  unfold tokenIf at h
  by_cases hcount : 0 < count
  · rw [if_pos hcount] at h
    cases hfound : roundToken libraries node kind asset amount with
    | error error =>
      rw [hfound] at h
      cases h
    | ok token =>
      rw [hfound] at h
      cases h
      obtain ⟨rfl, hamount, hready⟩ := roundToken_ok hfound
      refine ⟨by simpa using hready, fun _ => rfl, by simp [hcount], token.issuanceAmount, fun _ => hamount, by simp [hcount]⟩
  · rw [if_neg hcount] at h
    cases h
    refine ⟨by simp, fun hpos => absurd hpos hcount, by simp [hcount], 0, fun hpos => absurd hpos hcount, by simp [hcount]⟩

theorem findTokens_ok {batches : List DecodedBatch} {tokens : List RoundToken}
    (h : findTokens libraries node tickAsset verifierAsset timestamp batches = .ok tokens) :
    RoundTokens libraries tickAsset verifierAsset timestamp (requestCount batches - verifierRequests batches)
      (verifierRequests batches) tokens := by
  unfold findTokens at h
  obtain ⟨tick, htick, h⟩ := Db.except_bind_ok.mp h
  obtain ⟨verifier, hverifier, h⟩ := Db.except_bind_ok.mp h
  cases h
  obtain ⟨htickReady, htickSome, htickAssets, total, htotal, htickAmounts⟩ := tokenIf_ok htick
  obtain ⟨hverifierReady, hverifierSome, hverifierAssets, count, hcount, hverifierAmounts⟩ := tokenIf_ok hverifier
  refine ⟨fun token htoken => ?_, htickSome, hverifierSome, by rw [List.map_append, htickAssets, hverifierAssets], ?_,
    fun hpos => (checkedMul_ok.mp (htotal hpos)).2⟩
  · rcases List.mem_append.mp htoken with hold | hnew
    · exact htickReady token hold
    · exact hverifierReady token hnew
  · rw [List.map_append, htickAmounts, hverifierAmounts]
    congr 1
    · split_ifs with hpos
      · rw [(checkedMul_ok.mp (htotal hpos)).1]
      · rfl
    · split_ifs with hpos
      · rw [Except.ok.inj (hcount hpos)]
      · rfl

end Tokens

section Blinding

/-- A token input with its proofs, and the token output that is blinded anew. -/
structure Reblinded (libraries : RoundLibraries) (token : RoundToken) (input : IssuanceInput) (next : IssuanceInput)
    (output : PsetOutput Bytes32) : Prop where
  input : next = { input with
    asset := some token.secrets.asset, amount := some token.secrets.value,
    blindAssetProof := next.blindAssetProof, blindValueProof := next.blindValueProof }
  asset : ∃ proof commitment, next.blindAssetProof = some proof ∧ token.utxo.txout.asset = .confidential commitment ∧
    libraries.blindAssetProofVerify proof token.secrets.asset commitment = true
  value : ∃ proof commitment valueCommitment, next.blindValueProof = some proof ∧
    token.utxo.txout.asset = .confidential commitment ∧ token.utxo.txout.value = .confidential valueCommitment ∧
      libraries.blindValueProofVerify proof token.secrets.value commitment valueCommitment = true
  unblinds : libraries.unblind output.toTxout = some (token.secrets.asset, token.secrets.value)
  script : output.toTxout.scriptPubkey = token.utxo.txout.scriptPubkey
  confidential : output.toTxout.asset.isConfidential = true ∧ output.toTxout.value.isConfidential = true
  blank : output.asset = none

theorem blindedToken_ok (hlaws : LawfulBlinding libraries) {token : RoundToken} {index count : ℕ}
    {spent outputs : List TxOutSecrets} {txout : ChainTxOut Bytes32}
    (h : (blindedToken libraries token index count spent outputs).1 = some txout) :
    libraries.unblind txout = some (token.secrets.asset, token.secrets.value) ∧
      txout.scriptPubkey = token.utxo.txout.scriptPubkey ∧ txout.asset.isConfidential = true ∧
        txout.value.isConfidential = true := by
  unfold blindedToken at h
  by_cases hlast : index = count
  · rw [if_pos hlast] at h
    exact hlaws.newLastConfidential _ _ _ _ _ _ h
  · rw [if_neg hlast] at h
    have hblinded := hlaws.withTxoutSecrets _ _ _ _ h
    exact hblinded

theorem toTxout_fromTxout {txout : ChainTxOut Bytes32} (hasset : txout.asset.isConfidential = true)
    (hvalue : txout.value.isConfidential = true) (blindingKey : Option (List UInt8)) (blinderIndex : Option ℕ) :
    PsetOutput.toTxout { PsetOutput.fromTxout txout with blindingKey := blindingKey, blinderIndex := blinderIndex } =
      txout := by
  obtain ⟨commitment, hcommitment⟩ := isConfidential_iff.mp hasset
  obtain ⟨valueCommitment, hvalueCommitment⟩ := isConfidential_iff.mp hvalue
  obtain ⟨asset, value, nonce, script, surjectionProof, rangeproof⟩ := txout
  subst hcommitment hvalueCommitment
  rfl

theorem reblindToken_ok (hlaws : LawfulBlinding libraries) {count i : ℕ} {spent secrets : List TxOutSecrets}
    {pset : IssuancePset} {token : RoundToken} {next : IssuancePset × List TxOutSecrets}
    (hunblinds : libraries.unblindSecrets token.utxo.txout = some token.secrets)
    (h : reblindToken libraries count spent (pset, secrets) (token, i) = .ok next) :
    ∃ input input' output', pset.inputs[1 + i]? = some input ∧ Reblinded libraries token input input' output' ∧
      next.1 = ⟨pset.inputs.set (1 + i) input', pset.outputs.set (1 + i) output'⟩ := by
  unfold reblindToken at h
  obtain ⟨txout, htxout, h⟩ := Db.except_bind_ok.mp h
  obtain ⟨commitment, hcommitment, h⟩ := Db.except_bind_ok.mp h
  obtain ⟨valueCommitment, hvalueCommitment, h⟩ := Db.except_bind_ok.mp h
  obtain ⟨assetProof, hassetProof, h⟩ := Db.except_bind_ok.mp h
  obtain ⟨valueProof, hvalueProof, h⟩ := Db.except_bind_ok.mp h
  obtain ⟨input, hinput, h⟩ := Db.except_bind_ok.mp h
  cases h
  simp only [okOr_eq_ok_iff] at htxout hcommitment hvalueCommitment hassetProof hvalueProof hinput
  rw [commitment_ok] at hcommitment hvalueCommitment
  obtain ⟨hhidden, hscript, hasset, hvalue⟩ := blindedToken_ok hlaws htxout
  have hsame := toTxout_fromTxout hasset hvalue (some libraries.treasuryBlindingKey) (some (1 + i))
  refine ⟨input, _, _, hinput, ⟨rfl, ⟨assetProof, commitment, rfl, hcommitment, ?_⟩,
    ⟨valueProof, commitment, valueCommitment, rfl, hcommitment, hvalueCommitment, ?_⟩, ?_, ?_, ?_, ?_⟩, rfl⟩
  · exact hlaws.assetProof _ _ _ _ hunblinds hcommitment hassetProof
  · exact hlaws.valueProof _ _ _ _ _ hunblinds hcommitment hvalueCommitment hvalueProof
  · rw [hsame, hhidden]
  · rw [hsame, hscript]
  · rw [hsame]
    exact ⟨hasset, hvalue⟩
  · obtain ⟨assetCommitment, hassetCommitment⟩ := isConfidential_iff.mp hasset
    simp [PsetOutput.fromTxout, hassetCommitment, ChainField.getExplicit]

theorem set_segment {A : Type} (before : List A) (old new : A) (after : List A) :
    (before ++ old :: after).set before.length new = before ++ new :: after := by
  rw [List.set_append_right _ _ le_rfl, Nat.sub_self, List.set_cons_zero]

/-- The tokens are blinded one after the other, and nothing else changes. -/
theorem reblindTokens_from (hlaws : LawfulBlinding libraries) {count : ℕ} {spent : List TxOutSecrets}
    {tokens : List RoundToken} : ∀ {i : ℕ} {before inputs after : List IssuanceInput}
      {beforeOutputs outputs afterOutputs : List (PsetOutput Bytes32)} {secrets : List TxOutSecrets}
      {last : IssuancePset × List TxOutSecrets},
    before.length = 1 + i → inputs.length = tokens.length → beforeOutputs.length = 1 + i → outputs.length = tokens.length →
    (∀ token ∈ tokens, libraries.unblindSecrets token.utxo.txout = some token.secrets) →
    (tokens.zipIdx i).foldlM (reblindToken libraries count spent)
      (⟨before ++ (inputs ++ after), beforeOutputs ++ (outputs ++ afterOutputs)⟩, secrets) = .ok last →
    ∃ inputs' outputs', inputs'.length = tokens.length ∧ outputs'.length = tokens.length ∧
      last.1 = ⟨before ++ (inputs' ++ after), beforeOutputs ++ (outputs' ++ afterOutputs)⟩ ∧
      ∀ (k : ℕ) (token : RoundToken), tokens[k]? = some token → ∃ input input' output', inputs[k]? = some input ∧
        inputs'[k]? = some input' ∧ outputs'[k]? = some output' ∧ Reblinded libraries token input input' output' := by
  induction tokens with
  | nil =>
    intro i before inputs after beforeOutputs outputs afterOutputs secrets last _ hinputs _ houtputs _ h
    obtain rfl := List.length_eq_zero_iff.mp hinputs
    obtain rfl := List.length_eq_zero_iff.mp houtputs
    cases h
    exact ⟨[], [], rfl, rfl, rfl, fun k token htoken => by simp at htoken⟩
  | cons token tokens ih =>
    intro i before inputs after beforeOutputs outputs afterOutputs secrets last hbefore hinputs hbeforeOutputs houtputs
      hunblinds h
    obtain ⟨input, inputs, rfl⟩ := List.exists_cons_of_length_eq_add_one hinputs
    obtain ⟨output, outputs, rfl⟩ := List.exists_cons_of_length_eq_add_one houtputs
    rw [List.zipIdx_cons, List.foldlM_cons] at h
    obtain ⟨next, hnext, h⟩ := Db.except_bind_ok.mp h
    obtain ⟨found, input', output', hfound, hreblinded, hset⟩ :=
      reblindToken_ok hlaws (hunblinds token List.mem_cons_self) hnext
    dsimp only at hfound hset
    rw [List.cons_append, ← hbefore, List.getElem?_append_right le_rfl, Nat.sub_self] at hfound
    cases hfound
    rw [List.cons_append, List.cons_append, ← hbefore, set_segment, hbefore, ← hbeforeOutputs, set_segment] at hset
    obtain ⟨nextPset, nextSecrets⟩ := next
    dsimp only at hset
    subst hset
    have hsplit {A : Type} (before : List A) (a : A) (rest after : List A) :
        before ++ a :: (rest ++ after) = (before ++ [a]) ++ (rest ++ after) := by simp
    rw [hsplit before, hsplit beforeOutputs] at h
    obtain ⟨inputs', outputs', hinputs', houtputs', hlast, hall⟩ := ih (by simp [hbefore]; omega) (by simpa using hinputs)
      (by simp [hbeforeOutputs]; omega) (by simpa using houtputs)
      (fun other hother => hunblinds other (List.mem_cons_of_mem _ hother)) h
    refine ⟨input' :: inputs', output' :: outputs', by simp [hinputs'], by simp [houtputs'], by simp [hlast], ?_⟩
    intro k other hother
    cases k with
    | zero =>
      cases hother
      exact ⟨input, input', output', rfl, rfl, rfl, hreblinded⟩
    | succ k => exact hall k other hother

end Blinding

section Vouchers

def IssuedVoucher.output (voucher : IssuedVoucher) : PsetOutput Bytes32 :=
  .new voucher.script voucher.amount voucher.asset.assetId

/-- The outputs of a draft behind those it began with, one for each voucher that was asked for. -/
structure Drafted (libraries : RoundLibraries) (programs : IssuancePrograms) (stormEye : NetworkAsset Bytes32)
    (tickAsset verifierAsset : Option (NetworkAsset Bytes32)) (timestamp : ℕ) (head : List (PsetOutput Bytes32))
    (requested : List RequestedVoucher) (draft : RoundDraft) (vouchers : List IssuedVoucher) : Prop where
  answers : List.Forall₂ (Answers libraries.toIssuanceLibraries programs stormEye tickAsset verifierAsset placeholderSigner
    timestamp) requested vouchers
  amounts : ∀ voucher ∈ vouchers, voucher.amount = if voucher.descriptor.isVerifier then 1 else timestamp
  outputs : draft.outputs = head ++ vouchers.map IssuedVoucher.output
  descriptors : draft.descriptors = vouchers.map IssuedVoucher.descriptor
  indexes : ∀ (i : ℕ) (voucher : IssuedVoucher), vouchers[i]? = some voucher →
    voucher.descriptor.outputIndex.toNat = head.length + i

variable {head : List (PsetOutput Bytes32)}

theorem addVoucher_ok {owner : Bytes32} {reserveOutputIndex : UInt32} {requested : List RequestedVoucher}
    {draft next : RoundDraft} {vouchers : List IssuedVoucher} {userRequest : UserRequest}
    (hdraft : Drafted libraries programs stormEye tickAsset verifierAsset timestamp head requested draft vouchers)
    (h : addVoucher libraries programs stormEye tickAsset verifierAsset timestamp owner reserveOutputIndex draft
      userRequest = .ok next) :
    ∃ voucher, Drafted libraries programs stormEye tickAsset verifierAsset timestamp head
      (requested ++ [⟨owner, reserveOutputIndex.toNat, userRequest⟩]) next (vouchers ++ [voucher]) := by
  unfold addVoucher at h
  obtain ⟨details, hdetails, h⟩ := Db.except_bind_ok.mp h
  obtain ⟨outputIndex, hindex, h⟩ := Db.except_bind_ok.mp h
  obtain ⟨descriptor, hdescriptor, h⟩ := Db.except_bind_ok.mp h
  obtain ⟨asset, hasset, h⟩ := Db.except_bind_ok.mp h
  obtain ⟨script, hscript, h⟩ := Db.except_bind_ok.mp h
  cases h
  obtain ⟨hauth, houtputIndex, hreserve, howner, hsigner⟩ := fromRequest_ok.mp (mapError_ok.mp hdescriptor)
  have hindex := toU32_ok.mp hindex
  have hverifier : descriptor.isVerifier = issuesVerifier userRequest.kind := by
    rw [IssuedUtxoDescriptor.isVerifier, hsigner]
    cases issuesVerifier userRequest.kind <;> rfl
  rw [okOr_eq_ok_iff] at hasset
  have hlength : draft.outputs.length = head.length + vouchers.length := by
    rw [hdraft.outputs, List.length_append, List.length_map]
  refine ⟨⟨descriptor, asset, if issuesVerifier userRequest.kind then 1 else timestamp, script⟩, ?_, ?_, ?_, ?_, ?_⟩
  · refine List.rel_append hdraft.answers (.cons ⟨⟨details, mapError_ok.mp hdetails, hauth⟩, howner, by rw [hreserve], hsigner,
      hasset, ?_, mapError_ok.mp hscript⟩ .nil)
    cases issuesVerifier userRequest.kind <;> simp [absDiff]
  · intro voucher hvoucher
    rcases List.mem_append.mp hvoucher with hold | hnew
    · exact hdraft.amounts voucher hold
    · obtain rfl := List.mem_singleton.mp hnew
      rw [hverifier]
  · rw [hdraft.outputs, List.map_append, List.append_assoc]
    rfl
  · rw [hdraft.descriptors, List.map_append]
    rfl
  · intro i voucher hvoucher
    by_cases hold : i < vouchers.length
    · rw [List.getElem?_append_left hold] at hvoucher
      exact hdraft.indexes i voucher hvoucher
    · have hlast : i = vouchers.length := by
        have hbound := (List.getElem?_eq_some_iff.mp hvoucher).1
        rw [List.length_append, List.length_singleton] at hbound
        omega
      subst hlast
      rw [List.getElem?_append_right le_rfl, Nat.sub_self] at hvoucher
      cases hvoucher
      rw [houtputIndex, hindex, hlength]

/-- The batches of a draft with their owners. -/
def requestedBy (owners : List Bytes32) (firstReserveOutput : ℕ) (items : List (DecodedBatch × ℕ)) : List RequestedVoucher :=
  (items.zip owners).flatMap fun item => item.1.1.request.requests.map fun request =>
    ⟨item.2, firstReserveOutput + item.1.2, request⟩

theorem addBatches_ok {firstReserveOutput : ℕ} {items : List (DecodedBatch × ℕ)}
    {last : RoundDraft × List PreparedRequestResult}
    (h : items.foldlM (addBatch libraries programs stormEye tickAsset verifierAsset timestamp firstReserveOutput)
      (⟨head, [], []⟩, []) = .ok last) :
    ∃ owners vouchers, List.Forall₂ (fun item owner => decodeArray item.1.request.header.publicKey = .ok owner ∧
        firstReserveOutput + item.2 < 2 ^ 32) items owners ∧
      Drafted libraries programs stormEye tickAsset verifierAsset timestamp head
        (requestedBy owners firstReserveOutput items) last.1 vouchers := by
  refine Loops.foldlM_ok (P := fun done (state : RoundDraft × List PreparedRequestResult) => ∃ owners vouchers,
    List.Forall₂ (fun item owner => decodeArray item.1.request.header.publicKey = .ok owner ∧
      firstReserveOutput + item.2 < 2 ^ 32) done owners ∧
    Drafted libraries programs stormEye tickAsset verifierAsset timestamp head
      (requestedBy owners firstReserveOutput done) state.1 vouchers) ?_ ?_ h
  · rintro done item state next ⟨owners, vouchers, howners, hdraft⟩ hstep
    unfold addBatch at hstep
    obtain ⟨owner, howner, hstep⟩ := Db.except_bind_ok.mp hstep
    obtain ⟨reserveOutputIndex, hreserve, hstep⟩ := Db.except_bind_ok.mp hstep
    obtain ⟨draft, hrequests, hstep⟩ := Db.except_bind_ok.mp hstep
    cases hstep
    have hreserve := toU32_ok.mp hreserve
    have hinner := Loops.foldlM_ok (P := fun requests draft => ∃ vouchers, Drafted libraries programs stormEye tickAsset
      verifierAsset timestamp head (requestedBy owners firstReserveOutput done ++
        requests.map fun request => ⟨owner, firstReserveOutput + item.2, request⟩) draft vouchers)
      (fun requests request draft next hP hnext => by
        obtain ⟨vouchers, hP⟩ := hP
        obtain ⟨voucher, hvoucher⟩ := addVoucher_ok hP hnext
        rw [hreserve, List.append_assoc] at hvoucher
        exact ⟨_, by rwa [List.map_append]⟩)
      ⟨vouchers, by
        rw [List.map_nil, List.append_nil]
        exact ⟨hdraft.answers, hdraft.amounts, hdraft.outputs, hdraft.descriptors, hdraft.indexes⟩⟩ hrequests
    obtain ⟨vouchers', hvouchers'⟩ := hinner
    refine ⟨owners ++ [owner], vouchers', List.rel_append howners (.cons ⟨howner, ?_⟩ .nil), ?_⟩
    · rw [← hreserve]
      exact reserveOutputIndex.toNat_lt
    · rw [requestedBy, List.zip_append howners.length_eq, List.flatMap_append]
      simpa [requestedBy] using hvouchers'
  · exact ⟨[], [], .nil, .nil, by simp, by simp, rfl, fun i voucher hvoucher => by simp at hvoucher⟩

end Vouchers

section Branches

variable {programs : IssuancePrograms} {branch : Bytes32}

/-- A voucher of the placeholder, committed to a branch. -/
structure Committed (libraries : IssuanceLibraries) (programs : IssuancePrograms) (stormEye : NetworkAsset Bytes32)
    (branch : Bytes32) (voucher next : IssuedVoucher) : Prop where
  descriptor : next.descriptor = if voucher.descriptor.isVerifier then { voucher.descriptor with signer := some branch }
    else voucher.descriptor
  asset : next.asset = voucher.asset
  amount : next.amount = voucher.amount
  script : if voucher.descriptor.isVerifier then
      descriptorProgram libraries programs stormEye.assetId next.descriptor = .ok next.script
    else next.script = voucher.script

theorem setScript_ok {outputs next : List (PsetOutput Bytes32)} {before after : List (PsetOutput Bytes32)}
    {output : PsetOutput Bytes32} {index : ℕ} {script : List UInt8} (houtputs : outputs = before ++ output :: after)
    (hindex : index = before.length) (h : setScript outputs index script = .ok next) :
    next = before ++ { output with scriptPubkey := script } :: after := by
  subst houtputs hindex
  unfold setScript at h
  obtain ⟨found, hfound, h⟩ := Db.except_bind_ok.mp h
  rw [okOr_eq_ok_iff, List.getElem?_append_right le_rfl, Nat.sub_self] at hfound
  cases hfound
  cases h
  exact set_segment before output _ after

theorem committedTo_cons (descriptor : IssuedUtxoDescriptor) (descriptors : List IssuedUtxoDescriptor) :
    committedTo (descriptor :: descriptors) branch =
      (if descriptor.isVerifier then { descriptor with signer := some branch } else descriptor) ::
        committedTo descriptors branch := rfl

/-- The Verifiers among the vouchers behind some outputs are committed to the branch, and nothing else changes. -/
theorem commitVerifiers_ok {libraries : IssuanceLibraries} {vouchers : List IssuedVoucher} :
    ∀ {before after last : List (PsetOutput Bytes32)},
    (∀ (i : ℕ) (voucher : IssuedVoucher), vouchers[i]? = some voucher →
      voucher.descriptor.outputIndex.toNat = before.length + i) →
    ((committedTo (vouchers.map IssuedVoucher.descriptor) branch).filter IssuedUtxoDescriptor.isVerifier).foldlM
      (commitVerifier libraries programs stormEye.assetId) (before ++ (vouchers.map IssuedVoucher.output ++ after)) =
        .ok last →
    ∃ committed, List.Forall₂ (Committed libraries programs stormEye branch) vouchers committed ∧
      last = before ++ (committed.map IssuedVoucher.output ++ after) := by
  induction vouchers with
  | nil =>
    intro before after last _ h
    cases h
    exact ⟨[], .nil, rfl⟩
  | cons voucher vouchers ih =>
    intro before after last hindexes h
    have hindex := hindexes 0 voucher rfl
    have hsplit (output : PsetOutput Bytes32) (rest : List (PsetOutput Bytes32)) :
        before ++ output :: rest = (before ++ [output]) ++ rest := by simp
    have hrest : ∀ output (i : ℕ) (other : IssuedVoucher), vouchers[i]? = some other →
        other.descriptor.outputIndex.toNat = (before ++ [output]).length + i := by
      intro output i other hother
      have := hindexes (i + 1) other hother
      rw [List.length_append, List.length_singleton, this]
      omega
    rw [List.map_cons, List.map_cons, committedTo_cons, List.cons_append] at h
    cases hverifier : voucher.descriptor.isVerifier with
    | false =>
      rw [if_neg (by simp [hverifier]), List.filter_cons_of_neg (by simp [hverifier]), hsplit] at h
      obtain ⟨committed, hcommitted, rfl⟩ := ih (hrest _) h
      exact ⟨voucher :: committed, .cons ⟨by simp [hverifier], rfl, rfl, by simp [hverifier]⟩ hcommitted, by simp⟩
    | true =>
      rw [if_pos hverifier, List.filter_cons_of_pos rfl, List.foldlM_cons] at h
      obtain ⟨next, hnext, h⟩ := Db.except_bind_ok.mp h
      unfold commitVerifier at hnext
      obtain ⟨script, hscript, hnext⟩ := Db.except_bind_ok.mp hnext
      have hset := setScript_ok rfl (by rw [hindex]; rfl) hnext
      rw [hset, hsplit] at h
      obtain ⟨committed, hcommitted, rfl⟩ := ih (hrest _) h
      refine ⟨⟨{ voucher.descriptor with signer := some branch }, voucher.asset, voucher.amount, script⟩ :: committed,
        .cons ⟨by simp [hverifier], rfl, rfl, ?_⟩ hcommitted, ?_⟩
      · rw [if_pos hverifier]
        exact mapError_ok.mp hscript
      · simp [IssuedVoucher.output, PsetOutput.new]

theorem committedTo_eq {libraries : IssuanceLibraries} {vouchers committed : List IssuedVoucher}
    (h : List.Forall₂ (Committed libraries programs stormEye branch) vouchers committed) :
    committedTo (vouchers.map IssuedVoucher.descriptor) branch = committed.map IssuedVoucher.descriptor := by
  induction h with
  | nil => rfl
  | cons hcommitted _ ih =>
    rw [List.map_cons, committedTo_cons, ih, List.map_cons, hcommitted.descriptor]

/-- The outputs of a transaction under a branch: the vouchers and the descriptor commit to it. -/
theorem commitOutputs_ok {libraries : IssuanceLibraries} {transaction : RoundTransaction} {vouchers : List IssuedVoucher}
    {head reserves tail : List (PsetOutput Bytes32)} {descriptor : PsetOutput Bytes32} {last : List (PsetOutput Bytes32)}
    (houtputs : transaction.pset.outputs = head ++ (vouchers.map IssuedVoucher.output ++ (reserves ++ descriptor :: tail)))
    (hdescriptors : transaction.descriptors = vouchers.map IssuedVoucher.descriptor)
    (hindexes : ∀ (i : ℕ) (voucher : IssuedVoucher), vouchers[i]? = some voucher →
      voucher.descriptor.outputIndex.toNat = head.length + i)
    (hdescriptor : transaction.descriptorOutput = (head ++ vouchers.map IssuedVoucher.output ++ reserves).length)
    (hscript : Markers.descriptorScript transaction.descriptors = .ok descriptor.scriptPubkey)
    (h : commitOutputs libraries programs transaction branch = .ok last) :
    ∃ committed script, List.Forall₂ (Committed libraries programs transaction.stormEye branch) vouchers committed ∧
      Markers.descriptorScript (committed.map IssuedVoucher.descriptor) = .ok script ∧
      last = head ++ (committed.map IssuedVoucher.output ++ (reserves ++ { descriptor with scriptPubkey := script } :: tail)) := by
  unfold commitOutputs at h
  by_cases hany : transaction.descriptors.any IssuedUtxoDescriptor.isVerifier = true
  · rw [if_pos hany] at h
    obtain ⟨outputs, hcommitted, h⟩ := Db.except_bind_ok.mp h
    obtain ⟨script, hnewScript, h⟩ := Db.except_bind_ok.mp h
    rw [hdescriptors, houtputs] at hcommitted
    obtain ⟨committed, hall, rfl⟩ := commitVerifiers_ok hindexes hcommitted
    rw [hdescriptors, mapError_ok, committedTo_eq hall] at hnewScript
    have hsplit : head ++ (committed.map IssuedVoucher.output ++ (reserves ++ descriptor :: tail)) =
        (head ++ committed.map IssuedVoucher.output ++ reserves) ++ descriptor :: tail := by simp
    have hset := setScript_ok hsplit (by rw [hdescriptor]; simp [hall.length_eq]) h
    refine ⟨committed, script, hall, hnewScript, ?_⟩
    rw [hset]
    simp
  · rw [if_neg hany] at h
    cases h
    -- Without a Verifier nothing waits for the branch.
    have hsame : List.Forall₂ (Committed libraries programs transaction.stormEye branch) vouchers vouchers := by
      rw [List.forall₂_same]
      intro voucher hvoucher
      have hnot : voucher.descriptor.isVerifier = false := by
        rw [hdescriptors, List.any_map, List.any_eq_true] at hany
        by_contra hverifier
        exact hany ⟨voucher, hvoucher, by simpa using hverifier⟩
      exact ⟨by simp [hnot], rfl, rfl, by simp [hnot]⟩
    exact ⟨vouchers, descriptor.scriptPubkey, hsame, hdescriptors ▸ hscript, houtputs⟩

theorem setScript_runs {outputs : List (PsetOutput Bytes32)} {index : ℕ} (script : List UInt8) (hindex : index < outputs.length) :
    ∃ next, setScript outputs index script = .ok next ∧ next.length = outputs.length := by
  refine ⟨outputs.set index { outputs[index] with scriptPubkey := script }, ?_, List.length_set⟩
  unfold setScript
  refine Db.except_bind_ok.mpr ⟨outputs[index], ?_, rfl⟩
  rw [okOr_eq_ok_iff]
  exact List.getElem?_eq_getElem hindex

/-- Verifiers are committed at outputs of the transaction, as far as their covenants can be made. -/
theorem commitVerifiers_runs {libraries : IssuanceLibraries} {outputs : List (PsetOutput Bytes32)}
    {descriptors : List IssuedUtxoDescriptor} (h : ∀ descriptor ∈ descriptors,
      (∃ script, descriptorProgram libraries programs stormEye.assetId descriptor = .ok script) ∧
        descriptor.outputIndex.toNat < outputs.length) :
    ∃ last, descriptors.foldlM (commitVerifier libraries programs stormEye.assetId) outputs = .ok last ∧
      last.length = outputs.length := by
  refine Loops.foldlM_runs (P := fun _ (last : List (PsetOutput Bytes32)) => last.length = outputs.length) rfl ?_
  intro done descriptor rest last hsplit hlength
  obtain ⟨⟨script, hscript⟩, hindex⟩ := h descriptor (by rw [hsplit]; simp)
  obtain ⟨next, hnext, hsame⟩ := setScript_runs script (hlength ▸ hindex)
  refine ⟨next, ?_, hsame.trans hlength⟩
  unfold commitVerifier
  exact Db.except_bind_ok.mpr ⟨script, mapError_ok.mpr hscript, hnext⟩

/-- Verifiers that are committed to one key have it as their shared signer. -/
theorem sharedSigner_committedTo {descriptors : List IssuedUtxoDescriptor} (hkey : branch ≠ Markers.noSigner) :
    ∃ signer, Markers.sharedSigner (committedTo descriptors branch) = .ok signer := by
  have hsigners : ∀ signer ∈ (committedTo descriptors branch).filterMap IssuedUtxoDescriptor.signer, signer = branch := by
    intro signer hsigner
    obtain ⟨descriptor, hdescriptor, hsome⟩ := List.mem_filterMap.mp hsigner
    obtain ⟨original, -, rfl⟩ := List.mem_map.mp hdescriptor
    cases hverifier : original.signer with
    | none =>
      rw [if_neg (by simp [IssuedUtxoDescriptor.isVerifier, hverifier]), hverifier] at hsome
      cases hsome
    | some placeholder =>
      rw [if_pos (by simp [IssuedUtxoDescriptor.isVerifier, hverifier])] at hsome
      exact (Option.some.inj hsome).symm
  unfold Markers.sharedSigner
  cases hlist : (committedTo descriptors branch).filterMap IssuedUtxoDescriptor.signer with
  | nil => exact ⟨none, rfl⟩
  | cons signer signers =>
    rw [hlist] at hsigners
    obtain rfl := hsigners signer List.mem_cons_self
    dsimp only
    rw [if_neg, if_neg hkey]
    · exact ⟨_, rfl⟩
    · rw [List.any_eq_true]
      rintro ⟨other, hother, hdiffers⟩
      rw [hsigners other (List.mem_cons_of_mem _ hother)] at hdiffers
      simp at hdiffers

theorem commitOutputs_runs {libraries : IssuanceLibraries} {transaction : RoundTransaction}
    (hkey : branch ≠ Markers.noSigner)
    (hdescriptors : ∀ descriptor ∈ (committedTo transaction.descriptors branch).filter IssuedUtxoDescriptor.isVerifier,
      (∃ script, descriptorProgram libraries programs transaction.stormEye.assetId descriptor = .ok script) ∧
        descriptor.outputIndex.toNat < transaction.pset.outputs.length)
    {script : List UInt8} (hscript : Markers.descriptorScript transaction.descriptors = .ok script)
    (houtput : transaction.descriptorOutput < transaction.pset.outputs.length) :
    ∃ last, commitOutputs libraries programs transaction branch = .ok last := by
  unfold commitOutputs
  split_ifs
  · obtain ⟨outputs, houtputs, hlength⟩ := commitVerifiers_runs hdescriptors
    obtain ⟨signer, hsigner⟩ : ∃ signer, Markers.sharedSigner (committedTo transaction.descriptors branch) = .ok signer :=
      sharedSigner_committedTo hkey
    have hcount : (committedTo transaction.descriptors branch).length = transaction.descriptors.length := List.length_map _
    unfold Markers.descriptorScript at hscript
    split_ifs at hscript with hmany hnone
    have hsome : committedTo transaction.descriptors branch ≠ [] := fun hnil => hnone (List.map_eq_nil_iff.mp hnil)
    have hnext := Markers.descriptorScript_eq hsome (hcount ▸ Nat.le_of_not_lt hmany) hsigner
    obtain ⟨next, hset, -⟩ := setScript_runs _ (hlength ▸ houtput)
    exact ⟨next, Db.except_bind_ok.mpr ⟨outputs, houtputs, Db.except_bind_ok.mpr ⟨_, mapError_ok.mpr hnext, hset⟩⟩⟩
  · exact ⟨_, rfl⟩

/-- A voucher that answers a request under the placeholder answers it under the branch it is committed to. -/
theorem Committed.answers {libraries : IssuanceLibraries} {now : ℕ} {requested : RequestedVoucher}
    {voucher next : IssuedVoucher} (h : Committed libraries programs stormEye branch voucher next)
    (hanswer : Answers libraries programs stormEye tickAsset verifierAsset placeholderSigner timestamp requested voucher)
    (hamount : voucher.amount = if voucher.descriptor.isVerifier then 1 else timestamp)
    (hclock : absDiff timestamp now ≤ maxTickTimeSkewSecs) :
    Answers libraries programs stormEye tickAsset verifierAsset branch now requested next := by
  have hverifier : voucher.descriptor.isVerifier = issuesVerifier requested.request.kind := by
    rw [IssuedUtxoDescriptor.isVerifier, hanswer.signer]
    cases issuesVerifier requested.request.kind <;> rfl
  obtain ⟨hdescriptor, hasset, hnextAmount, hscript⟩ := h
  rw [hverifier] at hdescriptor hamount hscript
  cases hkind : issuesVerifier requested.request.kind with
  | true =>
    rw [hkind, if_pos rfl] at hdescriptor hamount hscript
    have hassetKind := hanswer.asset
    rw [hkind, if_pos rfl] at hassetKind
    exact ⟨by rw [hdescriptor]; exact hanswer.auth, by rw [hdescriptor]; exact hanswer.owner,
      by rw [hdescriptor]; exact hanswer.reserve, by rw [hdescriptor, hkind]; rfl, by rw [hkind, hasset]; exact hassetKind,
      by rw [hkind, hnextAmount, hamount]; rfl, hscript⟩
  | false =>
    rw [hkind, if_neg Bool.false_ne_true] at hdescriptor hamount hscript
    have hassetKind := hanswer.asset
    rw [hkind, if_neg Bool.false_ne_true] at hassetKind
    exact ⟨by rw [hdescriptor]; exact hanswer.auth, by rw [hdescriptor]; exact hanswer.owner,
      by rw [hdescriptor]; exact hanswer.reserve, by rw [hdescriptor, hanswer.signer, hkind]; rfl,
      by rw [hkind, hasset]; exact hassetKind, by rw [hkind, hnextAmount, hamount]; exact hclock,
      by rw [hdescriptor, hscript]; exact hanswer.script⟩

end Branches

end IssuanceRound

end PriceOracle
