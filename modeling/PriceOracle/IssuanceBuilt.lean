import PriceOracle.IssuanceDraft
import PriceOracle.IssuanceSoundness

/-!
# The round that a leader has built

What `prepare_round_candidate` makes of the batches that it has chosen, part by part, in the words of
the validator: the requests in their order, the accounts, the tokens with what they reissue, and the
inputs and outputs of the transaction.
-/

namespace PriceOracle

namespace IssuanceRound

open Issuance (okOr okOr_eq_ok_iff)

variable {libraries : RoundLibraries} {programs : IssuancePrograms} {node : TokenNode}
  {stormEye : NetworkAsset Bytes32} {tickAsset verifierAsset : Option (NetworkAsset Bytes32)}
  {config : Issuance.ProtocolConfig} {timestamp : ℕ} {batches : List DecodedBatch} {issued : List IssuedBatch}

/-- A batch of the queue: its bytes under their hash, and fee UTXOs that its account can spend. -/
structure Resolved (libraries : IssuanceLibraries) (programs : IssuancePrograms) (stormEye : NetworkAsset Bytes32)
    (batch : DecodedBatch) (read : IssuedBatch) : Prop where
  hash : libraries.sha256 batch.encoded = batch.requestHash.toList
  encoded : validateEncodedRequest libraries batch.encoded = .ok (read.request, read.feeUtxos, batch.namedFeed)
  request : read.request = batch.request
  owner : ownerKey libraries batch.request.header.publicKey = .ok read.owner
  feeUtxos : List.Forall₂ (fun feeUtxo (utxo : Utxo Bytes32) => feeOutpoint feeUtxo = .ok utxo.outpoint ∧
    utxo.asset = programs.policyAsset ∧ utxo.scriptPubkey = accountScript programs stormEye.assetId read.owner)
      read.feeUtxos batch.feeUtxos

/-- The inputs that pay for the batches. -/
def feeGroups (batches : List DecodedBatch) : List (List IssuanceInput) :=
  batches.map fun batch => batch.feeUtxos.map IssuanceInput.new

section Reading

theorem decodeArray_of_ownerKey {libraries : IssuanceLibraries} {publicKey : String} {owner : Bytes32}
    (h : ownerKey libraries publicKey = .ok owner) : decodeArray publicKey = .ok owner := by
  unfold ownerKey at h
  unfold decodeArray
  cases hbytes : UserApi.hexDecode publicKey.toList with
  | none =>
    rw [hbytes] at h
    cases h
  | some bytes =>
    rw [hbytes] at h
    dsimp only at h ⊢
    split_ifs at h with hkey
    rw [if_pos hkey.1]
    exact h

theorem map_request_eq (h : List.Forall₂ (Resolved libraries.toIssuanceLibraries programs stormEye) batches issued) :
    issued.map IssuedBatch.request = batches.map DecodedBatch.request := by
  induction h with
  | nil => rfl
  | cons hbatch _ ih => rw [List.map_cons, List.map_cons, ih, hbatch.request]

theorem requestCount_eq (h : List.Forall₂ (Resolved libraries.toIssuanceLibraries programs stormEye) batches issued) :
    requestCount batches = issuedCount issued := by
  have hmap := congrArg (List.map fun request => request.requests.length) (map_request_eq h)
  rw [List.map_map, List.map_map] at hmap
  exact congrArg List.sum hmap.symm

theorem verifierRequests_eq (h : List.Forall₂ (Resolved libraries.toIssuanceLibraries programs stormEye) batches issued) :
    verifierRequests batches = verifierCount issued := by
  have hflat : issued.flatMap (fun batch => batch.request.requests) = batches.flatMap fun batch => batch.request.requests := by
    have hmap := map_request_eq h
    rw [← List.flatMap_map (f := IssuedBatch.request), hmap, List.flatMap_map]
  rw [verifierRequests, verifierCount, hflat]

theorem requestedBy_eq (h : List.Forall₂ (Resolved libraries.toIssuanceLibraries programs stormEye) batches issued)
    (first : ℕ) : ∀ k, requestedBy (issued.map IssuedBatch.owner) first (batches.zipIdx k) =
      requestedVouchers first (issued.zipIdx k) := by
  induction h with
  | nil => exact fun _ => rfl
  | @cons batch read _ _ hbatch _ ih =>
    intro k
    have hrest := ih (k + 1)
    simp only [requestedBy, requestedVouchers, List.map_cons, List.zipIdx_cons, List.zip_cons_cons, List.flatMap_cons]
      at hrest ⊢
    rw [hrest, hbatch.request]

theorem owners_eq (h : List.Forall₂ (Resolved libraries.toIssuanceLibraries programs stormEye) batches issued) {first : ℕ} :
    ∀ {k : ℕ} {owners : List Bytes32}, List.Forall₂ (fun (item : DecodedBatch × ℕ) owner =>
      decodeArray item.1.request.header.publicKey = .ok owner ∧ first + item.2 < 2 ^ 32) (batches.zipIdx k) owners →
    owners = issued.map IssuedBatch.owner := by
  induction h with
  | nil =>
    intro k owners howners
    cases howners
    rfl
  | @cons batch read _ _ hbatch _ ih =>
    intro k owners howners
    rw [List.zipIdx_cons] at howners
    cases howners with
    | @cons _ owner _ owners howner hrest =>
      have hsame := howner.1
      rw [decodeArray_of_ownerKey hbatch.owner] at hsame
      rw [ih hrest, List.map_cons, Except.ok.inj hsame]

/-- What the batches of a round say, as a signer reads it from the message. -/
theorem readBatches_round (h : List.Forall₂ (Resolved libraries.toIssuanceLibraries programs stormEye) batches issued)
    {instructed : Option PriceFeedData}
    (hcarried : ∀ batch ∈ batches, ∀ feed, batch.namedFeed = some feed → ∃ rate, instructed = some rate ∧ rate.feedId = feed)
    (hpriced : instructed = none ↔ ∀ batch ∈ batches, batch.namedFeed = none) :
    ReadBatches libraries.toIssuanceLibraries (batches.map (roundExternal instructed)) issued
      (batches.map DecodedBatch.namedFeed) instructed where
  read := by
    clear hcarried hpriced
    induction h with
    | nil => exact .nil
    | @cons batch read _ _ hbatch _ ih =>
      refine .cons ⟨hbatch.hash, hbatch.encoded, ?_⟩ ih
      dsimp only
      rw [hbatch.request]
      exact hbatch.owner
  length := by rw [List.length_map, h.length_eq]
  carried := by
    rw [List.forall₂_map_left_iff, List.forall₂_map_right_iff, List.forall₂_same]
    intro batch hbatch
    cases hfeed : batch.namedFeed with
    | none => simp [CarriesRate, roundExternal, batchPayload, hfeed]
    | some feed =>
      obtain ⟨rate, rfl, rfl⟩ := hcarried batch hbatch feed hfeed
      exact ⟨rate, rfl, rfl, by simp [roundExternal, batchPayload, hfeed]⟩
  priced := by
    rw [hpriced, List.forall_mem_map]

end Reading

section Fees

theorem heldValue_new (utxo : Utxo Bytes32) : heldValue (IssuanceInput.new utxo) = utxo.amount := rfl

theorem feeTotal_ok {batch : DecodedBatch} {balance : ℕ} (h : feeTotal batch = .ok balance) :
    balance = ((batch.feeUtxos.map IssuanceInput.new).map heldValue).sum ∧ balance < 2 ^ 64 := by
  unfold feeTotal at h
  obtain ⟨owner, -, h⟩ := Db.except_bind_ok.mp h
  refine Loops.foldlM_ok (P := fun done total => total = ((done.map IssuanceInput.new).map heldValue).sum ∧ total < 2 ^ 64)
    ?_ ⟨rfl, by norm_num⟩ h
  rintro done utxo total next ⟨rfl, -⟩ hstep
  obtain ⟨rfl, hfits⟩ := addAmount_ok.mp hstep
  exact ⟨by simp [heldValue_new], hfits⟩

theorem fundsBatch_round {batch : DecodedBatch} {read : IssuedBatch} {balance : ℕ}
    (h : Resolved libraries.toIssuanceLibraries programs stormEye batch read) (hbalance : feeTotal batch = .ok balance) :
    FundsBatch programs stormEye read (batch.feeUtxos.map IssuanceInput.new) where
  funds := by
    rw [List.forall₂_map_right_iff]
    exact h.feeUtxos.imp fun feeUtxo utxo hutxo =>
      ⟨hutxo.1, utxo.txout, utxo.amount, rfl, hutxo.2.2, rfl⟩
  fits := by
    obtain ⟨heq, hfits⟩ := feeTotal_ok hbalance
    rwa [← heq]

theorem fundsBatches_round (h : List.Forall₂ (Resolved libraries.toIssuanceLibraries programs stormEye) batches issued)
    {balances : List ℕ} (hbalances : batches.mapM feeTotal = .ok balances) :
    List.Forall₂ (FundsBatch programs stormEye) issued (feeGroups batches) := by
  have hall : ∀ batch ∈ batches, ∃ balance, feeTotal batch = .ok balance := by
    intro batch hbatch
    obtain ⟨i, hi⟩ := List.getElem?_of_mem hbatch
    obtain ⟨balance, -, hbalance⟩ := (mapM_ok hbalances).2 i batch hi
    exact ⟨balance, hbalance⟩
  clear hbalances
  induction h with
  | nil => exact .nil
  | cons hbatch _ ih =>
    obtain ⟨balance, hbalance⟩ := hall _ List.mem_cons_self
    exact .cons (fundsBatch_round hbatch hbalance) (ih fun other hother => hall other (List.mem_cons_of_mem _ hother))

/-- The accounts of the builder are those of the validator. -/
theorem accounts_eq (h : List.Forall₂ (Resolved libraries.toIssuanceLibraries programs stormEye) batches issued) :
    ∀ {balances : List ℕ}, batches.mapM feeTotal = .ok balances →
    List.zipWith (fun (batch : DecodedBatch) balance =>
      ((UInt64.ofNat batch.request.requests.length, UInt64.ofNat balance) : Issuance.Account)) batches balances =
      (accountsOf programs stormEye issued (feeGroups batches)).map accountOf := by
  induction h with
  | nil =>
    intro balances _
    rfl
  | @cons batch read _ _ hbatch _ ih =>
    intro balances hbalances
    rw [List.mapM_cons] at hbalances
    obtain ⟨balance, hbalance, hbalances⟩ := Db.except_bind_ok.mp hbalances
    obtain ⟨rest, hrest, hbalances⟩ := Db.except_bind_ok.mp hbalances
    cases hbalances
    have htail := ih hrest
    simp only [feeGroups, accountsOf, List.map_cons, List.zipWith_cons_cons] at htail ⊢
    rw [htail, ← (feeTotal_ok hbalance).1, hbatch.request]
    rfl

end Fees

section Reissues

theorem isVerifier_of_answers {libraries : IssuanceLibraries} {signer : Bytes32} {now : ℕ} {requested : RequestedVoucher}
    {voucher : IssuedVoucher}
    (h : Answers libraries programs stormEye tickAsset verifierAsset signer now requested voucher) :
    voucher.descriptor.isVerifier = issuesVerifier requested.request.kind := by
  rw [IssuedUtxoDescriptor.isVerifier, h.signer]
  cases issuesVerifier requested.request.kind <;> rfl

theorem requestedVouchers_requests (first : ℕ) (items : List (IssuedBatch × ℕ)) :
    (requestedVouchers first items).map RequestedVoucher.request =
      (items.map Prod.fst).flatMap fun batch => batch.request.requests := by
  rw [requestedVouchers, List.map_flatMap, List.flatMap_map]
  refine List.flatMap_congr fun item _ => ?_
  rw [List.map_map]
  exact List.map_id _

/-- As many vouchers are Verifiers as were asked for. -/
theorem verifier_vouchers {libraries : IssuanceLibraries} {signer : Bytes32} {now first : ℕ} {vouchers : List IssuedVoucher}
    (h : List.Forall₂ (Answers libraries programs stormEye tickAsset verifierAsset signer now)
      (requestedVouchers first issued.zipIdx) vouchers) :
    (vouchers.filter fun voucher => voucher.descriptor.isVerifier).length = verifierCount issued ∧
      vouchers.length = issuedCount issued := by
  constructor
  · have hkinds : ∀ {requested : List RequestedVoucher} {vouchers : List IssuedVoucher},
        List.Forall₂ (Answers libraries programs stormEye tickAsset verifierAsset signer now) requested vouchers →
        (vouchers.filter fun voucher => voucher.descriptor.isVerifier).length =
          ((requested.map RequestedVoucher.request).filter fun request => issuesVerifier request.kind).length := by
      intro requested vouchers hall
      induction hall with
      | nil => rfl
      | cons hanswer _ ih =>
        rw [List.map_cons, List.filter_cons, List.filter_cons, isVerifier_of_answers hanswer]
        split_ifs
        · rw [List.length_cons, List.length_cons, ih]
        · exact ih
    rw [hkinds h, requestedVouchers_requests, List.zipIdx_map_fst, verifierCount]
  · rw [← h.length_eq, length_requestedVouchers, List.zipIdx_map_fst]

theorem sum_amounts {vouchers : List IssuedVoucher} (hamounts : ∀ voucher ∈ vouchers,
    voucher.amount = if voucher.descriptor.isVerifier then 1 else timestamp) :
    ((vouchers.filter fun voucher => voucher.descriptor.isVerifier).map IssuedVoucher.amount).sum =
        (vouchers.filter fun voucher => voucher.descriptor.isVerifier).length ∧
      ((vouchers.filter fun voucher => !voucher.descriptor.isVerifier).map IssuedVoucher.amount).sum =
        timestamp * (vouchers.filter fun voucher => !voucher.descriptor.isVerifier).length := by
  induction vouchers with
  | nil => exact ⟨rfl, rfl⟩
  | cons voucher vouchers ih =>
    obtain ⟨hverifiers, hticks⟩ := ih fun other hother => hamounts other (List.mem_cons_of_mem _ hother)
    have hamount := hamounts voucher List.mem_cons_self
    cases hkind : voucher.descriptor.isVerifier with
    | true =>
      rw [hkind, if_pos rfl] at hamount
      simp [hkind, hamount, hverifiers, hticks, Nat.add_comm]
    | false =>
      rw [hkind, if_neg Bool.false_ne_true] at hamount
      simp [hkind, hamount, hverifiers, hticks, Nat.mul_add, Nat.add_comm]

/-- Each token reissues what its vouchers amount to. -/
theorem issuedTotals_round {tokens : List RoundToken} {vouchers : List IssuedVoucher} {tickCount verifiers : ℕ}
    (htokens : RoundTokens libraries tickAsset verifierAsset timestamp tickCount verifiers tokens)
    (hamounts : ∀ voucher ∈ vouchers, voucher.amount = if voucher.descriptor.isVerifier then 1 else timestamp)
    (hverifiers : (vouchers.filter fun voucher => voucher.descriptor.isVerifier).length = verifiers)
    (hticks : (vouchers.filter fun voucher => !voucher.descriptor.isVerifier).length = tickCount) :
    issuedTotals tokens.length (voucherAmounts (tokens.map RoundToken.asset) vouchers) =
      tokens.map RoundToken.issuanceAmount := by
  obtain ⟨hverifierSum, htickSum⟩ := sum_amounts hamounts
  rw [hverifiers] at hverifierSum
  rw [hticks] at htickSum
  have hlength : (tokens.map RoundToken.asset).length = tokens.length := List.length_map _
  have hassets := htokens.assets
  have hcounts := htokens.amounts
  have hindex : ∀ i, ((voucherAmounts (tokens.map RoundToken.asset) vouchers).filter fun item => decide (item.1 = i)).map
      Prod.snd = (vouchers.filter fun voucher =>
        decide (tokenIndex (tokens.map RoundToken.asset) voucher.descriptor.isVerifier = i)).map IssuedVoucher.amount := by
    intro i
    rw [voucherAmounts, List.filter_map, List.map_map]
    rfl
  unfold issuedTotals
  simp only [hindex, tokenIndex, hlength]
  by_cases htick : 0 < tickCount <;> by_cases hverifier : 0 < verifiers
  · obtain ⟨tick, rfl⟩ := Option.isSome_iff_exists.mp (htokens.ticks htick)
    obtain ⟨other, rfl⟩ := Option.isSome_iff_exists.mp (htokens.verifiers hverifier)
    have htwo : tokens.length = 2 := by
      rw [← hlength, hassets]
      simp [htick, hverifier]
    simp only [htick, hverifier, if_true, List.singleton_append] at hcounts
    rw [htwo, hcounts]
    simp [List.range_succ, ← htickSum, ← hverifierSum]
  · obtain ⟨tick, rfl⟩ := Option.isSome_iff_exists.mp (htokens.ticks htick)
    have hone : tokens.length = 1 := by
      rw [← hlength, hassets]
      simp [htick, hverifier]
    have hnone : ∀ voucher ∈ vouchers, voucher.descriptor.isVerifier = false := by
      intro voucher hvoucher
      have hnil := List.length_eq_zero_iff.mp (show _ = 0 by omega : (vouchers.filter fun voucher =>
        voucher.descriptor.isVerifier).length = 0)
      simpa using List.filter_eq_nil_iff.mp hnil voucher hvoucher
    simp only [htick, hverifier, if_true, if_false, List.append_nil] at hcounts
    rw [hone, hcounts, ← htickSum]
    simp only [List.range_one, List.map_singleton, Nat.sub_self, ite_self, decide_true, List.filter_true]
    rw [List.filter_eq_self.mpr fun voucher hvoucher => by simp [hnone voucher hvoucher]]
  · obtain ⟨other, rfl⟩ := Option.isSome_iff_exists.mp (htokens.verifiers hverifier)
    have hone : tokens.length = 1 := by
      rw [← hlength, hassets]
      simp [htick, hverifier]
    have hall : ∀ voucher ∈ vouchers, voucher.descriptor.isVerifier = true := by
      intro voucher hvoucher
      have hnil := List.length_eq_zero_iff.mp (show _ = 0 by omega : (vouchers.filter fun voucher =>
        !voucher.descriptor.isVerifier).length = 0)
      simpa using List.filter_eq_nil_iff.mp hnil voucher hvoucher
    simp only [htick, hverifier, if_true, if_false, List.nil_append] at hcounts
    rw [hone, hcounts, ← hverifierSum]
    simp only [List.range_one, List.map_singleton, Nat.sub_self, ite_self, decide_true, List.filter_true]
    rw [List.filter_eq_self.mpr fun voucher hvoucher => by simp [hall voucher hvoucher]]
  · have hnone : tokens.length = 0 := by
      rw [← hlength, hassets]
      simp [htick, hverifier]
    rw [List.length_eq_zero_iff.mp hnone]
    rfl

end Reissues

section Building

variable {stormEyeUtxo : Utxo Bytes32} {instructed : Option PriceFeedData} {round : LeaderRound}

/-- The parts of a built round: its tokens with their inputs and outputs, its vouchers, and its accounts. -/
structure BuiltParts where
  tokens : List RoundToken
  inputs : List IssuanceInput
  outputs : List (PsetOutput Bytes32)
  vouchers : List IssuedVoucher
  reserves : List UInt64
  script : List UInt8

def reservePsetOutputs (programs : IssuancePrograms) (stormEye : NetworkAsset Bytes32) (issued : List IssuedBatch)
    (reserves : List UInt64) : List (PsetOutput Bytes32) :=
  List.zipWith (fun read reserve => .new (accountScript programs stormEye.assetId read.owner) reserve.toNat
    programs.policyAsset) issued reserves

/-- What the leader has built of the batches. -/
structure Built (libraries : RoundLibraries) (programs : IssuancePrograms) (stormEye : NetworkAsset Bytes32)
    (tickAsset verifierAsset : Option (NetworkAsset Bytes32)) (config : Issuance.ProtocolConfig) (timestamp : ℕ)
    (stormEyeUtxo : Utxo Bytes32) (batches : List DecodedBatch) (issued : List IssuedBatch)
    (instructed : Option PriceFeedData) (round : LeaderRound) (parts : BuiltParts) : Prop where
  tokens : RoundTokens libraries tickAsset verifierAsset timestamp (issuedCount issued - verifierCount issued)
    (verifierCount issued) parts.tokens
  reblinded : ∀ (k : ℕ) (token : RoundToken), parts.tokens[k]? = some token → ∃ entropy input output,
    token.asset.entropy = some entropy ∧ parts.inputs[k]? = some input ∧ parts.outputs[k]? = some output ∧
      Reblinded libraries token (libraries.reissuanceInput token.utxo token.issuanceAmount entropy) input output
  counts : parts.inputs.length = parts.tokens.length ∧ parts.outputs.length = parts.tokens.length
  funds : List.Forall₂ (FundsBatch programs stormEye) issued (feeGroups batches)
  answers : List.Forall₂ (Answers libraries.toIssuanceLibraries programs stormEye tickAsset verifierAsset placeholderSigner
    timestamp) (requestedVouchers (1 + parts.tokens.length + issuedCount issued) issued.zipIdx) parts.vouchers
  amounts : ∀ voucher ∈ parts.vouchers, voucher.amount = if voucher.descriptor.isVerifier then 1 else timestamp
  places : ∀ (i : ℕ) (voucher : IssuedVoucher), parts.vouchers[i]? = some voucher →
    voucher.descriptor.outputIndex.toNat = 1 + parts.tokens.length + i
  indexes : ∀ item ∈ issued.zipIdx, 1 + parts.tokens.length + issuedCount issued + item.2 < 2 ^ 32
  allocated : Issuance.allocateAccountReserves ((accountsOf programs stormEye issued (feeGroups batches)).map accountOf)
    config = .ok parts.reserves
  script : Markers.descriptorScript (parts.vouchers.map IssuedVoucher.descriptor) = .ok parts.script
  psetInputs : round.transaction.pset.inputs =
    IssuanceInput.new stormEyeUtxo :: parts.inputs ++ (feeGroups batches).flatten
  psetOutputs : round.transaction.pset.outputs = (PsetOutput.fromUtxo stormEyeUtxo :: parts.outputs) ++
    (parts.vouchers.map IssuedVoucher.output ++ (reservePsetOutputs programs stormEye issued parts.reserves ++
      .new parts.script 0 programs.policyAsset ::
        [.new (treasuryScript programs stormEye.assetId)
          (config.operationalFeeSats * UInt64.ofNat (issuedCount issued)).toNat programs.policyAsset,
        .new [] config.issuanceTransactionFeeSats.toNat programs.policyAsset]))
  descriptors : round.transaction.descriptors = parts.vouchers.map IssuedVoucher.descriptor
  descriptorOutput : round.transaction.descriptorOutput = ((PsetOutput.fromUtxo stormEyeUtxo :: parts.outputs) ++
    parts.vouchers.map IssuedVoucher.output ++ reservePsetOutputs programs stormEye issued parts.reserves).length
  stormEye : round.transaction.stormEye = stormEye
  externals : round.request.externalRequests = batches.map (roundExternal instructed)
  instructed : round.instructed = instructed

theorem reserveOutputs_ok (h : List.Forall₂ (Resolved libraries.toIssuanceLibraries programs stormEye) batches issued) :
    ∀ {reserves : List UInt64} {outputs : List (PsetOutput Bytes32)},
    (batches.zip reserves).mapM (reserveOutput programs stormEye) = .ok outputs →
      outputs = reservePsetOutputs programs stormEye issued reserves := by
  induction h with
  | nil =>
    intro reserves outputs h
    cases h
    rfl
  | @cons batch read _ _ hbatch _ ih =>
    intro reserves outputs h
    cases reserves with
    | nil =>
      cases h
      rfl
    | cons reserve reserves =>
      rw [List.zip_cons_cons, List.mapM_cons] at h
      obtain ⟨output, houtput, h⟩ := Db.except_bind_ok.mp h
      obtain ⟨rest, hrest, h⟩ := Db.except_bind_ok.mp h
      cases h
      obtain ⟨owner, howner, houtput⟩ := Db.except_bind_ok.mp houtput
      rw [decodeArray_of_ownerKey hbatch.owner] at howner
      cases houtput
      rw [ih hrest, ← Except.ok.inj howner]
      rfl

theorem tokenInputs_ok : ∀ {tokens : List RoundToken} {inputs : List IssuanceInput},
    tokens.mapM (tokenInput libraries) = .ok inputs → inputs.length = tokens.length ∧
      ∀ (k : ℕ) (token : RoundToken), tokens[k]? = some token → ∃ entropy, token.asset.entropy = some entropy ∧
        inputs[k]? = some (libraries.reissuanceInput token.utxo token.issuanceAmount entropy) := by
  intro tokens inputs h
  obtain ⟨hlength, hall⟩ := mapM_ok h
  refine ⟨hlength, fun k token htoken => ?_⟩
  obtain ⟨input, hinput, hmade⟩ := hall k token htoken
  unfold tokenInput at hmade
  cases hentropy : token.asset.entropy with
  | none =>
    rw [hentropy] at hmade
    cases hmade
  | some entropy =>
    rw [hentropy] at hmade
    cases hmade
    exact ⟨entropy, rfl, hinput⟩

theorem reblindTokens_ok (hlaws : LawfulBlinding libraries) {pset last : IssuancePset} {tokens : List RoundToken}
    {spent : List TxOutSecrets} {input : IssuanceInput} {inputs after : List IssuanceInput} {output : PsetOutput Bytes32}
    {outputs afterOutputs : List (PsetOutput Bytes32)} (hpset : pset = ⟨input :: (inputs ++ after), output :: (outputs ++ afterOutputs)⟩)
    (hinputs : inputs.length = tokens.length) (houtputs : outputs.length = tokens.length)
    (hunblinds : ∀ token ∈ tokens, libraries.unblindSecrets token.utxo.txout = some token.secrets)
    (h : reblindTokens libraries pset tokens spent = .ok last) :
    ∃ inputs' outputs', inputs'.length = tokens.length ∧ outputs'.length = tokens.length ∧
      last = ⟨input :: (inputs' ++ after), output :: (outputs' ++ afterOutputs)⟩ ∧
      ∀ (k : ℕ) (token : RoundToken), tokens[k]? = some token → ∃ input input' output', inputs[k]? = some input ∧
        inputs'[k]? = some input' ∧ outputs'[k]? = some output' ∧ Reblinded libraries token input input' output' := by
  unfold reblindTokens at h
  obtain ⟨secrets, -, h⟩ := Db.except_bind_ok.mp h
  obtain ⟨state, hstate, h⟩ := Db.except_bind_ok.mp h
  cases h
  rw [hpset, ← List.singleton_append, ← List.singleton_append (x := output)] at hstate
  obtain ⟨inputs', outputs', hinputs', houtputs', hlast, hall⟩ :=
    reblindTokens_from hlaws rfl hinputs rfl houtputs hunblinds hstate
  exact ⟨inputs', outputs', hinputs', houtputs', hlast, hall⟩

theorem buildRound_ok (hlaws : LawfulBlinding libraries)
    (hresolved : List.Forall₂ (Resolved libraries.toIssuanceLibraries programs stormEye) batches issued)
    (h : buildRound libraries programs node stormEye tickAsset verifierAsset config timestamp stormEyeUtxo batches instructed =
      .ok round) :
    ∃ parts, Built libraries programs stormEye tickAsset verifierAsset config timestamp stormEyeUtxo batches issued
      instructed round parts := by
  unfold buildRound at h
  obtain ⟨tokens, htokens, h⟩ := Db.except_bind_ok.mp h
  obtain ⟨_, -, h⟩ := Db.except_bind_ok.mp h
  obtain ⟨tokenInputs, htokenInputs, h⟩ := Db.except_bind_ok.mp h
  obtain ⟨balances, hbalances, h⟩ := Db.except_bind_ok.mp h
  obtain ⟨⟨draft, results⟩, hdraft, h⟩ := Db.except_bind_ok.mp h
  obtain ⟨reserves, hreserves, h⟩ := Db.except_bind_ok.mp h
  obtain ⟨reserveOutputs, hreserveOutputs, h⟩ := Db.except_bind_ok.mp h
  obtain ⟨script, hscript, h⟩ := Db.except_bind_ok.mp h
  obtain ⟨pset, hpset, h⟩ := Db.except_bind_ok.mp h
  obtain ⟨⟨placeholderPset, signingHash⟩, -, h⟩ := Db.except_bind_ok.mp h
  cases h
  have htokens := findTokens_ok htokens
  rw [requestCount_eq hresolved, verifierRequests_eq hresolved] at htokens
  obtain ⟨hinputCount, hinputs⟩ := tokenInputs_ok htokenInputs
  obtain ⟨owners, vouchers, howners, hdrafted⟩ := addBatches_ok hdraft
  obtain rfl := owners_eq hresolved howners
  have hrequested := requestedBy_eq hresolved (1 + tokens.length + requestCount batches) 0
  rw [requestCount_eq hresolved] at hrequested
  obtain rfl := reserveOutputs_ok hresolved hreserveOutputs
  rw [mapError_ok, hdrafted.descriptors] at hscript
  have hfees : (batches.flatMap DecodedBatch.feeUtxos).map IssuanceInput.new = (feeGroups batches).flatten := by
    rw [List.map_flatMap, feeGroups, ← List.flatMap_def]
  rw [hdrafted.outputs, List.append_assoc, List.append_assoc, List.cons_append, List.cons_append] at hpset
  obtain ⟨inputs', outputs', hinputs', houtputs', rfl, hreblinded⟩ := reblindTokens_ok hlaws rfl hinputCount
    (List.length_map _) (fun token htoken => by
      obtain ⟨template, hready⟩ := htokens.ready token htoken
      exact hready.unblinds) hpset
  refine ⟨⟨tokens, inputs', outputs', vouchers, reserves, script⟩, htokens, ?_, ⟨hinputs', houtputs'⟩,
    fundsBatches_round hresolved hbalances, ?_, hdrafted.amounts, ?_, ?_, ?_, hscript, ?_, ?_, hdrafted.descriptors, ?_,
    rfl, rfl, rfl⟩
  · intro k token htoken
    obtain ⟨entropy, hentropy, hinput⟩ := hinputs k token htoken
    obtain ⟨input, input', output', hfound, hinput', houtput', hblinded⟩ := hreblinded k token htoken
    obtain rfl := Option.some.inj (hinput.symm.trans hfound)
    exact ⟨entropy, input', output', hentropy, hinput', houtput', hblinded⟩
  · have hanswers := hdrafted.answers
    rw [requestCount_eq hresolved, hrequested] at hanswers
    exact hanswers
  · intro i voucher hvoucher
    rw [hdrafted.indexes i voucher hvoucher, List.length_cons, List.length_map, Nat.add_comm 1]
  · intro item hitem
    have hlt := (List.mem_zipIdx hitem).2.1
    have hcount := hresolved.length_eq
    have hindex := (List.forall₂_iff_get.mp howners).2 item.2 (by rw [List.length_zipIdx]; omega)
      (by rw [List.length_map]; omega)
    simp only [List.get_eq_getElem, List.getElem_zipIdx, Nat.zero_add] at hindex
    rw [← requestCount_eq hresolved]
    exact hindex.2
  · rw [← accounts_eq hresolved hbalances]
    exact mapError_ok.mp hreserves
  · rw [hfees]
    rfl
  · rw [requestCount_eq hresolved]
    rfl
  · rw [hdrafted.outputs]
    simp [houtputs']

end Building

end IssuanceRound

end PriceOracle
