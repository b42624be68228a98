import PriceOracle.IssuanceValidator
import PriceOracle.Loops

/-!
# The loops of a round's validator

What each loop of `validate_execute_request` establishes, with the batches, the fee inputs and the
vouchers it has read: the facts from which an accepted transaction is put together.
-/

namespace PriceOracle

namespace IssuanceRound

open Issuance (okOr okOr_eq_ok_iff)

variable {libraries : IssuanceLibraries} {programs : IssuancePrograms} {pset : IssuancePset}
  {stormEye : NetworkAsset Bytes32} {tickAsset verifierAsset : Option (NetworkAsset Bytes32)}

section Helpers

theorem addAmount_ok {total amount next : ℕ} {message : String} :
    addAmount total amount message = .ok next ↔ next = total + amount ∧ total + amount < 2 ^ 64 := by
  unfold addAmount
  by_cases hfits : total + amount < 2 ^ 64
  · rw [if_pos hfits, Except.ok.injEq, eq_comm, and_iff_left hfits]
  · simp only [hfits, if_false, reduceCtorEq, and_false]

theorem toU32_ok {value : ℕ} {message : String} {word : UInt32} :
    toU32 value message = .ok word ↔ word.toNat = value := by
  unfold toU32
  have hword := word.toNat_lt
  by_cases hfits : value < 2 ^ 32
  · rw [if_pos hfits, Except.ok.injEq, ← UInt32.toNat_inj, UInt32.toNat_ofNat_of_lt' hfits, eq_comm]
  · rw [if_neg hfits]
    simp only [reduceCtorEq, false_iff]
    omega

theorem checkedMul_ok {a b c : ℕ} {message : String} :
    checkedMul a b message = .ok c ↔ c = a * b ∧ a * b < 2 ^ 64 := by
  unfold checkedMul
  by_cases hfits : a * b < 2 ^ 64
  · rw [if_pos hfits, Except.ok.injEq, eq_comm, and_iff_left hfits]
  · simp only [hfits, if_false, reduceCtorEq, and_false]

theorem feeOutpoint_ok {feeUtxo : FeeUtxo (List UInt8)} {outpoint : Bytes32 × ℕ} :
    feeOutpoint feeUtxo = .ok outpoint ↔
      feeUtxo.txid.length = 32 ∧ outpoint = (Markers.toKey feeUtxo.txid.reverse, feeUtxo.outputIndex) := by
  unfold feeOutpoint
  by_cases hlength : feeUtxo.txid.length = 32
  · simp [hlength, eq_comm]
  · simp [hlength]

end Helpers

section Batches

/-- A batch carries the rate of the message if it names a feed, and none if it does not. -/
def CarriesRate (namedFeed : Option UInt32) (payload : Option (List UInt8)) (instructed : Option PriceFeedData) : Prop :=
  match namedFeed with
  | none => payload = none
  | some feed => ∃ rate, instructed = some rate ∧ rate.feedId = feed ∧ payload = some rate.toBytes

/-- What a message says of one batch. -/
structure ReadFrom (libraries : IssuanceLibraries) (external : ExternalRequests) (batch : IssuedBatch)
    (namedFeed : Option UInt32) : Prop where
  hash : libraries.sha256 external.networkUserRequests = external.requestHash.toList
  encoded : validateEncodedRequest libraries external.networkUserRequests = .ok (batch.request, batch.feeUtxos, namedFeed)
  owner : ownerKey libraries batch.request.header.publicKey = .ok batch.owner

theorem instructedPrice_ok {namedFeed : Option UInt32} {payload : Option (List UInt8)}
    {carried instructed : Option PriceFeedData} (h : instructedPrice namedFeed payload carried = .ok instructed) :
    CarriesRate namedFeed payload instructed ∧ (carried = none ∨ carried = instructed) ∧
      (namedFeed = none → instructed = carried) := by
  unfold instructedPrice at h
  cases namedFeed with
  | none =>
    cases payload with
    | none =>
      cases h
      exact ⟨rfl, .inr rfl, fun _ => rfl⟩
    | some payload => cases h
  | some feed =>
    cases payload with
    | none => cases h
    | some payload =>
      dsimp only at h
      cases hrate : PriceFeedData.fromBytes payload with
      | none =>
        rw [hrate] at h
        cases h
      | some rate =>
        rw [hrate] at h
        dsimp only at h
        by_cases hfeed : rate.feedId ≠ feed
        · rw [if_pos hfeed] at h
          cases h
        · rw [if_neg hfeed] at h
          by_cases hother : (carried.any fun carried => carried ≠ rate) = true
          · rw [if_pos hother] at h
            cases h
          · rw [if_neg hother] at h
            cases h
            refine ⟨⟨rate, rfl, not_not.mp hfeed, ?_⟩, ?_, fun hnone => by cases hnone⟩
            · rw [PriceFeedData.fromBytes_eq_some_iff.mp hrate]
            · cases carried with
              | none => exact .inl rfl
              | some carried =>
                right
                simp only [Option.any_some, decide_not, Bool.not_eq_true, Bool.not_eq_false', decide_eq_true_eq] at hother
                rw [hother]

theorem readExternal_ok {read next : List IssuedBatch × Option PriceFeedData} {external : ExternalRequests}
    (h : readExternal libraries read external = .ok next) :
    ∃ batch namedFeed, ReadFrom libraries external batch namedFeed ∧ next.1 = read.1 ++ [batch] ∧
      instructedPrice namedFeed external.additionalPayload read.2 = .ok next.2 := by
  unfold readExternal at h
  obtain ⟨hhash, h⟩ := then_ok.mp h
  obtain ⟨⟨request, feeUtxos, namedFeed⟩, hencoded, h⟩ := Db.except_bind_ok.mp h
  obtain ⟨instructed, hinstructed, h⟩ := Db.except_bind_ok.mp h
  obtain ⟨owner, howner, h⟩ := Db.except_bind_ok.mp h
  cases h
  exact ⟨⟨request, feeUtxos, owner⟩, namedFeed, ⟨require_ok.mp hhash, mapError_ok.mp hencoded, howner⟩, rfl, hinstructed⟩

/-- The batches of a message with the feeds they name, and the one rate they carry. -/
structure ReadBatches (libraries : IssuanceLibraries) (externals : List ExternalRequests) (batches : List IssuedBatch)
    (feeds : List (Option UInt32)) (instructed : Option PriceFeedData) : Prop where
  read : List.Forall₂ (fun external item => ReadFrom libraries external item.1 item.2) externals (batches.zip feeds)
  length : feeds.length = batches.length
  carried : List.Forall₂ (fun (external : ExternalRequests) namedFeed =>
    CarriesRate namedFeed external.additionalPayload instructed) externals feeds
  priced : instructed = none ↔ ∀ namedFeed ∈ feeds, namedFeed = none

theorem readExternals_ok {externals : List ExternalRequests} {batches : List IssuedBatch}
    {instructed : Option PriceFeedData} (h : externals.foldlM (readExternal libraries) ([], none) = .ok (batches, instructed)) :
    ∃ feeds, ReadBatches libraries externals batches feeds instructed := by
  have hstart : ∃ feeds, ReadBatches libraries [] ([], (none : Option PriceFeedData)).1 feeds none :=
    ⟨[], .nil, rfl, .nil, by simp⟩
  refine Loops.foldlM_ok (P := fun done read => ∃ feeds, ReadBatches libraries done read.1 feeds read.2) ?_ hstart h
  rintro done external read next ⟨feeds, hread⟩ hstep
  obtain ⟨batch, namedFeed, hbatch, hbatches, hrate⟩ := readExternal_ok hstep
  obtain ⟨hcarries, hkept, hunpriced⟩ := instructedPrice_ok hrate
  refine ⟨feeds ++ [namedFeed], ?_, ?_, ?_, ?_⟩
  · rw [hbatches, List.zip_append hread.length.symm]
    exact List.rel_append hread.read (.cons hbatch .nil)
  · rw [hbatches, List.length_append, List.length_append, hread.length]
    rfl
  · refine List.rel_append (hread.carried.imp fun other feed hother => ?_) (.cons hcarries .nil)
    -- A rate that was carried before is the rate now.
    cases feed with
    | none => exact hother
    | some feed =>
      obtain ⟨rate, hsome, hrest⟩ := hother
      rcases hkept with hnone | hsame
      · rw [hnone] at hsome
        cases hsome
      · exact ⟨rate, hsame ▸ hsome, hrest⟩
  · constructor
    · intro hnone feed hfeed
      rcases List.mem_append.mp hfeed with hold | hnew
      · refine hread.priced.mp ?_ feed hold
        rcases hkept with hbefore | hsame
        · exact hbefore
        · rw [hsame, hnone]
      · obtain rfl := List.mem_singleton.mp hnew
        cases feed with
        | none => rfl
        | some feed =>
          obtain ⟨rate, hsome, -⟩ := hcarries
          rw [hnone] at hsome
          cases hsome
    · intro hall
      rw [hunpriced (hall namedFeed (by simp)), hread.priced]
      exact fun feed hfeed => hall feed (by simp [hfeed])

/-- The rate that the first batches carry. -/
def rateAfter (instructed : Option PriceFeedData) (feeds : List (Option UInt32)) : Option PriceFeedData :=
  if feeds.all Option.isNone then none else instructed

theorem instructedPrice_runs {namedFeed : Option UInt32} {payload : Option (List UInt8)} {instructed : Option PriceFeedData}
    (h : CarriesRate namedFeed payload instructed) (feeds : List (Option UInt32)) :
    instructedPrice namedFeed payload (rateAfter instructed feeds) = .ok (rateAfter instructed (feeds ++ [namedFeed])) := by
  cases namedFeed with
  | none =>
    have hpayload : payload = none := h
    rw [hpayload, instructedPrice]
    simp [rateAfter]
  | some feed =>
    obtain ⟨rate, rfl, rfl, rfl⟩ := h
    have hnext : rateAfter (some rate) (feeds ++ [some rate.feedId]) = some rate := by
      rw [rateAfter, if_neg]
      simp
    rw [hnext, instructedPrice, PriceFeedData.fromBytes_eq_some_iff.mpr rfl]
    simp only [ne_eq, not_true_eq_false, if_false]
    rw [if_neg]
    unfold rateAfter
    split_ifs <;> simp

theorem readExternal_runs {external : ExternalRequests} {batch : IssuedBatch} {namedFeed : Option UInt32}
    {instructed : Option PriceFeedData} (hread : ReadFrom libraries external batch namedFeed)
    (hcarries : CarriesRate namedFeed external.additionalPayload instructed) (batches : List IssuedBatch)
    (feeds : List (Option UInt32)) :
    readExternal libraries (batches, rateAfter instructed feeds) external =
      .ok (batches ++ [batch], rateAfter instructed (feeds ++ [namedFeed])) := by
  unfold readExternal
  refine then_ok.mpr ⟨require_ok.mpr hread.hash, Db.except_bind_ok.mpr ⟨_, mapError_ok.mpr hread.encoded, ?_⟩⟩
  refine Db.except_bind_ok.mpr ⟨_, instructedPrice_runs hcarries feeds, Db.except_bind_ok.mpr ⟨_, hread.owner, ?_⟩⟩
  rfl

theorem readExternals_iff {externals : List ExternalRequests} {batches : List IssuedBatch}
    {instructed : Option PriceFeedData} :
    externals.foldlM (readExternal libraries) ([], none) = .ok (batches, instructed) ↔
      ∃ feeds, ReadBatches libraries externals batches feeds instructed := by
  constructor
  · exact readExternals_ok
  rintro ⟨feeds, hread⟩
  have hlength := hread.read.length_eq
  rw [List.length_zip, hread.length, Nat.min_self] at hlength
  obtain ⟨last, hlast, heq⟩ := Loops.foldlM_runs (f := readExternal libraries) (l := externals) (s := ([], none))
    (P := fun done read => read = (batches.take done.length, rateAfter instructed (feeds.take done.length)))
    (by simp [rateAfter]) (fun done external rest read hitems hP => by
      have hi : externals[done.length]? = some external := by simp [hitems]
      have hlt : done.length < batches.length := by
        rw [← hlength, hitems]
        simp
      have hltFeeds : done.length < feeds.length := by rw [hread.length]; exact hlt
      have hexternal := List.getElem_of_getElem? hi
      obtain ⟨hltExternal, hexternal⟩ := hexternal
      have hreads := (List.forall₂_iff_get.mp hread.read).2 done.length hltExternal (by
        rw [List.length_zip, hread.length, Nat.min_self]; exact hlt)
      have hcarries := (List.forall₂_iff_get.mp hread.carried).2 done.length hltExternal hltFeeds
      simp only [List.get_eq_getElem, List.getElem_zip, hexternal] at hreads hcarries
      refine ⟨_, by rw [hP]; exact readExternal_runs hreads hcarries _ _, ?_⟩
      simp)
  rw [hlast, heq, List.take_of_length_le (by omega), List.take_of_length_le (by rw [hread.length]; omega)]
  congr 2
  unfold rateAfter
  split_ifs with hall
  · exact (hread.priced.mpr (by simpa using hall)).symm
  · rfl

end Batches

section Tokens

/-- The assets that a round reissues: the Tick's where a batch asks for one, then the Verifier's. -/
theorem roundTokens_ok {batches : List IssuedBatch} {tokens : List (NetworkAsset Bytes32)} :
    roundTokens tickAsset verifierAsset batches = .ok tokens ↔
      (verifierCount batches < issuedCount batches → tickAsset.isSome) ∧ (0 < verifierCount batches → verifierAsset.isSome) ∧
        tokens = (if verifierCount batches < issuedCount batches then tickAsset.toList else []) ++
          if 0 < verifierCount batches then verifierAsset.toList else [] := by
  unfold roundTokens
  by_cases htick : verifierCount batches < issuedCount batches <;> by_cases hverifier : 0 < verifierCount batches <;>
    cases tickAsset <;> cases verifierAsset <;>
    simp [htick, hverifier, okOr, Except.map, bind, Except.bind, pure, Except.pure, eq_comm]

/-- A token that a transaction spends and returns: the output that first held it, with what it hides, and the
input, the output it spends and the output of the PSET. -/
structure SpentToken where
  asset : NetworkAsset Bytes32
  template : ChainTxOut Bytes32
  secrets : Bytes32 × ℕ
  input : IssuanceInput
  spent : ChainTxOut Bytes32
  output : PsetOutput Bytes32

/-- The input commits to what the template hides, and the output hides the same. -/
structure TokenKept (libraries : IssuanceLibraries) (pset : IssuancePset) (index : ℕ) (token : SpentToken) : Prop where
  template : tokenTxout libraries token.asset = .ok token.template
  secrets : libraries.unblind token.template = some token.secrets
  input : pset.inputs[index]? = some token.input
  spent : token.input.witnessUtxo = some token.spent
  script : token.spent.scriptPubkey = token.template.scriptPubkey
  stated : token.input.asset = some token.secrets.1 ∧ token.input.amount = some token.secrets.2
  asset : ∃ proof commitment, token.input.blindAssetProof = some proof ∧ token.spent.asset = .confidential commitment ∧
    libraries.blindAssetProofVerify proof token.secrets.1 commitment = true
  value : ∃ proof commitment valueCommitment, token.input.blindValueProof = some proof ∧
    token.spent.asset = .confidential commitment ∧ token.spent.value = .confidential valueCommitment ∧
    libraries.blindValueProofVerify proof token.secrets.2 commitment valueCommitment = true
  output : pset.outputs[index]? = some token.output
  returned : libraries.unblind token.output.toTxout = some token.secrets ∧
    token.output.toTxout.scriptPubkey = token.spent.scriptPubkey
  blinded : (∃ commitment, token.output.toTxout.asset = .confidential commitment) ∧
    ∃ commitment, token.output.toTxout.value = .confidential commitment

theorem commitment_ok {α : Type} {field : ChainField α} {commitment : List UInt8} :
    field.commitment = some commitment ↔ field = .confidential commitment := by
  cases field <;> simp [ChainField.commitment]

theorem isConfidential_iff {α : Type} {field : ChainField α} :
    field.isConfidential = true ↔ ∃ commitment, field = .confidential commitment := by
  cases field <;> simp [ChainField.isConfidential]

theorem spent_witnessUtxo {index : ℕ} {txout : ChainTxOut Bytes32} :
    pset.spent.witnessUtxo index = .ok txout ↔
      ∃ input, pset.inputs[index]? = some input ∧ input.witnessUtxo = some txout := by
  rw [Pset.witnessUtxo_ok]
  simp only [IssuancePset.spent, List.getElem?_map, Option.map_eq_some_iff]
  constructor
  · rintro ⟨_, ⟨input, hinput, rfl⟩, hwitness⟩
    exact ⟨input, hinput, hwitness⟩
  · rintro ⟨input, hinput, hwitness⟩
    exact ⟨input.spent, ⟨input, hinput, rfl⟩, hwitness⟩

theorem any_ok {α : Type} {value : Option α} {holds : α → Bool} (h : value.any holds = true) :
    ∃ a, value = some a ∧ holds a = true := by
  cases value with
  | none => simp at h
  | some a => exact ⟨a, rfl, h⟩

theorem validateToken_ok {item : NetworkAsset Bytes32 × ℕ} (h : validateToken libraries pset item = .ok ()) :
    ∃ token : SpentToken, token.asset = item.1 ∧ TokenKept libraries pset (1 + item.2) token := by
  unfold validateToken at h
  obtain ⟨spent, hspent, h⟩ := Db.except_bind_ok.mp h
  obtain ⟨template, htemplate, h⟩ := Db.except_bind_ok.mp h
  obtain ⟨secrets, hsecrets, h⟩ := Db.except_bind_ok.mp h
  obtain ⟨input, hinput, h⟩ := Db.except_bind_ok.mp h
  obtain ⟨assetCommitment, hasset, h⟩ := Db.except_bind_ok.mp h
  obtain ⟨valueCommitment, hvalue, h⟩ := Db.except_bind_ok.mp h
  obtain ⟨hchecked, h⟩ := then_ok.mp h
  obtain ⟨output, houtput, h⟩ := Db.except_bind_ok.mp h
  obtain ⟨returned, hreturned, h⟩ := Db.except_bind_ok.mp h
  obtain ⟨hstatedAsset, hstatedValue, hscript, hassetProof, hvalueProof⟩ := require_ok.mp hchecked
  obtain ⟨rfl, hpreserved, hblindedAsset, hblindedValue⟩ := require_ok.mp h
  simp only [okOr_eq_ok_iff] at hsecrets hinput hasset hvalue houtput hreturned
  obtain ⟨input', hinput', hwitness⟩ := spent_witnessUtxo.mp (mapError_ok.mp hspent)
  obtain rfl : input' = input := Option.some.inj (hinput'.symm.trans hinput)
  obtain ⟨assetProof, hassetSome, hassetProof⟩ := any_ok hassetProof
  obtain ⟨valueProof, hvalueSome, hvalueProof⟩ := any_ok hvalueProof
  have hassetField := commitment_ok.mp hasset
  exact ⟨⟨item.1, template, returned, input', spent, output⟩, rfl, htemplate, hsecrets, hinput, hwitness, hscript,
    ⟨hstatedAsset, hstatedValue⟩, ⟨assetProof, assetCommitment, hassetSome, hassetField, hassetProof⟩,
    ⟨valueProof, assetCommitment, valueCommitment, hvalueSome, hassetField, commitment_ok.mp hvalue, hvalueProof⟩,
    houtput, ⟨hreturned, hpreserved⟩, isConfidential_iff.mp hblindedAsset, isConfidential_iff.mp hblindedValue⟩

theorem TokenKept.validates {index : ℕ} {token : SpentToken} (h : TokenKept libraries pset (1 + index) token) :
    validateToken libraries pset (token.asset, index) = .ok () := by
  obtain ⟨assetProof, commitment, hassetProof, hasset, hassetVerifies⟩ := h.asset
  obtain ⟨valueProof, commitment', valueCommitment, hvalueProof, hasset', hvalue, hvalueVerifies⟩ := h.value
  obtain rfl : commitment = commitment' := ChainField.confidential.inj (hasset.symm.trans hasset')
  unfold validateToken
  refine Db.except_bind_ok.mpr ⟨_, mapError_ok.mpr (spent_witnessUtxo.mpr ⟨_, h.input, h.spent⟩), ?_⟩
  refine Db.except_bind_ok.mpr ⟨_, h.template, Db.except_bind_ok.mpr ⟨_, okOr_eq_ok_iff _ _ _ |>.mpr h.secrets, ?_⟩⟩
  refine Db.except_bind_ok.mpr ⟨_, okOr_eq_ok_iff _ _ _ |>.mpr h.input, ?_⟩
  refine Db.except_bind_ok.mpr ⟨_, okOr_eq_ok_iff _ _ _ |>.mpr (commitment_ok.mpr hasset), ?_⟩
  refine Db.except_bind_ok.mpr ⟨_, okOr_eq_ok_iff _ _ _ |>.mpr (commitment_ok.mpr hvalue), ?_⟩
  refine then_ok.mpr ⟨require_ok.mpr ⟨h.stated.1, h.stated.2, h.script, by rw [hassetProof]; exact hassetVerifies,
    by rw [hvalueProof]; exact hvalueVerifies⟩, ?_⟩
  refine Db.except_bind_ok.mpr ⟨_, okOr_eq_ok_iff _ _ _ |>.mpr h.output, ?_⟩
  refine Db.except_bind_ok.mpr ⟨_, okOr_eq_ok_iff _ _ _ |>.mpr h.returned.1, require_ok.mpr ⟨rfl, h.returned.2,
    isConfidential_iff.mpr h.blinded.1, isConfidential_iff.mpr h.blinded.2⟩⟩

end Tokens

section Fees

/-- What the output holds that an input spends, where it is explicit. -/
def heldValue (input : IssuanceInput) : ℕ :=
  ((input.witnessUtxo.bind fun utxo => utxo.value.getExplicit).getD 0)

/-- An input that spends a fee UTXO of an account. -/
structure Funds (script : List UInt8) (feeUtxo : FeeUtxo (List UInt8)) (input : IssuanceInput) : Prop where
  outpoint : feeOutpoint feeUtxo = .ok input.outpoint
  witness : ∃ utxo value, input.witnessUtxo = some utxo ∧ utxo.scriptPubkey = script ∧ utxo.value = .explicit value

theorem checkFeeInput_ok {script : List UInt8} {funds next : ℕ × ℕ} {feeUtxo : FeeUtxo (List UInt8)} :
    checkFeeInput pset script funds feeUtxo = .ok next ↔
      ∃ input, pset.inputs[funds.1]? = some input ∧ Funds script feeUtxo input ∧
        next = (funds.1 + 1, funds.2 + heldValue input) ∧ funds.2 + heldValue input < 2 ^ 64 := by
  unfold checkFeeInput
  constructor
  · intro h
    obtain ⟨input, hinput, h⟩ := Db.except_bind_ok.mp h
    obtain ⟨expected, hexpected, h⟩ := Db.except_bind_ok.mp h
    obtain ⟨hchecked, h⟩ := then_ok.mp h
    obtain ⟨amount, hamount, h⟩ := Db.except_bind_ok.mp h
    obtain ⟨total, htotal, h⟩ := Db.except_bind_ok.mp h
    cases h
    obtain ⟨rfl, hscript⟩ := require_ok.mp hchecked
    obtain ⟨rfl, hfits⟩ := addAmount_ok.mp htotal
    rw [okOr_eq_ok_iff] at hinput hamount
    have hheld : heldValue input = amount := by rw [heldValue, hamount, Option.getD_some]
    obtain ⟨utxo, hutxo, hvalue⟩ := Option.bind_eq_some_iff.mp hamount
    rw [hutxo, Option.any_some, decide_eq_true_eq] at hscript
    exact ⟨input, hinput, ⟨hexpected, utxo, amount, hutxo, hscript, ChainField.getExplicit_eq_some.mp hvalue⟩,
      by rw [hheld], by rwa [hheld]⟩
  · rintro ⟨input, hinput, ⟨houtpoint, utxo, value, hutxo, hscript, hvalue⟩, rfl, hfits⟩
    have hamount : (input.witnessUtxo.bind fun utxo => utxo.value.getExplicit) = some (heldValue input) := by
      rw [heldValue, hutxo, Option.bind_some, hvalue]
      rfl
    refine Db.except_bind_ok.mpr ⟨input, okOr_eq_ok_iff _ _ _ |>.mpr hinput, Db.except_bind_ok.mpr ⟨_, houtpoint, ?_⟩⟩
    refine then_ok.mpr ⟨require_ok.mpr ⟨rfl, by simp [hutxo, hscript]⟩, ?_⟩
    refine Db.except_bind_ok.mpr ⟨_, okOr_eq_ok_iff _ _ _ |>.mpr hamount, ?_⟩
    exact Db.except_bind_ok.mpr ⟨_, addAmount_ok.mpr ⟨rfl, hfits⟩, rfl⟩

/-- The fee inputs of one batch stand next to each other. -/
theorem checkFeeInputs_ok {script : List UInt8} {index last total : ℕ} {feeUtxos : List (FeeUtxo (List UInt8))}
    (h : feeUtxos.foldlM (checkFeeInput pset script) (index, 0) = .ok (last, total)) :
    ∃ inputs : List IssuanceInput, List.Forall₂ (Funds script) feeUtxos inputs ∧ last = index + inputs.length ∧
      pset.inputs.drop index = inputs ++ pset.inputs.drop last ∧ total = (inputs.map heldValue).sum ∧ total < 2 ^ 64 := by
  refine Loops.foldlM_ok (P := fun done (funds : ℕ × ℕ) => ∃ inputs : List IssuanceInput,
    List.Forall₂ (Funds script) done inputs ∧ funds.1 = index + inputs.length ∧
      pset.inputs.drop index = inputs ++ pset.inputs.drop funds.1 ∧ funds.2 = (inputs.map heldValue).sum ∧
      funds.2 < 2 ^ 64) ?_ ⟨[], .nil, rfl, rfl, rfl, by norm_num⟩ h
  rintro done feeUtxo funds next ⟨inputs, hinputs, hindex, hdrop, htotal, -⟩ hstep
  obtain ⟨input, hinput, hfunds, rfl, hfits⟩ := checkFeeInput_ok.mp hstep
  refine ⟨inputs ++ [input], List.rel_append hinputs (.cons hfunds .nil), ?_, ?_, ?_, hfits⟩
  · simp only [hindex, List.length_append, List.length_singleton, Nat.add_assoc]
  · rw [hdrop, List.append_assoc]
    congr 1
    obtain ⟨hlt, heq⟩ := List.getElem?_eq_some_iff.mp hinput
    rw [List.drop_eq_getElem_cons hlt, heq]
    rfl
  · simp only [htotal, List.map_append, List.sum_append, List.map_singleton, List.sum_singleton]

theorem checkFeeInputs_runs {script : List UInt8} {index : ℕ} {feeUtxos : List (FeeUtxo (List UInt8))}
    {inputs rest : List IssuanceInput} (hinputs : List.Forall₂ (Funds script) feeUtxos inputs)
    (hdrop : pset.inputs.drop index = inputs ++ rest) (hfits : (inputs.map heldValue).sum < 2 ^ 64) :
    feeUtxos.foldlM (checkFeeInput pset script) (index, 0) =
      .ok (index + inputs.length, (inputs.map heldValue).sum) := by
  have hlength := hinputs.length_eq
  obtain ⟨last, hlast, heq⟩ := Loops.foldlM_runs (f := checkFeeInput pset script) (l := feeUtxos) (s := (index, 0))
    (P := fun done funds => funds = (index + done.length, ((inputs.take done.length).map heldValue).sum))
    (by simp) (fun done feeUtxo rest' funds hitems hP => by
      subst hP
      have hi : feeUtxos[done.length]? = some feeUtxo := by simp [hitems]
      obtain ⟨hltUtxo, hfeeUtxo⟩ := List.getElem_of_getElem? hi
      have hlt : done.length < inputs.length := by omega
      have hfunds := (List.forall₂_iff_get.mp hinputs).2 done.length hltUtxo hlt
      simp only [List.get_eq_getElem, hfeeUtxo] at hfunds
      have hnext : ((inputs.take (done.length + 1)).map heldValue).sum =
          ((inputs.take done.length).map heldValue).sum + heldValue inputs[done.length] := by
        rw [← List.take_concat_get' inputs done.length hlt, List.map_append, List.sum_append]
        simp
      have hbound : ((inputs.take (done.length + 1)).map heldValue).sum ≤ (inputs.map heldValue).sum :=
        ((List.take_sublist _ _).map _).sum_le_sum (by simp)
      refine ⟨_, checkFeeInput_ok.mpr ⟨inputs[done.length], ?_, hfunds, rfl, by dsimp only; omega⟩, ?_⟩
      · rw [← List.getElem?_drop, hdrop, List.getElem?_append_left hlt, List.getElem?_eq_getElem hlt]
      · rw [List.length_append, List.length_singleton, hnext, Nat.add_assoc])
  rw [hlast, heq, hlength, List.take_length]

/-- The fee inputs of a batch. -/
structure FundsBatch (programs : IssuancePrograms) (stormEye : NetworkAsset Bytes32) (batch : IssuedBatch)
    (group : List IssuanceInput) : Prop where
  funds : List.Forall₂ (Funds (accountScript programs stormEye.assetId batch.owner)) batch.feeUtxos group
  fits : (group.map heldValue).sum < 2 ^ 64

/-- What the batches have to pay for, with the fee inputs of each. -/
def accountsOf (programs : IssuancePrograms) (stormEye : NetworkAsset Bytes32) (batches : List IssuedBatch)
    (groups : List (List IssuanceInput)) : List AccountRequirement :=
  List.zipWith (fun batch group => ⟨accountScript programs stormEye.assetId batch.owner, batch.request.requests.length,
    (group.map heldValue).sum⟩) batches groups

theorem checkAccounts_ok {batches : List IssuedBatch} : ∀ {index last : ℕ} {accounts : List AccountRequirement},
    checkAccounts programs pset stormEye index batches = .ok (last, accounts) ↔
      ∃ groups : List (List IssuanceInput), List.Forall₂ (FundsBatch programs stormEye) batches groups ∧
        accounts = accountsOf programs stormEye batches groups ∧ last = index + groups.flatten.length ∧
        pset.inputs.drop index = groups.flatten ++ pset.inputs.drop last := by
  induction batches with
  | nil =>
    intro index last accounts
    rw [checkAccounts]
    constructor
    · intro h
      cases h
      exact ⟨[], .nil, rfl, rfl, rfl⟩
    · rintro ⟨groups, hgroups, rfl, rfl, -⟩
      cases hgroups
      rfl
  | cons batch batches ih =>
    intro index last accounts
    rw [checkAccounts]
    constructor
    · intro h
      obtain ⟨⟨next, total⟩, hfees, h⟩ := Db.except_bind_ok.mp h
      obtain ⟨⟨last', rest⟩, hrest, h⟩ := Db.except_bind_ok.mp h
      cases h
      obtain ⟨inputs, hinputs, rfl, hdrop, rfl, hfits⟩ := checkFeeInputs_ok hfees
      obtain ⟨groups, hgroups, rfl, rfl, hdropRest⟩ := ih.mp hrest
      refine ⟨inputs :: groups, .cons ⟨hinputs, hfits⟩ hgroups, rfl, ?_, ?_⟩
      · simp only [List.flatten_cons, List.length_append, Nat.add_assoc]
      · rw [hdrop, hdropRest, List.flatten_cons, List.append_assoc]
    · rintro ⟨groups, hgroups, rfl, rfl, hdrop⟩
      cases hgroups with
      | @cons _ group _ groups hbatch hrest =>
        rw [List.flatten_cons, List.append_assoc] at hdrop
        have hnext : pset.inputs.drop (index + group.length) = groups.flatten ++
            pset.inputs.drop (index + group.length + groups.flatten.length) := by
          rw [← List.drop_drop, hdrop, List.drop_left, List.length_append, Nat.add_assoc]
        refine Db.except_bind_ok.mpr ⟨_, checkFeeInputs_runs hbatch.funds hdrop hbatch.fits, ?_⟩
        refine Db.except_bind_ok.mpr ⟨_, ih.mpr ⟨groups, hrest, rfl, rfl, hnext⟩, ?_⟩
        rw [List.flatten_cons, List.length_append, ← Nat.add_assoc]
        rfl

end Fees

section Vouchers

variable {tokens : List (NetworkAsset Bytes32)} {signer : Bytes32} {now : ℕ}

/-- A voucher that a batch asks for: its owner, the output of its reserve, and the request. -/
structure RequestedVoucher where
  owner : Bytes32
  reserveOutput : ℕ
  request : UserRequest

/-- A voucher that an output issues. -/
structure IssuedVoucher where
  descriptor : IssuedUtxoDescriptor
  asset : NetworkAsset Bytes32
  amount : ℕ
  script : List UInt8

/-- The vouchers that batches ask for, in order; a batch has the reserve at its own position. -/
def requestedVouchers (firstReserveOutput : ℕ) (items : List (IssuedBatch × ℕ)) : List RequestedVoucher :=
  items.flatMap fun item => item.1.request.requests.map fun request => ⟨item.1.owner, firstReserveOutput + item.2, request⟩

def tokenIndex (tokens : List (NetworkAsset Bytes32)) (verifier : Bool) : ℕ := if verifier then tokens.length - 1 else 0

/-- A voucher is what was asked for: a Verifier of one, signed under the branch of the message, or a Tick of about now. -/
structure Answers (libraries : IssuanceLibraries) (programs : IssuancePrograms) (stormEye : NetworkAsset Bytes32)
    (tickAsset verifierAsset : Option (NetworkAsset Bytes32)) (signer : Bytes32) (now : ℕ)
    (requested : RequestedVoucher) (voucher : IssuedVoucher) : Prop where
  auth : ∃ details, libraries.fromStr requested.request.payload = .ok details ∧
    authOf libraries details.utxoAuthMethod = .ok (voucher.descriptor.authKind, voucher.descriptor.authData)
  owner : voucher.descriptor.accountOwnerPubkey = requested.owner
  reserve : voucher.descriptor.reserveOutputIndex.toNat = requested.reserveOutput
  signer : voucher.descriptor.signer = if issuesVerifier requested.request.kind then some signer else none
  asset : (if issuesVerifier requested.request.kind then verifierAsset else tickAsset) = some voucher.asset
  amount : if issuesVerifier requested.request.kind then voucher.amount = 1
    else absDiff voucher.amount now ≤ maxTickTimeSkewSecs
  script : descriptorProgram libraries programs stormEye.assetId voucher.descriptor = .ok voucher.script

/-- The vouchers stand at the outputs behind a position, each at the one that its descriptor names. -/
def StandsAt (pset : IssuancePset) (first : ℕ) (vouchers : List IssuedVoucher) : Prop :=
  ∀ (i : ℕ) (voucher : IssuedVoucher), vouchers[i]? = some voucher → voucher.descriptor.outputIndex.toNat = first + i ∧
    ∃ output, pset.outputs[first + i]? = some output ∧ output.asset = some voucher.asset.assetId ∧
      output.amount = some voucher.amount ∧ output.scriptPubkey = voucher.script

/-- The amounts that so many tokens issue. -/
def issuedTotals (count : ℕ) (amounts : List (ℕ × ℕ)) : List ℕ :=
  (List.range count).map fun i => ((amounts.filter fun item => item.1 = i).map Prod.snd).sum

theorem issuedTotals_concat {count token amount : ℕ} (amounts : List (ℕ × ℕ)) :
    (issuedTotals count amounts).set token ((issuedTotals count amounts).getD token 0 + amount) =
      issuedTotals count (amounts ++ [(token, amount)]) := by
  apply List.ext_getElem
  · simp [issuedTotals]
  · intro i hi _
    have hi : i < count := by simpa [issuedTotals] using hi
    by_cases heq : token = i
    · subst heq
      simp [issuedTotals, List.filter_append, hi]
    · simp [issuedTotals, heq]

/-- The amounts of vouchers, each with the position of its token. -/
def voucherAmounts (tokens : List (NetworkAsset Bytes32)) (vouchers : List IssuedVoucher) : List (ℕ × ℕ) :=
  vouchers.map fun voucher => (tokenIndex tokens voucher.descriptor.signer.isSome, voucher.amount)

theorem issuedToken_ok {verifier : Bool} {amount token : ℕ} {asset : Option (NetworkAsset Bytes32)} :
    issuedToken tickAsset verifierAsset tokens now verifier amount = .ok (token, asset) ↔
      token = tokenIndex tokens verifier ∧ asset = (if verifier then verifierAsset else tickAsset) ∧
        if verifier then amount = 1 else absDiff amount now ≤ maxTickTimeSkewSecs := by
  unfold issuedToken tokenIndex
  cases verifier with
  | true =>
    by_cases hone : amount = 1
    · simp [hone, eq_comm]
    · simp [hone]
  | false =>
    by_cases hlate : maxTickTimeSkewSecs < absDiff amount now
    · simp [hlate, Nat.not_le.mpr hlate]
    · simp [hlate, Nat.not_lt.mp hlate, eq_comm]

theorem fromRequest_ok {outputIndex reserveOutputIndex : UInt32} {owner : Bytes32} {auth : UtxoAuthMethod}
    {signer : Option Bytes32} {descriptor : IssuedUtxoDescriptor} :
    fromRequest libraries outputIndex reserveOutputIndex owner auth signer = .ok descriptor ↔
      authOf libraries auth = .ok (descriptor.authKind, descriptor.authData) ∧ descriptor.outputIndex = outputIndex ∧
        descriptor.reserveOutputIndex = reserveOutputIndex ∧ descriptor.accountOwnerPubkey = owner ∧
        descriptor.signer = signer := by
  unfold fromRequest
  rw [Db.except_bind_ok]
  constructor
  · rintro ⟨⟨authKind, authData⟩, hauth, h⟩
    cases h
    exact ⟨hauth, rfl, rfl, rfl, rfl⟩
  · rintro ⟨hauth, rfl, rfl, rfl, rfl⟩
    exact ⟨_, hauth, rfl⟩

/-- What the loop over the vouchers has read. -/
structure IssuedBy (libraries : IssuanceLibraries) (programs : IssuancePrograms) (pset : IssuancePset)
    (stormEye : NetworkAsset Bytes32) (tickAsset verifierAsset : Option (NetworkAsset Bytes32))
    (tokens : List (NetworkAsset Bytes32)) (signer : Bytes32) (now : ℕ) (requested : List RequestedVoucher)
    (scan : IssuedScan) (vouchers : List IssuedVoucher) : Prop where
  answers : List.Forall₂ (Answers libraries programs stormEye tickAsset verifierAsset signer now) requested vouchers
  descriptors : scan.descriptors = vouchers.map IssuedVoucher.descriptor
  stands : StandsAt pset (1 + tokens.length) vouchers
  amounts : scan.issuedAmounts = issuedTotals tokens.length (voucherAmounts tokens vouchers)
  fits : ∀ amount ∈ scan.issuedAmounts, amount < 2 ^ 64

theorem checkIssued_ok {owner : Bytes32} {reserveOutputIndex : UInt32} {requested : List RequestedVoucher}
    {scan next : IssuedScan} {vouchers : List IssuedVoucher} {issued : UserRequest}
    (hread : IssuedBy libraries programs pset stormEye tickAsset verifierAsset tokens signer now requested scan vouchers)
    (h : checkIssued libraries programs pset stormEye tickAsset verifierAsset tokens signer now owner reserveOutputIndex
      scan issued = .ok next) :
    ∃ voucher, IssuedBy libraries programs pset stormEye tickAsset verifierAsset tokens signer now
      (requested ++ [⟨owner, reserveOutputIndex.toNat, issued⟩]) next (vouchers ++ [voucher]) := by
  unfold checkIssued at h
  obtain ⟨details, hdetails, h⟩ := Db.except_bind_ok.mp h
  obtain ⟨descriptorIndex, hindex, h⟩ := Db.except_bind_ok.mp h
  obtain ⟨descriptor, hdescriptor, h⟩ := Db.except_bind_ok.mp h
  obtain ⟨output, houtput, h⟩ := Db.except_bind_ok.mp h
  obtain ⟨amount, hamount, h⟩ := Db.except_bind_ok.mp h
  obtain ⟨⟨token, asset?⟩, htoken, h⟩ := Db.except_bind_ok.mp h
  obtain ⟨asset, hasset, h⟩ := Db.except_bind_ok.mp h
  obtain ⟨script, hscript, h⟩ := Db.except_bind_ok.mp h
  obtain ⟨hchecked, h⟩ := then_ok.mp h
  obtain ⟨total, htotal, h⟩ := Db.except_bind_ok.mp h
  cases h
  obtain ⟨hauth, houtputIndex, hreserve, howner, hsigner⟩ := fromRequest_ok.mp (mapError_ok.mp hdescriptor)
  obtain ⟨rfl, rfl, hamountKind⟩ := issuedToken_ok.mp htoken
  obtain ⟨houtputAsset, houtputScript⟩ := require_ok.mp hchecked
  obtain ⟨rfl, hfits⟩ := addAmount_ok.mp htotal
  have hindex := toU32_ok.mp hindex
  rw [okOr_eq_ok_iff] at houtput hamount hasset
  have hcount : scan.descriptors.length = vouchers.length := by rw [hread.descriptors, List.length_map]
  have hverifier : descriptor.signer.isSome = issuesVerifier issued.kind := by
    rw [hsigner]
    cases issuesVerifier issued.kind <;> rfl
  refine ⟨⟨descriptor, asset, amount, script⟩, ?_, ?_, ?_, ?_, ?_⟩
  · exact List.rel_append hread.answers (.cons ⟨⟨details, mapError_ok.mp hdetails, hauth⟩, howner, by rw [hreserve], hsigner,
      hasset, hamountKind, mapError_ok.mp hscript⟩ .nil)
  · rw [hread.descriptors, List.map_append, List.map_singleton]
  · intro i voucher hvoucher
    by_cases hold : i < vouchers.length
    · rw [List.getElem?_append_left hold] at hvoucher
      exact hread.stands i voucher hvoucher
    · have hlast : i = vouchers.length := by
        have hbound := (List.getElem?_eq_some_iff.mp hvoucher).1
        rw [List.length_append, List.length_singleton] at hbound
        omega
      subst hlast
      rw [List.getElem?_append_right le_rfl, Nat.sub_self] at hvoucher
      cases hvoucher
      rw [hcount] at hindex houtput
      exact ⟨by rw [houtputIndex, hindex], output, houtput, houtputAsset, hamount, houtputScript⟩
  · dsimp only
    rw [hread.amounts, issuedTotals_concat]
    simp [voucherAmounts, hverifier]
  · intro total htotal
    rcases List.mem_or_eq_of_mem_set htotal with hold | rfl
    · exact hread.fits total hold
    · exact hfits

/-- The loops over the batches and over the requests of each are one loop over the vouchers. -/
theorem checkBatches_ok {firstReserveOutput : ℕ} {items : List (IssuedBatch × ℕ)} {scan : IssuedScan}
    (h : items.foldlM (checkBatch libraries programs pset stormEye tickAsset verifierAsset tokens signer now
      firstReserveOutput) ⟨[], tokens.map fun _ => 0⟩ = .ok scan) :
    ∃ vouchers, IssuedBy libraries programs pset stormEye tickAsset verifierAsset tokens signer now
      (requestedVouchers firstReserveOutput items) scan vouchers := by
  refine Loops.foldlM_ok (P := fun done scan => ∃ vouchers, IssuedBy libraries programs pset stormEye tickAsset
    verifierAsset tokens signer now (requestedVouchers firstReserveOutput done) scan vouchers) ?_ ?_ h
  · rintro done item scan next ⟨vouchers, hread⟩ hstep
    unfold checkBatch at hstep
    obtain ⟨reserveOutputIndex, hreserve, hstep⟩ := Db.except_bind_ok.mp hstep
    have hreserve := toU32_ok.mp hreserve
    have hinner := Loops.foldlM_ok (P := fun requests scan => ∃ vouchers, IssuedBy libraries programs pset stormEye tickAsset
      verifierAsset tokens signer now (requestedVouchers firstReserveOutput done ++
        requests.map fun request => ⟨item.1.owner, firstReserveOutput + item.2, request⟩) scan vouchers)
      (fun requests request scan next hP hnext => by
        obtain ⟨vouchers, hP⟩ := hP
        obtain ⟨voucher, hvoucher⟩ := checkIssued_ok hP hnext
        rw [hreserve, List.append_assoc] at hvoucher
        exact ⟨_, by rwa [List.map_append]⟩) ⟨vouchers, by rwa [List.map_nil, List.append_nil]⟩ hstep
    rwa [requestedVouchers, List.flatMap_append, List.flatMap_singleton]
  · refine ⟨[], .nil, rfl, fun i voucher hvoucher => by simp at hvoucher, ?_, by simp⟩
    simp [issuedTotals, voucherAmounts, List.map_const']

theorem issuedTotals_le {count i : ℕ} {amounts rest : List (ℕ × ℕ)} :
    (issuedTotals count amounts).getD i 0 ≤ (issuedTotals count (amounts ++ rest)).getD i 0 := by
  unfold issuedTotals
  by_cases hi : i < count
  · simp [List.getD_eq_getElem?_getD, hi, List.filter_append]
  · simp [List.getD_eq_getElem?_getD, hi]

/-- What the loop has when it has read the first vouchers. -/
def scanOf (tokens : List (NetworkAsset Bytes32)) (vouchers : List IssuedVoucher) : IssuedScan :=
  ⟨vouchers.map IssuedVoucher.descriptor, issuedTotals tokens.length (voucherAmounts tokens vouchers)⟩

theorem checkIssued_runs {requested : RequestedVoucher} {reserveOutputIndex : UInt32} {vouchers rest : List IssuedVoucher}
    {voucher : IssuedVoucher} (htokens : tokens ≠ []) (hreserve : reserveOutputIndex.toNat = requested.reserveOutput)
    (hanswer : Answers libraries programs stormEye tickAsset verifierAsset signer now requested voucher)
    (hstands : StandsAt pset (1 + tokens.length) (vouchers ++ voucher :: rest))
    (hfits : ∀ amount ∈ issuedTotals tokens.length (voucherAmounts tokens (vouchers ++ voucher :: rest)), amount < 2 ^ 64) :
    checkIssued libraries programs pset stormEye tickAsset verifierAsset tokens signer now requested.owner reserveOutputIndex
      (scanOf tokens vouchers) requested.request = .ok (scanOf tokens (vouchers ++ [voucher])) := by
  obtain ⟨details, hdetails, hauth⟩ := hanswer.auth
  obtain ⟨hindex, output, houtput, hasset, hamount, hscript⟩ := hstands vouchers.length voucher (by simp)
  have hverifier : voucher.descriptor.signer.isSome = issuesVerifier requested.request.kind := by
    rw [hanswer.signer]
    cases issuesVerifier requested.request.kind <;> rfl
  have hconcat : issuedTotals tokens.length (voucherAmounts tokens (vouchers ++ [voucher])) =
      (scanOf tokens vouchers).issuedAmounts.set (tokenIndex tokens (issuesVerifier requested.request.kind))
        ((scanOf tokens vouchers).issuedAmounts.getD (tokenIndex tokens (issuesVerifier requested.request.kind)) 0 +
          voucher.amount) := by
    rw [scanOf, issuedTotals_concat, voucherAmounts, List.map_append, List.map_singleton, hverifier]
    rfl
  have hreserveIndex : voucher.descriptor.reserveOutputIndex = reserveOutputIndex := by
    rw [← UInt32.toNat_inj, hanswer.reserve, hreserve]
  unfold checkIssued
  refine Db.except_bind_ok.mpr ⟨details, mapError_ok.mpr hdetails, ?_⟩
  refine Db.except_bind_ok.mpr ⟨voucher.descriptor.outputIndex, toU32_ok.mpr (by simp [hindex, scanOf]), ?_⟩
  refine Db.except_bind_ok.mpr ⟨voucher.descriptor, mapError_ok.mpr (fromRequest_ok.mpr
    ⟨hauth, rfl, hreserveIndex, hanswer.owner, hanswer.signer⟩), ?_⟩
  refine Db.except_bind_ok.mpr ⟨output, okOr_eq_ok_iff _ _ _ |>.mpr (by simpa [scanOf] using houtput), ?_⟩
  refine Db.except_bind_ok.mpr ⟨voucher.amount, okOr_eq_ok_iff _ _ _ |>.mpr hamount, ?_⟩
  refine Db.except_bind_ok.mpr ⟨(_, _), issuedToken_ok.mpr ⟨rfl, rfl, hanswer.amount⟩, ?_⟩
  refine Db.except_bind_ok.mpr ⟨voucher.asset, okOr_eq_ok_iff _ _ _ |>.mpr hanswer.asset, ?_⟩
  refine Db.except_bind_ok.mpr ⟨voucher.script, mapError_ok.mpr hanswer.script, ?_⟩
  refine then_ok.mpr ⟨require_ok.mpr ⟨hasset, hscript⟩, Db.except_bind_ok.mpr ⟨_, addAmount_ok.mpr ⟨rfl, ?_⟩, ?_⟩⟩
  · -- The sum so far is at most that of all vouchers.
    have hi : tokenIndex tokens (issuesVerifier requested.request.kind) < tokens.length := by
      have hpos := List.length_pos_iff.mpr htokens
      unfold tokenIndex
      split_ifs <;> omega
    have hle := @issuedTotals_le tokens.length (tokenIndex tokens (issuesVerifier requested.request.kind))
      (voucherAmounts tokens (vouchers ++ [voucher])) (voucherAmounts tokens rest)
    have hall : voucherAmounts tokens (vouchers ++ [voucher]) ++ voucherAmounts tokens rest =
        voucherAmounts tokens (vouchers ++ voucher :: rest) := by simp [voucherAmounts]
    rw [hall, hconcat, List.getD_eq_getElem?_getD, List.getElem?_set_self (by simpa [scanOf, issuedTotals] using hi),
      Option.getD_some] at hle
    refine lt_of_le_of_lt hle (hfits _ ?_)
    rw [List.getD_eq_getElem?_getD, List.getElem?_eq_getElem (by simpa [issuedTotals] using hi), Option.getD_some]
    exact List.getElem_mem _
  · rw [← hconcat, scanOf, scanOf, List.map_append]
    rfl

theorem checkRequests_runs {owner : Bytes32} {reserveOutputIndex : UInt32} {requests : List UserRequest}
    (htokens : tokens ≠ []) : ∀ {done vouchers after : List IssuedVoucher},
    List.Forall₂ (Answers libraries programs stormEye tickAsset verifierAsset signer now)
      (requests.map fun request => ⟨owner, reserveOutputIndex.toNat, request⟩) vouchers →
    StandsAt pset (1 + tokens.length) (done ++ (vouchers ++ after)) →
    (∀ amount ∈ issuedTotals tokens.length (voucherAmounts tokens (done ++ (vouchers ++ after))), amount < 2 ^ 64) →
    requests.foldlM (checkIssued libraries programs pset stormEye tickAsset verifierAsset tokens signer now owner
      reserveOutputIndex) (scanOf tokens done) = .ok (scanOf tokens (done ++ vouchers)) := by
  induction requests with
  | nil =>
    intro done vouchers after hanswers _ _
    cases hanswers
    rw [List.append_nil]
    rfl
  | cons request requests ih =>
    intro done vouchers after hanswers hstands hfits
    cases hanswers with
    | @cons _ voucher _ vouchers hanswer hrest =>
      have hstep := checkIssued_runs htokens rfl hanswer hstands hfits
      rw [List.foldlM_cons]
      refine Db.except_bind_ok.mpr ⟨_, hstep, ?_⟩
      have hsame : done ++ (voucher :: vouchers ++ after) = done ++ [voucher] ++ (vouchers ++ after) := by simp
      rw [hsame] at hstands hfits
      rw [ih hrest hstands hfits, List.append_assoc]
      rfl

theorem checkBatches_runs_from {firstReserveOutput : ℕ} {items : List (IssuedBatch × ℕ)} (htokens : tokens ≠ []) :
    ∀ {done vouchers : List IssuedVoucher}, (∀ item ∈ items, firstReserveOutput + item.2 < 2 ^ 32) →
    List.Forall₂ (Answers libraries programs stormEye tickAsset verifierAsset signer now)
      (requestedVouchers firstReserveOutput items) vouchers →
    StandsAt pset (1 + tokens.length) (done ++ vouchers) →
    (∀ amount ∈ issuedTotals tokens.length (voucherAmounts tokens (done ++ vouchers)), amount < 2 ^ 64) →
    items.foldlM (checkBatch libraries programs pset stormEye tickAsset verifierAsset tokens signer now
      firstReserveOutput) (scanOf tokens done) = .ok (scanOf tokens (done ++ vouchers)) := by
  induction items with
  | nil =>
    intro done vouchers _ hanswers _ _
    cases hanswers
    rw [List.append_nil]
    rfl
  | cons item items ih =>
    intro done vouchers hindexes hanswers hstands hfits
    rw [requestedVouchers, List.flatMap_cons] at hanswers
    obtain ⟨first, second, rfl, hfirst, hsecond⟩ := Loops.forall₂_split hanswers
    have hreserve : (UInt32.ofNat (firstReserveOutput + item.2)).toNat = firstReserveOutput + item.2 :=
      UInt32.toNat_ofNat_of_lt' (hindexes item List.mem_cons_self)
    rw [List.foldlM_cons]
    refine Db.except_bind_ok.mpr ⟨scanOf tokens (done ++ first), ?_, ?_⟩
    · unfold checkBatch
      refine Db.except_bind_ok.mpr ⟨UInt32.ofNat (firstReserveOutput + item.2), toU32_ok.mpr hreserve, ?_⟩
      rw [← hreserve] at hfirst
      exact checkRequests_runs htokens hfirst hstands hfits
    · rw [← List.append_assoc] at hstands hfits ⊢
      exact ih (fun other hother => hindexes other (List.mem_cons_of_mem _ hother)) hsecond hstands hfits

theorem scanOf_nil (tokens : List (NetworkAsset Bytes32)) : scanOf tokens [] = ⟨[], tokens.map fun _ => 0⟩ := by
  simp [scanOf, issuedTotals, voucherAmounts, List.map_const']

/-- The loop over the vouchers runs through where they answer what is asked for. -/
theorem checkBatches_runs {firstReserveOutput : ℕ} {items : List (IssuedBatch × ℕ)} {vouchers : List IssuedVoucher}
    (htokens : tokens ≠ []) (hindexes : ∀ item ∈ items, firstReserveOutput + item.2 < 2 ^ 32)
    (hanswers : List.Forall₂ (Answers libraries programs stormEye tickAsset verifierAsset signer now)
      (requestedVouchers firstReserveOutput items) vouchers) (hstands : StandsAt pset (1 + tokens.length) vouchers)
    (hfits : ∀ amount ∈ issuedTotals tokens.length (voucherAmounts tokens vouchers), amount < 2 ^ 64) :
    items.foldlM (checkBatch libraries programs pset stormEye tickAsset verifierAsset tokens signer now
      firstReserveOutput) ⟨[], tokens.map fun _ => 0⟩ = .ok (scanOf tokens vouchers) := by
  rw [← List.nil_append vouchers] at hstands hfits
  rw [← scanOf_nil, ← List.nil_append vouchers]
  exact checkBatches_runs_from htokens hindexes hanswers hstands hfits

end Vouchers

end IssuanceRound

end PriceOracle
