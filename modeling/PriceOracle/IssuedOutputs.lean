import PriceOracle.Indexer
import PriceOracle.IssuanceBuilder

/-!
# Vouchers in a block

`issued_utxos` of `indexer/mod.rs`: which transactions of a block are issuances of the network, and which of
their outputs are vouchers that are monitored, as the descriptors of the transaction say. The node's
transactions, covenants and unblinding are parameters.
-/

namespace PriceOracle

/-- What the loop over the descriptors has read. -/
structure IndexedScan where
  describedOutputs : List UInt32
  issuedAmounts : List ℕ
  issued : List (MonitoredUtxo Bytes32)

namespace IssuedOutputs

open Issuance (okOr okOr_eq_ok_iff)
open IssuanceRound (descriptorProgram accountScript issuedTotals issuedTotals_concat issuedTotals_le)

section Descriptors

def authMethodName (descriptor : IssuedUtxoDescriptor) : String :=
  if descriptor.authKind = 0 then "asset-id-auth"
  else if descriptor.authKind = 1 then "scriptPubKey-auth"
  else "signature-auth"

def describedKind (descriptor : IssuedUtxoDescriptor) : String :=
  if descriptor.isVerifier then Indexer.oracleVerifierKind else Indexer.tickAssetKind

/-- The position of a descriptor's asset. -/
def tokenOf (tokens : List (NetworkAsset Bytes32)) (descriptor : IssuedUtxoDescriptor) : Except IndexerError ℕ :=
  let kind := describedKind descriptor
  okOr (.invalid s!"issuance describes {kind} it does not reissue") (tokens.findIdx? fun asset => asset.kind = kind)

variable (libraries : IssuanceLibraries) (programs : IssuancePrograms) (stormEye : NetworkAsset Bytes32)

def matchesScript (descriptor : IssuedUtxoDescriptor) (script : List UInt8) : Bool :=
  match descriptorProgram libraries programs stormEye.assetId descriptor with
  | .ok program => program = script
  | .error _ => false

end Descriptors

section Outputs

variable (libraries : IssuanceLibraries) (programs : IssuancePrograms) (transaction : Transaction) (height : ℕ)
  (stormEye : NetworkAsset Bytes32) (tokens : List (NetworkAsset Bytes32))

/-- One output in the search for the descriptors. -/
def findDescriptors (descriptors : Option (List IssuedUtxoDescriptor)) (output : ChainTxOut Bytes32) :
    Except IndexerError (Option (List IssuedUtxoDescriptor)) := do
  let found ← (Markers.descriptorsFromScript output.scriptPubkey).mapError IndexerError.invalid
  if found.isNone then return descriptors
  else do
    require (descriptors = none) (.invalid "issuance has multiple descriptor outputs")
    require (output.asset.getExplicit = some programs.policyAsset ∧ output.value.getExplicit = some 0)
      (.invalid "issued UTXO descriptor output must have zero policy-asset value")
    return found

/-- As many descriptors name an asset as outputs hold it. -/
def checkDescribed (descriptors : List IssuedUtxoDescriptor) (item : NetworkAsset Bytes32 × ℕ) : Except IndexerError Unit :=
  let name := item.1.name
  let outputCount := (transaction.output.filter fun output => output.asset.getExplicit = some item.1.assetId).length
  let described := (descriptors.filter fun descriptor => (tokenOf tokens descriptor).toOption = some item.2).length
  require (described = outputCount) (.invalid s!"issuance descriptors do not match {name} outputs")

/-- The row of an issued output. -/
def indexedRow (asset : NetworkAsset Bytes32) (descriptor : IssuedUtxoDescriptor) (amount : ℕ) (script : List UInt8) :
    MonitoredUtxo Bytes32 where
  txid := transaction.txid
  outputIndex := descriptor.outputIndex.toNat
  assetKind := asset.kind
  amount := amount
  scriptPubkey := script
  authMethod := authMethodName descriptor
  authData := descriptor.authData.toList
  accountOwnerPubkey := descriptor.accountOwnerPubkey
  internalKey := descriptor.signer
  burningFeeTxid := transaction.txid
  burningFeeOutputIndex := descriptor.reserveOutputIndex.toNat
  blockHeight := height
  status := .active
  statusBlockHeight := height
  burnTxid := none

def indexDescriptor (scan : IndexedScan) (descriptor : IssuedUtxoDescriptor) : Except IndexerError IndexedScan := do
  require (descriptor.outputIndex ∉ scan.describedOutputs) (.invalid "issued output has duplicate descriptors")
  let token ← tokenOf tokens descriptor
  let asset ← okOr (.invalid "issued asset is missing") tokens[token]?
  let output ← okOr (.invalid "indexed issued output is missing") transaction.output[descriptor.outputIndex.toNat]?
  let amount ← okOr (.invalid "indexed issued output is confidential") output.value.getExplicit
  let total := scan.issuedAmounts.getD token 0 + amount
  require (total < 2 ^ 64) (.invalid "indexed issued amount overflow")
  let name := asset.name
  require (output.asset.getExplicit = some asset.assetId ∧ (descriptor.isVerifier = true → amount = 1) ∧
    matchesScript libraries programs stormEye descriptor output.scriptPubkey = true)
    (.invalid s!"indexed {name} output does not match its descriptor")
  let reserve ← okOr (.invalid "indexed burn reserve is missing") transaction.output[descriptor.reserveOutputIndex.toNat]?
  require (reserve.asset.getExplicit = some programs.policyAsset ∧ (∃ value ∈ reserve.value.getExplicit, value ≠ 0) ∧
    reserve.scriptPubkey = accountScript programs stormEye.assetId descriptor.accountOwnerPubkey)
    (.invalid "indexed burn reserve does not match its descriptor")
  return ⟨scan.describedOutputs ++ [descriptor.outputIndex], scan.issuedAmounts.set token total,
    scan.issued ++ [indexedRow transaction height asset descriptor amount output.scriptPubkey]⟩

/-- An asset is reissued by as much as its outputs hold. -/
def checkReissued (item : (NetworkAsset Bytes32 × ℕ) × ℕ) : Except IndexerError Unit :=
  let name := item.1.1.name
  require (transaction.input[1 + item.2]?.bind (fun input => input.assetIssuance.amount.getExplicit) = some item.1.2)
    (.invalid s!"{name} reissuance amount does not match described outputs")

/-- `tokens` are the reissued assets, in input order. -/
def indexedIssuedOutputs : Except IndexerError (List (MonitoredUtxo Bytes32)) := do
  let found ← transaction.output.foldlM (findDescriptors programs) none
  let descriptors ← okOr (.invalid "issuance descriptor output is missing") found
  tokens.zipIdx.forM (checkDescribed transaction tokens descriptors)
  let scan ← descriptors.foldlM (indexDescriptor libraries programs transaction height stormEye tokens)
    ⟨[], tokens.map fun _ => 0, []⟩
  (tokens.zip scan.issuedAmounts).zipIdx.forM (checkReissued transaction)
  return scan.issued

end Outputs

section Tokens

variable (libraries : IssuanceLibraries) (getRawTransaction : Bytes32 → Except IndexerError Transaction)
  (transaction : Transaction) (stormEye : NetworkAsset Bytes32) (issuedAssets : List (NetworkAsset Bytes32))

def previousOutput (outpoint : Bytes32 × ℕ) : Except IndexerError (ChainTxOut Bytes32) := do
  let transaction ← getRawTransaction outpoint.1
  okOr (.invalid "previous transaction output is missing") transaction.output[outpoint.2]?

/-- The assets that inputs reissue, up to the first without issuance; `none` where one is no reissuance of the network. -/
def reissuedTokens (tokens : List (NetworkAsset Bytes32)) : List ChainTxIn → Option (List (NetworkAsset Bytes32))
  | [] => some tokens
  | input :: inputs =>
    if input.assetIssuance.isNull then some tokens
    else if input.assetIssuance.assetBlindingNonce = zeroTweak then none
    else
      match issuedAssets.find? fun asset => asset.entropy = some input.assetIssuance.assetEntropy with
      | none => none
      | some asset =>
        if tokens.any fun token => token.kind = asset.kind then none
        else if input.assetIssuance.inflationKeys.isNull = false then none
        else reissuedTokens (tokens ++ [asset]) inputs

/-- What the token of an asset hides at an input; `none` where it is not that token at its contract. -/
def tokenInputSecrets (asset : NetworkAsset Bytes32) (tokenInput : ChainTxOut Bytes32) :
    Except IndexerError (Option (Bytes32 × ℕ)) :=
  let name := asset.name
  match libraries.unblind tokenInput with
  | none => .ok none
  | some secrets => do
    let tokenId ← okOr (.invalid s!"{name} token id is missing") asset.reissuanceTokenId
    return if secrets.1 ≠ tokenId ∨ tokenInput.scriptPubkey ≠ asset.contractScript then none else some secrets

/-- The token at `index` is returned unchanged. -/
def preservesToken (item : NetworkAsset Bytes32 × ℕ) : Except IndexerError Bool := do
  let index := 1 + item.2
  let input ← okOr (.invalid "token input is missing") transaction.input[index]?
  let tokenInput ← previousOutput getRawTransaction input.previousOutput
  let secrets ← tokenInputSecrets libraries item.1 tokenInput
  return (secrets.bind fun secrets => transaction.output[index]?.bind fun tokenOutput =>
    (libraries.unblind tokenOutput).map fun returned =>
      decide (returned = secrets ∧ tokenOutput.scriptPubkey = tokenInput.scriptPubkey)).getD false

/-- The Storm Eye is spent at the first input and is the first output. -/
def preservesStormEye : Except IndexerError Bool := do
  let input ← okOr (.invalid "Storm Eye input is missing") transaction.input[0]?
  let stormEyeInput ← previousOutput getRawTransaction input.previousOutput
  return decide (stormEyeInput.asset.getExplicit = some stormEye.assetId ∧
    stormEyeInput.scriptPubkey = stormEye.contractScript ∧ transaction.output[0]? = some stormEyeInput)

/-- The assets an issuance reissues, in input order; `none` if not an issuance. -/
def issuanceTokens : Except IndexerError (Option (List (NetworkAsset Bytes32))) :=
  if transaction.input.length < 2 ∨ transaction.output.length < 2 then .ok none
  else if transaction.input.any ChainTxIn.isPegin then .ok none
  else
    match reissuedTokens issuedAssets [] (transaction.input.drop 1) with
    | none => .ok none
    | some tokens =>
      if tokens = [] then .ok none
      else do
        let kept ← preservesStormEye getRawTransaction transaction stormEye
        if kept = false then return none
        else do
          let preserved ← tokens.zipIdx.allM (preservesToken libraries getRawTransaction transaction)
          return if preserved then some tokens else none

end Tokens

section Blocks

variable (libraries : IssuanceLibraries) (programs : IssuancePrograms)
  (getRawTransaction : Bytes32 → Except IndexerError Transaction)

def issuedByTransaction (height : ℕ) (stormEye : NetworkAsset Bytes32) (issuedAssets : List (NetworkAsset Bytes32))
    (transaction : Transaction) : Except IndexerError (List (MonitoredUtxo Bytes32)) := do
  match ← issuanceTokens libraries getRawTransaction transaction stormEye issuedAssets with
  | none => return []
  | some tokens => indexedIssuedOutputs libraries programs transaction height stormEye tokens

def issuedUtxos (transactions : List Transaction) (height : ℕ) (stormEye : NetworkAsset Bytes32)
    (issuedAssets : List (NetworkAsset Bytes32)) : Except IndexerError (List (MonitoredUtxo Bytes32)) := do
  let issued ← transactions.mapM (issuedByTransaction libraries programs getRawTransaction height stormEye issuedAssets)
  return issued.flatten

end Blocks

variable {libraries : IssuanceLibraries} {programs : IssuancePrograms} {transaction : Transaction} {height : ℕ}
  {stormEye : NetworkAsset Bytes32} {tokens : List (NetworkAsset Bytes32)}

section Rows

/-- An output that a descriptor names, with its asset and the position of the asset. -/
structure DescribedOutput where
  descriptor : IssuedUtxoDescriptor
  token : ℕ
  asset : NetworkAsset Bytes32
  output : ChainTxOut Bytes32
  amount : ℕ

/-- The output is the voucher that its descriptor says, with a reserve of its owner. -/
structure DescribedOutput.Stands (libraries : IssuanceLibraries) (programs : IssuancePrograms) (transaction : Transaction)
    (stormEye : NetworkAsset Bytes32) (tokens : List (NetworkAsset Bytes32)) (item : DescribedOutput) : Prop where
  token : tokenOf tokens item.descriptor = .ok item.token
  asset : tokens[item.token]? = some item.asset
  output : transaction.output[item.descriptor.outputIndex.toNat]? = some item.output
  held : item.output.asset = .explicit item.asset.assetId ∧ item.output.value = .explicit item.amount
  single : item.descriptor.isVerifier = true → item.amount = 1
  covenant : descriptorProgram libraries programs stormEye.assetId item.descriptor = .ok item.output.scriptPubkey
  reserve : ∃ reserve value, transaction.output[item.descriptor.reserveOutputIndex.toNat]? = some reserve ∧
    reserve.asset = .explicit programs.policyAsset ∧ reserve.value = .explicit value ∧ 0 < value ∧
      reserve.scriptPubkey = accountScript programs stormEye.assetId item.descriptor.accountOwnerPubkey

def DescribedOutput.row (transaction : Transaction) (height : ℕ) (item : DescribedOutput) : MonitoredUtxo Bytes32 :=
  indexedRow transaction height item.asset item.descriptor item.amount item.output.scriptPubkey

/-- The amounts of described outputs, each with the position of its asset. -/
def describedAmounts (items : List DescribedOutput) : List (ℕ × ℕ) := items.map fun item => (item.token, item.amount)

/-- What the loop has when it has read the first outputs. -/
def scanOf (transaction : Transaction) (height : ℕ) (tokens : List (NetworkAsset Bytes32)) (items : List DescribedOutput) :
    IndexedScan :=
  ⟨items.map fun item => item.descriptor.outputIndex, issuedTotals tokens.length (describedAmounts items),
    items.map (DescribedOutput.row transaction height)⟩

theorem matchesScript_iff {descriptor : IssuedUtxoDescriptor} {script : List UInt8} :
    matchesScript libraries programs stormEye descriptor script = true ↔
      descriptorProgram libraries programs stormEye.assetId descriptor = .ok script := by
  unfold matchesScript
  cases descriptorProgram libraries programs stormEye.assetId descriptor <;> simp

theorem indexDescriptor_ok {items : List DescribedOutput} {descriptor : IssuedUtxoDescriptor} {next : IndexedScan} :
    indexDescriptor libraries programs transaction height stormEye tokens (scanOf transaction height tokens items) descriptor =
        .ok next ↔
      ∃ item : DescribedOutput, item.descriptor = descriptor ∧ item.Stands libraries programs transaction stormEye tokens ∧
        descriptor.outputIndex ∉ items.map (fun item => item.descriptor.outputIndex) ∧
        (issuedTotals tokens.length (describedAmounts items)).getD item.token 0 + item.amount < 2 ^ 64 ∧
        next = scanOf transaction height tokens (items ++ [item]) := by
  have hnext (item : DescribedOutput) : scanOf transaction height tokens (items ++ [item]) =
      ⟨(scanOf transaction height tokens items).describedOutputs ++ [item.descriptor.outputIndex],
        (scanOf transaction height tokens items).issuedAmounts.set item.token
          ((scanOf transaction height tokens items).issuedAmounts.getD item.token 0 + item.amount),
        (scanOf transaction height tokens items).issued ++ [item.row transaction height]⟩ := by
    simp only [scanOf, issuedTotals_concat, describedAmounts, List.map_append, List.map_cons, List.map_nil]
  unfold indexDescriptor
  constructor
  · intro h
    obtain ⟨hfresh, h⟩ := then_ok.mp h
    obtain ⟨token, htoken, h⟩ := Db.except_bind_ok.mp h
    obtain ⟨asset, hasset, h⟩ := Db.except_bind_ok.mp h
    obtain ⟨output, houtput, h⟩ := Db.except_bind_ok.mp h
    obtain ⟨amount, hamount, h⟩ := Db.except_bind_ok.mp h
    obtain ⟨hfits, h⟩ := then_ok.mp h
    obtain ⟨hmatches, h⟩ := then_ok.mp h
    obtain ⟨reserve, hreserve, h⟩ := Db.except_bind_ok.mp h
    obtain ⟨hreserved, h⟩ := then_ok.mp h
    rw [okOr_eq_ok_iff] at hasset houtput hamount hreserve
    obtain ⟨hheld, hsingle, hscript⟩ := require_ok.mp hmatches
    obtain ⟨hpolicy, ⟨value, hvalue, hpositive⟩, haccount⟩ := require_ok.mp hreserved
    refine ⟨⟨descriptor, token, asset, output, amount⟩, rfl, ⟨htoken, hasset, houtput,
      ⟨ChainField.getExplicit_eq_some.mp hheld, ChainField.getExplicit_eq_some.mp hamount⟩, hsingle, matchesScript_iff.mp hscript,
      reserve, value, hreserve, ChainField.getExplicit_eq_some.mp hpolicy,
      ChainField.getExplicit_eq_some.mp (Option.mem_def.mp hvalue), Nat.pos_of_ne_zero hpositive, haccount⟩,
      require_ok.mp hfresh, require_ok.mp hfits, ?_⟩
    rw [hnext]
    exact (Except.ok.inj h).symm
  · rintro ⟨item, rfl, hstands, hfresh, hfits, rfl⟩
    obtain ⟨reserve, value, hreserve, hpolicy, hvalue, hpositive, haccount⟩ := hstands.reserve
    refine then_ok.mpr ⟨require_ok.mpr hfresh, Db.except_bind_ok.mpr ⟨item.token, hstands.token, ?_⟩⟩
    refine Db.except_bind_ok.mpr ⟨item.asset, okOr_eq_ok_iff _ _ _ |>.mpr hstands.asset, ?_⟩
    refine Db.except_bind_ok.mpr ⟨item.output, okOr_eq_ok_iff _ _ _ |>.mpr hstands.output, ?_⟩
    refine Db.except_bind_ok.mpr ⟨item.amount,
      okOr_eq_ok_iff _ _ _ |>.mpr (ChainField.getExplicit_eq_some.mpr hstands.held.2), ?_⟩
    refine then_ok.mpr ⟨require_ok.mpr hfits, then_ok.mpr ⟨require_ok.mpr ⟨ChainField.getExplicit_eq_some.mpr hstands.held.1,
      hstands.single, matchesScript_iff.mpr hstands.covenant⟩, ?_⟩⟩
    refine Db.except_bind_ok.mpr ⟨reserve, okOr_eq_ok_iff _ _ _ |>.mpr hreserve, ?_⟩
    refine then_ok.mpr ⟨require_ok.mpr ⟨ChainField.getExplicit_eq_some.mpr hpolicy,
      ⟨value, ChainField.getExplicit_eq_some.mpr hvalue, Nat.ne_of_gt hpositive⟩, haccount⟩, ?_⟩
    rw [hnext]
    rfl

/-- The loop over the descriptors reads an output for each. -/
theorem indexDescriptors_ok {descriptors : List IssuedUtxoDescriptor} {scan : IndexedScan} :
    descriptors.foldlM (indexDescriptor libraries programs transaction height stormEye tokens) ⟨[], tokens.map fun _ => 0, []⟩ =
        .ok scan ↔
      ∃ items : List DescribedOutput, items.map DescribedOutput.descriptor = descriptors ∧
        (∀ item ∈ items, item.Stands libraries programs transaction stormEye tokens) ∧
        (items.map fun item => item.descriptor.outputIndex).Nodup ∧
        (∀ amount ∈ issuedTotals tokens.length (describedAmounts items), amount < 2 ^ 64) ∧
        scan = scanOf transaction height tokens items := by
  have hstart : (⟨[], tokens.map fun _ => 0, []⟩ : IndexedScan) = scanOf transaction height tokens [] := by
    simp [scanOf, issuedTotals, describedAmounts, List.map_const']
  rw [hstart]
  constructor
  · intro h
    refine Loops.foldlM_ok (P := fun done scan => ∃ items : List DescribedOutput, items.map DescribedOutput.descriptor = done ∧
      (∀ item ∈ items, item.Stands libraries programs transaction stormEye tokens) ∧
      (items.map fun item => item.descriptor.outputIndex).Nodup ∧
      (∀ amount ∈ issuedTotals tokens.length (describedAmounts items), amount < 2 ^ 64) ∧
      scan = scanOf transaction height tokens items) ?_ ?_ h
    · rintro done descriptor scan next ⟨items, rfl, hstands, hnodup, hfits, rfl⟩ hstep
      obtain ⟨item, rfl, hitem, hfresh, hfit, rfl⟩ := indexDescriptor_ok.mp hstep
      refine ⟨items ++ [item], by simp, ?_, ?_, ?_, rfl⟩
      · simpa [or_imp, forall_and] using ⟨hstands, hitem⟩
      · rw [List.map_append, List.nodup_append]
        refine ⟨hnodup, by simp, ?_⟩
        intro index hindex other hother heq
        rw [List.map_singleton, List.mem_singleton] at hother
        exact hfresh (hother ▸ heq ▸ hindex)
      · intro amount hamount
        have hconcat := @issuedTotals_concat tokens.length item.token item.amount (describedAmounts items)
        have hsame : describedAmounts (items ++ [item]) = describedAmounts items ++ [(item.token, item.amount)] := by
          simp [describedAmounts]
        rw [hsame, ← hconcat] at hamount
        rcases List.mem_or_eq_of_mem_set hamount with hold | rfl
        · exact hfits amount hold
        · exact hfit
    · exact ⟨[], rfl, by simp, by simp, by simp [issuedTotals, describedAmounts], rfl⟩
  · rintro ⟨items, rfl, hstands, hnodup, hfits, rfl⟩
    obtain ⟨last, hlast, heq⟩ := Loops.foldlM_runs
      (f := indexDescriptor libraries programs transaction height stormEye tokens)
      (l := items.map DescribedOutput.descriptor) (s := scanOf transaction height tokens [])
      (P := fun done scan => scan = scanOf transaction height tokens (items.take done.length)) rfl
      (fun done descriptor rest scan hitems hP => by
        have hlt : done.length < items.length := by
          have hlength := congrArg List.length hitems
          simp only [List.length_map, List.length_append, List.length_cons] at hlength
          omega
        have hget : items[done.length].descriptor = descriptor := by
          have hat : (items.map DescribedOutput.descriptor)[done.length]? = some descriptor := by rw [hitems]; simp
          simpa [List.getElem?_map, List.getElem?_eq_getElem hlt] using hat
        have hsplit : items = items.take done.length ++ items[done.length] :: items.drop (done.length + 1) := by
          rw [← List.drop_eq_getElem_cons hlt, List.take_append_drop]
        have htake : items.take (done.length + 1) = items.take done.length ++ [items[done.length]] :=
          List.take_succ_eq_append_getElem hlt
        refine ⟨scanOf transaction height tokens (items.take (done.length + 1)), ?_, by simp⟩
        rw [hP, htake]
        refine indexDescriptor_ok.mpr ⟨_, hget, hstands _ (List.getElem_mem hlt), ?_, ?_, rfl⟩
        · intro hmem
          rw [hsplit, List.map_append, List.nodup_append] at hnodup
          exact hnodup.2.2 _ hmem _ (by rw [← hget]; exact List.mem_cons_self) rfl
        · -- The sum so far is at most that of all outputs.
          have hi : (items[done.length]).token < tokens.length :=
            (List.getElem?_eq_some_iff.mp (hstands _ (List.getElem_mem hlt)).asset).1
          have hall : describedAmounts (items.take (done.length + 1)) ++ describedAmounts (items.drop (done.length + 1)) =
              describedAmounts items := by
            rw [describedAmounts, describedAmounts, ← List.map_append, List.take_append_drop]
            rfl
          have hle := @issuedTotals_le tokens.length (items[done.length]).token (describedAmounts (items.take (done.length + 1)))
            (describedAmounts (items.drop (done.length + 1)))
          have hsame : describedAmounts (items.take (done.length + 1)) =
              describedAmounts (items.take done.length) ++ [((items[done.length]).token, (items[done.length]).amount)] := by
            rw [htake, describedAmounts, List.map_append]
            rfl
          rw [hall, hsame, ← issuedTotals_concat, List.getD_eq_getElem?_getD,
            List.getElem?_set_self (by simpa [issuedTotals] using hi), Option.getD_some] at hle
          refine lt_of_le_of_lt hle (hfits _ ?_)
          rw [List.getD_eq_getElem?_getD, List.getElem?_eq_getElem (by simpa [issuedTotals] using hi), Option.getD_some]
          exact List.getElem_mem _)
    rw [hlast, heq, List.take_of_length_le (by simp)]

end Rows

section Described

/-- One output of none of the policy asset names the descriptors, and no other names any. -/
def DescribedBy (programs : IssuancePrograms) (outputs : List (ChainTxOut Bytes32)) (descriptors : List IssuedUtxoDescriptor) :
    Prop :=
  ∃ before output after, outputs = before ++ output :: after ∧
    Markers.descriptorsFromScript output.scriptPubkey = .ok (some descriptors) ∧
    output.asset = .explicit programs.policyAsset ∧ output.value = .explicit 0 ∧
    ∀ other ∈ before ++ after, Markers.descriptorsFromScript other.scriptPubkey = .ok none

theorem findDescriptors_ok {found next : Option (List IssuedUtxoDescriptor)} {output : ChainTxOut Bytes32} :
    findDescriptors programs found output = .ok next ↔
      Markers.descriptorsFromScript output.scriptPubkey = .ok none ∧ next = found ∨
      ∃ descriptors, Markers.descriptorsFromScript output.scriptPubkey = .ok (some descriptors) ∧ found = none ∧
        next = some descriptors ∧ output.asset = .explicit programs.policyAsset ∧ output.value = .explicit 0 := by
  unfold findDescriptors
  rw [Db.except_bind_ok]
  constructor
  · rintro ⟨decoded, hdecoded, h⟩
    rw [mapError_ok] at hdecoded
    cases decoded with
    | none =>
      cases h
      exact .inl ⟨hdecoded, rfl⟩
    | some descriptors =>
      rw [if_neg (by simp)] at h
      obtain ⟨hnone, h⟩ := then_ok.mp h
      obtain ⟨hheld, h⟩ := then_ok.mp h
      cases h
      rw [require_ok] at hnone hheld
      exact .inr ⟨descriptors, hdecoded, hnone, rfl, ChainField.getExplicit_eq_some.mp hheld.1,
        ChainField.getExplicit_eq_some.mp hheld.2⟩
  · rintro (⟨hdecoded, rfl⟩ | ⟨descriptors, hdecoded, rfl, rfl, hasset, hvalue⟩)
    · exact ⟨none, mapError_ok.mpr hdecoded, rfl⟩
    · refine ⟨some descriptors, mapError_ok.mpr hdecoded, ?_⟩
      rw [if_neg (by simp)]
      exact then_ok.mpr ⟨require_ok.mpr rfl, then_ok.mpr ⟨require_ok.mpr
        ⟨ChainField.getExplicit_eq_some.mpr hasset, ChainField.getExplicit_eq_some.mpr hvalue⟩, rfl⟩⟩

/-- Outputs that name no descriptors change nothing. -/
theorem findDescriptors_skips {outputs : List (ChainTxOut Bytes32)} {found : Option (List IssuedUtxoDescriptor)}
    (h : ∀ output ∈ outputs, Markers.descriptorsFromScript output.scriptPubkey = .ok none) :
    outputs.foldlM (findDescriptors programs) found = .ok found := by
  induction outputs with
  | nil => rfl
  | cons output outputs ih =>
    rw [List.forall_mem_cons] at h
    rw [List.foldlM_cons]
    exact Db.except_bind_ok.mpr ⟨found, findDescriptors_ok.mpr (.inl ⟨h.1, rfl⟩), ih h.2⟩

theorem findDescriptors_all {outputs : List (ChainTxOut Bytes32)} {descriptors : List IssuedUtxoDescriptor} :
    outputs.foldlM (findDescriptors programs) none = .ok (some descriptors) ↔ DescribedBy programs outputs descriptors := by
  constructor
  · intro h
    have hall := Loops.foldlM_ok (P := fun done found => (found = none →
        ∀ output ∈ done, Markers.descriptorsFromScript output.scriptPubkey = .ok none) ∧
      ∀ descriptors, found = some descriptors → DescribedBy programs done descriptors)
      (fun done output found next hP hstep => by
        rcases findDescriptors_ok.mp hstep with ⟨hdecoded, rfl⟩ | ⟨descriptors, hdecoded, rfl, rfl, hasset, hvalue⟩
        · refine ⟨fun hnone => ?_, fun descriptors hsome => ?_⟩
          · simpa [or_imp, forall_and, hdecoded] using hP.1 hnone
          · obtain ⟨before, descriptorOutput, after, rfl, houtput, hasset, hvalue, hothers⟩ := hP.2 descriptors hsome
            refine ⟨before, descriptorOutput, after ++ [output], by simp, houtput, hasset, hvalue, fun other hother => ?_⟩
            rw [← List.append_assoc, List.mem_append, List.mem_singleton] at hother
            rcases hother with hother | rfl
            · exact hothers other hother
            · exact hdecoded
        · refine ⟨fun hnone => absurd hnone (by simp), fun described hsome => ?_⟩
          cases hsome
          exact ⟨done, output, [], rfl, hdecoded, hasset, hvalue, by simpa using hP.1 rfl⟩)
      ⟨fun _ output houtput => absurd houtput List.not_mem_nil, fun descriptors hsome => by cases hsome⟩ h
    exact hall.2 descriptors rfl
  · rintro ⟨before, output, after, rfl, hdecoded, hasset, hvalue, hothers⟩
    rw [List.forall_mem_append] at hothers
    rw [List.foldlM_append, findDescriptors_skips hothers.1]
    refine Db.except_bind_ok.mpr ⟨none, rfl, ?_⟩
    rw [List.foldlM_cons]
    exact Db.except_bind_ok.mpr ⟨some descriptors, findDescriptors_ok.mpr (.inr ⟨descriptors, hdecoded, rfl, rfl, hasset, hvalue⟩),
      findDescriptors_skips hothers.2⟩

/-- As many described outputs name the asset at a position as outputs hold it. -/
def CountsMatch (transaction : Transaction) (tokens : List (NetworkAsset Bytes32)) (items : List DescribedOutput) : Prop :=
  ∀ (i : ℕ) (asset : NetworkAsset Bytes32), tokens[i]? = some asset →
    (items.filter fun item => item.token = i).length =
      (transaction.output.filter fun output => output.asset.getExplicit = some asset.assetId).length

/-- The asset at a position is reissued by what the described outputs hold of it. -/
def TotalsMatch (transaction : Transaction) (tokens : List (NetworkAsset Bytes32)) (items : List DescribedOutput) : Prop :=
  ∀ i < tokens.length, ∃ input, transaction.input[1 + i]? = some input ∧
    input.assetIssuance.amount = .explicit ((items.filter fun item => item.token = i).map DescribedOutput.amount).sum

theorem checkDescribed_all {items : List DescribedOutput}
    (h : ∀ item ∈ items, item.Stands libraries programs transaction stormEye tokens) :
    tokens.zipIdx.forM (checkDescribed transaction tokens (items.map DescribedOutput.descriptor)) = .ok () ↔
      CountsMatch transaction tokens items := by
  rw [forM_zipIdx_ok]
  refine forall_congr' fun i => forall_congr' fun asset => imp_congr_right fun _ => ?_
  have hfilter : ((items.map DescribedOutput.descriptor).filter fun descriptor =>
      (tokenOf tokens descriptor).toOption = some i).length = (items.filter fun item => item.token = i).length := by
    rw [List.filter_map, List.length_map]
    refine congrArg List.length (List.filter_congr fun item hitem => ?_)
    simp [(h item hitem).token, Except.toOption]
  unfold checkDescribed
  rw [require_ok, hfilter]

theorem getD_issuedTotals {items : List DescribedOutput} {i : ℕ} (hi : i < tokens.length) :
    (issuedTotals tokens.length (describedAmounts items))[i]? =
      some ((items.filter fun item => item.token = i).map DescribedOutput.amount).sum := by
  simp [issuedTotals, describedAmounts, List.filter_map, Function.comp_def, hi]

theorem checkReissued_all {items : List DescribedOutput} :
    (tokens.zip (issuedTotals tokens.length (describedAmounts items))).zipIdx.forM (checkReissued transaction) = .ok () ↔
      TotalsMatch transaction tokens items := by
  rw [forM_zipIdx_ok]
  have hcheck (item : NetworkAsset Bytes32 × ℕ) (i : ℕ) : checkReissued transaction (item, i) = .ok () ↔
      ∃ input, transaction.input[1 + i]? = some input ∧ input.assetIssuance.amount = .explicit item.2 := by
    unfold checkReissued
    rw [require_ok, Option.bind_eq_some_iff]
    simp only [ChainField.getExplicit_eq_some]
  constructor
  · intro h i hi
    have hitem : (tokens.zip (issuedTotals tokens.length (describedAmounts items)))[i]? = some (tokens[i],
        ((items.filter fun item => item.token = i).map DescribedOutput.amount).sum) := by
      rw [List.zip, List.getElem?_zipWith, getD_issuedTotals hi, List.getElem?_eq_getElem hi]
    exact (hcheck _ i).mp (h i _ hitem)
  · intro h i item hitem
    rw [List.zip, List.getElem?_zipWith] at hitem
    cases hasset : tokens[i]? with
    | none =>
      rw [hasset] at hitem
      cases hitem
    | some asset =>
      have hi := (List.getElem?_eq_some_iff.mp hasset).1
      rw [hasset, getD_issuedTotals hi] at hitem
      cases hitem
      exact (hcheck _ i).mpr (h i hi)

/-- What the indexer has read of an issuance. -/
structure Indexed (libraries : IssuanceLibraries) (programs : IssuancePrograms) (transaction : Transaction)
    (stormEye : NetworkAsset Bytes32) (tokens : List (NetworkAsset Bytes32)) (items : List DescribedOutput) : Prop where
  described : DescribedBy programs transaction.output (items.map DescribedOutput.descriptor)
  stands : ∀ item ∈ items, item.Stands libraries programs transaction stormEye tokens
  distinct : (items.map fun item => item.descriptor.outputIndex).Nodup
  fits : ∀ amount ∈ issuedTotals tokens.length (describedAmounts items), amount < 2 ^ 64
  counts : CountsMatch transaction tokens items
  totals : TotalsMatch transaction tokens items

theorem indexedIssuedOutputs_ok {issued : List (MonitoredUtxo Bytes32)} :
    indexedIssuedOutputs libraries programs transaction height stormEye tokens = .ok issued ↔
      ∃ items, Indexed libraries programs transaction stormEye tokens items ∧
        issued = items.map (DescribedOutput.row transaction height) := by
  unfold indexedIssuedOutputs
  constructor
  · intro h
    obtain ⟨found, hfound, h⟩ := Db.except_bind_ok.mp h
    obtain ⟨descriptors, hdescriptors, h⟩ := Db.except_bind_ok.mp h
    obtain ⟨hcounts, h⟩ := then_ok.mp h
    obtain ⟨scan, hscan, h⟩ := Db.except_bind_ok.mp h
    obtain ⟨htotals, h⟩ := then_ok.mp h
    rw [okOr_eq_ok_iff] at hdescriptors
    subst hdescriptors
    obtain ⟨items, rfl, hstands, hnodup, hfits, rfl⟩ := indexDescriptors_ok.mp hscan
    cases h
    exact ⟨items, ⟨findDescriptors_all.mp hfound, hstands, hnodup, hfits, (checkDescribed_all hstands).mp hcounts,
      checkReissued_all.mp htotals⟩, rfl⟩
  · rintro ⟨items, hindexed, rfl⟩
    refine Db.except_bind_ok.mpr ⟨_, findDescriptors_all.mpr hindexed.described, Db.except_bind_ok.mpr ⟨_, rfl, ?_⟩⟩
    refine then_ok.mpr ⟨(checkDescribed_all hindexed.stands).mpr hindexed.counts, ?_⟩
    refine Db.except_bind_ok.mpr ⟨_, indexDescriptors_ok.mpr ⟨items, rfl, hindexed.stands, hindexed.distinct, hindexed.fits,
      rfl⟩, ?_⟩
    exact then_ok.mpr ⟨checkReissued_all.mpr hindexed.totals, rfl⟩

/-- The positions of items are as many as the items. -/
theorem length_positions {A : Type} (holds : A → Bool) (l : List A) :
    ((List.range l.length).filter fun k => l[k]?.any holds).length = (l.filter holds).length := by
  induction l using List.reverseRecOn with
  | nil => rfl
  | append_singleton l a ih =>
    have hold : ((List.range l.length).filter fun k => (l ++ [a])[k]?.any holds) =
        (List.range l.length).filter fun k => l[k]?.any holds :=
      List.filter_congr fun k hk => by rw [List.getElem?_append_left (List.mem_range.mp hk)]
    rw [List.length_append, List.length_singleton, List.range_succ, List.filter_append, List.length_append, hold, ih,
      List.filter_append, List.length_append]
    congr 1
    by_cases ha : holds a <;> simp [ha]

/-- No output of a reissued asset is left out: the described ones are as many, and at different outputs. -/
theorem Indexed.complete {items : List DescribedOutput} (h : Indexed libraries programs transaction stormEye tokens items)
    {i k : ℕ} {asset : NetworkAsset Bytes32} {output : ChainTxOut Bytes32} (hasset : tokens[i]? = some asset)
    (houtput : transaction.output[k]? = some output) (hheld : output.asset = .explicit asset.assetId) :
    ∃ item ∈ items, item.token = i ∧ item.descriptor.outputIndex.toNat = k := by
  let described := (items.filter fun item => item.token = i).map fun item => item.descriptor.outputIndex.toNat
  let holds := fun output : ChainTxOut Bytes32 => decide (output.asset.getExplicit = some asset.assetId)
  let holders := (List.range transaction.output.length).filter fun k => transaction.output[k]?.any holds
  have hnodup : described.Nodup := by
    have hdistinct := h.distinct.map (f := UInt32.toNat) fun _ _ heq => UInt32.toNat_inj.mp heq
    rw [List.map_map] at hdistinct
    exact hdistinct.sublist (List.filter_sublist.map _)
  have hsubset : described ⊆ holders := by
    intro index hindex
    obtain ⟨item, hitem, rfl⟩ := List.mem_map.mp hindex
    rw [List.mem_filter, decide_eq_true_eq] at hitem
    have hstands := h.stands item hitem.1
    have hsame : item.asset = asset := by
      have hat := hstands.asset
      rw [hitem.2, hasset] at hat
      exact (Option.some.inj hat).symm
    refine List.mem_filter.mpr ⟨List.mem_range.mpr (List.getElem?_eq_some_iff.mp hstands.output).1, ?_⟩
    simp [holds, hstands.output, hstands.held.1, hsame, ChainField.getExplicit]
  have hlength : holders.length = described.length := by
    rw [length_positions, List.length_map, h.counts i asset hasset]
  have hperm : described.Perm holders := 
    (hnodup.subperm hsubset).perm_of_length_le (by omega)
  have hk : k ∈ holders := by
    refine List.mem_filter.mpr ⟨List.mem_range.mpr (List.getElem?_eq_some_iff.mp houtput).1, ?_⟩
    simp [holds, houtput, hheld, ChainField.getExplicit]
  obtain ⟨item, hitem, hindex⟩ := List.mem_map.mp (hperm.symm.subset hk)
  rw [List.mem_filter, decide_eq_true_eq] at hitem
  exact ⟨item, hitem.1, hitem.2, hindex⟩

end Described

section Reissues

variable {getRawTransaction : Bytes32 → Except IndexerError Transaction} {issuedAssets : List (NetworkAsset Bytes32)}

/-- An input that reissues an asset of the network, the first of its entropy. -/
structure ReissuesAsset (issuedAssets : List (NetworkAsset Bytes32)) (input : ChainTxIn) (asset : NetworkAsset Bytes32) :
    Prop where
  issues : input.assetIssuance.isNull = false
  reissues : input.assetIssuance.assetBlindingNonce ≠ zeroTweak
  entropy : (issuedAssets.find? fun asset => asset.entropy = some input.assetIssuance.assetEntropy) = some asset
  inflationKeys : input.assetIssuance.inflationKeys.isNull = true

theorem reissuedTokens_ok {inputs : List ChainTxIn} : ∀ {tokens result : List (NetworkAsset Bytes32)},
    (tokens.map NetworkAsset.kind).Nodup →
    (reissuedTokens issuedAssets tokens inputs = some result ↔
      ∃ first rest found, inputs = first ++ rest ∧ result = tokens ++ found ∧
        List.Forall₂ (ReissuesAsset issuedAssets) first found ∧ (result.map NetworkAsset.kind).Nodup ∧
        ∀ input ∈ rest.head?, input.assetIssuance.isNull = true) := by
  induction inputs with
  | nil =>
    intro tokens result hnodup
    rw [reissuedTokens, Option.some.injEq]
    constructor
    · rintro rfl
      exact ⟨[], [], [], rfl, by simp, .nil, hnodup, by simp⟩
    · rintro ⟨first, rest, found, hsplit, rfl, hfirst, -, -⟩
      obtain ⟨rfl, rfl⟩ := List.append_eq_nil_iff.mp hsplit.symm
      cases hfirst
      rw [List.append_nil]
  | cons input inputs ih =>
    intro tokens result hnodup
    rw [reissuedTokens]
    by_cases hnull : input.assetIssuance.isNull = true
    · rw [if_pos hnull, Option.some.injEq]
      constructor
      · rintro rfl
        exact ⟨[], _, [], rfl, by simp, .nil, hnodup, by simpa using hnull⟩
      · rintro ⟨first, rest, found, hsplit, rfl, hfirst, -, -⟩
        cases hfirst with
        | nil => rw [List.append_nil]
        | cons hinput _ =>
          obtain ⟨rfl, -⟩ := List.cons.inj hsplit
          rw [hinput.issues] at hnull
          cases hnull
    · have hhead {first rest : List ChainTxIn} {found : List (NetworkAsset Bytes32)} (hsplit : input :: inputs = first ++ rest)
          (hfirst : List.Forall₂ (ReissuesAsset issuedAssets) first found)
          (hrest : ∀ input ∈ rest.head?, input.assetIssuance.isNull = true) : ∃ first' asset found',
          first = input :: first' ∧ found = asset :: found' ∧ inputs = first' ++ rest ∧
            ReissuesAsset issuedAssets input asset ∧ List.Forall₂ (ReissuesAsset issuedAssets) first' found' := by
        cases hfirst with
        | nil =>
          rw [List.nil_append] at hsplit
          subst hsplit
          exact absurd (hrest input (by simp)) hnull
        | cons hinput hmore =>
          obtain ⟨rfl, hinputs⟩ := List.cons.inj hsplit
          exact ⟨_, _, _, rfl, rfl, hinputs, hinput, hmore⟩
      rw [if_neg hnull]
      by_cases hnonce : input.assetIssuance.assetBlindingNonce = zeroTweak
      · rw [if_pos hnonce]
        refine ⟨fun h => (by cases h), ?_⟩
        rintro ⟨first, rest, found, hsplit, -, hfirst, -, hrest⟩
        obtain ⟨_, _, _, -, -, -, hinput, -⟩ := hhead hsplit hfirst hrest
        exact absurd hnonce hinput.reissues
      rw [if_neg hnonce]
      cases hfind : issuedAssets.find? fun asset => asset.entropy = some input.assetIssuance.assetEntropy with
      | none =>
        refine ⟨fun h => (by cases h), ?_⟩
        rintro ⟨first, rest, found, hsplit, -, hfirst, -, hrest⟩
        obtain ⟨_, _, _, -, -, -, hinput, -⟩ := hhead hsplit hfirst hrest
        rw [hinput.entropy] at hfind
        cases hfind
      | some asset =>
        dsimp only
        by_cases htwice : (tokens.any fun token => token.kind = asset.kind) = true
        · rw [if_pos htwice]
          refine ⟨fun h => (by cases h), ?_⟩
          rintro ⟨first, rest, found, hsplit, rfl, hfirst, hkinds, hrest⟩
          obtain ⟨_, other, _, -, rfl, -, hinput, -⟩ := hhead hsplit hfirst hrest
          obtain rfl : other = asset := Option.some.inj (hinput.entropy.symm.trans hfind)
          obtain ⟨token, htoken, hkind⟩ := List.any_eq_true.mp htwice
          rw [List.map_append, List.nodup_append] at hkinds
          exact absurd (of_decide_eq_true hkind) (hkinds.2.2 _ (List.mem_map_of_mem htoken) _ (by simp))
        rw [if_neg htwice]
        by_cases hkeys : input.assetIssuance.inflationKeys.isNull = false
        · rw [if_pos hkeys]
          refine ⟨fun h => (by cases h), ?_⟩
          rintro ⟨first, rest, found, hsplit, -, hfirst, -, hrest⟩
          obtain ⟨_, _, _, -, -, -, hinput, -⟩ := hhead hsplit hfirst hrest
          rw [hinput.inflationKeys] at hkeys
          cases hkeys
        rw [if_neg hkeys]
        have hnext : ((tokens ++ [asset]).map NetworkAsset.kind).Nodup := by
          rw [List.map_append, List.nodup_append]
          refine ⟨hnodup, by simp, fun kind hkind other hother => ?_⟩
          obtain ⟨token, htoken, rfl⟩ := List.mem_map.mp hkind
          rw [List.map_singleton, List.mem_singleton] at hother
          rw [hother]
          exact fun heq => htwice (List.any_eq_true.mpr ⟨token, htoken, decide_eq_true heq⟩)
        rw [ih hnext]
        constructor
        · rintro ⟨first, rest, found, rfl, rfl, hfirst, hkinds, hrest⟩
          refine ⟨input :: first, rest, asset :: found, rfl, by simp, .cons ⟨?_, hnonce, hfind, ?_⟩ hfirst, hkinds, hrest⟩
          · simpa using hnull
          · simpa using hkeys
        · rintro ⟨first, rest, found, hsplit, rfl, hfirst, hkinds, hrest⟩
          obtain ⟨first', other, found', -, rfl, hinputs, hinput, hmore⟩ := hhead hsplit hfirst hrest
          obtain rfl : other = asset := Option.some.inj (hinput.entropy.symm.trans hfind)
          exact ⟨first', rest, found', hinputs, by simp, hmore, hkinds, hrest⟩

/-- The token of an asset is spent at its contract and returned with all that it hides. -/
def TokenReturned (libraries : IssuanceLibraries) (getRawTransaction : Bytes32 → Except IndexerError Transaction)
    (transaction : Transaction) (index : ℕ) (asset : NetworkAsset Bytes32) : Prop :=
  ∃ input spent secrets output, transaction.input[index]? = some input ∧
    previousOutput getRawTransaction input.previousOutput = .ok spent ∧ libraries.unblind spent = some secrets ∧
    asset.reissuanceTokenId = some secrets.1 ∧ spent.scriptPubkey = asset.contractScript ∧
    transaction.output[index]? = some output ∧ libraries.unblind output = some secrets ∧
    output.scriptPubkey = spent.scriptPubkey

theorem tokenInputSecrets_ok {asset : NetworkAsset Bytes32} {spent : ChainTxOut Bytes32} {secrets : Bytes32 × ℕ} :
    tokenInputSecrets libraries asset spent = .ok (some secrets) ↔ libraries.unblind spent = some secrets ∧
      asset.reissuanceTokenId = some secrets.1 ∧ spent.scriptPubkey = asset.contractScript := by
  unfold tokenInputSecrets
  cases hunblind : libraries.unblind spent with
  | none => simp
  | some found =>
    dsimp only
    rw [Db.except_bind_ok]
    constructor
    · rintro ⟨tokenId, hid, h⟩
      rw [okOr_eq_ok_iff] at hid
      have h := Except.ok.inj h
      split_ifs at h with hother
      rw [not_or, not_not, not_not] at hother
      cases h
      exact ⟨rfl, by rw [hid, hother.1], hother.2⟩
    · rintro ⟨h, hid, hscript⟩
      cases h
      exact ⟨_, okOr_eq_ok_iff _ _ _ |>.mpr hid, by simp [hscript, pure, Except.pure]⟩

theorem preservesToken_ok {asset : NetworkAsset Bytes32} {i : ℕ} :
    preservesToken libraries getRawTransaction transaction (asset, i) = .ok true ↔
      TokenReturned libraries getRawTransaction transaction (1 + i) asset := by
  unfold preservesToken TokenReturned
  constructor
  · intro h
    obtain ⟨input, hinput, h⟩ := Db.except_bind_ok.mp h
    obtain ⟨spent, hspent, h⟩ := Db.except_bind_ok.mp h
    obtain ⟨found, hfound, h⟩ := Db.except_bind_ok.mp h
    rw [okOr_eq_ok_iff] at hinput
    have h := Except.ok.inj h
    cases found with
    | none => simp at h
    | some secrets =>
      obtain ⟨hunblind, hid, hscript⟩ := tokenInputSecrets_ok.mp hfound
      rw [Option.bind_some] at h
      cases houtput : transaction.output[1 + i]? with
      | none => simp [houtput] at h
      | some output =>
        rw [houtput, Option.bind_some] at h
        cases hreturned : libraries.unblind output with
        | none => simp [hreturned] at h
        | some returned =>
          rw [hreturned, Option.map_some, Option.getD_some, decide_eq_true_eq] at h
          obtain ⟨rfl, hkept⟩ := h
          exact ⟨input, spent, returned, output, hinput, hspent, hunblind, hid, hscript, rfl, hreturned, hkept⟩
  · rintro ⟨input, spent, secrets, output, hinput, hspent, hunblind, hid, hscript, houtput, hreturned, hkept⟩
    refine Db.except_bind_ok.mpr ⟨input, okOr_eq_ok_iff _ _ _ |>.mpr hinput, Db.except_bind_ok.mpr ⟨spent, hspent, ?_⟩⟩
    refine Db.except_bind_ok.mpr ⟨some secrets, tokenInputSecrets_ok.mpr ⟨hunblind, hid, hscript⟩, ?_⟩
    simp [houtput, hreturned, hkept, pure, Except.pure]

theorem allM_ok {A : Type} {check : A → Except IndexerError Bool} {items : List A} :
    items.allM check = .ok true ↔ ∀ item ∈ items, check item = .ok true := by
  induction items with
  | nil => simp [List.allM, pure, Except.pure]
  | cons item items ih =>
    rw [List.forall_mem_cons, ← ih, List.allM]
    cases check item with
    | error error => simp [bind, Except.bind]
    | ok passed => cases passed <;> simp [bind, Except.bind, pure, Except.pure]

/-- A transaction that is an issuance of the network, of `tokens`. -/
structure Reissues (libraries : IssuanceLibraries) (getRawTransaction : Bytes32 → Except IndexerError Transaction)
    (stormEye : NetworkAsset Bytes32) (issuedAssets : List (NetworkAsset Bytes32)) (transaction : Transaction)
    (tokens : List (NetworkAsset Bytes32)) : Prop where
  complete : 2 ≤ transaction.input.length ∧ 2 ≤ transaction.output.length
  pegins : ∀ input ∈ transaction.input, input.isPegin = false
  nonempty : tokens ≠ []
  reissued : ∃ first rest, transaction.input.drop 1 = first ++ rest ∧
    List.Forall₂ (ReissuesAsset issuedAssets) first tokens ∧ ∀ input ∈ rest.head?, input.assetIssuance.isNull = true
  kinds : (tokens.map NetworkAsset.kind).Nodup
  stormEye : ∃ input output, transaction.input[0]? = some input ∧
    previousOutput getRawTransaction input.previousOutput = .ok output ∧ output.asset = .explicit stormEye.assetId ∧
    output.scriptPubkey = stormEye.contractScript ∧ transaction.output[0]? = some output
  returned : ∀ (i : ℕ) (asset : NetworkAsset Bytes32), tokens[i]? = some asset →
    TokenReturned libraries getRawTransaction transaction (1 + i) asset

theorem preservesStormEye_ok : preservesStormEye getRawTransaction transaction stormEye = .ok true ↔
    ∃ input output, transaction.input[0]? = some input ∧
      previousOutput getRawTransaction input.previousOutput = .ok output ∧ output.asset = .explicit stormEye.assetId ∧
      output.scriptPubkey = stormEye.contractScript ∧ transaction.output[0]? = some output := by
  unfold preservesStormEye
  simp only [Db.except_bind_ok, okOr_eq_ok_iff, pure, Except.pure, Except.ok.injEq, decide_eq_true_eq,
    ChainField.getExplicit_eq_some]
  grind

theorem issuanceTokens_ok :
    issuanceTokens libraries getRawTransaction transaction stormEye issuedAssets = .ok (some tokens) ↔
      Reissues libraries getRawTransaction stormEye issuedAssets transaction tokens := by
  unfold issuanceTokens
  by_cases hshort : transaction.input.length < 2 ∨ transaction.output.length < 2
  · rw [if_pos hshort]
    exact ⟨fun h => (by cases h), fun h => absurd h.complete (by omega)⟩
  rw [if_neg hshort]
  by_cases hpegin : transaction.input.any ChainTxIn.isPegin = true
  · rw [if_pos hpegin]
    refine ⟨fun h => (by cases h), fun h => ?_⟩
    obtain ⟨input, hinput, htrue⟩ := List.any_eq_true.mp hpegin
    rw [h.pegins input hinput] at htrue
    cases htrue
  rw [if_neg hpegin]
  have hpegins : ∀ input ∈ transaction.input, input.isPegin = false := by simpa using hpegin
  have hstart := fun result => @reissuedTokens_ok issuedAssets (transaction.input.drop 1) [] result List.nodup_nil
  simp only [List.nil_append] at hstart
  constructor
  · intro h
    cases hfound : reissuedTokens issuedAssets [] (transaction.input.drop 1) with
    | none =>
      rw [hfound] at h
      cases h
    | some found =>
      rw [hfound] at h
      dsimp only at h
      by_cases hnil : found = []
      · rw [if_pos hnil] at h
        cases h
      rw [if_neg hnil] at h
      obtain ⟨kept, hkept, h⟩ := Db.except_bind_ok.mp h
      cases kept with
      | false =>
        rw [if_pos rfl] at h
        cases h
      | true =>
        rw [if_neg (by simp)] at h
        obtain ⟨preserved, hpreserved, h⟩ := Db.except_bind_ok.mp h
        cases preserved with
        | false => cases h
        | true =>
          cases h
          obtain ⟨first, rest, _, hsplit, rfl, hfirst, hkinds, hrest⟩ := (hstart _).mp hfound
          refine ⟨by omega, hpegins, hnil, ⟨first, rest, hsplit, hfirst, hrest⟩, hkinds, preservesStormEye_ok.mp hkept,
            fun i asset hasset => preservesToken_ok.mp (allM_ok.mp hpreserved (asset, i) ?_)⟩
          exact List.mem_zipIdx_iff_getElem?.mpr hasset
  · intro h
    obtain ⟨first, rest, hsplit, hfirst, hrest⟩ := h.reissued
    have hpreserved : tokens.zipIdx.allM (preservesToken libraries getRawTransaction transaction) = .ok true :=
      allM_ok.mpr fun item hitem =>
        preservesToken_ok.mpr (h.returned item.2 item.1 (List.mem_zipIdx_iff_getElem?.mp hitem))
    rw [(hstart tokens).mpr ⟨first, rest, tokens, hsplit, rfl, hfirst, h.kinds, hrest⟩]
    dsimp only
    rw [if_neg h.nonempty]
    refine Db.except_bind_ok.mpr ⟨true, preservesStormEye_ok.mpr h.stormEye, ?_⟩
    rw [if_neg (by simp)]
    exact Db.except_bind_ok.mpr ⟨true, hpreserved, rfl⟩

end Reissues

end IssuedOutputs

end PriceOracle
