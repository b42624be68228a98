import PriceOracle.CovenantHashing
import PriceOracle.SpendAcceptance
import PriceOracle.WordBytes

/-!
# Built transactions can be spent

Votes and renewals from the live UTXOs to the programs of all inputs: what the builders make is finalized with the
quorum's signatures and accepted by every covenant.
-/

namespace PriceOracle

open StormEyeSpends

namespace StormEyeSpends

open AuthCovenant (scriptHashFor dispatchKind)

variable {Sig E : Type}

/-- One signature of the branch for each signing hash, and a proof of the branch that the covenant has room for. -/
structure Signed (network : CovenantNetwork Sig E) (root : Bytes32) (hashes : List Bytes32)
    (signing : SigningResult Bytes32 Sig) (proof : Smt.Proof Bytes32) : Prop where
  count : signing.signatures.length = hashes.length
  key : network.rules.keys.fromByteArray signing.signingStormTreeBranch = .ok ()
  verifies : ∀ (i : ℕ) (signature : Sig) (hash : Bytes32), signing.signatures[i]? = some signature →
    hashes[i]? = some hash → (jets network).bip0340Verify (signing.signingStormTreeBranch, hash) signature = true
  verified : StormTree.verifyBranch (jets network) root signing.signingStormTreeBranch proof = true
  depth : proof.siblings.length ≤ StormTreeWitness.witnessDepth

/-- The program of an input accepts its witness. -/
def Accepts (network : CovenantNetwork Sig E) (pset : Pset Bytes32) (stormEye : NetworkAsset Bytes32)
    (data : StormEyeContractData) (index : ℕ) : ProgramWitness Sig → Prop
  | .auth path => ∃ env, stormEyeEnv network pset data index = some env ∧
      AuthCovenant.main (jets network) network.std (authParams data) env path = some ()
  | .treasury stormEyeInputIndex => ∃ env, treasuryEnv network pset stormEye index = some env ∧
      TreasuryCovenant.main network.std stormEye.assetId env stormEyeInputIndex = some ()

/-- Every input has a witness, of the Auth program for the Storm Eyes and of the Treasury program behind them. -/
structure Accepted (network : CovenantNetwork Sig E) (pset : Pset Bytes32) (stormEye : NetworkAsset Bytes32)
    (data : StormEyeContractData) (stormEyeInputs : ℕ) (witnesses : List (ProgramWitness Sig)) : Prop where
  length : witnesses.length = pset.inputs.length
  stormEyes : ∀ index < stormEyeInputs, ∃ path, witnesses[index]? = some (.auth path)
  treasury : ∀ index, stormEyeInputs ≤ index → index < pset.inputs.length → witnesses[index]? = some (.treasury 0)
  accepts : ∀ index witness, witnesses[index]? = some witness → Accepts network pset stormEye data index witness

section Inputs

variable {network : CovenantNetwork Sig E} {pset : Pset Bytes32} {stormEye : NetworkAsset Bytes32}
  {data : StormEyeContractData} {signing : SigningResult Bytes32 Sig} {proof : Smt.Proof Bytes32}
  {stormEyeUtxos treasuryUtxos : List (Utxo Bytes32)} {hashes : List Bytes32}

/-- The witness of a Storm Eye input. -/
def authWitness (data : StormEyeContractData) (signing : SigningResult Bytes32 Sig) (packed : PackedStormTreeProof)
    (signature : Sig) (kind : AuthCovenant.AuthKind Bytes32) : ProgramWitness Sig :=
  .auth (.inl (storage data, (signature, signing.signingStormTreeBranch, packed), kind))

theorem auth_accepts (hlaw : network.Lawful) (hdata : Assets.stormEyeContractData stormEye = .ok data)
    (hhashes : signingHashes network pset stormEye stormEyeUtxos.length = .ok hashes)
    (hsigned : Signed network data.stormTreeRoot hashes signing proof) {packed : PackedStormTreeProof}
    (hpacked : StormTreeCovenant.usedLevels packed.toList = proof.siblings) {kind : AuthCovenant.AuthKind Bytes32}
    {index : ℕ} {signature : Sig} (hindex : index < stormEyeUtxos.length)
    (hsignature : signing.signatures[index]? = some signature)
    (hkind : ∀ env, stormEyeEnv network pset data index = some env →
      dispatchKind (jets network) network.std (authParams data) env (storage data) kind = some ()) :
    Accepts network pset stormEye data index (authWitness data signing packed signature kind) := by
  obtain ⟨-, hall⟩ := signingHashes_ok hdata hhashes
  obtain ⟨env, henv, hhash⟩ := hall index hindex
  have hmessage := hlaw.midstate ((jets network).sigAllHash env)
  have hauthorized : StormTreeCovenant.assertNetworkAuthorization (jets network) network.std env (storage data).1
      (signature, signing.signingStormTreeBranch, packed) = some () := by
    apply (AuthCovenant.assertNetworkAuthorization_iff _ _ _).mpr
    refine ⟨arrayFold_packed _ hsigned.verified hpacked, ?_⟩
    unfold StormTreeCovenant.getSigningMessage
    rw [hmessage]
    exact hsigned.verifies index signature _ hsignature hhash
  refine ⟨env, henv, ?_⟩
  rw [AuthCovenant.main_authorized _ _ _ hauthorized]
  exact hkind env henv

/-- A Treasury input has a Storm Eye beside it, the first input. -/
theorem treasury_accepts (hdata : Assets.stormEyeContractData stormEye = .ok data)
    (hinputs : pset.inputs = (stormEyeUtxos ++ treasuryUtxos).map .new) (hsome : stormEyeUtxos ≠ [])
    (hlive : ∀ utxo ∈ stormEyeUtxos, IsLive stormEye utxo)
    (hhashes : signingHashes network pset stormEye stormEyeUtxos.length = .ok hashes) {index : ℕ}
    (hindex : index < pset.inputs.length) : Accepts network pset stormEye data index (.treasury 0) := by
  obtain ⟨-, hall⟩ := signingHashes_ok hdata hhashes
  obtain ⟨env, henv, -⟩ := hall 0 (List.length_pos_iff.mpr hsome)
  rw [hinputs, List.length_map] at hindex
  obtain ⟨own, hown⟩ := Pset.env_exists hinputs henv (network.treasuryLeaf stormEye.assetId) hindex
  refine ⟨own, hown, (network.std.assertExplicitInputAssetId_iff _ _ _).mpr ?_⟩
  obtain ⟨first, rest, rfl⟩ := List.exists_cons_of_ne_nil hsome
  rw [Pset.env_new hinputs hown]
  refine ⟨first.txout.txIn (jets network) network.header, rfl, ?_⟩
  rw [← (hlive first List.mem_cons_self).1]
  rfl

/-- Storm Eyes with accepted paths, then Treasury inputs. -/
theorem accepted_of_kinds (hlaw : network.Lawful) (hdata : Assets.stormEyeContractData stormEye = .ok data)
    (hinputs : pset.inputs = (stormEyeUtxos ++ treasuryUtxos).map .new) (hsome : stormEyeUtxos ≠ [])
    (hlive : ∀ utxo ∈ stormEyeUtxos, IsLive stormEye utxo)
    (hhashes : signingHashes network pset stormEye stormEyeUtxos.length = .ok hashes)
    (hsigned : Signed network data.stormTreeRoot hashes signing proof) {packed : PackedStormTreeProof}
    (hpacked : StormTreeCovenant.usedLevels packed.toList = proof.siblings) {kind : ℕ → AuthCovenant.AuthKind Bytes32}
    (hkinds : ∀ index < stormEyeUtxos.length, ∀ env, stormEyeEnv network pset data index = some env →
      dispatchKind (jets network) network.std (authParams data) env (storage data) (kind index) = some ())
    {witnesses : List (ProgramWitness Sig)} (hcount : witnesses.length = stormEyeUtxos.length)
    (hwitnesses : ∀ index < stormEyeUtxos.length, ∃ signature, signing.signatures[index]? = some signature ∧
      witnesses[index]? = some (authWitness data signing packed signature (kind index))) :
    Accepted network pset stormEye data stormEyeUtxos.length (witnesses ++ treasuryWitnesses pset stormEyeUtxos.length) := by
  have hlength : pset.inputs.length = stormEyeUtxos.length + treasuryUtxos.length := by
    rw [hinputs, List.length_map, List.length_append]
  have hbehind : ∀ index, stormEyeUtxos.length ≤ index → index < pset.inputs.length →
      (witnesses ++ treasuryWitnesses pset stormEyeUtxos.length)[index]? = some (.treasury 0) := by
    intro index hle hlt
    unfold treasuryWitnesses
    rw [List.getElem?_append_right (by omega), List.getElem?_replicate, if_pos (by omega)]
  constructor
  · unfold treasuryWitnesses
    rw [List.length_append, List.length_replicate]
    omega
  · intro index hindex
    obtain ⟨signature, -, hwitness⟩ := hwitnesses index hindex
    exact ⟨_, by rw [List.getElem?_append_left (by omega), hwitness]; rfl⟩
  · exact hbehind
  · intro index witness hwitness
    by_cases hindex : index < stormEyeUtxos.length
    · obtain ⟨signature, hsignature, hown⟩ := hwitnesses index hindex
      rw [List.getElem?_append_left (by omega), hown] at hwitness
      cases hwitness
      exact auth_accepts hlaw hdata hhashes hsigned hpacked hindex hsignature (hkinds index hindex)
    · have hlt : index < pset.inputs.length := by
        have hbound := (List.getElem?_eq_some_iff.mp hwitness).1
        unfold treasuryWitnesses at hbound
        rw [List.length_append, List.length_replicate] at hbound
        omega
      rw [hbehind index (by omega) hlt] at hwitness
      cases hwitness
      exact treasury_accepts hdata hinputs hsome hlive hhashes hlt

end Inputs

section Votes

variable {network : CovenantNetwork Sig E} {view : VotingView Bytes32} {stormEye : NetworkAsset Bytes32}
  {data : StormEyeContractData} {operation : ReshapeOperation Bytes32} {stormEyeUtxos treasuryUtxos : List (Utxo Bytes32)}
  {proposer : Bytes32} {transactionFeeSats : ℕ} {prepared : PreparedVotingExecution Bytes32}

theorem contractData_ok : contractData stormEye = .ok data ↔ Assets.stormEyeContractData stormEye = .ok data := by
  unfold contractData Assets.stormEyeContractData
  cases stormEye.contractData with
  | none => simp
  | some bytes =>
    dsimp only
    cases StormEyeContractData.codec.fromBytes bytes <;> simp [VotingReshape.decoded]

/-- As many UTXOs as the operation names. -/
def Counted : ReshapeOperation Bytes32 → List (Utxo Bytes32) → Prop
  | .merge outpoints, utxos => utxos.length = outpoints.length
  | .split _ _, utxos => utxos.length = 1
  | .updateMembers _ _, utxos => utxos ≠ []

theorem approvedStormEye_live {outpoint : Bytes32 × ℕ} {utxo : Utxo Bytes32}
    (h : VotingReshape.approvedStormEye view stormEye outpoint = .ok utxo) : IsLive stormEye utxo := by
  unfold VotingReshape.approvedStormEye at h
  obtain ⟨found, -, h⟩ := Db.except_bind_ok.mp h
  obtain ⟨hheld, h⟩ := then_ok.mp h
  cases h
  have hheld := require_ok.mp hheld
  exact hheld

theorem scannedStormEye_live {unspent : ScannedUtxo Bytes32} {utxo : Utxo Bytes32}
    (h : VotingReshape.scannedStormEye view stormEye unspent = .ok utxo) : IsLive stormEye utxo := by
  unfold VotingReshape.scannedStormEye at h
  cases htxid : unspent.txid with
  | none =>
    rw [htxid] at h
    cases h
  | some txid =>
    rw [htxid] at h
    obtain ⟨found, -, h⟩ := Db.except_bind_ok.mp h
    obtain ⟨hheld, h⟩ := then_ok.mp h
    cases h
    have hheld := require_ok.mp hheld
    exact hheld

theorem approvedStormEye_eq_ok {outpoint : Bytes32 × ℕ} {utxo : Utxo Bytes32}
    (h : view.node.explicitOutpoint outpoint = .ok utxo) (hasset : utxo.asset = stormEye.assetId)
    (hscript : utxo.scriptPubkey = stormEye.contractScript) :
    VotingReshape.approvedStormEye view stormEye outpoint = .ok utxo := by
  unfold VotingReshape.approvedStormEye
  rw [h]
  exact then_ok.mpr ⟨require_ok.mpr ⟨hasset, hscript⟩, rfl⟩

/-- The Storm Eyes of an operation are live, and as many as it names. -/
theorem operationUtxos_ok (h : VotingReshape.operationUtxos view stormEye operation = .ok stormEyeUtxos) :
    (∀ utxo ∈ stormEyeUtxos, IsLive stormEye utxo) ∧ Counted operation stormEyeUtxos := by
  have happroved : ∀ {outpoints : List (Bytes32 × ℕ)},
      outpoints.mapM (VotingReshape.approvedStormEye view stormEye) = .ok stormEyeUtxos →
        (∀ utxo ∈ stormEyeUtxos, IsLive stormEye utxo) ∧ stormEyeUtxos.length = outpoints.length := by
    intro outpoints hmap
    refine ⟨fun utxo hutxo => ?_, (mapM_ok hmap).1⟩
    obtain ⟨outpoint, -, hone⟩ := Renewal.mem_of_mapM hmap utxo hutxo
    exact approvedStormEye_live hone
  cases operation with
  | merge outpoints => exact happroved h
  | split outpoint count => exact happroved h
  | updateMembers members newRoot =>
    have h : VotingReshape.scanStormEyeUtxos view stormEye = .ok stormEyeUtxos := h
    unfold VotingReshape.scanStormEyeUtxos at h
    obtain ⟨unspents, -, h⟩ := Db.except_bind_ok.mp h
    obtain ⟨scanned, hscanned, h⟩ := Db.except_bind_ok.mp h
    obtain ⟨hsome, h⟩ := then_ok.mp h
    cases h
    have hsome := require_ok.mp hsome
    refine ⟨fun utxo hutxo => ?_, ?_⟩
    · obtain ⟨unspent, -, hone⟩ := Renewal.mem_of_mapM hscanned utxo (List.mem_insertionSort _ |>.mp hutxo)
      exact scannedStormEye_live hone
    · intro hnone
      apply hsome
      exact List.length_eq_zero_iff.mp ((List.perm_insertionSort _ _).length_eq.symm.trans (congrArg List.length hnone))

/-- What a vote's transaction consists of. -/
structure BuiltVote (network : CovenantNetwork Sig E) (proposer : Bytes32) (operation : ReshapeOperation Bytes32)
    (stormEye : NetworkAsset Bytes32) (stormEyeUtxos treasuryUtxos : List (Utxo Bytes32))
    (prepared : PreparedVotingExecution Bytes32) : Prop where
  inputs : prepared.pset.inputs = (stormEyeUtxos ++ treasuryUtxos).map .new
  outputs : ∃ reshaped rest, prepared.pset.outputs = reshaped ++ rest ∧
    VotingReshape.reshapedOutputs (votingPrograms network) stormEye proposer stormEyeUtxos
      (stormEyeUtxos.map Utxo.amount).sum operation = .ok reshaped
  amounts : (stormEyeUtxos.map Utxo.amount).sum < 2 ^ 64
  hashes : signingHashes network prepared.pset stormEye stormEyeUtxos.length = .ok prepared.request.signingHashes
  count : prepared.stormEyeInputs = stormEyeUtxos.length
  operation : prepared.operation = operation

theorem buildTransaction_ok (h : VotingReshape.buildTransaction (votingPrograms network) proposer operation stormEye
    stormEyeUtxos treasuryUtxos transactionFeeSats = .ok prepared) :
    BuiltVote network proposer operation stormEye stormEyeUtxos treasuryUtxos prepared := by
  unfold VotingReshape.buildTransaction at h
  obtain ⟨branch, -, h⟩ := Db.except_bind_ok.mp h
  obtain ⟨total, htotal, h⟩ := Db.except_bind_ok.mp h
  obtain ⟨treasury, -, h⟩ := Db.except_bind_ok.mp h
  obtain ⟨-, h⟩ := then_ok.mp h
  dsimp only at h
  obtain ⟨reshaped, hreshaped, h⟩ := Db.except_bind_ok.mp h
  obtain ⟨hashes, hhashes, h⟩ := Db.except_bind_ok.mp h
  cases h
  obtain ⟨rfl, hfits⟩ := sumAmounts_ok htotal
  refine ⟨rfl, ⟨reshaped, ?_, ?_, hreshaped⟩, hfits, hhashes, rfl, rfl⟩
  · exact (if 0 < treasury - transactionFeeSats then
      [.new (VotingReshape.treasuryScript (votingPrograms network) stormEye) (treasury - transactionFeeSats) network.policyAsset]
      else []) ++ (VotingReshape.memberMarker (votingPrograms network) proposer operation ++
        [.new [] transactionFeeSats network.policyAsset])
  · dsimp only
    rw [List.append_assoc, List.append_assoc]
    rfl

theorem migratedStormEyeScript_ok {newRoot : Bytes32} {script : List UInt8}
    (hdata : Assets.stormEyeContractData stormEye = .ok data)
    (h : migratedStormEyeScript network stormEye newRoot = .ok script) :
    script = taprootScript (network.rules.authKey { data with stormTreeRoot := newRoot }) := by
  unfold migratedStormEyeScript at h
  obtain ⟨migrated, hmigrated, h⟩ := Db.except_bind_ok.mp h
  cases h
  unfold migratedStormEye at hmigrated
  obtain ⟨decoded, hdecoded, hmigrated⟩ := Db.except_bind_ok.mp hmigrated
  rw [contractData_ok, hdata] at hdecoded
  cases hdecoded
  dsimp only at hmigrated
  obtain ⟨built, hbuilt, hmigrated⟩ := Db.except_bind_ok.mp hmigrated
  cases hmigrated
  exact Assets.stormEyeScript_encode (mapError_ok.mp hbuilt)

/-- Each operation puts its outputs where its path of the covenant looks for them. -/
theorem reshapeKind_accepted (hlaw : network.Lawful) (hdata : Assets.stormEyeContractData stormEye = .ok data)
    (hscript : stormEye.contractScript = taprootScript (network.rules.authKey data))
    (hbounded : VotingReshape.Bounded operation) (hlive : ∀ utxo ∈ stormEyeUtxos, IsLive stormEye utxo)
    (hcounted : Counted operation stormEyeUtxos)
    (hbuilt : BuiltVote network proposer operation stormEye stormEyeUtxos treasuryUtxos prepared) {index : ℕ}
    (hindex : index < stormEyeUtxos.length) {env : Env Bytes32}
    (henv : stormEyeEnv network prepared.pset data index = some env) :
    dispatchKind (jets network) network.std (authParams data) env (storage data) (reshapeKind index operation) = some () := by
  obtain ⟨reshaped, rest, houtputs, hreshaped⟩ := hbuilt.outputs
  have hown : stormEyeUtxos[index]? = some stormEyeUtxos[index] := List.getElem?_eq_getElem hindex
  have hutxo : (stormEyeUtxos ++ treasuryUtxos)[index]? = some stormEyeUtxos[index] := by
    rw [List.getElem?_append_left hindex, hown]
  have hone := hlive _ (List.getElem_mem hindex)
  cases operation with
  | merge outpoints =>
    cases hreshaped
    have hcounted : stormEyeUtxos.length = outpoints.length := hcounted
    have hkind : reshapeKind index (.merge outpoints) = .inr (.inr (.inr (UInt8.ofNat stormEyeUtxos.length))) := by
      rw [hcounted]
      rfl
    rw [hkind]
    refine merge_accepted hlaw hscript hbuilt.inputs henv rfl hown hlive hbuilt.amounts ?_ ?_ ?_
    · rw [hcounted]
      exact hbounded.1
    · rw [hcounted]
      exact hbounded.2
    · rw [houtputs]
      rfl
  | split outpoint count =>
    obtain ⟨-, hreshaped⟩ := then_ok.mp hreshaped
    cases hreshaped
    have hfirst : index = 0 := by
      unfold Counted at hcounted
      omega
    have htotal : (stormEyeUtxos.map Utxo.amount).sum = stormEyeUtxos[index].amount := by
      obtain ⟨utxo, rfl⟩ := List.length_eq_one_iff.mp hcounted
      subst hfirst
      exact List.sum_singleton
    refine split_accepted hlaw hscript hbuilt.inputs henv hutxo hfirst hone ?_ hbounded.1 hbounded.2 ?_
    · rw [← htotal]
      exact hbuilt.amounts
    · intro j hj
      rw [houtputs, List.getElem?_append_left (by rwa [List.length_map, List.length_range]), List.getElem?_map,
        List.getElem?_range hj, ← htotal]
      rfl
  | updateMembers members newRoot =>
    obtain ⟨destination, hdestination, hreshaped⟩ := Db.except_bind_ok.mp hreshaped
    obtain ⟨marker, -, hreshaped⟩ := Db.except_bind_ok.mp hreshaped
    cases hreshaped
    obtain rfl := migratedStormEyeScript_ok hdata hdestination
    apply update_accepted hlaw hscript hbuilt.inputs henv hutxo hone
    rw [houtputs, List.append_assoc, List.getElem?_append_left (by rwa [List.length_map]), List.getElem?_map, hown]
    rfl

/-- Verified signatures finalize a vote. -/
theorem finalizeVote_accepted (hlaw : network.Lawful) (hdata : Assets.stormEyeContractData stormEye = .ok data)
    (hscript : stormEye.contractScript = taprootScript (network.rules.authKey data))
    (hbounded : VotingReshape.Bounded operation) (hlive : ∀ utxo ∈ stormEyeUtxos, IsLive stormEye utxo)
    (hcounted : Counted operation stormEyeUtxos)
    (hbuilt : BuiltVote network proposer operation stormEye stormEyeUtxos treasuryUtxos prepared)
    {signing : SigningResult Bytes32 Sig} {proof : Smt.Proof Bytes32}
    (hsigned : Signed network data.stormTreeRoot prepared.request.signingHashes signing proof) :
    ∃ witnesses, finalizeVote network prepared stormEye signing proof = .ok witnesses ∧
      Accepted network prepared.pset stormEye data prepared.stormEyeInputs witnesses := by
  obtain ⟨packed, hpack, hpacked⟩ := packProof_ok hsigned.depth
  have hcount : signing.signatures.length = stormEyeUtxos.length :=
    hsigned.count.trans (signingHashes_ok hdata hbuilt.hashes).1
  have hsome : stormEyeUtxos ≠ [] := by
    rintro rfl
    cases operation with
    | merge outpoints =>
      have hpos := hbounded.1
      unfold Counted at hcounted
      rw [← hcounted] at hpos
      exact absurd hpos (by decide)
    | split outpoint count =>
      have hnone : ([] : List (Utxo Bytes32)).length = 1 := hcounted
      exact absurd hnone (by decide)
    | updateMembers members newRoot => exact hcounted rfl
  have hverified : verifiedSignatures network prepared stormEye signing proof = .ok signing.signatures := by
    unfold verifiedSignatures
    refine then_ok.mpr ⟨require_ok.mpr ⟨hsigned.count, hbuilt.count ▸ hcount⟩, then_ok.mpr ⟨?_, then_ok.mpr ⟨?_, ?_⟩⟩⟩
    · unfold branchKey
      rw [hsigned.key]
      rfl
    · apply forM_ok.mpr
      rintro ⟨signature, hash⟩ hmem
      obtain ⟨i, hi⟩ := List.mem_iff_getElem?.mp hmem
      obtain ⟨hsignature, hhash⟩ := List.getElem?_zip_eq_some.mp hi
      exact require_ok.mpr (hsigned.verifies i signature hash hsignature hhash)
    · exact Db.except_bind_ok.mpr ⟨data, contractData_ok.mpr hdata, then_ok.mpr ⟨require_ok.mpr hsigned.verified, rfl⟩⟩
  have hwitness : ∀ item : Sig × ℕ, reshapeWitness data signing proof prepared.operation item.1 item.2 =
      .ok (authWitness data signing packed item.1 (reshapeKind item.2 operation)) := by
    intro item
    unfold reshapeWitness
    rw [hpack, hbuilt.operation]
    rfl
  obtain ⟨witnesses, hwitnesses⟩ : ∃ witnesses, signing.signatures.zipIdx.mapM (fun item : Sig × ℕ =>
      reshapeWitness data signing proof prepared.operation item.1 item.2) = .ok witnesses :=
    mapM_ok_of_forall fun item _ => ⟨_, hwitness item⟩
  obtain ⟨hlength, hall⟩ := mapM_ok hwitnesses
  rw [List.length_zipIdx, hcount] at hlength
  refine ⟨_, Db.except_bind_ok.mpr ⟨_, hverified, Db.except_bind_ok.mpr ⟨data, contractData_ok.mpr hdata,
    Db.except_bind_ok.mpr ⟨witnesses, hwitnesses, Db.except_bind_ok.mpr ⟨_, ?_, then_ok.mpr ⟨require_ok.mpr rfl, rfl⟩⟩⟩⟩⟩, ?_⟩
  · rw [hbuilt.count]
    exact hbuilt.hashes
  · rw [hbuilt.count]
    refine accepted_of_kinds hlaw hdata hbuilt.inputs hsome hlive hbuilt.hashes hsigned hpacked
      (fun index hindex env henv => reshapeKind_accepted hlaw hdata hscript hbounded hlive hcounted hbuilt hindex henv)
      hlength ?_
    intro index hindex
    have hlt : index < signing.signatures.length := hcount ▸ hindex
    have hsignature := List.getElem?_eq_getElem hlt
    have hitem : signing.signatures.zipIdx[index]? = some (signing.signatures[index], index) := by
      rw [List.getElem?_zipIdx, hsignature, Option.map_some, Nat.zero_add]
    obtain ⟨witness, hat, hone⟩ := hall index _ hitem
    rw [hwitness] at hone
    cases hone
    exact ⟨_, hsignature, hat⟩

end Votes

section Renewals

variable {network : CovenantNetwork Sig E} {view : RenewalView} {stormEye renewed : NetworkAsset Bytes32}
  {data : StormEyeContractData} {stormEyeUtxos treasuryUtxos : List (Utxo Bytes32)} {includeMempool : Bool}
  {blockHeight newRescueHeight : ℕ} {prepared : PreparedRenewal}

/-- The next rescue height, or an error where it does not fit the contract. -/
theorem nextStormEyeRescueHeight_eq (height : ℕ) : Assets.nextStormEyeRescueHeight height =
    if height + 1576800 < 2 ^ 32 then .ok (height + 1576800) else .error .rescueHeight := by
  unfold Assets.nextStormEyeRescueHeight Assets.toRescueHeight Assets.saturatingAdd Assets.rescueBlocks
  by_cases hfits : height + 1576800 < 2 ^ 32
  · have hmin : min (height + 1576800) (2 ^ 64 - 1) = height + 1576800 := by omega
    rw [hmin]
  · have hmin : ¬min (height + 1576800) (2 ^ 64 - 1) < 2 ^ 32 := by omega
    rw [if_neg hmin, if_neg hfits]

theorem renewedStormEye_script (hdata : Assets.stormEyeContractData stormEye = .ok data)
    (h : Assets.renewedStormEye network.rules stormEye = .ok renewed) :
    data.rescueHeight + 1576800 < 2 ^ 32 ∧
      renewed.contractScript =
        taprootScript (network.rules.authKey { data with rescueHeight := data.rescueHeight + 1576800 }) ∧
      ∀ renewedData, Assets.stormEyeContractData renewed = .ok renewedData →
        renewedData.rescueHeight = data.rescueHeight + 1576800 := by
  unfold Assets.renewedStormEye at h
  obtain ⟨decoded, hdecoded, h⟩ := Db.except_bind_ok.mp h
  rw [hdata] at hdecoded
  cases hdecoded
  obtain ⟨height, hheight, h⟩ := Db.except_bind_ok.mp h
  dsimp only at h
  obtain ⟨script, hscript, h⟩ := Db.except_bind_ok.mp h
  cases h
  rw [nextStormEyeRescueHeight_eq] at hheight
  split_ifs at hheight with hfits
  cases hheight
  refine ⟨hfits, Assets.stormEyeScript_encode hscript, fun renewedData hrenewed => ?_⟩
  rw [Codec.fromBytes_encode (Assets.stormEyeContractData_ok.mp hrenewed)]

/-- What a renewal's transaction consists of. -/
structure BuiltRenewal (network : CovenantNetwork Sig E) (stormEye : NetworkAsset Bytes32) (data : StormEyeContractData)
    (stormEyeUtxos treasuryUtxos : List (Utxo Bytes32)) (prepared : PreparedRenewal) : Prop where
  inputs : prepared.pset.inputs = (stormEyeUtxos ++ treasuryUtxos).map .new
  outputs : ∃ rest, prepared.pset.outputs = stormEyeUtxos.map (fun utxo =>
    .new (taprootScript (network.rules.authKey { data with rescueHeight := prepared.request.newRescueHeight })) utxo.amount
      stormEye.assetId) ++ rest
  height : prepared.request.newRescueHeight = data.rescueHeight + Assets.rescueBlocks
  fits : prepared.request.newRescueHeight < 2 ^ 32
  hashes : signingHashes network prepared.pset stormEye stormEyeUtxos.length = .ok prepared.request.signingHashes
  count : prepared.stormEyeInputs = stormEyeUtxos.length
  stormEye : prepared.oldStormEye = stormEye

theorem buildRenewal_ok (hdata : Assets.stormEyeContractData stormEye = .ok data)
    (h : Renewal.buildTransaction (renewalPrograms network) view blockHeight newRescueHeight stormEye stormEyeUtxos
      treasuryUtxos = .ok prepared) : BuiltRenewal network stormEye data stormEyeUtxos treasuryUtxos prepared := by
  unfold Renewal.buildTransaction at h
  obtain ⟨current, -, h⟩ := Db.except_bind_ok.mp h
  obtain ⟨-, h⟩ := then_ok.mp h
  obtain ⟨renewed, hrenewed, h⟩ := Db.except_bind_ok.mp h
  obtain ⟨renewedData, hrenewedData, h⟩ := Db.except_bind_ok.mp h
  obtain ⟨hheight, h⟩ := then_ok.mp h
  obtain ⟨treasury, -, h⟩ := Db.except_bind_ok.mp h
  obtain ⟨-, h⟩ := then_ok.mp h
  dsimp only at h
  obtain ⟨hashes, hhashes, h⟩ := Db.except_bind_ok.mp h
  cases h
  obtain ⟨hfits, hscript, hnext⟩ := renewedStormEye_script hdata (mapError_ok.mp hrenewed)
  have hnew : newRescueHeight = data.rescueHeight + 1576800 :=
    (require_ok.mp hheight).symm.trans (hnext _ (mapError_ok.mp hrenewedData))
  refine ⟨rfl, ?_, hnew, ?_, mapError_ok.mp hhashes, rfl, rfl⟩
  · unfold Renewal.renewalOutputs
    dsimp only
    rw [hscript, hnew, List.append_assoc]
    exact ⟨_, rfl⟩
  · dsimp only
    rwa [hnew]

/-- Verified signatures finalize a renewal. -/
theorem finalizeRenewal_accepted (hlaw : network.Lawful) (hdata : Assets.stormEyeContractData stormEye = .ok data)
    (hscript : stormEye.contractScript = taprootScript (network.rules.authKey data))
    (hlive : ∀ utxo ∈ stormEyeUtxos, IsLive stormEye utxo) (hsome : stormEyeUtxos ≠ [])
    (hbuilt : BuiltRenewal network stormEye data stormEyeUtxos treasuryUtxos prepared)
    {signing : SigningResult Bytes32 Sig} {proof : Smt.Proof Bytes32}
    (hsigned : Signed network data.stormTreeRoot prepared.request.signingHashes signing proof) :
    ∃ witnesses, finalizeRenewal network prepared signing proof = .ok witnesses ∧
      Accepted network prepared.pset stormEye data stormEyeUtxos.length witnesses := by
  obtain ⟨packed, hpack, hpacked⟩ := packProof_ok hsigned.depth
  have hcount : signing.signatures.length = stormEyeUtxos.length :=
    hsigned.count.trans (signingHashes_ok hdata hbuilt.hashes).1
  let kind (index : ℕ) : AuthCovenant.AuthKind Bytes32 :=
    .inr (.inl (.inr (UInt32.ofNat prepared.request.newRescueHeight, UInt32.ofNat index)))
  have hwitness : ∀ item ∈ (signing.signatures.zip prepared.request.signingHashes).zipIdx,
      renewalSignature network prepared signing proof data item =
        .ok (authWitness data signing packed item.1.1 (kind item.2)) := by
    rintro ⟨⟨signature, hash⟩, i⟩ hmem
    obtain ⟨hsignature, hhash⟩ := List.getElem?_zip_eq_some.mp (List.mem_zipIdx_iff_getElem?.mp hmem)
    have hverified : require ((jets network).bip0340Verify (signing.signingStormTreeBranch, hash) signature = true)
        (RenewalError.invalid "Storm Eye signature verification failed") = .ok () :=
      require_ok.mpr (hsigned.verifies i signature hash hsignature hhash)
    refine then_ok.mpr ⟨hverified, Db.except_bind_ok.mpr ⟨packed, ?_, rfl⟩⟩
    rw [hpack]
    rfl
  obtain ⟨witnesses, hwitnesses⟩ := mapM_ok_of_forall fun item hitem => ⟨_, hwitness item hitem⟩
  obtain ⟨hlength, hall⟩ := mapM_ok hwitnesses
  rw [List.length_zipIdx, List.length_zip, ← hsigned.count, Nat.min_self, hcount] at hlength
  have hkey : (network.rules.keys.fromByteArray signing.signingStormTreeBranch).mapError
      (fun _ => RenewalError.invalid "invalid Storm Eye signing branch") = .ok () := by
    rw [hsigned.key]
    rfl
  have hfinal : finalizeRenewal network prepared signing proof =
      .ok (witnesses ++ treasuryWitnesses prepared.pset prepared.stormEyeInputs) := by
    unfold finalizeRenewal
    refine then_ok.mpr ⟨require_ok.mpr ⟨hbuilt.count ▸ hcount, hsigned.count⟩, Db.except_bind_ok.mpr ⟨data, ?_,
      then_ok.mpr ⟨require_ok.mpr hsigned.verified, then_ok.mpr ⟨hkey, Db.except_bind_ok.mpr ⟨witnesses, hwitnesses,
        Db.except_bind_ok.mpr ⟨prepared.request.signingHashes, ?_, then_ok.mpr ⟨require_ok.mpr rfl, rfl⟩⟩⟩⟩⟩⟩⟩
    · rw [hbuilt.stormEye]
      exact mapError_ok.mpr hdata
    · rw [hbuilt.stormEye, hbuilt.count]
      exact mapError_ok.mpr hbuilt.hashes
  refine ⟨_, hfinal, ?_⟩
  rw [hbuilt.count]
  refine @accepted_of_kinds _ _ _ _ _ _ _ _ _ _ _ hlaw hdata hbuilt.inputs hsome hlive hbuilt.hashes hsigned packed hpacked kind
    ?_ _ hlength ?_
  · intro index hindex env henv
    obtain ⟨rest, houtputs⟩ := hbuilt.outputs
    have hown : stormEyeUtxos[index]? = some stormEyeUtxos[index] := List.getElem?_eq_getElem hindex
    have hutxo : (stormEyeUtxos ++ treasuryUtxos)[index]? = some stormEyeUtxos[index] := by
      rw [List.getElem?_append_left hindex, hown]
    refine renewal_accepted hlaw hscript hbuilt.inputs henv hutxo (hlive _ (List.getElem_mem hindex)) hbuilt.height
      hbuilt.fits ?_
    rw [houtputs, List.getElem?_append_left (by rwa [List.length_map]), List.getElem?_map, hown]
    rfl
  · intro index hindex
    have hlt : index < signing.signatures.length := hcount ▸ hindex
    have hhash : index < prepared.request.signingHashes.length := hsigned.count ▸ hlt
    have hitem : (signing.signatures.zip prepared.request.signingHashes).zipIdx[index]? =
        some ((signing.signatures[index], prepared.request.signingHashes[index]), index) := by
      have hpair : (signing.signatures.zip prepared.request.signingHashes)[index]? =
          some (signing.signatures[index], prepared.request.signingHashes[index]) :=
        List.getElem?_zip_eq_some.mpr ⟨List.getElem?_eq_getElem hlt, List.getElem?_eq_getElem hhash⟩
      rw [List.getElem?_zipIdx, hpair, Option.map_some, Nat.zero_add]
    obtain ⟨witness, hat, hone⟩ := hall index _ hitem
    rw [hwitness _ (List.mem_of_getElem? hitem)] at hone
    cases hone
    exact ⟨_, List.getElem?_eq_getElem hlt, hat⟩

end Renewals

/-- Every reshape and every renewal that a node builds of live Storm Eyes, once signed, is accepted at all its inputs;
a renewal moves to the script that the covenant demands for the next rescue height, which is an error where it does
not fit. -/
theorem built_spends_accepted (network : CovenantNetwork Sig E) (hlaw : network.Lawful) (stormEye : NetworkAsset Bytes32)
    (data : StormEyeContractData) (hdata : Assets.stormEyeContractData stormEye = .ok data)
    (hscript : Assets.stormEyeScript network.rules stormEye = .ok stormEye.contractScript) :
    (∀ (view : VotingView Bytes32) (message : Bytes) (currentMembers : List Bytes32) (operation : ReshapeOperation Bytes32)
        (stormEyeUtxos treasuryUtxos : List (Utxo Bytes32)) (proposer : Bytes32) (transactionFeeSats : ℕ)
        (prepared : PreparedVotingExecution Bytes32) (signing : SigningResult Bytes32 Sig) (proof : Smt.Proof Bytes32),
        VotingReshape.decodeOperation (votingPrograms network) message currentMembers = .ok operation →
        VotingReshape.operationUtxos view stormEye operation = .ok stormEyeUtxos →
        VotingReshape.buildTransaction (votingPrograms network) proposer operation stormEye stormEyeUtxos treasuryUtxos
          transactionFeeSats = .ok prepared →
        Signed network data.stormTreeRoot prepared.request.signingHashes signing proof →
        ∃ witnesses, finalizeVote network prepared stormEye signing proof = .ok witnesses ∧
          Accepted network prepared.pset stormEye data stormEyeUtxos.length witnesses) ∧
    (∀ (view : RenewalView) (includeMempool : Bool) (blockHeight newRescueHeight : ℕ)
        (stormEyeUtxos treasuryUtxos : List (Utxo Bytes32)) (prepared : PreparedRenewal)
        (signing : SigningResult Bytes32 Sig) (proof : Smt.Proof Bytes32),
        Renewal.scanStormEyeUtxos view includeMempool stormEye = .ok stormEyeUtxos →
        Renewal.buildTransaction (renewalPrograms network) view blockHeight newRescueHeight stormEye stormEyeUtxos
          treasuryUtxos = .ok prepared →
        Signed network data.stormTreeRoot prepared.request.signingHashes signing proof →
        ∃ witnesses, finalizeRenewal network prepared signing proof = .ok witnesses ∧
          Accepted network prepared.pset stormEye data stormEyeUtxos.length witnesses) ∧
    (∀ renewed, Assets.renewedStormEye network.rules stormEye = .ok renewed →
      data.rescueHeight + 1576800 < 2 ^ 32 ∧ ∀ env : Env Bytes32,
        env.tapleafHash = network.authLeaf data.rescueOutputScriptHash →
          (jets network).sha256 renewed.contractScript = scriptHashFor (jets network) network.std env
            (data.stormTreeRoot, UInt32.ofNat (data.rescueHeight + 1576800))) ∧
    ∀ height, Assets.nextStormEyeRescueHeight height =
      if height + 1576800 < 2 ^ 32 then .ok (height + 1576800) else .error .rescueHeight := by
  have hkey : stormEye.contractScript = taprootScript (network.rules.authKey data) := by
    obtain ⟨decoded, hdecoded, hown⟩ := Assets.stormEyeScript_ok.mp hscript
    rw [hdata] at hdecoded
    cases hdecoded
    exact hown.symm
  refine ⟨?_, ?_, ?_, nextStormEyeRescueHeight_eq⟩
  · intro view message currentMembers operation stormEyeUtxos treasuryUtxos proposer transactionFeeSats prepared signing
      proof hdecoded hutxos hbuild hsigned
    obtain ⟨hlive, hcounted⟩ := operationUtxos_ok hutxos
    have hbuilt := buildTransaction_ok hbuild
    have hfinal := finalizeVote_accepted hlaw hdata hkey (VotingReshape.decodeOperation_bounded hdecoded) hlive hcounted
      hbuilt hsigned
    rwa [hbuilt.count] at hfinal
  · intro view includeMempool blockHeight newRescueHeight stormEyeUtxos treasuryUtxos prepared signing proof hscan hbuild
      hsigned
    obtain ⟨hsome, hall⟩ := Renewal.scanStormEyeUtxos_ok hscan
    exact finalizeRenewal_accepted hlaw hdata hkey (fun utxo hutxo => (hall utxo hutxo).2) hsome
      (buildRenewal_ok hdata hbuild) hsigned
  · intro renewed hrenewed
    obtain ⟨hfits, hrenewedScript, -⟩ := renewedStormEye_script hdata hrenewed
    refine ⟨hfits, fun env hleaf => ?_⟩
    rw [hrenewedScript]
    exact sha256_authScript hlaw hleaf

section Machine

open Sha256

/-- SHA-256 over arrays of 32 bytes. The curve is not read; the tweak stands for it. -/
def machineJets : Jets Bytes32 Unit where
  lit n := ofWord (Word256.ofNat n)
  bytes := Vector.toList
  sha256 bytes := ofWord (sha256 bytes)
  sha256Iv := ofWord initialValue
  sha256Block state first second := ofWord (Sha256.compress (toWord state) ((toWord first).words ++ (toWord second).words))
  buildTapbranch left right := ofWord (sha256 (left.toList ++ right.toList))
  buildTaptweak key node := ofWord (sha256 (key.toList ++ node.toList))
  sigAllHash env := ofWord (sha256 (env.tx.outputs.flatMap fun output => output.scriptHash.toList))
  bip0340Verify _ _ := true

def machineLeaf (rescueOutputScriptHash : Bytes32) : Bytes32 := ofWord (sha256 (0xc4 :: rescueOutputScriptHash.toList))

/-- A slot of the storage, as a leaf. -/
def machineSlot (bytes : List UInt8) : Bytes32 := machineJets.sha256 (machineJets.tapdataInit ++ bytes)

def machineNetwork : CovenantNetwork Unit Unit where
  policyAsset := Assets.examplePolicyAsset
  rules := { Assets.exampleRules with
    jets := machineJets
    authKey := fun data => machineJets.buildTaptweak
      (machineJets.lit 0x50929b74c1a04954b78b4b6035e97a5e078a5a0f28ec96d547bfee9ace803ac0)
      (machineJets.buildTapbranch (machineJets.buildTapbranch (machineLeaf data.rescueOutputScriptHash)
        (machineSlot data.stormTreeRoot.toList)) (machineSlot (rescueBlockSlot data.rescueHeight))) }
  std := Std.documented fun height => ⟨(rescueBlockSlot height.toNat).toArray, by simp [rescueBlockSlot, bigEndianBytes]⟩
  header := ⟨2, 0, 0xffffffff⟩
  authLeaf := machineLeaf
  treasuryLeaf := machineLeaf

theorem machineNetwork_lawful : machineNetwork.Lawful where
  authKey _ := rfl
  bytes _ := rfl
  u32ToU256 _ := rfl
  midstate message := by
    have htag : machineJets.sha256 "OracleNetworkV1/StormEye".toUTF8.toList = ofWord CovenantHashing.stormEyeTagHash :=
      congrArg ofWord CovenantHashing.sha256_stormEyeTag
    have hdigest : taggedDigest machineNetwork "OracleNetworkV1/StormEye" message =
        ofWord (sha256 (CovenantHashing.stormEyeTagHash.bytes ++ CovenantHashing.stormEyeTagHash.bytes ++ (toWord message).bytes)) := by
      unfold taggedDigest
      change machineJets.sha256 (machineJets.bytes (machineJets.sha256 "OracleNetworkV1/StormEye".toUTF8.toList) ++
        machineJets.bytes (machineJets.sha256 "OracleNetworkV1/StormEye".toUTF8.toList) ++ message.toList) = _
      rw [htag, bytes_toWord]
      rfl
    rw [hdigest, CovenantHashing.sha256_tagged, CovenantHashing.compress_stormEyeTag]
    change ofWord (Sha256.compress (toWord (ofWord _)) ((toWord message).words ++ (toWord (ofWord _)).words)) = _
    rw [toWord_ofWord, toWord_ofWord]

end Machine

section Example

open Assets (exampleKey examplePolicyAsset)

def exampleBranch : Bytes32 := exampleKey 5

def exampleProof : Smt.Proof Bytes32 where
  leaf := exampleBranch
  root := Smt.processProof machineJets exampleBranch [(false, exampleKey 9)]
  siblings := [(false, exampleKey 9)]

def splitData : StormEyeContractData := ⟨exampleProof.root, 50000, exampleKey 4⟩

def splitStormEye : NetworkAsset Bytes32 where
  kind := Indexer.stormEyeKind
  name := "Storm Eye"
  assetId := exampleKey 1
  reissuanceTokenId := none
  entropy := none
  issuanceTxid := exampleKey 9
  contractScript := taprootScript (machineNetwork.rules.authKey splitData)
  contractData := some (StormEyeContractData.codec.encode splitData)
  supply := 10000
  createdAtBlock := 5

def splitMessage : Bytes :=
  NodeMessage.codec.encode (NodeMessage.newVotingRequest (VotingInstruction.splitStormEye ⟨⟨exampleKey 10, 1⟩, 3⟩).request 100)

def splitUtxo : Utxo Bytes32 := ⟨(exampleKey 10, 1), exampleKey 1, 10000, splitStormEye.contractScript⟩

def splitTreasury : Utxo Bytes32 :=
  ⟨(exampleKey 12, 0), examplePolicyAsset, 5000, VotingReshape.treasuryScript (votingPrograms machineNetwork) splitStormEye⟩

def splitView : VotingView Bytes32 where
  node := ⟨fun _ outpoint => .ok (([splitUtxo, splitTreasury].find? fun utxo => utxo.outpoint = outpoint).map fun utxo =>
    (utxo.asset, utxo.amount, utxo.scriptPubkey)), fun _ => .ok []⟩
  rawTransaction _ := .error "no such transaction"
  stormEye := some splitStormEye
  indexedTreasury := [((exampleKey 12, 0), 5000)]
  transactionFeeSats := 300

theorem splitStormEye_data : Assets.stormEyeContractData splitStormEye = .ok splitData := by
  apply Assets.stormEyeContractData_ok.mpr
  exact Codec.fromBytes_of_admits (Codec.struct_admits (Codec.pair_admits (Codec.array_admits _)
    (Codec.pair_admits (Codec.u32_admits (by decide)) (Codec.array_admits _))))

theorem operationUtxos_split :
    VotingReshape.operationUtxos splitView splitStormEye (.split (exampleKey 10, 1) 3) = .ok [splitUtxo] := by
  have hfound : ([splitUtxo, splitTreasury].find? fun utxo => utxo.outpoint = (exampleKey 10, 1)) = some splitUtxo :=
    List.find?_cons_of_pos (decide_eq_true rfl)
  have hlive : splitView.node.explicitOutpoint (exampleKey 10, 1) = .ok splitUtxo := by
    unfold ElementsNode.explicitOutpoint ElementsNode.optionalOutpoint splitView
    dsimp only
    rw [hfound]
    rfl
  change [(exampleKey 10, 1)].mapM (VotingReshape.approvedStormEye splitView splitStormEye) = _
  rw [List.mapM_cons, approvedStormEye_eq_ok hlive rfl rfl]
  rfl

/-- A Storm Eye of 10000 units in three parts. -/
theorem built_spends_accepted_split : ∃ prepared witnesses,
    VotingReshape.buildTransaction (votingPrograms machineNetwork) (exampleKey 6) (.split (exampleKey 10, 1) 3) splitStormEye
      [splitUtxo] [splitTreasury] 300 = .ok prepared ∧
    finalizeVote machineNetwork prepared splitStormEye ⟨exampleKey 0, exampleBranch, [()]⟩ exampleProof = .ok witnesses ∧
      Accepted machineNetwork prepared.pset splitStormEye splitData 1 witnesses := by
  obtain ⟨prepared, hbuild⟩ : ∃ prepared, VotingReshape.buildTransaction (votingPrograms machineNetwork) (exampleKey 6)
      (.split (exampleKey 10, 1) 3) splitStormEye [splitUtxo] [splitTreasury] 300 = .ok prepared := by
    apply exists_of_isOk
    decide +kernel
  have hlength := (signingHashes_ok splitStormEye_data (buildTransaction_ok hbuild).hashes).1
  obtain ⟨witnesses, hfinal, haccepted⟩ := (built_spends_accepted machineNetwork machineNetwork_lawful splitStormEye splitData
    splitStormEye_data (Assets.stormEyeScript_ok.mpr ⟨splitData, splitStormEye_data, rfl⟩)).1 splitView splitMessage [] _ [splitUtxo] [splitTreasury]
    (exampleKey 6) 300 prepared ⟨exampleKey 0, exampleBranch, [()]⟩ exampleProof (by decide +kernel) operationUtxos_split hbuild
    ⟨by rw [hlength]; rfl, rfl, fun _ _ _ _ _ => rfl, StormTree.verifyBranch_iff.mpr ⟨rfl, rfl, rfl⟩, by decide⟩
  exact ⟨prepared, witnesses, hbuild, hfinal, haccepted⟩

end Example

end StormEyeSpends

end PriceOracle
