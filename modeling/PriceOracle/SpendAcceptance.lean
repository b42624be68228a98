import PriceOracle.RenewalAgreement
import PriceOracle.ReshapeValidator
import PriceOracle.Sha256Digest
import PriceOracle.StormEyeSpends

/-!
# Reshapes and renewals satisfy the covenants

Each input of a built transaction, with the witness that `finalize` attaches, is accepted by its covenant. The outputs
stand where the path of the input looks for them.
-/

namespace PriceOracle

open StormEyeSpends

/-- What the compiled covenants and the library do, as they are documented. -/
structure CovenantNetwork.Lawful {Sig E : Type} (network : CovenantNetwork Sig E) : Prop where
  /-- The covenant's Taproot output: the program's leaf, and a leaf for each slot of its storage. -/
  authKey : ∀ data, network.rules.authKey data = (jets network).buildTaptweak
    ((jets network).lit 0x50929b74c1a04954b78b4b6035e97a5e078a5a0f28ec96d547bfee9ace803ac0)
    ((jets network).buildTapbranch
      ((jets network).buildTapbranch (network.authLeaf data.rescueOutputScriptHash)
        ((jets network).sha256 ((jets network).tapdataInit ++ data.stormTreeRoot.toList)))
      ((jets network).sha256 ((jets network).tapdataInit ++ rescueBlockSlot data.rescueHeight)))
  bytes : ∀ word, (jets network).bytes word = word.toList
  /-- A widened number has its bytes at the end. -/
  u32ToU256 : ∀ height : UInt32, (network.std.u32ToU256 height).toList = rescueBlockSlot height.toNat
  /-- The midstate has the tag absorbed twice. -/
  midstate : ∀ message, (jets network).sha256Block (StormTreeCovenant.stormEyeMidstate (jets network)) message
    (StormTreeCovenant.padding96Tail (jets network)) = taggedDigest network "OracleNetworkV1/StormEye" message

namespace StormEyeSpends

open AuthCovenant (scriptHashFor Pays dispatchKind)
open StormTreeCovenant (arrayFold getStormTreeLeaf assertNetworkAuthorization getSigningMessage)

section Proofs

/-- The steps of a packed proof are its levels, then unused ones. -/
theorem packProof_ok {proof : Smt.Proof Bytes32} (h : proof.siblings.length ≤ StormTreeWitness.witnessDepth) :
    ∃ packed, packProof proof = .ok packed ∧ StormTreeCovenant.usedLevels packed.toList = proof.siblings := by
  refine ⟨_, if_neg (Nat.not_lt.mpr h), ?_⟩
  have hsteps : (Vector.ofFn fun index : Fin 17 => StormTreeWitness.packStep proof.siblings[index.val]?).toList =
      (proof.siblings.map some ++ List.replicate (17 - proof.siblings.length) none).map StormTreeWitness.packStep := by
    apply List.ext_getElem
    · have h : proof.siblings.length ≤ 17 := h
      simp only [Vector.length_toList, List.length_map, List.length_append, List.length_replicate]
      omega
    · intro i hi _
      simp only [Vector.getElem_toList, Vector.getElem_ofFn, List.getElem_map, List.getElem_append, List.length_map,
        List.getElem_replicate]
      split_ifs with hlevel
      · rw [List.getElem?_eq_getElem hlevel]
      · rw [List.getElem?_eq_none (Nat.not_lt.mp hlevel)]
  rw [hsteps]
  exact StormTreeWitness.usedLevels_pack _ _

/-- A branch that the node verifies folds to the root in the covenant. -/
theorem arrayFold_packed {Sig : Type} (J : Jets Bytes32 Sig) {root branch : Bytes32} {proof : Smt.Proof Bytes32}
    {packed : PackedStormTreeProof} (hverified : StormTree.verifyBranch J root branch proof = true)
    (hpacked : StormTreeCovenant.usedLevels packed.toList = proof.siblings) :
    arrayFold J packed (getStormTreeLeaf J branch) = root := by
  unfold StormTree.verifyBranch at hverified
  obtain ⟨rfl, rfl, hproof⟩ := of_decide_eq_true hverified
  rw [StormTreeCovenant.arrayFold_eq, hpacked]
  exact of_decide_eq_true hproof

end Proofs

section Scripts

theorem rescueBlockSlot_ofNat (height : ℕ) : rescueBlockSlot (UInt32.ofNat height).toNat = rescueBlockSlot height := by
  unfold rescueBlockSlot
  rw [UInt32.toNat_ofNat', show 2 ^ 32 = 256 ^ 4 from rfl, Sha256.bigEndianBytes_mod]

variable {Sig E : Type} {network : CovenantNetwork Sig E} (hlaw : network.Lawful)

include hlaw

/-- The script of a Storm Eye hashes to what the covenant computes for its storage. -/
theorem sha256_authScript {env : Env Bytes32} {data : StormEyeContractData}
    (hleaf : env.tapleafHash = network.authLeaf data.rescueOutputScriptHash) :
    (jets network).sha256 (taprootScript (network.rules.authKey data)) =
      scriptHashFor (jets network) network.std env (data.stormTreeRoot, UInt32.ofNat data.rescueHeight) := by
  have hslot := hlaw.u32ToU256 (UInt32.ofNat data.rescueHeight)
  rw [rescueBlockSlot_ofNat] at hslot
  unfold scriptHashFor StormTreeCovenant.getScriptHashForStorage StormTreeCovenant.getP2trScriptHash
    StormTreeCovenant.getMerkleRootSlotLeaf StormTreeCovenant.getRescueBlockSlotLeaf StormTreeCovenant.getSlotLeaf
    Jets.sha256Ctx8Finalize Jets.sha256Ctx8Add32
  dsimp only
  rw [hlaw.authKey, hleaf, hlaw.bytes, hlaw.bytes, hlaw.bytes, hslot]
  rfl

end Scripts

section Environments

variable {Sig E : Type} {network : CovenantNetwork Sig E} {pset : Pset Bytes32} {data : StormEyeContractData}
  {utxos : List (Utxo Bytes32)} {index : ℕ} {env : Env Bytes32}

/-- The input a program guards spends the UTXO it was built from. -/
theorem current_new {leaf : Bytes32} {utxo : Utxo Bytes32} (hinputs : pset.inputs = utxos.map .new)
    (h : pset.env (jets network) network.header leaf index = some env) (hutxo : utxos[index]? = some utxo) :
    env.current = utxo.txout.txIn (jets network) network.header := by
  obtain ⟨-, hindex, -, -⟩ := Pset.env_spec h
  have hcurrent : env.tx.inputs[env.index.val]? = some env.current := List.getElem?_eq_getElem env.index.isLt
  rw [hindex, Pset.env_new hinputs h, List.getElem?_map, hutxo] at hcurrent
  exact (Option.some.inj hcurrent).symm

/-- An output as it was built. -/
theorem pays_new {leaf asset : Bytes32} {script : List UInt8} {position amount : ℕ}
    (h : pset.env (jets network) network.header leaf index = some env)
    (houtput : pset.outputs[position]? = some (.new script amount asset)) (hasset : env.current.asset = .explicit asset) :
    Pays env position (UInt64.ofNat amount) ((jets network).sha256 script) := by
  obtain ⟨-, -, houtputs, -⟩ := Pset.env_spec h
  refine ⟨(PsetOutput.new script amount asset).toTxout.txOut (jets network), asset, ?_, hasset, rfl, rfl, rfl⟩
  rw [houtputs, List.getElem?_map, houtput]
  rfl

/-- Any number of signing hashes are those of the environments of the inputs. -/
theorem signingHashes_ok {stormEye : NetworkAsset Bytes32} {count : ℕ} {hashes : List Bytes32}
    (hdata : Assets.stormEyeContractData stormEye = .ok data)
    (h : signingHashes network pset stormEye count = .ok hashes) :
    hashes.length = count ∧ ∀ i < count, ∃ env, stormEyeEnv network pset data i = some env ∧
      hashes[i]? = some (taggedDigest network "OracleNetworkV1/StormEye" ((jets network).sigAllHash env)) := by
  unfold signingHashes at h
  obtain ⟨decoded, hdecoded, h⟩ := Db.except_bind_ok.mp h
  rw [hdata] at hdecoded
  cases hdecoded
  obtain ⟨hlength, hall⟩ := mapM_ok h
  rw [List.length_range] at hlength
  refine ⟨hlength, fun i hi => ?_⟩
  obtain ⟨hash, hhash, hsigned⟩ := hall i i (List.getElem?_range hi)
  unfold signingHash at hsigned
  cases henv : stormEyeEnv network pset data i with
  | none =>
    rw [henv] at hsigned
    cases hsigned
  | some env =>
    rw [henv] at hsigned
    cases hsigned
    exact ⟨env, rfl, hhash⟩

end Environments

section Amounts

/-- Amounts whose total fits 64 bits add up as words. -/
theorem sum_toNat {amounts : List ℕ} (h : amounts.sum < 2 ^ 64) :
    ∑ j ∈ Finset.range amounts.length, (UInt64.ofNat (amounts.getD j 0)).toNat = amounts.sum := by
  induction amounts with
  | nil => rfl
  | cons amount amounts ih =>
    rw [List.sum_cons] at h ⊢
    rw [List.length_cons, Finset.sum_range_succ', add_comm]
    have hrest := ih (by omega)
    have hfirst : (UInt64.ofNat amount).toNat = amount := by
      rw [UInt64.toNat_ofNat', Nat.mod_eq_of_lt (by omega)]
    simp only [List.getD_cons_succ, List.getD_cons_zero]
    rw [hrest, hfirst]

theorem sumAmounts_ok {utxos : List (Utxo Bytes32)} {message : String} {total : ℕ}
    (h : VotingReshape.sumAmounts utxos message = .ok total) : total = (utxos.map Utxo.amount).sum ∧ total < 2 ^ 64 := by
  have hsteps : ∀ {start total : ℕ}, start < 2 ^ 64 →
      utxos.foldlM (fun total utxo => VotingReshape.addAmount total utxo.amount message) start = .ok total →
        total = start + (utxos.map Utxo.amount).sum ∧ total < 2 ^ 64 := by
    clear h
    induction utxos with
    | nil =>
      rintro start total hstart ⟨⟩
      exact ⟨rfl, hstart⟩
    | cons utxo utxos ih =>
      intro start total _ h
      rw [List.foldlM_cons] at h
      obtain ⟨next, hnext, h⟩ := Db.except_bind_ok.mp h
      obtain ⟨rfl, hfits⟩ := VotingReshape.addAmount_ok.mp hnext
      obtain ⟨rfl, htotal⟩ := ih hfits h
      rw [List.map_cons, List.sum_cons, ← Nat.add_assoc]
      exact ⟨rfl, htotal⟩
  have hsum := hsteps (by decide) h
  rwa [Nat.zero_add] at hsum

end Amounts

section StormEyes

variable {Sig E : Type} {network : CovenantNetwork Sig E} {pset : Pset Bytes32} {data : StormEyeContractData}
  {stormEye : NetworkAsset Bytes32} {utxos : List (Utxo Bytes32)} {index : ℕ} {env : Env Bytes32}

/-- A UTXO of the Storm Eye's asset under its covenant. -/
def IsLive (stormEye : NetworkAsset Bytes32) (utxo : Utxo Bytes32) : Prop :=
  utxo.asset = stormEye.assetId ∧ utxo.scriptPubkey = stormEye.contractScript

/-- The covenant's storage, as the contract data have it. -/
def storage (data : StormEyeContractData) : AuthCovenant.Storage Bytes32 := (data.stormTreeRoot, UInt32.ofNat data.rescueHeight)

variable (hlaw : network.Lawful) (hscript : stormEye.contractScript = taprootScript (network.rules.authKey data))
  (hinputs : pset.inputs = utxos.map .new) (henv : stormEyeEnv network pset data index = some env)

include hlaw hscript hinputs henv

/-- What the covenant sees at a Storm Eye. -/
theorem stormEye_seen {utxo : Utxo Bytes32} (hutxo : utxos[index]? = some utxo) (hlive : IsLive stormEye utxo) :
    env.current.asset = .explicit stormEye.assetId ∧ env.current.amount = .explicit (UInt64.ofNat utxo.amount) ∧
      env.currentScriptHash = (jets network).sha256 stormEye.contractScript ∧
      env.currentScriptHash = scriptHashFor (jets network) network.std env (storage data) := by
  have hcurrent := current_new hinputs henv hutxo
  have hhash : env.currentScriptHash = (jets network).sha256 stormEye.contractScript := by
    unfold Env.currentScriptHash
    rw [hcurrent, ← hlive.2]
    rfl
  refine ⟨?_, ?_, hhash, ?_⟩
  · rw [hcurrent, ← hlive.1]
    rfl
  · rw [hcurrent]
    rfl
  · rw [hhash, hscript]
    exact sha256_authScript hlaw (Pset.env_spec henv).1

omit hlaw hscript in
theorem index_toNat (hindex : index < utxos.length) : (UInt32.ofNat index).toNat = index := by
  have hcount := env.tx.inputs_lt
  rw [Pset.env_new hinputs henv, List.length_map] at hcount
  rw [UInt32.toNat_ofNat', Nat.mod_eq_of_lt (by omega)]

/-- An output under the covenant of other contract data. -/
theorem pays_moved {moved : StormEyeContractData} {utxo : Utxo Bytes32} (hutxo : utxos[index]? = some utxo)
    (hlive : IsLive stormEye utxo) (hrescue : moved.rescueOutputScriptHash = data.rescueOutputScriptHash)
    (houtput : pset.outputs[index]? = some (.new (taprootScript (network.rules.authKey moved)) utxo.amount stormEye.assetId)) :
    Pays env (UInt32.ofNat index).toNat (UInt64.ofNat utxo.amount)
      (scriptHashFor (jets network) network.std env (storage moved)) := by
  obtain ⟨hasset, -⟩ := stormEye_seen hlaw hscript hinputs henv hutxo hlive
  have hleaf : env.tapleafHash = network.authLeaf moved.rescueOutputScriptHash := by
    rw [hrescue]
    exact (Pset.env_spec henv).1
  rw [index_toNat hinputs henv (List.getElem?_eq_some_iff.mp hutxo).1]
  have hpays := pays_new henv houtput hasset
  rwa [sha256_authScript hlaw hleaf] at hpays

theorem update_accepted {newRoot : Bytes32} {utxo : Utxo Bytes32} (hutxo : utxos[index]? = some utxo)
    (hlive : IsLive stormEye utxo) (houtput : pset.outputs[index]? =
      some (.new (taprootScript (network.rules.authKey { data with stormTreeRoot := newRoot })) utxo.amount stormEye.assetId)) :
    dispatchKind (jets network) network.std (authParams data) env (storage data)
      (.inr (.inl (.inl (newRoot, UInt32.ofNat index)))) = some () := by
  obtain ⟨-, hamount, -, hcurrent⟩ := stormEye_seen hlaw hscript hinputs henv hutxo hlive
  have hrescue : ({ data with stormTreeRoot := newRoot } : StormEyeContractData).rescueOutputScriptHash =
    data.rescueOutputScriptHash := rfl
  exact AuthCovenant.rootUpdate_ok _ _ hcurrent hamount
    (pays_moved hlaw hscript hinputs henv hutxo hlive hrescue houtput)

theorem renewal_accepted {newHeight : ℕ} {utxo : Utxo Bytes32} (hutxo : utxos[index]? = some utxo)
    (hlive : IsLive stormEye utxo) (hheight : newHeight = data.rescueHeight + Assets.rescueBlocks) (hfits : newHeight < 2 ^ 32)
    (houtput : pset.outputs[index]? =
      some (.new (taprootScript (network.rules.authKey { data with rescueHeight := newHeight })) utxo.amount stormEye.assetId)) :
    dispatchKind (jets network) network.std (authParams data) env (storage data)
      (.inr (.inl (.inr (UInt32.ofNat newHeight, UInt32.ofNat index)))) = some () := by
  obtain ⟨-, hamount, -, hcurrent⟩ := stormEye_seen hlaw hscript hinputs henv hutxo hlive
  have hadded : (storage data).2.toNat + 1576800 = (UInt32.ofNat newHeight).toNat := by
    unfold storage
    rw [UInt32.toNat_ofNat', UInt32.toNat_ofNat', Nat.mod_eq_of_lt hfits, Nat.mod_eq_of_lt (by omega), hheight]
    rfl
  have hrescue : ({ data with rescueHeight := newHeight } : StormEyeContractData).rescueOutputScriptHash =
    data.rescueOutputScriptHash := rfl
  exact AuthCovenant.rescueUpdate_ok _ _ hcurrent hadded hamount
    (pays_moved hlaw hscript hinputs henv hutxo hlive hrescue houtput)

theorem split_accepted {count : ℕ} {utxo : Utxo Bytes32} (hutxo : utxos[index]? = some utxo) (hfirst : index = 0)
    (hlive : IsLive stormEye utxo) (hamount : utxo.amount < 2 ^ 64) (hmany : 2 ≤ count) (hmax : count ≤ 3)
    (houtputs : ∀ j < count, pset.outputs[j]? =
      some (.new stormEye.contractScript (FairDivision.share utxo.amount count j) stormEye.assetId)) :
    dispatchKind (jets network) network.std (authParams data) env (storage data)
      (.inr (.inr (.inl (UInt8.ofNat count)))) = some () := by
  obtain ⟨hasset, hspent, hhash, hcurrent⟩ := stormEye_seen hlaw hscript hinputs henv hutxo hlive
  have hcount : (UInt8.ofNat count).toNat = count := by
    rw [UInt8.toNat_ofNat', Nat.mod_eq_of_lt (by omega)]
  have hindex : env.index.val = 0 := (Pset.env_spec henv).2.1.trans hfirst
  have hlt : UInt8.ofNat count < (authParams data).maxSplitUtxosCount := by
    rw [UInt8.lt_iff_toNat_lt, hcount]
    exact Nat.lt_succ_of_le hmax
  have hshares : (FairDivision.shares utxo.amount count).sum = utxo.amount := FairDivision.sum_shares _ (by omega)
  have hshare : ∀ j < count, (FairDivision.shares utxo.amount count).getD j 0 = FairDivision.share utxo.amount count j := by
    intro j hj
    unfold FairDivision.shares
    rw [List.getD_eq_getElem?_getD, List.getElem?_map, List.getElem?_range hj]
    rfl
  refine @AuthCovenant.split_ok _ _ _ _ _ _ _ _ (UInt8.ofNat count)
    (fun j => UInt64.ofNat ((FairDivision.shares utxo.amount count).getD j 0)) hindex hcurrent ?_ hlt hspent ?_ ?_
  · omega
  · intro j hj
    rw [hcount] at hj
    rw [hhash, hshare j hj]
    exact pays_new henv (houtputs j hj) hasset
  · have hsum := sum_toNat (show (FairDivision.shares utxo.amount count).sum < 2 ^ 64 by rwa [hshares])
    rw [FairDivision.length_shares, hshares] at hsum
    rw [hcount, hsum, UInt64.toNat_ofNat', Nat.mod_eq_of_lt hamount]

theorem merge_accepted {merged others : List (Utxo Bytes32)} {utxo : Utxo Bytes32} (hutxos : utxos = merged ++ others)
    (hutxo : merged[index]? = some utxo) (hlive : ∀ utxo ∈ merged, IsLive stormEye utxo)
    (htotal : (merged.map Utxo.amount).sum < 2 ^ 64) (hmany : 2 ≤ merged.length) (hmax : merged.length ≤ 3)
    (houtput : pset.outputs[0]? =
      some (.new stormEye.contractScript (merged.map Utxo.amount).sum stormEye.assetId)) :
    dispatchKind (jets network) network.std (authParams data) env (storage data)
      (.inr (.inr (.inr (UInt8.ofNat merged.length)))) = some () := by
  have hlt := (List.getElem?_eq_some_iff.mp hutxo).1
  have hslot : ∀ {j : ℕ} {other : Utxo Bytes32}, merged[j]? = some other → utxos[j]? = some other := by
    intro j other hother
    rw [hutxos, List.getElem?_append_left (List.getElem?_eq_some_iff.mp hother).1, hother]
  obtain ⟨hasset, -, hhash, hcurrent⟩ :=
    stormEye_seen hlaw hscript hinputs henv (hslot hutxo) (hlive utxo (List.mem_of_getElem? hutxo))
  have hcount : (UInt8.ofNat merged.length).toNat = merged.length := by
    rw [UInt8.toNat_ofNat', Nat.mod_eq_of_lt (by omega)]
  have hindex : env.index.val = index := (Pset.env_spec henv).2.1
  have hbound : UInt8.ofNat merged.length < (authParams data).maxMergeUtxosCount := by
    rw [UInt8.lt_iff_toNat_lt, hcount]
    exact Nat.lt_succ_of_le hmax
  refine @AuthCovenant.merge_ok _ _ _ _ _ _ _ (UInt8.ofNat merged.length) (UInt64.ofNat (merged.map Utxo.amount).sum)
    (fun j => UInt64.ofNat ((merged.map Utxo.amount).getD j 0)) ?_ hcurrent ?_ hbound ?_ ?_ ?_
  · omega
  · omega
  · intro j hj
    rw [hcount] at hj
    obtain ⟨hheld, hheldScript⟩ := hlive merged[j] (List.getElem_mem hj)
    refine ⟨merged[j].txout.txIn (jets network) network.header, ?_, ?_, ?_, ?_⟩
    · rw [Pset.env_new hinputs henv, List.getElem?_map, hslot (List.getElem?_eq_getElem hj)]
      rfl
    · rw [hasset, ← hheld]
      rfl
    · rw [List.getD_eq_getElem?_getD, List.getElem?_map, List.getElem?_eq_getElem hj]
      rfl
    · rw [hhash, ← hheldScript]
      rfl
  · rw [hhash]
    exact pays_new henv houtput hasset
  · have hsum := sum_toNat htotal
    rw [List.length_map] at hsum
    rw [hcount, hsum, UInt64.toNat_ofNat', Nat.mod_eq_of_lt htotal]

end StormEyes

end StormEyeSpends

end PriceOracle
