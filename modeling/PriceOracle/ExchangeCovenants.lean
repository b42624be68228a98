import PriceOracle.ExchangeSettlement
import PriceOracle.ReshapeCovenants

/-!
# Exchanges can be spent

`finalize_and_broadcast` of `droplets.rs` up to the transaction it sends: the signature of the Storm Eye is checked, and every
input of a prepared exchange gets a witness that its covenant accepts.
-/

namespace PriceOracle

namespace ExchangeBuilder

open ExchangeLayout StormEyeSpends
open AuthCovenant (dispatchKind Pays)

variable {Sig E Tx : Type} (network : CovenantNetwork Sig E)

section Programs

/-- `signing_hash` of `droplets.rs`, of the Storm Eye's input. How the library puts it that there is no environment is left out. -/
def signingHash (pset : Pset Bytes32) (stormEye : NetworkAsset Bytes32) : Except String Bytes32 := do
  let data ← (Assets.stormEyeContractData stormEye).mapError AssetError.text
  match stormEyeEnv network pset data 0 with
  | none => throw "no environment for the Storm Eye program"
  | some env => return taggedDigest network "OracleNetworkV1/StormEye" ((jets network).sigAllHash env)

/-- What an exchange is built with on a network. -/
def exchangePrograms (xOnlyPublicKey : List UInt8 → Option Bytes32) : ExchangePrograms where
  policyAsset := network.policyAsset
  treasuryKey := network.rules.treasuryKey
  xOnlyPublicKey := xOnlyPublicKey
  signingHash := signingHash network

/-- The witnesses that `Droplets::finalize_and_broadcast` attaches. -/
def finalizeExchange (pset : Pset Bytes32) (requestSigningHash : Bytes32) (stormEye : NetworkAsset Bytes32)
    (signing : SigningResult Bytes32 Sig) (proof : Smt.Proof Bytes32) : Except ExchangeError (List (ProgramWitness Sig)) := do
  let data ← contractData stormEye
  droplets (require (StormTree.verifyBranch (jets network) data.stormTreeRoot signing.signingStormTreeBranch proof = true)
    (.invalid "signing branch is not included in the Storm Eye root"))
  match signing.signatures.head? with
  | none => invalid "missing Storm Eye signature"
  | some signature => do
    droplets ((network.rules.keys.fromByteArray signing.signingStormTreeBranch).mapError fun _ =>
      .invalid "invalid Storm Eye signing branch")
    droplets (require ((jets network).bip0340Verify (signing.signingStormTreeBranch, requestSigningHash) signature = true)
      (.invalid "Storm Eye signature verification failed"))
    let packed ← droplets (helper (packProof proof))
    let witness : ProgramWitness Sig := .auth (.inl ((data.stormTreeRoot, UInt32.ofNat data.rescueHeight),
      (signature, signing.signingStormTreeBranch, packed), .inl 0))
    let hash ← droplets ((signingHash network pset stormEye).mapError .program)
    droplets (require (hash = requestSigningHash) (.invalid "final exchange signing hash changed"))
    return witness :: List.replicate (pset.inputs.length - 1) (.treasury 0)

end Programs

section Spends

variable {network} {view : ExchangeView Tx} {stormEye : NetworkAsset Bytes32} {data : StormEyeContractData} {amount : ℕ}
  {destination : String} {expectedMember : List UInt8} {indexed : List ((Bytes32 × ℕ) × ℕ)} {pset : Pset Bytes32} {hash : Bytes32}
  {xOnlyPublicKey : List UInt8 → Option Bytes32}

theorem contractData_ok : contractData stormEye = .ok data ↔ Assets.stormEyeContractData stormEye = .ok data := by
  unfold contractData Assets.stormEyeContractData invalid
  cases stormEye.contractData with
  | none => simp
  | some bytes =>
    dsimp only
    cases StormEyeContractData.codec.fromBytes bytes <;> simp

/-- The hash of an exchange is the one of its only Storm Eye. -/
theorem signingHashes_one (hdata : Assets.stormEyeContractData stormEye = .ok data)
    (h : signingHash network pset stormEye = .ok hash) : signingHashes network pset stormEye 1 = .ok [hash] := by
  unfold signingHash at h
  rw [hdata] at h
  obtain ⟨found, hfound, h⟩ := Db.except_bind_ok.mp h
  obtain rfl := Except.ok.inj hfound
  unfold signingHashes
  rw [hdata]
  refine Db.except_bind_ok.mpr ⟨data, rfl, ?_⟩
  have hone : StormEyeSpends.signingHash network pset data 0 = .ok hash := by
    unfold StormEyeSpends.signingHash
    cases henv : stormEyeEnv network pset data 0 with
    | none =>
      rw [henv] at h
      cases h
    | some env =>
      rw [henv] at h
      exact congrArg Except.ok (Except.ok.inj h)
  rw [List.range_one, List.mapM_cons, hone]
  rfl

/-- The path that keeps the storage accepts a Storm Eye that comes back. -/
theorem kept_accepted (hlaw : network.Lawful) (hscript : stormEye.contractScript = taprootScript (network.rules.authKey data))
    {utxos : List (Utxo Bytes32)} {utxo : Utxo Bytes32} {env : Env Bytes32} (hinputs : pset.inputs = utxos.map .new)
    (henv : stormEyeEnv network pset data 0 = some env) (hutxo : utxos[0]? = some utxo) (hlive : IsLive stormEye utxo)
    (houtput : pset.outputs[0]? = some (.fromUtxo utxo)) :
    dispatchKind (jets network) network.std (authParams data) env (storage data) (.inl 0) = some () := by
  obtain ⟨hasset, hamount, hhash, hcurrent⟩ := stormEye_seen hlaw hscript hinputs henv hutxo hlive
  rw [← hlive.1] at hasset
  have hpays : Pays env (0 : UInt32).toNat (UInt64.ofNat utxo.amount) env.currentScriptHash := by
    rw [hhash, ← hlive.2]
    exact pays_new henv houtput hasset
  have hmatches : AuthCovenant.assertOutputScriptHashMatchesCurrent network.std env 0 = some () := by
    unfold AuthCovenant.assertOutputScriptHashMatchesCurrent
    rw [hpays.script network.std]
    exact (network.std.assertEq256_iff _ _).mpr rfl
  unfold dispatchKind AuthCovenant.authWithoutStorageUpdating
  dsimp only
  rw [AuthCovenant.assertStorageWithCurrent_ok _ _ hcurrent, hmatches]
  exact hpays.preserves network.std hamount

/-- Every input of a prepared exchange that the quorum signs gets a witness that its covenant accepts. -/
theorem exchange_spends_accepted (hlaw : network.Lawful) (hdata : Assets.stormEyeContractData stormEye = .ok data)
    (hscript : Assets.stormEyeScript network.rules stormEye = .ok stormEye.contractScript) (hscan : view.node.ScansScript)
    (hprepared : prepareExchangeTransaction (exchangePrograms network xOnlyPublicKey) view stormEye amount destination expectedMember
      (amount + view.transactionFeeSats) indexed = .ok (pset, hash))
    {signing : SigningResult Bytes32 Sig} {proof : Smt.Proof Bytes32} (hsigned : Signed network data.stormTreeRoot [hash] signing proof) :
    ∃ witnesses, finalizeExchange network pset hash stormEye signing proof = .ok witnesses ∧
      StormEyeSpends.Accepted network pset stormEye data 1 witnesses := by
  have hkey : stormEye.contractScript = taprootScript (network.rules.authKey data) := by
    obtain ⟨decoded, hdecoded, hown⟩ := Assets.stormEyeScript_ok.mp hscript
    rw [hdata] at hdecoded
    cases hdecoded
    exact hown.symm
  obtain ⟨stormEyeUtxo, selected, address, member, change, -, h⟩ := prepareExchangeTransaction_ok hscan hprepared
  obtain ⟨packed, hpack, hpacked⟩ := packProof_ok hsigned.depth
  obtain ⟨signature, hsignatures⟩ := List.length_eq_one_iff.mp hsigned.count
  have hsignature : signing.signatures[0]? = some signature := by
    rw [hsignatures]
    rfl
  have hinputs : pset.inputs = ([stormEyeUtxo] ++ selected).map .new := h.inputs
  have houtput : pset.outputs[0]? = some (.fromUtxo stormEyeUtxo) := by
    rw [h.built]
    rfl
  have hlive : IsLive stormEye stormEyeUtxo := h.eye.2
  have hkinds : ∀ index < [stormEyeUtxo].length, ∀ env, stormEyeEnv network pset data index = some env →
      dispatchKind (jets network) network.std (authParams data) env (storage data) (.inl 0) = some () := by
    intro index hindex env henv
    obtain rfl : index = 0 := Nat.lt_one_iff.mp hindex
    exact kept_accepted hlaw hkey hinputs henv rfl hlive houtput
  have hwitnesses : ∀ index < [stormEyeUtxo].length, ∃ signature', signing.signatures[index]? = some signature' ∧
      [authWitness data signing packed signature (.inl 0)][index]? = some (authWitness data signing packed signature' (.inl 0)) := by
    intro index hindex
    obtain rfl : index = 0 := Nat.lt_one_iff.mp hindex
    exact ⟨signature, hsignature, rfl⟩
  have haccepted := accepted_of_kinds hlaw hdata hinputs (List.cons_ne_nil _ _) (List.forall_mem_singleton.mpr hlive)
    (signingHashes_one hdata h.signed) hsigned hpacked hkinds rfl hwitnesses
  refine ⟨_, ?_, haccepted⟩
  unfold finalizeExchange
  refine Db.except_bind_ok.mpr ⟨data, contractData_ok.mpr hdata, then_ok.mpr ⟨droplets_ok.mpr (require_ok.mpr hsigned.verified), ?_⟩⟩
  rw [List.head?_eq_getElem?, hsignature]
  refine then_ok.mpr ⟨droplets_ok.mpr ?_, then_ok.mpr ⟨droplets_ok.mpr (require_ok.mpr ?_), ?_⟩⟩
  · rw [hsigned.key]
    rfl
  · exact hsigned.verifies 0 signature hash hsignature rfl
  · refine Db.except_bind_ok.mpr ⟨packed, droplets_ok.mpr (helper_ok.mpr hpack), ?_⟩
    refine Db.except_bind_ok.mpr ⟨hash, droplets_ok.mpr (mapError_ok.mpr h.signed), ?_⟩
    exact then_ok.mpr ⟨droplets_ok.mpr (require_ok.mpr rfl), rfl⟩

end Spends

section Machine

open Assets (exampleKey)

/-- A node that scans the Storm Eye beside the Treasury. -/
def machineView : ExchangeView Unit where
  node := { splitView.node with
    scan := fun script => .ok (if script = splitStormEye.contractScript then [⟨some (exampleKey 10), 1, some splitUtxo.asset⟩] else []) }
  rawTransaction _ := .error "No such mempool or blockchain transaction"
  addressParams := .elements
  parseAddress text := if text = bobText then some bobAddress else none
  stormEye := some splitStormEye
  ledger := exchangeLedger
  ledgerHalt := none
  transactionFeeSats := 10

theorem machineView_scansScript : machineView.node.ScansScript := by
  intro script unspents hscan unspent hunspent txid asset amount held htxid htxout
  obtain rfl := Except.ok.inj hscan
  split_ifs at hunspent with hscript
  · obtain rfl := List.mem_singleton.mp hunspent
    obtain rfl := Option.some.inj htxid
    have hfound : ([splitUtxo, splitTreasury].find? fun utxo => utxo.outpoint = (exampleKey 10, 1)) = some splitUtxo :=
      List.find?_cons_of_pos (decide_eq_true rfl)
    have hshown := Except.ok.inj htxout
    rw [hfound] at hshown
    cases hshown
    exact hscript.symm
  · exact absurd hunspent List.not_mem_nil

/-- An exchange of 590 out of 5000 that one signature moves. -/
theorem exchange_spends_accepted_machine : ∃ pset hash witnesses,
    prepareExchangeTransaction (exchangePrograms machineNetwork examplePrograms.xOnlyPublicKey) machineView splitStormEye 590 bobText
      leader (590 + machineView.transactionFeeSats) [((exampleKey 12, 0), 5000)] = .ok (pset, hash) ∧
    finalizeExchange machineNetwork pset hash splitStormEye ⟨exampleKey 0, exampleBranch, [()]⟩ exampleProof = .ok witnesses ∧
      StormEyeSpends.Accepted machineNetwork pset splitStormEye splitData 1 witnesses := by
  have hok : (prepareExchangeTransaction (exchangePrograms machineNetwork examplePrograms.xOnlyPublicKey) machineView splitStormEye 590
      bobText leader (590 + machineView.transactionFeeSats) [((exampleKey 12, 0), 5000)]).isOk = true := by decide +kernel
  obtain ⟨⟨pset, hash⟩, hprepared⟩ := exists_of_isOk hok
  obtain ⟨witnesses, hfinal, haccepted⟩ := exchange_spends_accepted machineNetwork_lawful splitStormEye_data
    (Assets.stormEyeScript_ok.mpr ⟨splitData, splitStormEye_data, rfl⟩) machineView_scansScript hprepared
    (⟨rfl, rfl, fun _ _ _ _ _ => rfl, StormTree.verifyBranch_iff.mpr ⟨rfl, rfl, rfl⟩, by decide⟩ :
      Signed machineNetwork splitData.stormTreeRoot [hash] ⟨exampleKey 0, exampleBranch, [()]⟩ exampleProof)
  exact ⟨pset, hash, witnesses, hprepared, hfinal, haccepted⟩

end Machine

end ExchangeBuilder

end PriceOracle
