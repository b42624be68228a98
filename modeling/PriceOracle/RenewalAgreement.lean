import PriceOracle.AssetAnnouncements
import PriceOracle.RenewalRecognition

/-!
# Renewals agree

Coordinator, signers and indexer on one renewal: nodes with the same UTXOs build the same transaction, and a block
with it is indexed as the step to the next covenant.
-/

namespace PriceOracle

namespace Renewal

open Assets (stormEyeContractData renewedStormEye nextStormEyeRescueHeight)

section Block

variable {previousOutput : Bytes32 × ℕ → Except IndexerError (ChainTxOut Bytes32)} {current renewed : NetworkAsset Bytes32}

/-- The transaction moves the whole supply from one covenant to the other. -/
def Moves (previousOutput : Bytes32 × ℕ → Except IndexerError (ChainTxOut Bytes32)) (current renewed : NetworkAsset Bytes32)
    (transaction : Transaction) : Prop :=
  Supplies renewed transaction.output ∧ ∃ spent, spentOutputs previousOutput transaction = .ok spent ∧ Supplies current spent

theorem renewalStep_ok {matched result : Option (Bytes32 × NetworkAsset Bytes32)} {transaction : Transaction}
    (h : renewalStep previousOutput current renewed matched transaction = .ok result) :
    result = matched ∨ result = some (transaction.txid, renewed) ∧
      matchesStormEyeSupply transaction.output renewed = .ok true ∧
      ∃ spent, spentOutputs previousOutput transaction = .ok spent ∧ matchesStormEyeSupply spent current = .ok true := by
  unfold renewalStep at h
  obtain ⟨paid, hpaid, h⟩ := Db.except_bind_ok.mp h
  cases paid with
  | false => exact .inl (Except.ok.inj h).symm
  | true =>
    obtain ⟨spent, hspent, h⟩ := Db.except_bind_ok.mp h
    obtain ⟨moved, hmoved, h⟩ := Db.except_bind_ok.mp h
    cases moved with
    | false => exact .inl (Except.ok.inj h).symm
    | true =>
      cases matched with
      | some previous => cases h
      | none => exact .inr ⟨(Except.ok.inj h).symm, hpaid, spent, hspent, hmoved⟩

/-- Whatever is recognised moves the whole supply, and nothing else is. -/
theorem renewalSteps_sound (hcurrent : current.supply < 2 ^ 64) (hrenewed : renewed.supply < 2 ^ 64)
    (transactions : List Transaction) : ∀ {matched result : Option (Bytes32 × NetworkAsset Bytes32)},
      transactions.foldlM (renewalStep previousOutput current renewed) matched = .ok result →
        result = matched ∨ ∃ transaction ∈ transactions, result = some (transaction.txid, renewed) ∧
          Moves previousOutput current renewed transaction := by
  induction transactions with
  | nil => exact fun h => .inl (Except.ok.inj h).symm
  | cons transaction transactions ih =>
    intro matched result h
    rw [List.foldlM_cons] at h
    obtain ⟨next, hstep, h⟩ := Db.except_bind_ok.mp h
    rcases ih h with rfl | ⟨other, hother, hresult⟩
    · rcases renewalStep_ok hstep with rfl | ⟨hresult, hpaid, spent, hspent, hmoved⟩
      · exact .inl rfl
      · exact .inr ⟨transaction, List.mem_cons_self, hresult, (matchesStormEyeSupply_iff hrenewed).mp hpaid, spent, hspent,
          (matchesStormEyeSupply_iff hcurrent).mp hmoved⟩
    · exact .inr ⟨other, .tail _ hother, hresult⟩

/-- A transaction whose inputs are known and spend nothing of the current covenant, with amounts that fit 64 bits. -/
structure Unrelated (previousOutput : Bytes32 × ℕ → Except IndexerError (ChainTxOut Bytes32))
    (current renewed : NetworkAsset Bytes32) (transaction : Transaction) : Prop where
  fits : explicitTotal renewed.assetId transaction.output < 2 ^ 64
  spent : ∃ spent, spentOutputs previousOutput transaction = .ok spent ∧
    ∀ output ∈ spent, output.asset = .explicit current.assetId → output.scriptPubkey ≠ current.contractScript

theorem renewalStep_unrelated {matched : Option (Bytes32 × NetworkAsset Bytes32)} {transaction : Transaction}
    (h : Unrelated previousOutput current renewed transaction) :
    renewalStep previousOutput current renewed matched transaction = .ok matched := by
  obtain ⟨paid, hpaid⟩ := @supplyFrom_ok renewed transaction.output 0 false (by rw [Nat.zero_add]; exact h.fits)
  obtain ⟨spent, hspent, hother⟩ := h.spent
  have hpaid : matchesStormEyeSupply transaction.output renewed = .ok paid := hpaid
  have hmoved : matchesStormEyeSupply spent current = .ok false := supplyFrom_other spent 0 hother
  unfold renewalStep
  rw [hpaid]
  cases paid with
  | false => rfl
  | true =>
    change (spentOutputs previousOutput transaction >>= _) = _
    rw [hspent]
    change (matchesStormEyeSupply spent current >>= _) = _
    rw [hmoved]
    rfl

theorem renewalSteps_unrelated (transactions : List Transaction) {matched : Option (Bytes32 × NetworkAsset Bytes32)}
    (h : ∀ transaction ∈ transactions, Unrelated previousOutput current renewed transaction) :
    transactions.foldlM (renewalStep previousOutput current renewed) matched = .ok matched := by
  induction transactions with
  | nil => rfl
  | cons transaction transactions ih =>
    rw [List.foldlM_cons, renewalStep_unrelated (h transaction List.mem_cons_self)]
    exact ih fun other hother => h other (.tail _ hother)

theorem renewalStep_moves {transaction : Transaction} (hcurrent : current.supply < 2 ^ 64) (hrenewed : renewed.supply < 2 ^ 64)
    (h : Moves previousOutput current renewed transaction) :
    renewalStep previousOutput current renewed none transaction = .ok (some (transaction.txid, renewed)) := by
  obtain ⟨hpaid, spent, hspent, hmoved⟩ := h
  unfold renewalStep
  rw [(matchesStormEyeSupply_iff hrenewed).mpr hpaid]
  change (spentOutputs previousOutput transaction >>= _) = _
  rw [hspent]
  change (matchesStormEyeSupply spent current >>= _) = _
  rw [(matchesStormEyeSupply_iff hcurrent).mpr hmoved]
  rfl

end Block

section Built

variable {Sig E : Type} {programs : RenewalPrograms Sig E} {view : RenewalView} {stormEye : NetworkAsset Bytes32}
  {includeMempool : Bool}

/-- What the node shows at the outpoint of a UTXO. -/
def Shows (view : RenewalView) (includeMempool : Bool) (utxo : Utxo Bytes32) : Prop :=
  view.node.txout includeMempool utxo.outpoint = .ok (some (utxo.asset, utxo.amount, utxo.scriptPubkey))

/-- A node shows one output at an outpoint. -/
theorem shows_inj {utxo other : Utxo Bytes32} (h : Shows view includeMempool utxo) (hother : Shows view includeMempool other)
    (heq : utxo.outpoint = other.outpoint) : utxo = other := by
  unfold Shows at h hother
  rw [heq, hother] at h
  have hshown := Option.some.inj (Except.ok.inj h)
  simp only [Prod.mk.injEq] at hshown
  obtain ⟨hasset, hamount, hscript⟩ := hshown
  cases utxo
  cases other
  simp_all

theorem optionalOutpoint_some {outpoint : Bytes32 × ℕ} {utxo : Utxo Bytes32}
    (h : view.node.optionalOutpoint includeMempool outpoint = .ok (some utxo)) :
    utxo.outpoint = outpoint ∧ Shows view includeMempool utxo := by
  obtain ⟨answer, hanswer, h⟩ := Db.except_bind_ok.mp h
  obtain ⟨shown, rfl, rfl⟩ := Option.map_eq_some_iff.mp (Except.ok.inj h)
  exact ⟨rfl, hanswer⟩

theorem scannedOutpoint_ok {outpoint : Bytes32 × ℕ} {utxo : Utxo Bytes32}
    (h : scannedOutpoint view includeMempool outpoint = .ok utxo) :
    utxo.outpoint = outpoint ∧ Shows view includeMempool utxo := by
  unfold scannedOutpoint at h
  cases includeMempool with
  | true =>
    rw [if_pos rfl] at h
    obtain ⟨answer, hanswer, h⟩ := Db.except_bind_ok.mp (mapError_ok.mp h)
    cases answer with
    | none => cases h
    | some shown =>
      cases h
      exact optionalOutpoint_some hanswer
  | false =>
    rw [if_neg Bool.false_ne_true] at h
    obtain ⟨answer, hanswer, h⟩ := Db.except_bind_ok.mp h
    cases answer with
    | none => cases h
    | some shown =>
      cases h
      exact optionalOutpoint_some (mapError_ok.mp hanswer)

/-- A scanned Storm Eye is live, of the asset and under the covenant. -/
theorem scannedUtxo_ok {unspent : ScannedUtxo Bytes32} {utxo : Utxo Bytes32}
    (h : scannedUtxo view includeMempool stormEye unspent = .ok utxo) :
    Shows view includeMempool utxo ∧ utxo.asset = stormEye.assetId ∧ utxo.scriptPubkey = stormEye.contractScript := by
  unfold scannedUtxo at h
  cases htxid : unspent.txid with
  | none =>
    rw [htxid] at h
    cases h
  | some txid =>
    rw [htxid] at h
    obtain ⟨shown, hshown, h⟩ := Db.except_bind_ok.mp h
    obtain ⟨hheld, h⟩ := then_ok.mp h
    cases h
    exact ⟨(scannedOutpoint_ok hshown).2, (require_ok.mp hheld)⟩

theorem mem_of_mapM {A B : Type} {f : A → Except E B} {items : List A} {results : List B} (h : items.mapM f = .ok results) :
    ∀ result ∈ results, ∃ item ∈ items, f item = .ok result := by
  obtain ⟨hlength, hall⟩ := mapM_ok h
  intro result hresult
  obtain ⟨i, hi, rfl⟩ := List.mem_iff_getElem.mp hresult
  obtain ⟨b, hb, hf⟩ := hall i items[i] (List.getElem?_eq_getElem (hlength ▸ hi))
  rw [List.getElem?_eq_getElem hi] at hb
  exact ⟨items[i], List.getElem_mem _, (Option.some.inj hb).symm ▸ hf⟩

theorem scanStormEyeUtxos_ok {utxos : List (Utxo Bytes32)} (h : scanStormEyeUtxos view includeMempool stormEye = .ok utxos) :
    utxos ≠ [] ∧ ∀ utxo ∈ utxos, Shows view includeMempool utxo ∧ utxo.asset = stormEye.assetId ∧
      utxo.scriptPubkey = stormEye.contractScript := by
  unfold scanStormEyeUtxos at h
  obtain ⟨unspents, -, h⟩ := Db.except_bind_ok.mp h
  obtain ⟨scanned, hscanned, h⟩ := Db.except_bind_ok.mp h
  dsimp only at h
  obtain ⟨hne, h⟩ := then_ok.mp h
  cases h
  refine ⟨require_ok.mp hne, fun utxo hutxo => ?_⟩
  obtain ⟨unspent, -, hunspent⟩ := mem_of_mapM hscanned utxo (List.mem_insertionSort _ |>.mp hutxo)
  exact scannedUtxo_ok hunspent

theorem selectTreasuryUtxos_ok (indexed : List ((Bytes32 × ℕ) × ℕ)) : ∀ {selected : List (Utxo Bytes32)} {total : ℕ}
    {utxos : List (Utxo Bytes32)}, selectTreasuryUtxos programs view includeMempool indexed selected total = .ok utxos →
      (∀ utxo ∈ selected, Shows view includeMempool utxo ∧ utxo.asset = programs.policyAsset) →
        ∀ utxo ∈ utxos, Shows view includeMempool utxo ∧ utxo.asset = programs.policyAsset := by
  induction indexed with
  | nil =>
    intro selected total utxos h
    cases h
  | cons entry rest ih =>
    intro selected total utxos h hselected
    rw [selectTreasuryUtxos] at h
    obtain ⟨answer, hanswer, h⟩ := Db.except_bind_ok.mp h
    cases answer with
    | none => exact ih h hselected
    | some utxo =>
      dsimp only at h
      by_cases hother : utxo.asset ≠ programs.policyAsset ∨ utxo.amount ≠ entry.2
      · rw [if_pos hother] at h
        exact ih h hselected
      · rw [if_neg hother] at h
        have hpolicy : utxo.asset = programs.policyAsset := not_not.mp (not_or.mp hother).1
        have hmore : ∀ other ∈ selected ++ [utxo], Shows view includeMempool other ∧ other.asset = programs.policyAsset := by
          intro other hmem
          rcases List.mem_append.mp hmem with hmem | hmem
          · exact hselected other hmem
          · obtain rfl := List.mem_singleton.mp hmem
            exact ⟨(optionalOutpoint_some (mapError_ok.mp hanswer)).2, hpolicy⟩
        obtain ⟨total', -, h⟩ := Db.except_bind_ok.mp h
        by_cases hcovers : view.transactionFeeSats ≤ total'
        · rw [if_pos hcovers] at h
          cases h
          exact hmore
        · rw [if_neg hcovers] at h
          exact ih h hmore

/-- What a coordinator that prepares a renewal has built. -/
structure BuiltBy (programs : RenewalPrograms Sig E) (view : RenewalView) (stormEye : NetworkAsset Bytes32)
    (includeMempool : Bool) (blockHeight : ℕ) (prepared : PreparedRenewal) (renewed : NetworkAsset Bytes32)
    (stormEyeUtxos treasuryUtxos : List (Utxo Bytes32)) : Prop where
  next : renewedStormEye programs.rules stormEye = .ok renewed
  scanned : scanStormEyeUtxos view includeMempool stormEye = .ok stormEyeUtxos
  treasury : ∀ utxo ∈ treasuryUtxos, Shows view includeMempool utxo ∧ utxo.asset = programs.policyAsset
  inputs : prepared.pset.inputs = (stormEyeUtxos ++ treasuryUtxos).map .new
  outputs : ∃ change, prepared.pset.outputs = renewalOutputs programs view stormEye renewed stormEyeUtxos change
  request : prepared.request.tx = prepared.pset ∧ prepared.request.blockHeight = blockHeight ∧ prepared.request.finalTx = none

theorem prepareTransaction_ok {blockHeight : ℕ} {prepared : PreparedRenewal}
    (h : prepareTransaction programs view blockHeight stormEye includeMempool = .ok prepared) :
    ∃ renewed stormEyeUtxos treasuryUtxos,
      BuiltBy programs view stormEye includeMempool blockHeight prepared renewed stormEyeUtxos treasuryUtxos := by
  unfold prepareTransaction at h
  obtain ⟨data, -, h⟩ := Db.except_bind_ok.mp h
  obtain ⟨-, h⟩ := then_ok.mp h
  obtain ⟨height, -, h⟩ := Db.except_bind_ok.mp h
  obtain ⟨-, h⟩ := then_ok.mp h
  obtain ⟨stormEyeUtxos, hscanned, h⟩ := Db.except_bind_ok.mp h
  obtain ⟨treasuryUtxos, htreasury, h⟩ := Db.except_bind_ok.mp h
  unfold buildTransaction at h
  obtain ⟨data', -, h⟩ := Db.except_bind_ok.mp h
  obtain ⟨-, h⟩ := then_ok.mp h
  obtain ⟨renewed, hrenewed, h⟩ := Db.except_bind_ok.mp h
  obtain ⟨renewedData, -, h⟩ := Db.except_bind_ok.mp h
  obtain ⟨-, h⟩ := then_ok.mp h
  obtain ⟨amount, -, h⟩ := Db.except_bind_ok.mp h
  obtain ⟨-, h⟩ := then_ok.mp h
  dsimp only at h
  obtain ⟨hashes, -, h⟩ := Db.except_bind_ok.mp h
  cases h
  exact ⟨renewed, stormEyeUtxos, treasuryUtxos, mapError_ok.mp hrenewed, mapError_ok.mp hscanned,
    selectTreasuryUtxos_ok _ htreasury (fun _ hnil => absurd hnil List.not_mem_nil), rfl, ⟨_, rfl⟩, rfl, rfl, rfl⟩

theorem renewedStormEye_ok {rules : AssetRules Sig E} {renewed : NetworkAsset Bytes32}
    (h : renewedStormEye rules stormEye = .ok renewed) :
    renewed.assetId = stormEye.assetId ∧ renewed.supply = stormEye.supply := by
  unfold renewedStormEye at h
  obtain ⟨data, -, h⟩ := Db.except_bind_ok.mp h
  obtain ⟨height, -, h⟩ := Db.except_bind_ok.mp h
  dsimp only at h
  obtain ⟨script, -, h⟩ := Db.except_bind_ok.mp h
  cases h
  exact ⟨rfl, rfl⟩

end Built

section Signers

variable {Sig E : Type} {programs : RenewalPrograms Sig E} {view signer : RenewalView} {stormEye : NetworkAsset Bytes32}
  {includeMempool : Bool}

/-- Two nodes with the same UTXOs. A scan has no order. -/
structure SameUtxos (node node' : ElementsNode Bytes32) : Prop where
  txout : node'.txout = node.txout
  scan : ∀ script unspents, node.scan script = .ok unspents → ∃ unspents', node'.scan script = .ok unspents' ∧ unspents.Perm unspents'

/-- Coordinator and signer share the configuration of the network and hold the same UTXOs. -/
structure SameNode (view signer : RenewalView) : Prop where
  utxos : SameUtxos view.node signer.node
  indexedTreasury : signer.indexedTreasury = view.indexedTreasury
  transactionFeeSats : signer.transactionFeeSats = view.transactionFeeSats
  coordinatorMember : signer.coordinatorMember = view.coordinatorMember

theorem mapM_perm {A B : Type} {f : A → Except E B} {items items' : List A} (h : items.Perm items') :
    ∀ {results : List B}, items.mapM f = .ok results → ∃ results', items'.mapM f = .ok results' ∧ results.Perm results' := by
  induction h with
  | nil =>
    intro results h
    exact ⟨results, h, List.Perm.refl _⟩
  | cons item hperm ih =>
    intro results h
    rw [List.mapM_cons] at h
    obtain ⟨b, hb, h⟩ := Db.except_bind_ok.mp h
    obtain ⟨bs, hbs, h⟩ := Db.except_bind_ok.mp h
    cases h
    obtain ⟨bs', hbs', hperm'⟩ := ih hbs
    exact ⟨b :: bs', by rw [List.mapM_cons, hb, hbs']; rfl, hperm'.cons b⟩
  | swap first second items =>
    intro results h
    rw [List.mapM_cons, List.mapM_cons] at h
    obtain ⟨b, hb, h⟩ := Db.except_bind_ok.mp h
    obtain ⟨tail, htail, h⟩ := Db.except_bind_ok.mp h
    obtain ⟨c, hc, htail⟩ := Db.except_bind_ok.mp htail
    obtain ⟨bs, hbs, htail⟩ := Db.except_bind_ok.mp htail
    cases htail
    cases h
    exact ⟨c :: b :: bs, by rw [List.mapM_cons, List.mapM_cons, hc, hb, hbs]; rfl, List.Perm.swap c b bs⟩
  | trans _ _ ih ih' =>
    intro results h
    obtain ⟨middle, hmiddle, hperm⟩ := ih h
    obtain ⟨results', hresults', hperm'⟩ := ih' hmiddle
    exact ⟨results', hresults', hperm.trans hperm'⟩

theorem optionalOutpoint_same (h : SameUtxos view.node signer.node) (includeMempool : Bool) :
    signer.node.optionalOutpoint includeMempool = view.node.optionalOutpoint includeMempool := by
  funext outpoint
  unfold ElementsNode.optionalOutpoint
  rw [h.txout]

theorem scannedUtxo_same (h : SameUtxos view.node signer.node) :
    scannedUtxo signer includeMempool stormEye = scannedUtxo view includeMempool stormEye := by
  funext unspent
  unfold scannedUtxo scannedOutpoint ElementsNode.explicitOutpoint
  rw [optionalOutpoint_same h, optionalOutpoint_same h]

/-- Sorted by their outpoints, the scanned Storm Eyes are one list on both nodes. -/
theorem scanStormEyeUtxos_same (h : SameUtxos view.node signer.node) {utxos : List (Utxo Bytes32)}
    (hscan : scanStormEyeUtxos view includeMempool stormEye = .ok utxos) :
    scanStormEyeUtxos signer includeMempool stormEye = .ok utxos := by
  unfold scanStormEyeUtxos at hscan ⊢
  obtain ⟨unspents, hunspents, hscan⟩ := Db.except_bind_ok.mp hscan
  obtain ⟨scanned, hscanned, hscan⟩ := Db.except_bind_ok.mp hscan
  obtain ⟨unspents', hunspents', hperm⟩ := h.scan _ _ (mapError_ok.mp hunspents)
  obtain ⟨scanned', hscanned', hperm'⟩ := mapM_perm (hperm.filter (isStormEye stormEye)) hscanned
  have hshown : ∀ utxo ∈ scanned, Shows view includeMempool utxo := by
    intro utxo hutxo
    obtain ⟨unspent, -, hunspent⟩ := mem_of_mapM hscanned utxo hutxo
    exact (scannedUtxo_ok hunspent).1
  have hsorted : scanned.insertionSort (fun a b => toLex a.outpoint ≤ toLex b.outpoint) =
      scanned'.insertionSort fun a b => toLex a.outpoint ≤ toLex b.outpoint := by
    refine List.Perm.eq_of_pairwise ?_ (List.pairwise_insertionSort _ _) (List.pairwise_insertionSort _ _)
      ((List.perm_insertionSort _ _).trans (hperm'.trans (List.perm_insertionSort _ _).symm))
    intro a b ha hb hab hba
    have houtpoint : a.outpoint = b.outpoint := toLex.injective (le_antisymm hab hba)
    have hother := hshown b (hperm'.mem_iff.mpr (List.mem_insertionSort _ |>.mp hb))
    exact shows_inj (hshown a (List.mem_insertionSort _ |>.mp ha)) hother houtpoint
  refine Db.except_bind_ok.mpr ⟨unspents', mapError_ok.mpr hunspents', ?_⟩
  rw [scannedUtxo_same h]
  refine Db.except_bind_ok.mpr ⟨scanned', hscanned', ?_⟩
  rw [← hsorted]
  exact hscan

theorem selectTreasuryUtxos_same (h : SameNode view signer) :
    selectTreasuryUtxos programs signer includeMempool = selectTreasuryUtxos programs view includeMempool := by
  funext indexed
  induction indexed with
  | nil => rfl
  | cons entry rest ih =>
    funext selected total
    rw [selectTreasuryUtxos, selectTreasuryUtxos, optionalOutpoint_same h.utxos, ih, h.transactionFeeSats]

theorem buildTransaction_same (h : SameNode view signer) :
    buildTransaction programs signer = buildTransaction programs view := by
  funext blockHeight newRescueHeight stormEye stormEyeUtxos treasuryUtxos
  unfold buildTransaction renewalOutputs
  rw [h.transactionFeeSats, h.coordinatorMember]

/-- A signer with the coordinator's UTXOs builds the coordinator's transaction. -/
theorem prepareTransaction_same (h : SameNode view signer) {blockHeight : ℕ} {prepared : PreparedRenewal}
    (hprepared : prepareTransaction programs view blockHeight stormEye includeMempool = .ok prepared) :
    prepareTransaction programs signer blockHeight stormEye includeMempool = .ok prepared := by
  unfold prepareTransaction at hprepared ⊢
  obtain ⟨data, hdata, hprepared⟩ := Db.except_bind_ok.mp hprepared
  obtain ⟨hdue, hprepared⟩ := then_ok.mp hprepared
  obtain ⟨height, hheight, hprepared⟩ := Db.except_bind_ok.mp hprepared
  obtain ⟨hforward, hprepared⟩ := then_ok.mp hprepared
  obtain ⟨stormEyeUtxos, hscan, hprepared⟩ := Db.except_bind_ok.mp hprepared
  have hscan' := scanStormEyeUtxos_same h.utxos (mapError_ok.mp hscan)
  refine Db.except_bind_ok.mpr ⟨data, hdata, then_ok.mpr ⟨hdue, Db.except_bind_ok.mpr ⟨height, hheight,
    then_ok.mpr ⟨hforward, Db.except_bind_ok.mpr ⟨stormEyeUtxos, mapError_ok.mpr hscan', ?_⟩⟩⟩⟩⟩
  rw [selectTreasuryUtxos_same h, h.indexedTreasury, buildTransaction_same h]
  exact hprepared

/-- Such a signer accepts it, whatever its own height is by the time it looks at a broadcast one. -/
theorem validateTransaction_same (h : SameNode view signer) (hstorm : signer.stormEye = some stormEye) {blockHeight : ℕ}
    {prepared : PreparedRenewal}
    (hprepared : prepareTransaction programs view blockHeight stormEye includeMempool = .ok prepared) :
    validateTransaction programs signer prepared.request includeMempool = .ok () := by
  obtain ⟨_, _, _, hbuilt⟩ := prepareTransaction_ok hprepared
  unfold validateTransaction
  rw [hstorm]
  refine Db.except_bind_ok.mpr ⟨prepared, ?_, require_ok.mpr ⟨rfl, rfl, rfl, rfl⟩⟩
  rw [hbuilt.request.2.1]
  exact prepareTransaction_same h hprepared

end Signers

section Live

variable {Sig E : Type} {programs : RenewalPrograms Sig E} {view : RenewalView} {stormEye renewed : NetworkAsset Bytes32}
  {includeMempool : Bool} {live : List (Utxo Bytes32)}

/-- The node lists exactly these outputs of the covenant, and shows each as it is while nothing spends it. -/
structure Listed (node : ElementsNode Bytes32) (stormEye : NetworkAsset Bytes32) (live : List (Utxo Bytes32)) : Prop where
  scan : ∃ unspents, node.scan stormEye.contractScript = .ok unspents ∧ (unspents.filter (isStormEye stormEye)).Perm
    (live.map fun utxo => ⟨some utxo.outpoint.1, utxo.outpoint.2, some utxo.asset⟩)
  txout : ∀ utxo ∈ live, ∀ (includeMempool : Bool) (shown : Utxo Bytes32),
    node.optionalOutpoint includeMempool utxo.outpoint = .ok (some shown) → shown = utxo

theorem scannedUtxo_listed (hlisted : Listed view.node stormEye live) {utxo scanned : Utxo Bytes32} (hlive : utxo ∈ live)
    (h : scannedUtxo view includeMempool stormEye ⟨some utxo.outpoint.1, utxo.outpoint.2, some utxo.asset⟩ = .ok scanned) :
    scanned = utxo := by
  obtain ⟨shown, hshown, h⟩ := Db.except_bind_ok.mp h
  obtain ⟨-, h⟩ := then_ok.mp h
  cases h
  obtain ⟨houtpoint, hshows⟩ := scannedOutpoint_ok hshown
  apply hlisted.txout utxo hlive includeMempool
  unfold Shows at hshows
  unfold ElementsNode.optionalOutpoint
  rw [show utxo.outpoint = scanned.outpoint from houtpoint.symm, hshows]
  rfl

theorem mapM_listed (hlisted : Listed view.node stormEye live) : ∀ (utxos : List (Utxo Bytes32)) {scanned : List (Utxo Bytes32)},
    utxos ⊆ live → (utxos.map fun utxo => (⟨some utxo.outpoint.1, utxo.outpoint.2, some utxo.asset⟩ : ScannedUtxo Bytes32)).mapM
      (scannedUtxo view includeMempool stormEye) = .ok scanned → scanned = utxos := by
  intro utxos
  induction utxos with
  | nil =>
    intro scanned _ h
    exact (Except.ok.inj h).symm
  | cons utxo utxos ih =>
    intro scanned hsub h
    rw [List.map_cons, List.mapM_cons] at h
    obtain ⟨first, hfirst, h⟩ := Db.except_bind_ok.mp h
    obtain ⟨rest, hrest, h⟩ := Db.except_bind_ok.mp h
    cases h
    rw [scannedUtxo_listed hlisted (hsub List.mem_cons_self) hfirst, ih (fun other hother => hsub (.tail _ hother)) hrest]

/-- The scan finds the live Storm Eyes, all of them and nothing else. -/
theorem scanStormEyeUtxos_perm (hlisted : Listed view.node stormEye live) {utxos : List (Utxo Bytes32)}
    (hscan : scanStormEyeUtxos view includeMempool stormEye = .ok utxos) : utxos.Perm live := by
  unfold scanStormEyeUtxos at hscan
  obtain ⟨unspents, hunspents, hscan⟩ := Db.except_bind_ok.mp hscan
  obtain ⟨scanned, hscanned, hscan⟩ := Db.except_bind_ok.mp hscan
  dsimp only at hscan
  obtain ⟨-, hscan⟩ := then_ok.mp hscan
  cases hscan
  obtain ⟨unspents', hunspents', hperm⟩ := hlisted.scan
  obtain rfl : unspents = unspents' := Except.ok.inj ((mapError_ok.mp hunspents).symm.trans hunspents')
  obtain ⟨scanned', hscanned', hperm'⟩ := mapM_perm hperm hscanned
  rw [mapM_listed hlisted live (List.Subset.refl live) hscanned'] at hperm'
  exact (List.perm_insertionSort _ _).trans hperm'

/-- An output that holds what a UTXO does, explicitly. -/
def Shape (output : ChainTxOut Bytes32) (utxo : Utxo Bytes32) : Prop :=
  output.asset = .explicit utxo.asset ∧ output.value = .explicit utxo.amount ∧ output.scriptPubkey = utxo.scriptPubkey

/-- The transaction of a UTXO has the output it names. -/
def ShownOn (previousOutput : Bytes32 × ℕ → Except IndexerError (ChainTxOut Bytes32)) (utxo : Utxo Bytes32) : Prop :=
  ∃ output, previousOutput utxo.outpoint = .ok output ∧ Shape output utxo

theorem mapM_shown {previousOutput : Bytes32 × ℕ → Except IndexerError (ChainTxOut Bytes32)} {utxos : List (Utxo Bytes32)}
    (h : ∀ utxo ∈ utxos, ShownOn previousOutput utxo) :
    ∃ spent, (utxos.map Utxo.outpoint).mapM previousOutput = .ok spent ∧ List.Forall₂ Shape spent utxos := by
  induction utxos with
  | nil => exact ⟨[], rfl, .nil⟩
  | cons utxo utxos ih =>
    obtain ⟨output, houtput, hshape⟩ := h utxo List.mem_cons_self
    obtain ⟨spent, hspent, hall⟩ := ih fun other hother => h other (.tail _ hother)
    exact ⟨output :: spent, by rw [List.map_cons, List.mapM_cons, houtput, hspent]; rfl, .cons hshape hall⟩

/-- All units of the asset among some UTXOs. -/
theorem explicitTotal_shapes {asset : Bytes32} {outputs : List (ChainTxOut Bytes32)} {utxos : List (Utxo Bytes32)}
    (h : List.Forall₂ Shape outputs utxos) :
    explicitTotal asset outputs = ((utxos.filter fun utxo => utxo.asset = asset).map Utxo.amount).sum := by
  induction h with
  | nil => rfl
  | @cons output utxo _ _ hshape _ ih =>
    obtain ⟨hasset, hvalue, -⟩ := hshape
    rw [explicitTotal_cons, ih, hasset, hvalue]
    by_cases heq : utxo.asset = asset
    · rw [List.filter_cons_of_pos (by simpa using heq), List.map_cons, List.sum_cons, if_pos (by rw [heq])]
      rfl
    · rw [List.filter_cons_of_neg (by simpa using heq), if_neg (by simpa using heq), Nat.zero_add]

theorem shape_of_output {outputs : List (ChainTxOut Bytes32)} {utxos : List (Utxo Bytes32)}
    (h : List.Forall₂ Shape outputs utxos) : ∀ output ∈ outputs, ∃ utxo ∈ utxos, Shape output utxo := by
  induction h with
  | nil => exact fun _ hnil => absurd hnil List.not_mem_nil
  | cons hshape _ ih =>
    intro output houtput
    rcases List.mem_cons.mp houtput with rfl | houtput
    · exact ⟨_, List.mem_cons_self, hshape⟩
    · obtain ⟨utxo, hutxo, hshape⟩ := ih output houtput
      exact ⟨utxo, .tail _ hutxo, hshape⟩

theorem shape_of_utxo {outputs : List (ChainTxOut Bytes32)} {utxos : List (Utxo Bytes32)}
    (h : List.Forall₂ Shape outputs utxos) : ∀ utxo ∈ utxos, ∃ output ∈ outputs, Shape output utxo := by
  induction h with
  | nil => exact fun _ hnil => absurd hnil List.not_mem_nil
  | cons hshape _ ih =>
    intro utxo hutxo
    rcases List.mem_cons.mp hutxo with rfl | hutxo
    · exact ⟨_, List.mem_cons_self, hshape⟩
    · obtain ⟨output, houtput, hshape⟩ := ih utxo hutxo
      exact ⟨output, .tail _ houtput, hshape⟩

theorem supplies_of_shapes {outputs : List (ChainTxOut Bytes32)} {utxos others : List (Utxo Bytes32)}
    (h : List.Forall₂ Shape outputs (utxos ++ others)) (hne : utxos ≠ [])
    (hutxos : ∀ utxo ∈ utxos, utxo.asset = stormEye.assetId ∧ utxo.scriptPubkey = stormEye.contractScript)
    (hothers : ∀ utxo ∈ others, utxo.asset ≠ stormEye.assetId)
    (htotal : (utxos.map Utxo.amount).sum = stormEye.supply) : Supplies stormEye outputs where
  found := by
    obtain ⟨utxo, hutxo⟩ := List.exists_mem_of_ne_nil utxos hne
    obtain ⟨output, houtput, hshape⟩ := shape_of_utxo h utxo (List.mem_append_left _ hutxo)
    exact ⟨output, houtput, by rw [hshape.1, (hutxos utxo hutxo).1]⟩
  held output houtput hasset := by
    obtain ⟨utxo, hutxo, hshape⟩ := shape_of_output h output houtput
    rw [hshape.1] at hasset
    rcases List.mem_append.mp hutxo with hutxo | hutxo
    · exact ⟨hshape.2.2.trans (hutxos utxo hutxo).2, by rw [hshape.2.1]; rfl⟩
    · exact absurd (ChainField.explicit.inj hasset) (hothers utxo hutxo)
  total := by
    rw [explicitTotal_shapes h, List.filter_append, List.filter_eq_self.mpr, List.filter_eq_nil_iff.mpr, List.append_nil, htotal]
    · simpa using hothers
    · simpa using fun utxo hutxo => (hutxos utxo hutxo).1

/-- The outputs of a renewal hold the whole supply under the next covenant. -/
theorem supplies_renewalOutputs {stormEyeUtxos : List (Utxo Bytes32)} {change : ℕ} (hne : stormEyeUtxos ≠ [])
    (hasset : renewed.assetId = stormEye.assetId) (hpolicy : programs.policyAsset ≠ renewed.assetId)
    (htotal : (stormEyeUtxos.map Utxo.amount).sum = renewed.supply) :
    Supplies renewed ((renewalOutputs programs view stormEye renewed stormEyeUtxos change).map PsetOutput.toTxout) := by
  let moved := stormEyeUtxos.map fun utxo => (⟨utxo.outpoint, stormEye.assetId, utxo.amount, renewed.contractScript⟩ : Utxo Bytes32)
  let others : List (Utxo Bytes32) :=
    (if 0 < change then [⟨(programs.policyAsset, 0), programs.policyAsset, change, treasuryScript programs stormEye⟩] else []) ++
    [⟨(programs.policyAsset, 0), programs.policyAsset, 0, Markers.memberScript view.coordinatorMember⟩,
      ⟨(programs.policyAsset, 0), programs.policyAsset, view.transactionFeeSats, []⟩]
  have hnew : ∀ (script : List UInt8) (amount : ℕ) (asset : Bytes32) (outpoint : Bytes32 × ℕ),
      Shape (PsetOutput.new script amount asset).toTxout ⟨outpoint, asset, amount, script⟩ := fun _ _ _ _ => ⟨rfl, rfl, rfl⟩
  have hothers : ∀ utxo ∈ others, utxo.asset = programs.policyAsset := by
    intro utxo hutxo
    rcases List.mem_append.mp hutxo with hutxo | hutxo
    · split_ifs at hutxo
      · rw [List.mem_singleton.mp hutxo]
      · exact absurd hutxo List.not_mem_nil
    · rcases List.mem_cons.mp hutxo with rfl | hutxo
      · rfl
      · rw [List.mem_singleton.mp hutxo]
  have hmoved : List.Forall₂ Shape ((stormEyeUtxos.map fun utxo =>
      (PsetOutput.new renewed.contractScript utxo.amount stormEye.assetId)).map PsetOutput.toTxout) moved := by
    rw [List.map_map]
    exact List.forall₂_map_left_iff.mpr (List.forall₂_map_right_iff.mpr (List.forall₂_same.mpr fun _ _ => hnew _ _ _ _))
  have hall : List.Forall₂ Shape ((renewalOutputs programs view stormEye renewed stormEyeUtxos change).map PsetOutput.toTxout)
      (moved ++ others) := by
    unfold renewalOutputs
    rw [List.map_append, List.map_append, List.append_assoc]
    refine List.rel_append hmoved (List.rel_append ?_ (.cons (hnew _ _ _ _) (.cons (hnew _ _ _ _) .nil)))
    split_ifs
    · exact .cons (hnew _ _ _ _) .nil
    · exact .nil
  refine supplies_of_shapes hall (by simpa [moved] using hne) ?_ ?_ ?_
  · intro utxo hutxo
    obtain ⟨old, -, rfl⟩ := List.mem_map.mp hutxo
    exact ⟨hasset.symm, rfl⟩
  · intro utxo hutxo
    rw [hothers utxo hutxo]
    exact hpolicy
  · rw [List.map_map]
    exact htotal

end Live

section Agreement

variable {Sig E : Type} {programs : RenewalPrograms Sig E} {view : RenewalView} {stormEye : NetworkAsset Bytes32}
  {includeMempool : Bool} {live : List (Utxo Bytes32)} {blockHeight : ℕ} {prepared : PreparedRenewal}
  {previousOutput : Bytes32 × ℕ → Except IndexerError (ChainTxOut Bytes32)}

/-- The outpoints a transaction spends on this chain. -/
def spends (transaction : Transaction) : List (Bytes32 × ℕ) :=
  (transaction.input.filter fun input => !input.isPegin).map ChainTxIn.previousOutput

theorem spentOutputs_eq (transaction : Transaction) :
    spentOutputs previousOutput transaction = (spends transaction).mapM previousOutput :=
  List.mapM_map.symm

/-- A transaction in a block that was built as this PSET. -/
structure Carries (pset : Pset Bytes32) (transaction : Transaction) : Prop where
  inputs : spends transaction = pset.extractTx.inputs
  outputs : transaction.output = pset.extractTx.outputs

/-- A block in which the whole supply of the covenant is live: an output of it that the block spends is one of the live
ones. Every output is spent once, and amounts of the asset fit 64 bits. -/
structure WholeSupply (view : RenewalView) (includeMempool : Bool) (stormEye : NetworkAsset Bytes32) (live : List (Utxo Bytes32))
    (previousOutput : Bytes32 × ℕ → Except IndexerError (ChainTxOut Bytes32)) (transactions : List Transaction) : Prop where
  shown : ∀ utxo, Shows view includeMempool utxo → ShownOn previousOutput utxo
  known : ∀ transaction ∈ transactions, ∃ spent, spentOutputs previousOutput transaction = .ok spent
  once : (transactions.flatMap spends).Nodup
  fits : ∀ transaction ∈ transactions, explicitTotal stormEye.assetId transaction.output < 2 ^ 64
  whole : ∀ transaction ∈ transactions, ∀ outpoint ∈ spends transaction, ∀ output, previousOutput outpoint = .ok output →
    output.asset = .explicit stormEye.assetId → output.scriptPubkey = stormEye.contractScript →
      outpoint ∈ live.map Utxo.outpoint

/-- The built transaction moves the whole supply. -/
theorem BuiltBy.moves {renewed : NetworkAsset Bytes32} {stormEyeUtxos treasuryUtxos : List (Utxo Bytes32)}
    (hbuilt : BuiltBy programs view stormEye includeMempool blockHeight prepared renewed stormEyeUtxos treasuryUtxos)
    (hlisted : Listed view.node stormEye live) (hwhole : (live.map Utxo.amount).sum = stormEye.supply)
    (hpolicy : programs.policyAsset ≠ stormEye.assetId) (hshown : ∀ utxo, Shows view includeMempool utxo → ShownOn previousOutput utxo)
    {transaction : Transaction} (hcarries : Carries prepared.pset transaction) :
    Moves previousOutput stormEye renewed transaction := by
  obtain ⟨hne, hscanned⟩ := scanStormEyeUtxos_ok hbuilt.scanned
  obtain ⟨hasset, hsupply⟩ := renewedStormEye_ok hbuilt.next
  have hsum : (stormEyeUtxos.map Utxo.amount).sum = stormEye.supply := by
    rw [← hwhole, ((scanStormEyeUtxos_perm hlisted hbuilt.scanned).map _).sum_eq]
  obtain ⟨change, houtputs⟩ := hbuilt.outputs
  constructor
  · rw [hcarries.outputs]
    change Supplies renewed (prepared.pset.outputs.map PsetOutput.toTxout)
    rw [houtputs]
    exact supplies_renewalOutputs hne hasset (hasset ▸ hpolicy) (hsum.trans hsupply.symm)
  · have hall : ∀ utxo ∈ stormEyeUtxos ++ treasuryUtxos, ShownOn previousOutput utxo := by
      intro utxo hutxo
      rcases List.mem_append.mp hutxo with hutxo | hutxo
      · exact hshown utxo (hscanned utxo hutxo).1
      · exact hshown utxo (hbuilt.treasury utxo hutxo).1
    obtain ⟨spent, hspent, hshapes⟩ := mapM_shown hall
    refine ⟨spent, ?_, ?_⟩
    · rw [spentOutputs_eq, hcarries.inputs]
      change (prepared.pset.inputs.map PsetInput.outpoint).mapM previousOutput = _
      rw [hbuilt.inputs, List.map_map]
      exact hspent
    · refine supplies_of_shapes hshapes hne (fun utxo hutxo => (hscanned utxo hutxo).2) (fun utxo hutxo => ?_) hsum
      rw [(hbuilt.treasury utxo hutxo).2]
      exact hpolicy

theorem BuiltBy.spends_live {renewed : NetworkAsset Bytes32} {stormEyeUtxos treasuryUtxos : List (Utxo Bytes32)}
    (hbuilt : BuiltBy programs view stormEye includeMempool blockHeight prepared renewed stormEyeUtxos treasuryUtxos)
    (hlisted : Listed view.node stormEye live) {transaction : Transaction} (hcarries : Carries prepared.pset transaction) :
    ∀ outpoint ∈ live.map Utxo.outpoint, outpoint ∈ spends transaction := by
  intro outpoint houtpoint
  obtain ⟨utxo, hutxo, rfl⟩ := List.mem_map.mp houtpoint
  have hspent := (scanStormEyeUtxos_perm hlisted hbuilt.scanned).mem_iff.mpr hutxo
  rw [hcarries.inputs]
  change utxo.outpoint ∈ prepared.pset.inputs.map PsetInput.outpoint
  rw [hbuilt.inputs, List.map_map]
  exact List.mem_map_of_mem (List.mem_append_left _ hspent)

/-- Beside it, no transaction of the block spends anything of the covenant. -/
theorem WholeSupply.unrelated {renewed : NetworkAsset Bytes32} {transactions : List Transaction} {transaction other : Transaction}
    (h : WholeSupply view includeMempool stormEye live previousOutput transactions) (hasset : renewed.assetId = stormEye.assetId)
    (hlive : ∀ outpoint ∈ live.map Utxo.outpoint, outpoint ∈ spends transaction) (hother : other ∈ transactions)
    (hdisjoint : List.Disjoint (spends other) (spends transaction)) : Unrelated previousOutput stormEye renewed other := by
  obtain ⟨spent, hspent⟩ := h.known other hother
  refine ⟨by rw [hasset]; exact h.fits other hother, spent, hspent, fun output houtput hexplicit hscript => ?_⟩
  rw [spentOutputs_eq] at hspent
  obtain ⟨outpoint, houtpoint, hprevious⟩ := mem_of_mapM hspent output houtput
  exact hdisjoint houtpoint (hlive outpoint (h.whole other hother outpoint houtpoint output hprevious hexplicit hscript))

theorem indexed_of_moves {renewed : NetworkAsset Bytes32} {errorText : AssetError → String} {before after : List Transaction}
    {transaction : Transaction} (hrenewed : renewedStormEye programs.rules stormEye = .ok renewed)
    (hsupply : stormEye.supply < 2 ^ 64) (hmoves : Moves previousOutput stormEye renewed transaction)
    (hbefore : ∀ other ∈ before, Unrelated previousOutput stormEye renewed other)
    (hafter : ∀ other ∈ after, Unrelated previousOutput stormEye renewed other) :
    indexedStormEyeRenewal previousOutput programs.rules errorText (before ++ transaction :: after) stormEye =
      .ok (some (transaction.txid, renewed)) := by
  have hnext : renewed.supply < 2 ^ 64 := by rwa [(renewedStormEye_ok hrenewed).2]
  unfold indexedStormEyeRenewal
  rw [hrenewed]
  change (before ++ transaction :: after).foldlM (renewalStep previousOutput stormEye renewed) none = _
  rw [List.foldlM_append, renewalSteps_unrelated before hbefore]
  change (transaction :: after).foldlM (renewalStep previousOutput stormEye renewed) none = _
  rw [List.foldlM_cons, renewalStep_moves hsupply hnext hmoves]
  exact renewalSteps_unrelated after hafter

/-- A renewal of the whole live supply is built alike by every signer with the same UTXOs and indexed as the step to the next
covenant. Only a transaction that moves the whole supply there is taken for one. -/
theorem renewal_agreement (programs : RenewalPrograms Sig E) (stormEye : NetworkAsset Bytes32)
    (hsupply : stormEye.supply < 2 ^ 64) (hpolicy : programs.policyAsset ≠ stormEye.assetId) :
    (∀ view live includeMempool blockHeight prepared, Listed view.node stormEye live →
      (live.map Utxo.amount).sum = stormEye.supply →
      prepareTransaction programs view blockHeight stormEye includeMempool = .ok prepared →
        (∀ signer, SameNode view signer →
          prepareTransaction programs signer prepared.request.blockHeight stormEye includeMempool = .ok prepared ∧
          (signer.stormEye = some stormEye → validateTransaction programs signer prepared.request includeMempool = .ok ())) ∧
        ∃ renewed, renewedStormEye programs.rules stormEye = .ok renewed ∧
          ∀ previousOutput errorText before transaction after, Carries prepared.pset transaction →
            WholeSupply view includeMempool stormEye live previousOutput (before ++ transaction :: after) →
              indexedStormEyeRenewal previousOutput programs.rules errorText (before ++ transaction :: after) stormEye =
                .ok (some (transaction.txid, renewed))) ∧
    (∀ previousOutput errorText transactions txid next,
      indexedStormEyeRenewal previousOutput programs.rules errorText transactions stormEye = .ok (some (txid, next)) →
        renewedStormEye programs.rules stormEye = .ok next ∧
          ∃ transaction ∈ transactions, transaction.txid = txid ∧ Moves previousOutput stormEye next transaction) := by
  constructor
  · intro view live includeMempool blockHeight prepared hlisted hwhole hprepared
    obtain ⟨renewed, stormEyeUtxos, treasuryUtxos, hbuilt⟩ := prepareTransaction_ok hprepared
    constructor
    · intro signer hsame
      refine ⟨?_, fun hstorm => validateTransaction_same hsame hstorm hprepared⟩
      rw [hbuilt.request.2.1]
      exact prepareTransaction_same hsame hprepared
    · refine ⟨renewed, hbuilt.next, fun previousOutput errorText before transaction after hcarries hblock => ?_⟩
      have hlive := hbuilt.spends_live hlisted hcarries
      have hasset := (renewedStormEye_ok hbuilt.next).1
      obtain ⟨-, hpairs⟩ := List.nodup_flatMap.mp hblock.once
      obtain ⟨-, hlast, hfirst⟩ := List.pairwise_append.mp hpairs
      obtain ⟨hrest, -⟩ := List.pairwise_cons.mp hlast
      refine indexed_of_moves hbuilt.next hsupply (hbuilt.moves hlisted hwhole hpolicy hblock.shown hcarries) ?_ ?_
      · intro other hother
        exact hblock.unrelated hasset hlive (List.mem_append_left _ hother) (hfirst other hother transaction List.mem_cons_self)
      · intro other hother
        exact hblock.unrelated hasset hlive (List.mem_append_right _ (.tail _ hother)) (hrest other hother).symm
  · intro previousOutput errorText transactions txid next h
    obtain ⟨renewed, hrenewed, h⟩ := Db.except_bind_ok.mp h
    have hrenewed := mapError_ok.mp hrenewed
    have hnext : renewed.supply < 2 ^ 64 := by rwa [(renewedStormEye_ok hrenewed).2]
    rcases renewalSteps_sound hsupply hnext transactions h with hnone | ⟨transaction, hmem, hsome, hmoves⟩
    · cases hnone
    · cases hsome
      exact ⟨hrenewed, transaction, hmem, rfl, hmoves⟩

end Agreement

section Example

open Assets (exampleKey exampleRules examplePolicyAsset)

def dueData : StormEyeContractData := ⟨exampleKey 3, 50000, exampleKey 4⟩

/-- A Storm Eye whose rescue height is less than a month away from block 10000. -/
def dueStormEye : NetworkAsset Bytes32 where
  kind := Indexer.stormEyeKind
  name := "Storm Eye"
  assetId := exampleKey 1
  reissuanceTokenId := none
  entropy := none
  issuanceTxid := exampleKey 9
  contractScript := taprootScript (exampleRules.authKey dueData)
  contractData := some (StormEyeContractData.codec.encode dueData)
  supply := 10000
  createdAtBlock := 5

def renewedData : StormEyeContractData := { dueData with rescueHeight := 50000 + Assets.rescueBlocks }

def duePrograms : RenewalPrograms Unit Unit where
  policyAsset := examplePolicyAsset
  rules := exampleRules
  signingHashes _ _ _ := .ok []

def dueLive : List (Utxo Bytes32) :=
  [⟨(exampleKey 10, 1), exampleKey 1, 4000, dueStormEye.contractScript⟩,
    ⟨(exampleKey 11, 0), exampleKey 1, 6000, dueStormEye.contractScript⟩]

def dueTreasury : Utxo Bytes32 := ⟨(exampleKey 12, 0), examplePolicyAsset, 5000, treasuryScript duePrograms dueStormEye⟩

/-- A node that lists what it scans in an order of its own. -/
def dueNode (order : List (ScannedUtxo Bytes32) → List (ScannedUtxo Bytes32)) : ElementsNode Bytes32 where
  txout _ outpoint := .ok (((dueTreasury :: dueLive).find? fun utxo => utxo.outpoint = outpoint).map fun utxo =>
    (utxo.asset, utxo.amount, utxo.scriptPubkey))
  scan script := .ok (order (((dueTreasury :: dueLive).filter fun utxo => utxo.scriptPubkey = script).map fun utxo =>
    ⟨some utxo.outpoint.1, utxo.outpoint.2, some utxo.asset⟩))

def dueView (order : List (ScannedUtxo Bytes32) → List (ScannedUtxo Bytes32)) : RenewalView where
  node := dueNode order
  blockHeight := 10000
  stormEye := some dueStormEye
  indexedTreasury := [((exampleKey 12, 0), 5000)]
  transactionFeeSats := 300
  coordinatorMember := exampleKey 6

def duePset : Pset Bytes32 where
  inputs := (dueLive ++ [dueTreasury]).map .new
  outputs := renewalOutputs duePrograms (dueView List.reverse) dueStormEye
    { dueStormEye with contractScript := taprootScript (exampleRules.authKey renewedData) } dueLive 4700

def duePrepared : PreparedRenewal where
  request := ⟨duePset, none, [], exampleKey 3, 10000, 50000 + Assets.rescueBlocks⟩
  pset := duePset
  spentUtxos := (dueLive ++ [dueTreasury]).map Utxo.txout
  stormEyeInputs := 2
  oldStormEye := dueStormEye

def dueTransaction : Transaction where
  txid := exampleKey 20
  input := duePset.inputs.map fun input => ⟨input.outpoint, false, .null⟩
  output := duePset.extractTx.outputs

def duePreviousOutput (outpoint : Bytes32 × ℕ) : Except IndexerError (ChainTxOut Bytes32) :=
  match (dueNode List.reverse).txout true outpoint with
  | .ok (some (asset, amount, script)) => .ok (⟨outpoint, asset, amount, script⟩ : Utxo Bytes32).txout
  | _ => .error (.invalid "previous transaction output is missing")

theorem dueListed : Listed (dueView List.reverse).node dueStormEye dueLive where
  scan := ⟨_, rfl, ((List.reverse_perm _).filter _).trans (List.Perm.of_eq (by decide +kernel))⟩
  txout utxo hutxo includeMempool shown h := by
    have hshown : ∀ utxo ∈ dueLive, (dueNode List.reverse).optionalOutpoint true utxo.outpoint = .ok (some utxo) := by
      decide +kernel
    have h : (dueNode List.reverse).optionalOutpoint true utxo.outpoint = .ok (some shown) := h
    rw [hshown utxo hutxo] at h
    exact (Option.some.inj (Except.ok.inj h)).symm

theorem dueBlock : WholeSupply (dueView List.reverse) true dueStormEye dueLive duePreviousOutput [dueTransaction] where
  shown utxo h := by
    have h : (dueNode List.reverse).txout true utxo.outpoint = .ok (some (utxo.asset, utxo.amount, utxo.scriptPubkey)) := h
    refine ⟨utxo.txout, ?_, rfl, rfl, rfl⟩
    unfold duePreviousOutput
    rw [h]
  known transaction htransaction := by
    obtain rfl := List.mem_singleton.mp htransaction
    exact ⟨(dueLive ++ [dueTreasury]).map Utxo.txout, by decide +kernel⟩
  once := by decide +kernel
  fits transaction htransaction := by
    obtain rfl := List.mem_singleton.mp htransaction
    decide +kernel
  whole transaction htransaction outpoint houtpoint output hprevious hasset _ := by
    obtain rfl := List.mem_singleton.mp htransaction
    have hspends : ∀ outpoint ∈ spends dueTransaction, outpoint ∈ dueLive.map Utxo.outpoint ∨
        duePreviousOutput outpoint = .ok dueTreasury.txout := by
      decide +kernel
    rcases hspends outpoint houtpoint with hlive | htreasury
    · exact hlive
    · rw [htreasury] at hprevious
      cases hprevious
      exact absurd hasset (by decide +kernel)

/-- A renewal of two Storm Eyes of 4000 and 6000 units, and a signer whose node scans them in the other order. -/
theorem renewal_agreement_due :
    prepareTransaction duePrograms (dueView id) 10000 dueStormEye true = .ok duePrepared ∧
      indexedStormEyeRenewal duePreviousOutput exampleRules (fun _ => "") [dueTransaction] dueStormEye =
        .ok (some (exampleKey 20, { dueStormEye with
          contractScript := taprootScript (exampleRules.authKey renewedData)
          contractData := some (StormEyeContractData.codec.encode renewedData) })) := by
  have hprepared : prepareTransaction duePrograms (dueView List.reverse) 10000 dueStormEye true = .ok duePrepared := by
    decide +kernel
  obtain ⟨hsigners, renewed, hrenewed, hindexed⟩ := (renewal_agreement duePrograms dueStormEye (by decide) (by decide +kernel)).1
    (dueView List.reverse) dueLive true 10000 duePrepared dueListed (by decide +kernel) hprepared
  have hnext : Assets.renewedStormEye exampleRules dueStormEye = .ok { dueStormEye with
      contractScript := taprootScript (exampleRules.authKey renewedData)
      contractData := some (StormEyeContractData.codec.encode renewedData) } := by
    decide +kernel
  obtain rfl := Except.ok.inj (hrenewed.symm.trans hnext)
  have hsame : SameNode (dueView List.reverse) (dueView id) := by
    refine ⟨⟨rfl, ?_⟩, rfl, rfl, rfl⟩
    rintro script unspents ⟨⟩
    exact ⟨_, rfl, List.reverse_perm _⟩
  exact ⟨(hsigners (dueView id) hsame).1,
    hindexed duePreviousOutput (fun _ => "") [] dueTransaction [] ⟨by decide +kernel, rfl⟩ dueBlock⟩

end Example

end Renewal

end PriceOracle
