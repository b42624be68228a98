import PriceOracle.Assets
import PriceOracle.MarkerCodecs
import PriceOracle.StormTreeQuorum

/-!
# Announced assets

What `verify_announced_asset` establishes about an asset that a peer announces. The ids of an issuance
are hashes: those of a new one are held nowhere before it, and no other issuance of its transaction
makes them.
-/

namespace PriceOracle

/-- No unspent output holds the asset. -/
def ChainLedger.Unheld (chain : ChainLedger Bytes32) (asset : Bytes32) : Prop :=
  ∀ outpoint output, chain.utxos outpoint = some output → output.heldAsset chain.openings ≠ some asset

/-- The units of an asset in outputs. -/
def holdings (openings : Openings Bytes32) (asset : Bytes32) (outputs : List (ChainTxOut Bytes32)) : ℕ :=
  (outputs.map fun output => contentOf asset (output.content openings)).sum

theorem contentOf_eq_zero {openings : Openings Bytes32} {asset : Bytes32} {output : ChainTxOut Bytes32}
    (h : output.heldAsset openings ≠ some asset) : contentOf asset (output.content openings) = 0 := by
  unfold ChainTxOut.content
  cases hheld : output.heldAsset openings with
  | none => rfl
  | some held =>
    have hne : held ≠ asset := by
      intro heq
      rw [hheld, heq] at h
      exact h rfl
    cases output.value <;> simp [contentOf, hne]

/-- An asset that is held nowhere is in the outputs of a transaction as much as it is issued there. -/
theorem holdings_of_unheld {chain : ChainLedger Bytes32} {tx : ChainTx Bytes32} {asset : Bytes32}
    (hvalid : chain.Valid tx) (hunheld : chain.Unheld asset) :
    holdings chain.openings asset tx.outputs = (tx.issued.map fun issued => contentOf asset (some issued)).sum := by
  have hspent : (tx.inputs.map fun outpoint =>
      contentOf asset ((chain.utxos outpoint).bind (ChainTxOut.content chain.openings))).sum = 0 := by
    apply List.sum_eq_zero
    intro amount hamount
    obtain ⟨outpoint, -, rfl⟩ := List.mem_map.mp hamount
    cases hutxo : chain.utxos outpoint with
    | none => rfl
    | some output => exact contentOf_eq_zero (hunheld outpoint output hutxo)
  have hbalanced := hvalid.balanced asset
  rw [hspent, Nat.zero_add] at hbalanced
  exact hbalanced.symm

theorem sum_map_filter {A : Type} {keeps : A → Bool} {amount : A → ℕ} {items : List A}
    (h : ∀ item ∈ items, keeps item = false → amount item = 0) :
    (items.map amount).sum = ((items.filter keeps).map amount).sum := by
  induction items with
  | nil => rfl
  | cons item items ih =>
    rw [List.map_cons, List.sum_cons, ih fun other hother => h other (List.mem_cons_of_mem _ hother)]
    cases hkeeps : keeps item with
    | false => simp [hkeeps, h item List.mem_cons_self hkeeps]
    | true => simp [hkeeps]

theorem sum_map_flatMap {A B : Type} (amount : B → ℕ) (expand : A → List B) (items : List A) :
    ((items.flatMap expand).map amount).sum = (items.map fun item => ((expand item).map amount).sum).sum := by
  induction items with
  | nil => rfl
  | cons item items ih => simp [ih]

namespace Assets

variable {Sig E : Type} {rules : AssetRules Sig E} {asset : NetworkAsset Bytes32} {issuance : ConfirmedIssuance}

section Issuances

/-- The single new issuance of an asset, confirmed no earlier than the asset says. -/
structure NewIssuance (rules : AssetRules Sig E) (asset : NetworkAsset Bytes32) (issuance : ConfirmedIssuance)
    (input : ChainTxIn) : Prop where
  confirmed : asset.createdAtBlock ≤ issuance.blockHeight
  single : issuance.transaction.input.filter (IsIssuance rules asset) = [input]
  new : input.assetIssuance.assetBlindingNonce = zeroTweak
  entropy : asset.entropy =
    some (rules.hashes.generateAssetEntropy input.previousOutput input.assetIssuance.assetEntropy)

theorem issuanceInput_ok {input : ChainTxIn} :
    issuanceInput rules asset issuance = .ok input ↔ NewIssuance rules asset issuance input := by
  unfold issuanceInput
  constructor
  · intro h
    split_ifs at h with hheight
    cases hfilter : issuance.transaction.input.filter (IsIssuance rules asset) with
    | nil =>
      rw [hfilter] at h
      cases h
    | cons first others =>
      rw [hfilter] at h
      dsimp only at h
      split_ifs at h with hsingle hentropy
      rw [not_or, not_not, not_not] at hsingle
      rw [not_not] at hentropy
      cases h
      exact ⟨Nat.le_of_not_lt hheight, hsingle.1 ▸ hfilter, hsingle.2, hentropy⟩
  · intro h
    rw [if_neg (Nat.not_lt.mpr h.confirmed), h.single]
    dsimp only
    rw [if_neg (by simp [h.new]), if_neg (not_not.mpr h.entropy)]

/-- The ids of an issuance are new to the chain, and to the other issuances of its transaction. -/
structure FreshIds (rules : AssetRules Sig E) (chain : ChainLedger Bytes32) (transaction : Transaction)
    (asset token : Bytes32) : Prop where
  assetUnheld : chain.Unheld asset
  tokenUnheld : chain.Unheld token
  issuances : ∀ input ∈ transaction.input, input.assetIssuance.isNull = false →
    (input.issuanceIds rules.hashes).1 ≠ token ∧ (input.issuanceIds rules.hashes).2 ≠ asset ∧
      ((input.issuanceIds rules.hashes).2 = token → (input.issuanceIds rules.hashes).1 = asset)

theorem sum_issued (openings : Openings Bytes32) (held : Bytes32) (input : ChainTxIn) :
    ((input.issued rules.hashes openings).map fun issued => contentOf held (some issued)).sum =
      if input.assetIssuance.isNull then 0
      else (if (input.issuanceIds rules.hashes).1 = held then
          input.assetIssuance.amount.amountOf openings (input.issuanceIds rules.hashes).1 else 0) +
        (if (input.issuanceIds rules.hashes).2 = held then
          input.assetIssuance.inflationKeys.amountOf openings (input.issuanceIds rules.hashes).2 else 0) := by
  unfold ChainTxIn.issued
  split_ifs <;> simp [contentOf, *]

/-- Of a fresh asset and its token the transaction holds what their one issuance makes. -/
theorem holdings_of_newIssuance {chain : ChainLedger Bytes32} {input : ChainTxIn}
    (hvalid : chain.Valid (issuance.transaction.chainTx rules.hashes chain.openings))
    (hissued : NewIssuance rules asset issuance input)
    (hfresh : FreshIds rules chain issuance.transaction asset.assetId (input.issuanceIds rules.hashes).2) :
    holdings chain.openings asset.assetId issuance.transaction.output =
        input.assetIssuance.amount.amountOf chain.openings asset.assetId ∧
      holdings chain.openings (input.issuanceIds rules.hashes).2 issuance.transaction.output =
        input.assetIssuance.inflationKeys.amountOf chain.openings (input.issuanceIds rules.hashes).2 := by
  have hmem : input ∈ issuance.transaction.input.filter (IsIssuance rules asset) := by
    rw [hissued.single]
    exact List.mem_singleton_self input
  obtain ⟨hinput, hissuance⟩ := List.mem_filter.mp hmem
  simp only [IsIssuance, Bool.and_eq_true, Bool.not_eq_true', decide_eq_true_eq] at hissuance
  obtain ⟨hnull, hasset⟩ := hissuance
  obtain ⟨hfirst, hsecond, -⟩ := hfresh.issuances input hinput hnull
  have htotal : ∀ held, (∀ other ∈ issuance.transaction.input, IsIssuance rules asset other = false →
      ((other.issued rules.hashes chain.openings).map fun issued => contentOf held (some issued)).sum = 0) →
      ((issuance.transaction.chainTx rules.hashes chain.openings).issued.map fun issued =>
        contentOf held (some issued)).sum =
        ((input.issued rules.hashes chain.openings).map fun issued => contentOf held (some issued)).sum := by
    intro held hothers
    have hsum := sum_map_filter hothers
    rw [hissued.single, List.map_singleton, List.sum_singleton] at hsum
    rw [← hsum]
    exact sum_map_flatMap _ _ _
  -- Another issuing input makes neither id: its asset is another one, and so is its token.
  have hother : ∀ other ∈ issuance.transaction.input, IsIssuance rules asset other = false →
      other.assetIssuance.isNull = false → (other.issuanceIds rules.hashes).1 ≠ asset.assetId := by
    intro other _ hissuance hnull heq
    simp [IsIssuance, hnull, heq] at hissuance
  constructor
  · have hsum := holdings_of_unheld hvalid hfresh.assetUnheld
    rw [htotal asset.assetId, sum_issued, hnull, hasset] at hsum
    · simpa [hsecond, Transaction.chainTx] using hsum
    · intro other hmember hissuance
      rw [sum_issued]
      cases hnull : other.assetIssuance.isNull with
      | true => rfl
      | false => simp [hother other hmember hissuance hnull, (hfresh.issuances other hmember hnull).2.1]
  · have hsum := holdings_of_unheld hvalid hfresh.tokenUnheld
    rw [htotal (input.issuanceIds rules.hashes).2, sum_issued, hnull] at hsum
    · simpa [hfirst, Transaction.chainTx] using hsum
    · intro other hmember hissuance
      rw [sum_issued]
      cases hnull : other.assetIssuance.isNull with
      | true => rfl
      | false =>
        obtain ⟨hne, -, htoken⟩ := hfresh.issuances other hmember hnull
        have hnot : (other.issuanceIds rules.hashes).2 ≠ (input.issuanceIds rules.hashes).2 :=
          fun heq => hother other hmember hissuance hnull (htoken heq)
        simp [hne, hnot]

end Issuances

section Markers

/-- One output carries the initial-members marker of these members, and no other output carries one. -/
def MarkedOnce (outputs : List (ChainTxOut Bytes32)) (members : List Bytes32) : Prop :=
  ∃ before marker after, outputs = before ++ marker :: after ∧
    Markers.initialMembersFromScript marker.scriptPubkey = .ok (some members) ∧
    ∀ output ∈ before ++ after, Markers.initialMembersFromScript output.scriptPubkey = .ok none

theorem initialMembersMarker_ok {output : ChainTxOut Bytes32} {marker : Option (List Bytes32)} :
    initialMembersMarker output = .ok marker ↔ Markers.initialMembersFromScript output.scriptPubkey = .ok marker := by
  unfold initialMembersMarker
  cases Markers.initialMembersFromScript output.scriptPubkey <;> simp [Except.mapError]

theorem initialMembersMarkers_ok {outputs : List (ChainTxOut Bytes32)} {markers : List (List Bytes32)} :
    initialMembersMarkers outputs = .ok markers ↔
      ∃ decoded, outputs.mapM initialMembersMarker = .ok decoded ∧ decoded.filterMap id = markers := by
  unfold initialMembersMarkers
  rw [Db.except_bind_ok]
  simp [pure, Except.pure]

theorem initialMembersMarkers_cons {output : ChainTxOut Bytes32} {outputs : List (ChainTxOut Bytes32)}
    {markers : List (List Bytes32)} (h : initialMembersMarkers (output :: outputs) = .ok markers) :
    ∃ marker rest, Markers.initialMembersFromScript output.scriptPubkey = .ok marker ∧
      initialMembersMarkers outputs = .ok rest ∧ markers = marker.toList ++ rest := by
  obtain ⟨decoded, hdecoded, rfl⟩ := initialMembersMarkers_ok.mp h
  rw [List.mapM_cons] at hdecoded
  obtain ⟨marker, hmarker, hdecoded⟩ := Db.except_bind_ok.mp hdecoded
  obtain ⟨rest, hrest, hdecoded⟩ := Db.except_bind_ok.mp hdecoded
  cases hdecoded
  refine ⟨marker, rest.filterMap id, initialMembersMarker_ok.mp hmarker, initialMembersMarkers_ok.mpr ⟨rest, hrest, rfl⟩, ?_⟩
  cases marker <;> rfl

theorem unmarked_of_ok {outputs : List (ChainTxOut Bytes32)} (h : initialMembersMarkers outputs = .ok []) :
    ∀ output ∈ outputs, Markers.initialMembersFromScript output.scriptPubkey = .ok none := by
  induction outputs with
  | nil => simp
  | cons output outputs ih =>
    obtain ⟨marker, rest, hmarker, hrest, hnil⟩ := initialMembersMarkers_cons h
    obtain ⟨hnone, rfl⟩ := List.append_eq_nil_iff.mp hnil.symm
    rw [Option.toList_eq_nil_iff] at hnone
    subst hnone
    exact List.forall_mem_cons.mpr ⟨hmarker, ih hrest⟩

theorem markedOnce_of_ok {outputs : List (ChainTxOut Bytes32)} {members : List Bytes32}
    (h : initialMembersMarkers outputs = .ok [members]) : MarkedOnce outputs members := by
  induction outputs with
  | nil => cases h
  | cons output outputs ih =>
    obtain ⟨marker, rest, hmarker, hrest, hone⟩ := initialMembersMarkers_cons h
    cases marker with
    | none =>
      obtain rfl : [members] = rest := hone
      obtain ⟨before, marker, after, rfl, hmembers, hothers⟩ := ih hrest
      exact ⟨output :: before, marker, after, rfl, hmembers, List.forall_mem_cons.mpr ⟨hmarker, hothers⟩⟩
    | some first =>
      obtain ⟨rfl, rfl⟩ := List.cons_eq_cons.mp hone
      exact ⟨[], output, outputs, rfl, hmarker, unmarked_of_ok hrest⟩

theorem genesisRoot_ok {markers : List (List Bytes32)} {root : Bytes32} (h : genesisRoot rules asset markers = .ok root) :
    ∃ members tree, markers = [members] ∧ StormTree.new rules.jets rules.keys members = .ok tree ∧
      tree.root rules.jets = root := by
  unfold genesisRoot at h
  split at h
  · rename_i members
    cases htree : StormTree.new rules.jets rules.keys members with
    | error error =>
      rw [htree] at h
      cases h
    | ok tree =>
      rw [htree] at h
      cases h
      exact ⟨members, tree, rfl, htree, rfl⟩
  · cases h

end Markers

section StormEyes

/-- An output of the asset is explicit and at the covenant. -/
def HeldAt (openings : Openings Bytes32) (asset : Bytes32) (script : List UInt8) (output : ChainTxOut Bytes32) : Prop :=
  output.heldAsset openings = some asset →
    output.scriptPubkey = script ∧ output.asset = .explicit asset ∧ ∃ value, output.value = .explicit value

theorem addSupply_ok {openings : Openings Bytes32} {script : List UInt8} {supply total : ℕ} {output : ChainTxOut Bytes32}
    (hexplicit : output.asset.isConfidential = false) (h : addSupply asset script supply output = .ok total) :
    HeldAt openings asset.assetId script output ∧
      total = supply + contentOf asset.assetId (output.content openings) := by
  unfold addSupply at h
  split_ifs at h with hasset hscript
  · cases h
    have hheld : output.heldAsset openings ≠ some asset.assetId := by
      unfold ChainTxOut.heldAsset
      cases hfield : output.asset with
      | null => simp
      | explicit held => simpa [hfield, ChainField.getExplicit] using hasset
      | confidential commitment => simp [hfield, ChainField.isConfidential] at hexplicit
    exact ⟨fun hsome => absurd hsome hheld, by rw [contentOf_eq_zero hheld, Nat.add_zero]⟩
  · rw [not_not] at hasset hscript
    have hasset := ChainField.getExplicit_eq_some.mp hasset
    cases hvalue : output.value.getExplicit with
    | none =>
      rw [hvalue] at h
      cases h
    | some value =>
      rw [hvalue] at h
      dsimp only at h
      split_ifs at h with hlt
      cases h
      have hvalue := ChainField.getExplicit_eq_some.mp hvalue
      refine ⟨fun _ => ⟨hscript, hasset, value, hvalue⟩, ?_⟩
      rw [ChainTxOut.content_explicit hasset hvalue]
      simp [contentOf]

theorem addSupplies_ok {openings : Openings Bytes32} {script : List UInt8} {outputs : List (ChainTxOut Bytes32)} :
    ∀ {supply total : ℕ}, (∀ output ∈ outputs, output.asset.isConfidential = false) →
      outputs.foldlM (addSupply asset script) supply = .ok total →
      (∀ output ∈ outputs, HeldAt openings asset.assetId script output) ∧
        total = supply + holdings openings asset.assetId outputs := by
  induction outputs with
  | nil =>
    intro supply total _ h
    cases h
    simp [holdings]
  | cons output outputs ih =>
    intro supply total hexplicit h
    obtain ⟨hfirst, hexplicit⟩ := List.forall_mem_cons.mp hexplicit
    rw [List.foldlM_cons] at h
    obtain ⟨next, hnext, h⟩ := Db.except_bind_ok.mp h
    obtain ⟨hheld, rfl⟩ := @addSupply_ok _ openings _ _ _ _ hfirst hnext
    obtain ⟨hall, rfl⟩ := ih hexplicit h
    refine ⟨List.forall_mem_cons.mpr ⟨hheld, hall⟩, ?_⟩
    simp only [holdings, List.map_cons, List.sum_cons]
    omega

theorem stormEyeContractData_ok {data : StormEyeContractData} :
    stormEyeContractData asset = .ok data ↔ asset.contractData.bind StormEyeContractData.codec.fromBytes = some data := by
  unfold stormEyeContractData
  cases asset.contractData with
  | none => simp
  | some bytes =>
    dsimp only [Option.bind_some]
    cases StormEyeContractData.codec.fromBytes bytes <;> simp

theorem stormEyeScript_ok {script : List UInt8} :
    stormEyeScript rules asset = .ok script ↔
      ∃ data, stormEyeContractData asset = .ok data ∧ taprootScript (rules.authKey data) = script := by
  unfold stormEyeScript
  rw [Db.except_bind_ok]
  simp [pure, Except.pure]

/-- The script of contract data that were just encoded. -/
theorem stormEyeScript_encode {data : StormEyeContractData} {script : List UInt8}
    (h : stormEyeScript rules { asset with contractData := some (StormEyeContractData.codec.encode data) } = .ok script) :
    script = taprootScript (rules.authKey data) := by
  obtain ⟨decoded, hdecoded, rfl⟩ := stormEyeScript_ok.mp h
  rw [Codec.fromBytes_encode (stormEyeContractData_ok.mp hdecoded)]

theorem toRescueHeight_ok {height rescueHeight : ℕ} :
    toRescueHeight height = .ok rescueHeight ↔ height < 2 ^ 32 ∧ rescueHeight = height := by
  unfold toRescueHeight
  by_cases h : height < 2 ^ 32
  · rw [if_pos h, Except.ok.injEq]
    exact ⟨fun heq => ⟨h, heq.symm⟩, fun heq => heq.2.symm⟩
  · rw [if_neg h]
    constructor
    · intro heq
      cases heq
    · exact fun heq => absurd heq.1 h

/-- A rescue height that fits was not saturated. -/
theorem saturatingAdd_of_lt {a b : ℕ} (h : saturatingAdd a b < 2 ^ 32) : saturatingAdd a b = a + b := by
  unfold saturatingAdd at h ⊢
  omega

theorem toRescueHeight_saturatingAdd {a b : ℕ} (h : a + b < 2 ^ 32) : toRescueHeight (saturatingAdd a b) = .ok (a + b) := by
  have hsum : saturatingAdd a b = a + b := by
    unfold saturatingAdd
    omega
  rw [hsum]
  exact toRescueHeight_ok.mpr ⟨h, rfl⟩

/-- The chain and this node stand behind an announced Storm Eye: its whole supply was issued once, is not
reissuable and lies with the covenant of the members of the one marker, and its contract data are those of
that covenant after some renewals, with the root of this node. -/
structure GenuineStormEye (rules : AssetRules Sig E) (openings : Openings Bytes32) (asset : NetworkAsset Bytes32)
    (issuance : ConfirmedIssuance) (stormTreeRoot : Option Bytes32) (input : ChainTxIn) (members : List Bytes32)
    (tree : StormTree Bytes32) (data : StormEyeContractData) : Prop where
  issued : NewIssuance rules asset issuance input
  amount : asset.supply = stormEyeSupply ∧ input.assetIssuance.amount = .explicit stormEyeSupply
  notReissuable : asset.reissuanceTokenId = none ∧ input.assetIssuance.inflationKeys.isNull = true ∧
    holdings openings (input.issuanceIds rules.hashes).2 issuance.transaction.output = 0
  marker : MarkedOnce issuance.transaction.output members
  built : StormTree.new rules.jets rules.keys members = .ok tree
  covenant : ∀ output ∈ issuance.transaction.output, HeldAt openings asset.assetId
    (taprootScript (rules.authKey ⟨tree.root rules.jets, asset.createdAtBlock + rescueBlocks, data.rescueOutputScriptHash⟩))
    output
  whole : holdings openings asset.assetId issuance.transaction.output = stormEyeSupply
  contractData : asset.contractData.bind StormEyeContractData.codec.fromBytes = some data
  contractScript : asset.contractScript = taprootScript (rules.authKey data)
  root : stormTreeRoot = some data.stormTreeRoot
  rescueHeight : ∃ periods, data.rescueHeight = asset.createdAtBlock + rescueBlocks + periods * rescueBlocks

theorem verifyStormEye_ok {chain : ChainLedger Bytes32} {stormTreeRoot : Option Bytes32}
    (hvalid : chain.Valid (issuance.transaction.chainTx rules.hashes chain.openings))
    (hfresh : ∀ input, NewIssuance rules asset issuance input →
      FreshIds rules chain issuance.transaction asset.assetId (input.issuanceIds rules.hashes).2)
    (h : verifyStormEye rules asset issuance stormTreeRoot = .ok ()) :
    ∃ input members tree data,
      GenuineStormEye rules chain.openings asset issuance stormTreeRoot input members tree data := by
  unfold verifyStormEye at h
  obtain ⟨hfixed, h⟩ := then_ok.mp h
  obtain ⟨hsupply, hnone⟩ := require_ok.mp hfixed
  obtain ⟨input, hinput, h⟩ := Db.except_bind_ok.mp h
  have hissued := issuanceInput_ok.mp hinput
  obtain ⟨hamounts, h⟩ := then_ok.mp h
  obtain ⟨hamount, hkeys⟩ := require_ok.mp hamounts
  dsimp only at h
  obtain ⟨hexplicit, h⟩ := then_ok.mp h
  have hexplicit := require_ok.mp hexplicit
  obtain ⟨markers, hmarkers, h⟩ := Db.except_bind_ok.mp h
  obtain ⟨root, hroot, h⟩ := Db.except_bind_ok.mp h
  obtain ⟨members, tree, rfl, htree, rfl⟩ := genesisRoot_ok hroot
  obtain ⟨data, hdata, h⟩ := Db.except_bind_ok.mp h
  obtain ⟨height, hheight, h⟩ := Db.except_bind_ok.mp h
  obtain ⟨hlt, hheight⟩ := toRescueHeight_ok.mp hheight
  rw [saturatingAdd_of_lt hlt] at hheight
  subst hheight
  obtain ⟨hrenewal, h⟩ := then_ok.mp h
  obtain ⟨hle, hmod⟩ := require_ok.mp hrenewal
  obtain ⟨genesisScript, hgenesis, h⟩ := Db.except_bind_ok.mp h
  have hgenesis := stormEyeScript_encode hgenesis
  obtain ⟨total, htotal, h⟩ := Db.except_bind_ok.mp h
  obtain ⟨hwhole, h⟩ := then_ok.mp h
  have hwhole := require_ok.mp hwhole
  obtain ⟨script, hscript, h⟩ := Db.except_bind_ok.mp h
  obtain ⟨hcontract, h⟩ := then_ok.mp h
  have hcontract := require_ok.mp hcontract
  have hlocal := require_ok.mp h
  obtain ⟨hheld, hsum⟩ := @addSupplies_ok _ chain.openings _ _ _ _ (fun output houtput => (hexplicit output houtput).1) htotal
  obtain ⟨decoded, hdecoded, rfl⟩ := stormEyeScript_ok.mp hscript
  rw [hdata] at hdecoded
  cases hdecoded
  have htoken := (holdings_of_newIssuance hvalid hissued (hfresh input hissued)).2
  refine ⟨input, members, tree, data, hissued, ⟨hsupply, ChainField.getExplicit_eq_some.mp hamount⟩, ⟨hnone, hkeys, ?_⟩,
    markedOnce_of_ok hmarkers, htree, ?_, ?_, stormEyeContractData_ok.mp hdata, hcontract.symm, hlocal, ?_⟩
  · cases hfield : input.assetIssuance.inflationKeys with
    | null => simpa [hfield, ChainField.amountOf] using htoken
    | explicit => simp [hfield, ChainField.isNull] at hkeys
    | confidential => simp [hfield, ChainField.isNull] at hkeys
  · rw [← hgenesis]
    exact hheld
  · omega
  · obtain ⟨periods, hperiods⟩ := Nat.dvd_of_mod_eq_zero hmod
    exact ⟨periods, by rw [Nat.mul_comm] at hperiods; omega⟩

end StormEyes

section Reissuables

theorem found_ok {A : Type} {reason : String} {value : Option A} {a : A} :
    found asset reason value = .ok a ↔ value = some a := by
  cases value <;> simp [found]

/-- The chain stands behind an announced Tick or Verifier: nothing of it exists, and all of its token is in one
output of the Treasury, which its contract data point at. -/
structure GenuineReissuable (rules : AssetRules Sig E) (openings : Openings Bytes32) (asset : NetworkAsset Bytes32)
    (issuance : ConfirmedIssuance) (stormEye : NetworkAsset Bytes32) (input : ChainTxIn) (token : Bytes32) (supply : ℕ)
    (data : TickAssetContractData) (output : ChainTxOut Bytes32) : Prop where
  issued : NewIssuance rules asset issuance input
  empty : asset.supply = reissuableAssetSupply ∧ holdings openings asset.assetId issuance.transaction.output = 0
  reissuable : asset.reissuanceTokenId = some token ∧ (input.issuanceIds rules.hashes).2 = token
  whole : holdings openings token issuance.transaction.output = supply ∧ 0 < supply
  treasury : output.scriptPubkey = treasuryScript rules stormEye ∧ output.content openings = some (token, supply)
  contractScript : asset.contractScript = treasuryScript rules stormEye
  contractData : asset.contractData.bind TickAssetContractData.codec.fromBytes = some data
  issuanceTx : data.issuanceTx = rules.serialize issuance.transaction
  tokenOutput : issuance.transaction.output[data.tokenOutputIndex]? = some output

theorem tickAssetContractData_ok {data : TickAssetContractData} (h : tickAssetContractData asset = .ok data) :
    asset.contractData.bind TickAssetContractData.codec.fromBytes = some data := by
  unfold tickAssetContractData at h
  obtain ⟨bytes, hbytes, h⟩ := Db.except_bind_ok.mp h
  rw [found_ok.mp hbytes, Option.bind_some]
  cases hdecoded : TickAssetContractData.codec.fromBytes bytes with
  | none =>
    rw [hdecoded] at h
    cases h
  | some decoded =>
    rw [hdecoded] at h
    cases h
    rfl

theorem verifyReissuableAsset_ok {chain : ChainLedger Bytes32} {stormEye : NetworkAsset Bytes32}
    (hvalid : chain.Valid (issuance.transaction.chainTx rules.hashes chain.openings))
    (hfresh : ∀ input, NewIssuance rules asset issuance input →
      FreshIds rules chain issuance.transaction asset.assetId (input.issuanceIds rules.hashes).2)
    (hunblind : ∀ output secrets, rules.unblind output = some secrets → output.content chain.openings = some secrets)
    (h : verifyReissuableAsset rules asset issuance stormEye = .ok ()) :
    ∃ input token supply data output,
      GenuineReissuable rules chain.openings asset issuance stormEye input token supply data output := by
  unfold verifyReissuableAsset at h
  obtain ⟨token, htoken, h⟩ := Db.except_bind_ok.mp h
  obtain ⟨htoken, hsupply⟩ := Option.filter_eq_some_iff.mp (found_ok.mp htoken)
  obtain ⟨input, hinput, h⟩ := Db.except_bind_ok.mp h
  have hissued := issuanceInput_ok.mp hinput
  obtain ⟨hids, h⟩ := then_ok.mp h
  have hids := require_ok.mp hids
  obtain ⟨hempty, h⟩ := then_ok.mp h
  have hempty := require_ok.mp hempty
  obtain ⟨supply, hkeys, h⟩ := Db.except_bind_ok.mp h
  obtain ⟨hkeys, hpositive⟩ := Option.filter_eq_some_iff.mp (found_ok.mp hkeys)
  obtain ⟨hscript, h⟩ := then_ok.mp h
  have hscript := require_ok.mp hscript
  obtain ⟨data, hdata, h⟩ := Db.except_bind_ok.mp h
  obtain ⟨hserialized, h⟩ := then_ok.mp h
  have hserialized := require_ok.mp hserialized
  obtain ⟨output, houtput, h⟩ := Db.except_bind_ok.mp h
  obtain ⟨houtput, htreasury⟩ := Option.filter_eq_some_iff.mp (found_ok.mp houtput)
  obtain ⟨secrets, hsecrets, h⟩ := Db.except_bind_ok.mp h
  obtain ⟨rfl, rfl⟩ := require_ok.mp h
  obtain ⟨hunits, htokens⟩ := holdings_of_newIssuance hvalid hissued (hfresh input hissued)
  rw [hids, ChainField.getExplicit_eq_some.mp hkeys] at htokens
  refine ⟨input, secrets.1, secrets.2, data, output, hissued, ⟨by simpa using hsupply, ?_⟩, ⟨htoken, hids⟩,
    ⟨htokens, by simpa using hpositive⟩, ⟨by simpa using htreasury, hunblind output secrets (found_ok.mp hsecrets)⟩, hscript,
    tickAssetContractData_ok hdata, hserialized, houtput⟩
  rw [hunits]
  obtain hnull | hzero := hempty
  · cases hfield : input.assetIssuance.amount with
    | null => rfl
    | explicit => simp [hfield, ChainField.isNull] at hnull
    | confidential => simp [hfield, ChainField.isNull] at hnull
  · rw [ChainField.getExplicit_eq_some.mp hzero]
    rfl

end Reissuables

/-- An announced asset that is accepted is what the chain says it is. -/
theorem announced_asset_genuine {chain : ChainLedger Bytes32} {stormEye : Option (NetworkAsset Bytes32)}
    {stormTreeRoot : Option Bytes32}
    (hvalid : chain.Valid (issuance.transaction.chainTx rules.hashes chain.openings))
    (hfresh : ∀ input, NewIssuance rules asset issuance input →
      FreshIds rules chain issuance.transaction asset.assetId (input.issuanceIds rules.hashes).2)
    (hunblind : ∀ output secrets, rules.unblind output = some secrets → output.content chain.openings = some secrets)
    (h : verifyAnnouncedAsset rules asset issuance stormEye stormTreeRoot = .ok ()) :
    (stormEye = none ∧ asset.kind = Indexer.stormEyeKind ∧ ∃ input members tree data,
        GenuineStormEye rules chain.openings asset issuance stormTreeRoot input members tree data) ∨
      ∃ eye, stormEye = some eye ∧ (asset.kind = Indexer.tickAssetKind ∨ asset.kind = Indexer.oracleVerifierKind) ∧
        ∃ input token supply data output,
          GenuineReissuable rules chain.openings asset issuance eye input token supply data output := by
  unfold verifyAnnouncedAsset at h
  cases stormEye with
  | none =>
    dsimp only at h
    split_ifs at h with hkind
    exact .inl ⟨rfl, hkind, verifyStormEye_ok hvalid hfresh h⟩
  | some eye =>
    dsimp only at h
    split_ifs at h with hkind
    exact .inr ⟨eye, rfl, hkind, verifyReissuableAsset_ok hvalid hfresh hunblind h⟩

section Examples

def exampleKey (byte : UInt8) : Bytes32 := Vector.replicate 32 byte

/-- Ids that differ from the entropy in one byte, a Merkle tree of sums, and a covenant for every root. -/
def exampleRules : AssetRules Unit Unit where
  hashes := ⟨fun outpoint _ => outpoint.1, fun entropy => entropy.set 0 1,
    fun entropy confidential => entropy.set 0 (if confidential then 3 else 2)⟩
  jets := ⟨fun _ => zeroTweak, Vector.toList, fun _ => zeroTweak, zeroTweak, fun _ first _ => first, Vector.zipWith (· + ·),
    Vector.zipWith (· + ·), fun _ => zeroTweak, fun _ _ => true⟩
  keys := ⟨fun _ => .ok (), fun keys => keys.foldl (Vector.zipWith (· + ·)) zeroTweak⟩
  treeError _ := "Storm Tree"
  treasuryKey := id
  authKey data := data.stormTreeRoot.set 0 (UInt8.ofNat data.rescueHeight)
  serialize transaction := transaction.txid.toList
  unblind output := if output.asset = .confidential [1] ∧ output.value = .confidential [2] then
    some (((exampleKey 7).set 0 2, 1)) else none

def examplePolicyAsset : Bytes32 := exampleKey 8

def exampleFee (amount : ℕ) : ChainTxOut Bytes32 := ⟨.explicit examplePolicyAsset, .explicit amount, none, [], none, none⟩

/-- One input of 500 that issues. -/
def exampleIssuance (amount inflationKeys : ChainField ℕ) (outputs : List (ChainTxOut Bytes32)) : ConfirmedIssuance where
  transaction := ⟨exampleKey 9, [⟨(exampleKey 7, 0), false, ⟨zeroTweak, exampleKey 6, amount, inflationKeys⟩⟩], outputs⟩
  blockHeight := 6

def exampleChain : ChainLedger Bytes32 where
  utxos outpoint := if outpoint = (exampleKey 7, 0) then some (exampleFee 500) else none
  openings := ⟨fun _ => (exampleKey 7).set 0 2, fun _ _ => 1⟩
  scripts _ := True

theorem unheld_exampleChain {asset : Bytes32} (h : asset ≠ examplePolicyAsset) : exampleChain.Unheld asset := by
  intro outpoint output houtput
  unfold exampleChain at houtput
  dsimp only at houtput
  split_ifs at houtput
  cases houtput
  exact fun heq => h (Option.some.inj heq).symm

theorem freshIds_exampleIssuance {amount inflationKeys : ChainField ℕ} {outputs : List (ChainTxOut Bytes32)}
    {asset : NetworkAsset Bytes32} (hasset : asset.assetId = (exampleKey 7).set 0 1)
    (hamount : amount.isConfidential = false) (input : ChainTxIn)
    (h : NewIssuance exampleRules asset (exampleIssuance amount inflationKeys outputs) input) :
    FreshIds exampleRules exampleChain (exampleIssuance amount inflationKeys outputs).transaction asset.assetId
      (input.issuanceIds exampleRules.hashes).2 := by
  have hids : ∀ other ∈ (exampleIssuance amount inflationKeys outputs).transaction.input,
      other.issuanceIds exampleRules.hashes = ((exampleKey 7).set 0 1, (exampleKey 7).set 0 2) := by
    intro other hother
    obtain rfl := List.mem_singleton.mp hother
    have hentropy : ChainTxIn.entropy exampleRules.hashes
        ⟨(exampleKey 7, 0), false, ⟨zeroTweak, exampleKey 6, amount, inflationKeys⟩⟩ = exampleKey 7 := if_pos rfl
    unfold ChainTxIn.issuanceIds
    rw [hentropy, hamount]
    rfl
  have hinput : input ∈ (exampleIssuance amount inflationKeys outputs).transaction.input :=
    List.mem_of_mem_filter (h.single ▸ List.mem_singleton_self input)
  rw [hids input hinput, hasset]
  refine ⟨unheld_exampleChain (by decide), unheld_exampleChain (by decide), fun other hother _ => ?_⟩
  rw [hids other hother]
  exact ⟨by decide, by decide, fun _ => rfl⟩

/-- A Tick whose token is blinded for the Treasury. -/
def exampleTickIssuance : ConfirmedIssuance := exampleIssuance .null (.explicit 1)
  [⟨.confidential [1], .confidential [2], some [], taprootScript (exampleKey 5), some [], some []⟩, exampleFee 500]

def exampleTick : NetworkAsset Bytes32 where
  kind := Indexer.tickAssetKind
  name := "Tick"
  assetId := (exampleKey 7).set 0 1
  reissuanceTokenId := some ((exampleKey 7).set 0 2)
  entropy := some (exampleKey 7)
  issuanceTxid := exampleKey 9
  contractScript := taprootScript (exampleKey 5)
  contractData := some (TickAssetContractData.codec.encode ⟨(exampleKey 9).toList, 0⟩)
  supply := 0
  createdAtBlock := 5

def exampleMembers : List Bytes32 := [exampleKey 1, exampleKey 2, exampleKey 4]

def exampleRoot : Bytes32 :=
  match StormTree.new exampleRules.jets exampleRules.keys exampleMembers with
  | .ok tree => tree.root exampleRules.jets
  | .error _ => zeroTweak

/-- The covenant of the example members, renewed so many times. -/
def exampleData (renewals : ℕ) : StormEyeContractData := ⟨exampleRoot, 5 + rescueBlocks + renewals * rescueBlocks, exampleKey 4⟩

def exampleStormEyeIssuance : ConfirmedIssuance := exampleIssuance (.explicit 10000) .null
  [⟨.explicit ((exampleKey 7).set 0 1), .explicit 10000, none, taprootScript (exampleRules.authKey (exampleData 0)), none, none⟩,
    { exampleFee 0 with
      scriptPubkey := OpReturn.newOpReturn (Markers.membersData exampleMembers Markers.initialMembersVersion []) },
    exampleFee 500]

/-- The Storm Eye of the example members after one renewal. -/
def exampleStormEye : NetworkAsset Bytes32 where
  kind := Indexer.stormEyeKind
  name := "Storm Eye"
  assetId := (exampleKey 7).set 0 1
  reissuanceTokenId := none
  entropy := some (exampleKey 7)
  issuanceTxid := exampleKey 9
  contractScript := taprootScript (exampleRules.authKey (exampleData 1))
  contractData := some (StormEyeContractData.codec.encode (exampleData 1))
  supply := 10000
  createdAtBlock := 5

theorem exampleTree : ∃ tree, StormTree.new exampleRules.jets exampleRules.keys exampleMembers = .ok tree ∧
    tree.root exampleRules.jets = exampleRoot := by
  have hasc : exampleMembers.Pairwise (· < ·) :=
    show exampleMembers.Pairwise fun a b => a.toList < b.toList by decide +kernel
  obtain ⟨tree, htree⟩ := (StormTree.new_succeeds_iff (J := exampleRules.jets) (K := exampleRules.keys) exampleMembers).mpr
    ⟨by decide, fun _ _ => rfl, by decide, by decide +kernel,
      (StormTree.nodup_aggregates_iff exampleRules.keys hasc).mp (by decide +kernel)⟩
  refine ⟨tree, htree, ?_⟩
  unfold exampleRoot
  rw [htree]

theorem fromBytes_exampleData {renewals : ℕ} (h : renewals ≤ 1) :
    StormEyeContractData.codec.fromBytes (StormEyeContractData.codec.encode (exampleData renewals)) =
      some (exampleData renewals) := by
  apply Codec.fromBytes_of_admits
  apply Codec.struct_admits
  apply Codec.pair_admits (Codec.array_admits _)
  apply Codec.pair_admits _ (Codec.array_admits _)
  apply Codec.u32_admits
  unfold exampleData rescueBlocks
  dsimp only
  omega

theorem valid_exampleTick :
    exampleChain.Valid (exampleTickIssuance.transaction.chainTx exampleRules.hashes exampleChain.openings) where
  distinct := by decide
  spends := by decide
  held := by decide
  balanced asset := by
    simp [exampleTickIssuance, exampleIssuance, Transaction.chainTx, Transaction.outpoints, exampleChain, exampleFee,
      ChainTxIn.issued, AssetIssuance.isNull, ChainField.isNull, ChainField.amountOf, ChainTxOut.content,
      ChainTxOut.heldAsset, contentOf, ChainTxIn.issuanceIds, ChainTxIn.entropy, exampleRules, ChainField.isConfidential]
    omega
  scripts := trivial

theorem valid_exampleStormEye :
    exampleChain.Valid (exampleStormEyeIssuance.transaction.chainTx exampleRules.hashes exampleChain.openings) where
  distinct := by decide
  spends := by decide
  held := by
    intro output houtput
    simp only [exampleStormEyeIssuance, exampleIssuance, Transaction.chainTx, List.mem_cons, List.not_mem_nil, or_false] at houtput
    rcases houtput with rfl | rfl | rfl <;> rfl
  balanced asset := by
    simp [exampleStormEyeIssuance, exampleIssuance, Transaction.chainTx, Transaction.outpoints, exampleChain, exampleFee,
      ChainTxIn.issued, AssetIssuance.isNull, ChainField.isNull, ChainField.amountOf, ChainTxOut.content,
      ChainTxOut.heldAsset, contentOf, ChainTxIn.issuanceIds, ChainTxIn.entropy, exampleRules, ChainField.isConfidential]
    omega
  scripts := trivial

theorem unblind_exampleRules (output : ChainTxOut Bytes32) (secrets : Bytes32 × ℕ)
    (h : exampleRules.unblind output = some secrets) : output.content exampleChain.openings = some secrets := by
  unfold exampleRules at h
  dsimp only at h
  split_ifs at h with hfields
  cases h
  unfold ChainTxOut.content ChainTxOut.heldAsset
  rw [hfields.1, hfields.2]
  rfl

theorem verify_exampleTick (eye : NetworkAsset Bytes32) (heye : eye.assetId = exampleKey 5) :
    verifyAnnouncedAsset exampleRules exampleTick exampleTickIssuance (some eye) none = .ok () := by
  unfold verifyAnnouncedAsset
  dsimp only
  rw [if_pos (.inl rfl)]
  unfold verifyReissuableAsset treasuryScript
  rw [heye]
  rfl

theorem verify_exampleStormEye :
    verifyAnnouncedAsset exampleRules exampleStormEye exampleStormEyeIssuance none (some exampleRoot) = .ok () := by
  obtain ⟨tree, htree, hroot⟩ := exampleTree
  have hmarkers : initialMembersMarkers exampleStormEyeIssuance.transaction.output = .ok [exampleMembers] := by
    have hmarker := Markers.initialMembersFromScript_members (show exampleMembers ≠ [] by decide) (by decide) (by decide)
    refine initialMembersMarkers_ok.mpr ⟨[none, some exampleMembers, none], ?_, rfl⟩
    have hsecond : initialMembersMarker { exampleFee 0 with
        scriptPubkey := OpReturn.newOpReturn (Markers.membersData exampleMembers Markers.initialMembersVersion []) } =
        .ok (some exampleMembers) := initialMembersMarker_ok.mpr hmarker
    rw [exampleStormEyeIssuance, exampleIssuance, List.mapM_cons, List.mapM_cons, List.mapM_cons, List.mapM_nil, hsecond]
    rfl
  have hdata : stormEyeContractData exampleStormEye = .ok (exampleData 1) :=
    stormEyeContractData_ok.mpr (fromBytes_exampleData le_rfl)
  have hscript : ∀ {asset : NetworkAsset Bytes32} {renewals : ℕ}, renewals ≤ 1 →
      asset.contractData = some (StormEyeContractData.codec.encode (exampleData renewals)) →
      stormEyeScript exampleRules asset = .ok (taprootScript (exampleRules.authKey (exampleData renewals))) := by
    intro asset renewals hrenewals hasset
    refine stormEyeScript_ok.mpr ⟨exampleData renewals, stormEyeContractData_ok.mpr ?_, rfl⟩
    rw [hasset]
    exact fromBytes_exampleData hrenewals
  unfold verifyAnnouncedAsset
  dsimp only
  rw [if_pos (show exampleStormEye.kind = Indexer.stormEyeKind from rfl)]
  unfold verifyStormEye
  refine then_ok.mpr ⟨require_ok.mpr ⟨rfl, rfl⟩, ?_⟩
  refine Db.except_bind_ok.mpr ⟨_, issuanceInput_ok.mpr ⟨by decide, rfl, rfl, rfl⟩, ?_⟩
  refine then_ok.mpr ⟨require_ok.mpr ⟨rfl, rfl⟩, ?_⟩
  refine then_ok.mpr ⟨require_ok.mpr ?_, ?_⟩
  · intro output houtput
    simp only [exampleStormEyeIssuance, exampleIssuance, List.mem_cons, List.not_mem_nil, or_false] at houtput
    rcases houtput with rfl | rfl | rfl <;> exact ⟨rfl, rfl⟩
  refine Db.except_bind_ok.mpr ⟨_, hmarkers, ?_⟩
  refine Db.except_bind_ok.mpr ⟨exampleRoot, ?_, ?_⟩
  · unfold genesisRoot
    dsimp only
    rw [htree]
    exact congrArg Except.ok hroot
  refine Db.except_bind_ok.mpr ⟨_, hdata, ?_⟩
  refine Db.except_bind_ok.mpr ⟨5 + rescueBlocks, toRescueHeight_saturatingAdd (by decide), ?_⟩
  refine then_ok.mpr ⟨require_ok.mpr (by decide), ?_⟩
  refine Db.except_bind_ok.mpr ⟨_, hscript (Nat.zero_le 1) rfl, ?_⟩
  refine Db.except_bind_ok.mpr ⟨10000, ?_, ?_⟩
  · simp [exampleStormEyeIssuance, exampleIssuance, addSupply, exampleStormEye, ChainField.getExplicit]
    decide
  refine then_ok.mpr ⟨require_ok.mpr rfl, ?_⟩
  refine Db.except_bind_ok.mpr ⟨_, hscript le_rfl rfl, ?_⟩
  exact then_ok.mpr ⟨require_ok.mpr rfl, require_ok.mpr rfl⟩

/-- A Storm Eye that was renewed once, and a Tick of it. -/
theorem announced_asset_genuine_example :
    (∃ input members tree data, GenuineStormEye exampleRules exampleChain.openings exampleStormEye exampleStormEyeIssuance
      (some exampleRoot) input members tree data) ∧
    ∃ input token supply data output, GenuineReissuable exampleRules exampleChain.openings exampleTick exampleTickIssuance
      { exampleStormEye with assetId := exampleKey 5 } input token supply data output := by
  constructor
  · obtain ⟨-, -, hgenuine⟩ | ⟨eye, heye, -⟩ := announced_asset_genuine valid_exampleStormEye
      (freshIds_exampleIssuance rfl rfl) unblind_exampleRules verify_exampleStormEye
    · exact hgenuine
    · cases heye
  · obtain ⟨hnone, -⟩ | ⟨eye, heye, -, hgenuine⟩ := announced_asset_genuine valid_exampleTick
      (freshIds_exampleIssuance rfl rfl) unblind_exampleRules
      (verify_exampleTick { exampleStormEye with assetId := exampleKey 5 } rfl)
    · cases hnone
    · cases heye
      exact hgenuine

end Examples

end Assets

end PriceOracle
