import PriceOracle.Loops
import PriceOracle.MarkerCodecs
import PriceOracle.ReshapeCovenants
import PriceOracle.ReshapeValidator

/-!
# Proposer and signers of a vote

The request that the proposer builds for an approved vote passes `validate_layout` on every node that sees
what the proposer saw, whether or not that node accepts spent inputs and Treasury outputs it has not indexed.
-/

namespace PriceOracle

namespace VotingReshape

variable {W : Type} [LinearOrder W] {programs : VotingPrograms W} {view : VotingView W} {stormEye : NetworkAsset W}
  {operation : ReshapeOperation W} {proposer : Bytes32} {allowSpent allowUnindexed : Bool}

section Selection

/-- A UTXO that the node shows as live. -/
def Live (view : VotingView W) (utxo : Utxo W) : Prop := view.node.optionalOutpoint true utxo.outpoint = .ok (some utxo)

omit [LinearOrder W] in
theorem explicitOutpoint_live {outpoint : W × ℕ} {utxo : Utxo W} (h : view.node.explicitOutpoint outpoint = .ok utxo) :
    utxo.outpoint = outpoint ∧ Live view utxo := by
  unfold ElementsNode.explicitOutpoint at h
  obtain ⟨answer, hanswer, h⟩ := Db.except_bind_ok.mp h
  cases answer with
  | none => cases h
  | some found =>
    cases h
    have hshown := hanswer
    unfold ElementsNode.optionalOutpoint at hshown
    obtain ⟨txout, -, hshown⟩ := Db.except_bind_ok.mp hshown
    obtain ⟨held, -, rfl⟩ := Option.map_eq_some_iff.mp (Except.ok.inj hshown)
    exact ⟨rfl, hanswer⟩

omit [LinearOrder W] in
theorem Live.votingInput {utxo : Utxo W} (h : Live view utxo) :
    VotingReshape.votingInput view utxo.outpoint allowSpent = .ok utxo.txout := by
  unfold VotingReshape.votingInput
  exact Db.except_bind_ok.mpr ⟨some utxo, helper_ok.mpr h, rfl⟩

/-- A live UTXO of the Storm Eye. -/
def LiveStormEye (view : VotingView W) (stormEye : NetworkAsset W) (utxo : Utxo W) : Prop :=
  Live view utxo ∧ utxo.asset = stormEye.assetId ∧ utxo.scriptPubkey = stormEye.contractScript

theorem approvedStormEye_ok {outpoint : W × ℕ} {utxo : Utxo W} (h : approvedStormEye view stormEye outpoint = .ok utxo) :
    utxo.outpoint = outpoint ∧ LiveStormEye view stormEye utxo := by
  unfold approvedStormEye at h
  obtain ⟨found, hfound, h⟩ := Db.except_bind_ok.mp h
  obtain ⟨hheld, h⟩ := then_ok.mp h
  cases h
  obtain ⟨houtpoint, hlive⟩ := explicitOutpoint_live (helper_ok.mp hfound)
  exact ⟨houtpoint, hlive, require_ok.mp hheld⟩

theorem scannedStormEye_ok {unspent : ScannedUtxo W} {utxo : Utxo W} (h : scannedStormEye view stormEye unspent = .ok utxo) :
    LiveStormEye view stormEye utxo := by
  unfold scannedStormEye at h
  cases htxid : unspent.txid with
  | none =>
    rw [htxid] at h
    cases h
  | some txid =>
    rw [htxid] at h
    obtain ⟨found, hfound, h⟩ := Db.except_bind_ok.mp h
    obtain ⟨hheld, h⟩ := then_ok.mp h
    cases h
    exact ⟨(explicitOutpoint_live (helper_ok.mp hfound)).2, require_ok.mp hheld⟩

theorem scanStormEyeUtxos_ok {utxos : List (Utxo W)} (h : scanStormEyeUtxos view stormEye = .ok utxos) :
    utxos ≠ [] ∧ ∀ utxo ∈ utxos, LiveStormEye view stormEye utxo := by
  unfold scanStormEyeUtxos at h
  obtain ⟨unspents, -, h⟩ := Db.except_bind_ok.mp h
  obtain ⟨found, hfound, h⟩ := Db.except_bind_ok.mp h
  obtain ⟨hsome, h⟩ := then_ok.mp h
  cases h
  have hfound := Loops.mapM_forall₂ hfound
  have hperm := List.perm_insertionSort (fun a b : Utxo W => toLex a.outpoint ≤ toLex b.outpoint) found
  refine ⟨fun hnil => require_ok.mp hsome ?_, fun utxo hutxo => ?_⟩
  · rw [hnil] at hperm
    exact hperm.nil_eq.symm
  · obtain ⟨i, hi⟩ := List.getElem?_of_mem (hperm.subset hutxo)
    obtain ⟨unspent, -, hscanned⟩ := Loops.forall₂_get hfound hi
    exact scannedStormEye_ok hscanned

/-- The Storm Eyes that the proposer spends are the ones that signers expect. -/
theorem operationUtxos_ok {pset : Pset W} {utxos : List (Utxo W)} (h : operationUtxos view stormEye operation = .ok utxos) :
    (∀ utxo ∈ utxos, LiveStormEye view stormEye utxo) ∧
      expectedOutpoints view pset stormEye allowSpent operation = .ok (utxos.map Utxo.outpoint) := by
  have hnamed {outpoints : List (W × ℕ)} (hfound : outpoints.mapM (approvedStormEye view stormEye) = .ok utxos) :
      (∀ utxo ∈ utxos, LiveStormEye view stormEye utxo) ∧ utxos.map Utxo.outpoint = outpoints := by
    have hfound := (Loops.mapM_forall₂ hfound).imp fun _ _ hstep => approvedStormEye_ok hstep
    refine ⟨fun utxo hutxo => ?_, ?_⟩
    · obtain ⟨i, hi⟩ := List.getElem?_of_mem hutxo
      obtain ⟨outpoint, -, -, hlive⟩ := Loops.forall₂_get hfound hi
      exact hlive
    · have hsame := hfound.imp fun _ _ hstep => hstep.1.symm
      exact (List.forall₂_eq_eq_eq ▸ (List.forall₂_map_right_iff.mpr hsame) : outpoints = utxos.map Utxo.outpoint).symm
  cases operation with
  | merge outpoints =>
    obtain ⟨hlive, houtpoints⟩ := hnamed h
    exact ⟨hlive, by rw [houtpoints]; rfl⟩
  | split outpoint count =>
    obtain ⟨hlive, houtpoints⟩ := hnamed h
    exact ⟨hlive, by rw [houtpoints]; rfl⟩
  | updateMembers members newRoot =>
    obtain ⟨hsome, hlive⟩ := scanStormEyeUtxos_ok h
    refine ⟨hlive, Db.except_bind_ok.mpr ⟨utxos.map Utxo.outpoint, ?_, ?_⟩⟩
    · have hscan : scanStormEyeUtxos view stormEye = .ok utxos := h
      rw [updateOutpoints, hscan]
    · rw [if_neg fun hnone => hsome (List.map_eq_nil_iff.mp hnone.2)]
      rfl

/-- The Treasury outputs that the proposer spends are indexed and live. -/
theorem selectTreasuryUtxos_ok {indexed : List ((W × ℕ) × ℕ)} : ∀ {selected utxos : List (Utxo W)} {total : ℕ},
    selectTreasuryUtxos programs view indexed selected total = .ok utxos → ∃ more, utxos = selected ++ more ∧ more ≠ [] ∧
      ∀ utxo ∈ more, utxo.outpoint ∈ indexed.map Prod.fst ∧ Live view utxo ∧ utxo.asset = programs.policyAsset := by
  induction indexed with
  | nil =>
    intro selected utxos total h
    cases h
  | cons item rest ih =>
    intro selected utxos total h
    have hskipped (hrest : selectTreasuryUtxos programs view rest selected total = .ok utxos) : ∃ more,
        utxos = selected ++ more ∧ more ≠ [] ∧ ∀ utxo ∈ more, utxo.outpoint ∈ (item :: rest).map Prod.fst ∧
          Live view utxo ∧ utxo.asset = programs.policyAsset := by
      obtain ⟨more, hmore, hne, hall⟩ := ih hrest
      exact ⟨more, hmore, hne, fun utxo hutxo => ⟨List.mem_cons_of_mem _ (hall utxo hutxo).1, (hall utxo hutxo).2⟩⟩
    unfold selectTreasuryUtxos at h
    obtain ⟨answer, hanswer, h⟩ := Db.except_bind_ok.mp h
    cases answer with
    | none => exact hskipped h
    | some utxo =>
      dsimp only at h
      by_cases hother : utxo.asset ≠ programs.policyAsset ∨ utxo.amount ≠ item.2
      · rw [if_pos hother] at h
        exact hskipped h
      rw [if_neg hother] at h
      obtain ⟨next, -, h⟩ := Db.except_bind_ok.mp h
      have hshown := helper_ok.mp hanswer
      have houtpoint : utxo.outpoint = item.1 := by
        have hshown := hshown
        unfold ElementsNode.optionalOutpoint at hshown
        obtain ⟨txout, -, hshown⟩ := Db.except_bind_ok.mp hshown
        obtain ⟨held, -, rfl⟩ := Option.map_eq_some_iff.mp (Except.ok.inj hshown)
        rfl
      have hutxo : utxo.outpoint ∈ (item :: rest).map Prod.fst ∧ Live view utxo ∧ utxo.asset = programs.policyAsset := by
        refine ⟨by rw [houtpoint]; exact List.mem_cons_self, ?_, not_not.mp (not_or.mp hother).1⟩
        rw [Live, houtpoint]
        exact hshown
      by_cases hcovers : view.transactionFeeSats ≤ next
      · rw [if_pos hcovers] at h
        cases h
        exact ⟨[utxo], rfl, by simp, by simpa using hutxo⟩
      · rw [if_neg hcovers] at h
        obtain ⟨more, rfl, -, hall⟩ := ih h
        refine ⟨utxo :: more, by simp, by simp, ?_⟩
        rw [List.forall_mem_cons]
        exact ⟨hutxo, fun other hmem => ⟨List.mem_cons_of_mem _ (hall other hmem).1, (hall other hmem).2⟩⟩

end Selection

section Inputs

variable {pset : Pset W}

omit [LinearOrder W] in
theorem sumAmounts_ok {utxos : List (Utxo W)} {message : String} {total : ℕ} (h : sumAmounts utxos message = .ok total) :
    total = (utxos.map Utxo.amount).sum ∧ total < 2 ^ 64 := by
  refine Loops.foldlM_ok (P := fun done total => total = (done.map Utxo.amount).sum ∧ total < 2 ^ 64) ?_ ⟨rfl, by norm_num⟩ h
  rintro done utxo total next ⟨rfl, -⟩ hstep
  obtain ⟨rfl, hfits⟩ := addAmount_ok.mp hstep
  exact ⟨by simp, hfits⟩

/-- Live Storm Eyes that stand first are taken, in their order. -/
theorem addStormEyeInputs_runs {utxos : List (Utxo W)} (hlive : ∀ utxo ∈ utxos, LiveStormEye view stormEye utxo)
    (hinputs : ∀ (i : ℕ) (utxo : Utxo W), utxos[i]? = some utxo → pset.inputs[i]? = some (.new utxo))
    (hfits : (utxos.map Utxo.amount).sum < 2 ^ 64) :
    (utxos.map Utxo.outpoint).zipIdx.foldlM (addStormEyeInput view pset stormEye allowSpent) 0 =
      .ok (utxos.map Utxo.amount).sum := by
  have hpairs : (utxos.map Utxo.outpoint).zipIdx = (utxos.zipIdx.map fun item => ((item.1.outpoint, item.2), item.1.amount)).map
      Prod.fst := by
    rw [List.map_map, List.zipIdx_map]
    rfl
  have hsum : ((utxos.zipIdx.map fun item => ((item.1.outpoint, item.2), item.1.amount)).map Prod.snd).sum =
      (utxos.map Utxo.amount).sum := by
    rw [List.map_map, ← List.zipIdx_map_fst 0 utxos, List.map_map, List.zipIdx_map_fst]
    rfl
  have hruns := @foldlM_sum_ok _ _ (addStormEyeInput view pset stormEye allowSpent)
    (fun expected amount => ∃ utxo, utxos[expected.2]? = some utxo ∧ expected.1 = utxo.outpoint ∧ amount = utxo.amount)
    (fun total expected amount hstep hbound => by
      obtain ⟨utxo, hutxo, houtpoint, rfl⟩ := hstep
      obtain ⟨hshown, hasset, hscript⟩ := hlive utxo (List.mem_of_getElem? hutxo)
      have hinput := hinputs _ utxo hutxo
      unfold addStormEyeInput
      rw [hinput]
      dsimp only
      refine then_ok.mpr ⟨require_ok.mpr houtpoint.symm, Db.except_bind_ok.mpr ⟨utxo.amount, ?_, addAmount_ok.mpr ⟨rfl, hbound⟩⟩⟩
      exact checkInput_ok.mpr ⟨utxo.txout, Pset.witnessUtxo_ok.mpr ⟨_, hinput, rfl⟩, hshown.votingInput,
        congrArg ChainField.explicit hasset, rfl, hscript⟩)
    (utxos.zipIdx.map fun item => ((item.1.outpoint, item.2), item.1.amount)) 0 (fun pair hpair => by
      obtain ⟨item, hitem, rfl⟩ := List.mem_map.mp hpair
      exact ⟨item.1, List.mem_zipIdx_iff_getElem?.mp hitem, rfl, rfl⟩) (by rw [hsum]; omega)
  rw [hpairs, hruns, hsum, Nat.zero_add]

/-- Live indexed outputs of the Treasury behind them are taken. -/
theorem addTreasuryInputs_runs {first treasury : List (Utxo W)} (hinputs : pset.inputs = (first ++ treasury).map .new)
    (hheld : ∀ utxo ∈ treasury, utxo.outpoint ∈ view.indexedTreasury.map Prod.fst ∧ Live view utxo ∧
      utxo.asset = programs.policyAsset ∧ utxo.scriptPubkey = treasuryScript programs stormEye)
    (hfits : (treasury.map Utxo.amount).sum < 2 ^ 64) :
    (pset.inputs.zipIdx.drop first.length).foldlM
      (addTreasuryInput programs view pset stormEye allowSpent allowUnindexed) 0 = .ok (treasury.map Utxo.amount).sum := by
  have hpairs : pset.inputs.zipIdx.drop first.length =
      ((treasury.zipIdx first.length).map fun item => ((PsetInput.new item.1, item.2), item.1.amount)).map Prod.fst := by
    rw [hinputs, List.map_append, List.zipIdx_append, List.drop_left' (by rw [List.length_zipIdx, List.length_map]),
      List.length_map, List.zipIdx_map, List.map_map, Nat.zero_add]
    rfl
  have hsum : (((treasury.zipIdx first.length).map fun item => ((PsetInput.new item.1, item.2), item.1.amount)).map
      Prod.snd).sum = (treasury.map Utxo.amount).sum := by
    rw [List.map_map, ← List.zipIdx_map_fst first.length treasury, List.map_map, List.zipIdx_map_fst]
    rfl
  have hruns := @foldlM_sum_ok _ _ (addTreasuryInput programs view pset stormEye allowSpent allowUnindexed)
    (fun item amount => ∃ utxo ∈ treasury, pset.inputs[item.2]? = some item.1 ∧ item.1 = .new utxo ∧ amount = utxo.amount)
    (fun total item amount hstep hbound => by
      obtain ⟨utxo, hutxo, hinput, hitem, rfl⟩ := hstep
      obtain ⟨hindexed, hshown, hasset, hscript⟩ := hheld utxo hutxo
      unfold addTreasuryInput
      rw [hitem] at hinput ⊢
      refine then_ok.mpr ⟨require_ok.mpr (.inr hindexed),
        Db.except_bind_ok.mpr ⟨utxo.amount, ?_, addAmount_ok.mpr ⟨rfl, hbound⟩⟩⟩
      exact checkInput_ok.mpr ⟨utxo.txout, Pset.witnessUtxo_ok.mpr ⟨_, hinput, rfl⟩, hshown.votingInput,
        congrArg ChainField.explicit hasset, rfl, hscript⟩)
    ((treasury.zipIdx first.length).map fun item => ((PsetInput.new item.1, item.2), item.1.amount)) 0 (fun pair hpair => by
      obtain ⟨item, hitem, rfl⟩ := List.mem_map.mp hpair
      obtain ⟨hle, hget⟩ := List.mk_mem_zipIdx_iff_le_and_getElem?_sub.mp hitem
      refine ⟨item.1, List.mem_of_getElem? hget, ?_, rfl, rfl⟩
      rw [hinputs, List.getElem?_map, List.getElem?_append_right hle, hget, Option.map_some]) (by rw [hsum]; omega)
  rw [hpairs, hruns, hsum, Nat.zero_add]

end Inputs

section Outputs

variable {pset : Pset W} {fee : ℕ} {tally : VotingTally}

omit [LinearOrder W] in
theorem isFullyExplicit_new (script : List UInt8) (amount : ℕ) (asset : W) :
    (PsetOutput.new script amount asset).isFullyExplicit = true := rfl

omit [LinearOrder W] in
/-- The proposer's Storm Eyes have the amounts that signers expect at their positions. -/
theorem expectedAmount_runs {utxos : List (Utxo W)} (hlive : ∀ utxo ∈ utxos, LiveStormEye view stormEye utxo) {index amount : ℕ}
    (hamount : (reshapedAmounts operation (utxos.map Utxo.amount))[index]? = some amount) :
    expectedAmount view allowSpent operation (utxos.map Utxo.outpoint) (utxos.map Utxo.amount).sum
      (splitCount utxos.length operation) index = .ok amount := by
  cases operation with
  | merge outpoints =>
    obtain ⟨hindex, hamount⟩ := List.getElem?_eq_some_iff.mp hamount
    have hzero : index = 0 := Nat.lt_one_iff.mp hindex
    subst hzero
    simp only [reshapedAmounts, List.getElem_cons_zero] at hamount
    simp [expectedAmount, FairDivision.share, splitCount, hamount, Nat.mod_one]
  | split outpoint count =>
    obtain ⟨hindex, hamount⟩ := List.getElem?_eq_some_iff.mp hamount
    simp only [reshapedAmounts, FairDivision.shares, List.getElem_map, List.getElem_range] at hamount
    rw [← hamount]
    rfl
  | updateMembers members newRoot =>
    rw [reshapedAmounts, List.getElem?_map, Option.map_eq_some_iff] at hamount
    obtain ⟨utxo, hutxo, rfl⟩ := hamount
    unfold expectedAmount
    dsimp only
    rw [List.getElem?_map, hutxo]
    exact Db.except_bind_ok.mpr ⟨utxo.txout, (hlive utxo (List.mem_of_getElem? hutxo)).1.votingInput, rfl⟩

theorem checkStormEyeOutputs_run {utxos : List (Utxo W)} (hlive : ∀ utxo ∈ utxos, LiveStormEye view stormEye utxo)
    {destination : List UInt8} {outputs : List (PsetOutput W)}
    (houtputs : outputs = (reshapedAmounts operation (utxos.map Utxo.amount)).map fun amount =>
      .new destination amount stormEye.assetId) :
    outputs.zipIdx.forM (checkStormEyeOutput view stormEye allowSpent operation (utxos.map Utxo.outpoint)
      (utxos.map Utxo.amount).sum (splitCount utxos.length operation) destination) = .ok () := by
  refine forM_zipIdx_ok.mpr fun i output houtput => ?_
  rw [houtputs, List.getElem?_map, Option.map_eq_some_iff] at houtput
  obtain ⟨amount, hamount, rfl⟩ := houtput
  exact Db.except_bind_ok.mpr ⟨amount, expectedAmount_runs hlive hamount, require_ok.mpr ⟨rfl, rfl, rfl, rfl⟩⟩

omit [LinearOrder W] in
theorem scripts_differ (member : Bytes32) :
    Markers.memberScript member ≠ treasuryScript programs stormEye ∧ ([] : List UInt8) ≠ treasuryScript programs stormEye ∧
      [] ≠ Markers.memberScript member := by
  simp [Markers.memberScript, treasuryScript, OpReturn.newOpReturn, OpReturn.opReturn]

omit [LinearOrder W] in
/-- The marker of a member update is none of the other scripts. -/
theorem migratedMembersScript_ne {members : List Bytes32} {member : Bytes32} {script : List UInt8}
    (h : migratedMembersScript members proposer = .ok script) :
    script ≠ treasuryScript programs stormEye ∧ script ≠ Markers.memberScript member ∧ script ≠ [] := by
  have h := mapError_ok.mp h
  have hbounds : Markers.sortedKeys members ≠ [] ∧ (Markers.sortedKeys members).length < 2 ^ 16 := by
    unfold Markers.migratedMembersScript Markers.membersScript at h
    dsimp only at h
    split_ifs at h with hlong hnil
    exact ⟨hnil, Nat.not_le.mp hlong⟩
  rw [Markers.migratedMembersScript_eq proposer hbounds.1 hbounds.2] at h
  obtain rfl := Except.ok.inj h
  refine ⟨by simp [treasuryScript, OpReturn.newOpReturn, OpReturn.opReturn], fun hsame => ?_, by simp [OpReturn.newOpReturn]⟩
  have hdata := @Markers.opReturnData_members _ Markers.migratedMembersVersion proposer.toList hbounds.2
    (Nat.le_of_eq Vector.length_toList)
  have hmagic := (Markers.membersData_read Markers.migratedMembersVersion proposer.toList hbounds.2).1
  rw [hsame, Markers.opReturnData_memberScript] at hdata
  rw [← Option.some.inj hdata] at hmagic
  exact absurd hmagic Markers.magics_ne.2.2.symm

theorem tallyOutput_change {amount : ℕ} (hfits : tally.treasuryReturn + amount < 2 ^ 64) :
    tallyOutput programs stormEye operation proposer fee tally (.new (treasuryScript programs stormEye) amount programs.policyAsset) =
      .ok { tally with treasuryReturn := tally.treasuryReturn + amount } := by
  unfold tallyOutput
  refine then_ok.mpr ⟨require_ok.mpr ⟨rfl, rfl⟩, ?_⟩
  refine (if_pos rfl).trans ?_
  exact Db.except_bind_ok.mpr ⟨_, addAmount_ok.mpr ⟨rfl, hfits⟩, rfl⟩

theorem tallyOutput_member :
    tallyOutput programs stormEye operation proposer fee tally (.new (Markers.memberScript proposer) 0 programs.policyAsset) =
      .ok { tally with markers := tally.markers + 1 } := by
  unfold tallyOutput
  refine then_ok.mpr ⟨require_ok.mpr ⟨rfl, rfl⟩, ?_⟩
  refine (if_neg (scripts_differ proposer).1).trans ((if_pos ⟨rfl, rfl⟩).trans ?_)
  rfl

theorem tallyOutput_migrated {members : List Bytes32} {newRoot : W} {marker : List UInt8}
    (hmarker : migratedMembersScript members proposer = .ok marker) :
    tallyOutput programs stormEye (.updateMembers members newRoot) proposer fee tally (.new marker 0 programs.policyAsset) =
      .ok { tally with markers := tally.markers + 1, membersMarkers := tally.membersMarkers + 1 } := by
  obtain ⟨htreasury, hmember, -⟩ := @migratedMembersScript_ne _ programs stormEye _ _ proposer _ hmarker
  unfold tallyOutput
  refine then_ok.mpr ⟨require_ok.mpr ⟨rfl, rfl⟩, ?_⟩
  refine (if_neg htreasury).trans ((if_neg fun h => hmember h.1).trans ?_)
  refine Db.except_bind_ok.mpr ⟨true, ?_, rfl⟩
  unfold isMembersMarker
  dsimp only
  rw [if_pos rfl]
  exact Db.except_bind_ok.mpr ⟨marker, hmarker, congrArg Except.ok (decide_eq_true rfl)⟩

/-- The miner's fee is no marker, even where it is nothing. -/
theorem tallyOutput_fee (hmarker : ∀ members newRoot, operation = .updateMembers members newRoot →
      ∃ marker, migratedMembersScript members proposer = .ok marker) :
    tallyOutput programs stormEye operation proposer fee tally (.new [] fee programs.policyAsset) =
      .ok { tally with fees := tally.fees + 1 } := by
  obtain ⟨-, htreasury, hmember⟩ := @scripts_differ _ programs stormEye proposer
  unfold tallyOutput
  refine then_ok.mpr ⟨require_ok.mpr ⟨rfl, rfl⟩, ?_⟩
  refine (if_neg htreasury).trans ((if_neg fun h => hmember h.1).trans ?_)
  refine Db.except_bind_ok.mpr ⟨false, ?_, (if_neg Bool.false_ne_true).trans (if_pos ⟨rfl, rfl⟩)⟩
  cases operation with
  | merge outpoints => rfl
  | split outpoint count => rfl
  | updateMembers members newRoot =>
    unfold isMembersMarker
    dsimp only
    split_ifs with hzero
    · obtain ⟨marker, hmade⟩ := hmarker members newRoot rfl
      obtain ⟨-, -, hnil⟩ := @migratedMembersScript_ne _ programs stormEye _ _ proposer _ hmade
      exact Db.except_bind_ok.mpr ⟨marker, hmade, congrArg Except.ok (decide_eq_false hnil)⟩
    · rfl

end Outputs

section Agreement

variable {fee change : ℕ} {tally : VotingTally}

/-- The change of the Treasury, where there is any. -/
def changeOutputs (programs : VotingPrograms W) (stormEye : NetworkAsset W) (change : ℕ) : List (PsetOutput W) :=
  if 0 < change then [.new (treasuryScript programs stormEye) change programs.policyAsset] else []

theorem tallyOutputs_change (hfits : tally.treasuryReturn + change < 2 ^ 64) :
    (changeOutputs programs stormEye change).foldlM (tallyOutput programs stormEye operation proposer fee) tally =
      .ok { tally with treasuryReturn := tally.treasuryReturn + change } := by
  unfold changeOutputs
  by_cases hsome : 0 < change
  · rw [if_pos hsome, List.foldlM_cons, tallyOutput_change hfits]
    rfl
  · rw [if_neg hsome, Nat.eq_zero_of_not_pos hsome]
    rfl

/-- The outputs that a proposer builds of an operation: Storm Eyes at their destination, and what is behind them. -/
theorem reshapedOutputs_ok {utxos : List (Utxo W)} {reshaped : List (PsetOutput W)}
    (h : reshapedOutputs programs stormEye proposer utxos (utxos.map Utxo.amount).sum operation = .ok reshaped) :
    ∃ destination front, destinationScript programs stormEye operation = .ok destination ∧
      reshaped = (reshapedAmounts operation (utxos.map Utxo.amount)).map (fun amount =>
        .new destination amount stormEye.assetId) ++ front ∧
      (∀ members newRoot, operation = .updateMembers members newRoot → ∃ marker, migratedMembersScript members proposer = .ok marker) ∧
      (front ++ memberMarker programs proposer operation).length = 1 ∧
      ∀ tally : VotingTally, tally.treasuryReturn + change < 2 ^ 64 →
        (front ++ changeOutputs programs stormEye change ++ memberMarker programs proposer operation).foldlM
          (tallyOutput programs stormEye operation proposer fee) tally =
          .ok ⟨tally.markers + 1, tally.membersMarkers + expectedMembersMarkers operation, tally.fees, tally.treasuryReturn + change⟩ := by
  have hmember (tally : VotingTally) (hfits : tally.treasuryReturn + change < 2 ^ 64)
      (hnone : memberMarker programs proposer operation = [.new (Markers.memberScript proposer) 0 programs.policyAsset])
      (hzero : expectedMembersMarkers operation = 0) :
      ([] ++ changeOutputs programs stormEye change ++ memberMarker programs proposer operation).foldlM
        (tallyOutput programs stormEye operation proposer fee) tally =
        .ok ⟨tally.markers + 1, tally.membersMarkers + expectedMembersMarkers operation, tally.fees, tally.treasuryReturn + change⟩ := by
    rw [List.nil_append, List.foldlM_append, tallyOutputs_change hfits, hnone, hzero]
    refine Db.except_bind_ok.mpr ⟨_, rfl, ?_⟩
    rw [List.foldlM_cons, tallyOutput_member]
    rfl
  cases operation with
  | merge outpoints =>
    cases h
    exact ⟨stormEye.contractScript, [], rfl, rfl, fun _ _ hupdate => (by cases hupdate), rfl,
      fun tally hfits => hmember tally hfits rfl rfl⟩
  | split outpoint count =>
    obtain ⟨-, h⟩ := then_ok.mp h
    cases h
    refine ⟨stormEye.contractScript, [], rfl, ?_, fun _ _ hupdate => (by cases hupdate), rfl,
      fun tally hfits => hmember tally hfits rfl rfl⟩
    rw [List.append_nil, reshapedAmounts, FairDivision.shares, List.map_map]
    rfl
  | updateMembers members newRoot =>
    obtain ⟨destination, hdestination, h⟩ := Db.except_bind_ok.mp h
    obtain ⟨marker, hmarker, h⟩ := Db.except_bind_ok.mp h
    cases h
    refine ⟨destination, [.new marker 0 programs.policyAsset], hdestination, ?_, ?_, rfl, fun tally hfits => ?_⟩
    · rw [reshapedAmounts, List.map_map]
      rfl
    · rintro _ _ ⟨⟩
      exact ⟨marker, hmarker⟩
    · rw [memberMarker, List.append_nil, List.singleton_append, List.foldlM_cons, tallyOutput_migrated hmarker]
      exact Db.except_bind_ok.mpr ⟨_, rfl, tallyOutputs_change hfits⟩

/-- What a proposer builds of live Storm Eyes and live outputs of the Treasury is accepted. -/
theorem buildTransaction_accepted {utxos treasury : List (Utxo W)} {prepared : PreparedVotingExecution W}
    (h : buildTransaction programs proposer operation stormEye utxos treasury view.transactionFeeSats = .ok prepared)
    (hlive : ∀ utxo ∈ utxos, LiveStormEye view stormEye utxo)
    (hexpected : expectedOutpoints view prepared.pset stormEye allowSpent operation = .ok (utxos.map Utxo.outpoint))
    (hsome : utxos ≠ []) (hfunded : treasury ≠ [])
    (hheld : ∀ utxo ∈ treasury, utxo.outpoint ∈ view.indexedTreasury.map Prod.fst ∧ Live view utxo ∧
      utxo.asset = programs.policyAsset ∧ utxo.scriptPubkey = treasuryScript programs stormEye) :
    validateLayout programs view prepared.pset stormEye allowSpent prepared.request.signingHashes proposer operation
      allowUnindexed = .ok () := by
  unfold buildTransaction at h
  obtain ⟨branch, -, h⟩ := Db.except_bind_ok.mp h
  obtain ⟨stormTotal, hstorm, h⟩ := Db.except_bind_ok.mp h
  obtain ⟨treasuryTotal, htreasury, h⟩ := Db.except_bind_ok.mp h
  obtain ⟨hcovers, h⟩ := then_ok.mp h
  obtain ⟨reshaped, hreshaped, h⟩ := Db.except_bind_ok.mp h
  obtain ⟨hashes, hhashes, h⟩ := Db.except_bind_ok.mp h
  cases h
  obtain ⟨rfl, hstormFits⟩ := sumAmounts_ok hstorm
  obtain ⟨rfl, htreasuryFits⟩ := sumAmounts_ok htreasury
  have hcovers := require_ok.mp hcovers
  obtain ⟨destination, front, hdestination, rfl, hmarker, hfront, htally⟩ := 
    @reshapedOutputs_ok _ _ programs stormEye operation proposer view.transactionFeeSats
      ((treasury.map Utxo.amount).sum - view.transactionFeeSats) _ _ hreshaped
  have hcount : ((reshapedAmounts operation (utxos.map Utxo.amount)).map fun amount : ℕ =>
      PsetOutput.new destination amount stormEye.assetId).length = splitCount utxos.length operation := by
    rw [List.length_map, length_reshapedAmounts, List.length_map]
  have hinputs : ∀ (i : ℕ) (utxo : Utxo W), utxos[i]? = some utxo → ((utxos ++ treasury).map PsetInput.new)[i]? =
      some (.new utxo) := by
    intro i utxo hutxo
    rw [List.getElem?_map, List.getElem?_append_left (List.getElem?_eq_some_iff.mp hutxo).1, hutxo, Option.map_some]
  -- The outputs in two halves: the Storm Eyes, and what the validator tallies.
  have hsplit : (reshapedAmounts operation (utxos.map Utxo.amount)).map (fun amount : ℕ =>
        PsetOutput.new destination amount stormEye.assetId) ++ front ++
      changeOutputs programs stormEye ((treasury.map Utxo.amount).sum - view.transactionFeeSats) ++
        memberMarker programs proposer operation ++ [.new [] view.transactionFeeSats programs.policyAsset] =
      (reshapedAmounts operation (utxos.map Utxo.amount)).map (fun amount : ℕ =>
        PsetOutput.new destination amount stormEye.assetId) ++ (front ++
        changeOutputs programs stormEye ((treasury.map Utxo.amount).sum - view.transactionFeeSats) ++
          memberMarker programs proposer operation ++ [.new [] view.transactionFeeSats programs.policyAsset]) := by
    simp only [List.append_assoc]
  have hstormLength := List.length_pos_iff.mpr hsome
  have htreasuryLength := List.length_pos_iff.mpr hfunded
  unfold validateLayout
  refine Db.except_bind_ok.mpr ⟨_, hexpected, ?_⟩
  dsimp only
  rw [List.length_map]
  refine then_ok.mpr ⟨require_ok.mpr (by omega), then_ok.mpr ⟨require_ok.mpr ?_, ?_⟩⟩
  · rw [List.length_map, List.length_append]
    omega
  refine Db.except_bind_ok.mpr ⟨_, addStormEyeInputs_runs hlive hinputs hstormFits, ?_⟩
  refine Db.except_bind_ok.mpr ⟨_, addTreasuryInputs_runs rfl hheld htreasuryFits, ?_⟩
  refine then_ok.mpr ⟨require_ok.mpr ?_, Db.except_bind_ok.mpr ⟨destination, hdestination, ?_⟩⟩
  · rw [List.length_append] at hfront
    simp only [List.length_append, hcount, List.length_singleton]
    omega
  refine then_ok.mpr ⟨?_, Db.except_bind_ok.mpr ⟨⟨1, expectedMembersMarkers operation, 1,
    (treasury.map Utxo.amount).sum - view.transactionFeeSats⟩, ?_, then_ok.mpr ⟨require_ok.mpr ⟨rfl, rfl, rfl, ?_, ?_⟩,
      Db.except_bind_ok.mpr ⟨hashes, hhashes, require_ok.mpr rfl⟩⟩⟩⟩
  · have htake := congrArg (List.take (splitCount utxos.length operation)) hsplit
    rw [List.take_left' hcount] at htake
    exact checkStormEyeOutputs_run hlive htake
  · have hdrop := congrArg (List.drop (splitCount utxos.length operation)) hsplit
    rw [List.drop_left' hcount] at hdrop
    have hall := htally ⟨0, 0, 0, 0⟩ (by dsimp only; omega)
    have hruns : (front ++ changeOutputs programs stormEye ((treasury.map Utxo.amount).sum - view.transactionFeeSats) ++
        memberMarker programs proposer operation ++ [PsetOutput.new [] view.transactionFeeSats programs.policyAsset]).foldlM
          (tallyOutput programs stormEye operation proposer view.transactionFeeSats) ⟨0, 0, 0, 0⟩ =
        .ok ⟨1, expectedMembersMarkers operation, 1, (treasury.map Utxo.amount).sum - view.transactionFeeSats⟩ := by
      rw [List.foldlM_append, hall]
      refine Db.except_bind_ok.mpr ⟨_, rfl, ?_⟩
      rw [List.foldlM_cons, tallyOutput_fee hmarker]
      simp [pure, Except.pure, bind, Except.bind]
    exact hdrop ▸ hruns
  · dsimp only
    omega
  · dsimp only
    omega

omit [LinearOrder W] in
theorem buildTransaction_request {utxos treasury : List (Utxo W)} {fee : ℕ} {prepared : PreparedVotingExecution W}
    (h : buildTransaction programs proposer operation stormEye utxos treasury fee = .ok prepared) :
    prepared.operation = operation ∧ prepared.request.tx = prepared.pset ∧ prepared.request.proposerPublicKey = proposer := by
  unfold buildTransaction at h
  obtain ⟨_, -, h⟩ := Db.except_bind_ok.mp h
  obtain ⟨_, -, h⟩ := Db.except_bind_ok.mp h
  obtain ⟨_, -, h⟩ := Db.except_bind_ok.mp h
  obtain ⟨-, h⟩ := then_ok.mp h
  obtain ⟨_, -, h⟩ := Db.except_bind_ok.mp h
  obtain ⟨_, -, h⟩ := Db.except_bind_ok.mp h
  cases h
  exact ⟨rfl, rfl, rfl⟩

theorem prepareTransaction_ok {message : Bytes} {members : List Bytes32} {prepared : PreparedVotingExecution W}
    (h : prepareTransaction programs view message (some proposer) members = .ok prepared) :
    decodeOperation programs message members = .ok prepared.operation ∧ prepared.request.tx = prepared.pset ∧
      prepared.request.proposerPublicKey = proposer ∧
      ∃ eye utxos treasury, view.stormEye = some eye ∧ operationUtxos view eye prepared.operation = .ok utxos ∧
        selectTreasuryUtxos programs view view.indexedTreasury [] 0 = .ok treasury ∧
        buildTransaction programs proposer prepared.operation eye utxos treasury view.transactionFeeSats = .ok prepared := by
  unfold prepareTransaction at h
  obtain ⟨operation, hoperation, h⟩ := Db.except_bind_ok.mp h
  cases heye : view.stormEye with
  | none =>
    rw [heye] at h
    cases h
  | some eye =>
    rw [heye] at h
    obtain ⟨utxos, hutxos, h⟩ := Db.except_bind_ok.mp h
    obtain ⟨treasury, htreasury, h⟩ := Db.except_bind_ok.mp h
    obtain ⟨hsame, htx, hproposer⟩ := buildTransaction_request h
    rw [hsame]
    exact ⟨hoperation, htx, hproposer, eye, utxos, treasury, rfl, hutxos, htreasury, h⟩

/-- What is selected for the Treasury's part is indexed, live and the Treasury's. -/
theorem selectTreasuryUtxos_held {eye : NetworkAsset W} {treasury : List (Utxo W)}
    (hindex : ∀ utxo : Utxo W, utxo.outpoint ∈ view.indexedTreasury.map Prod.fst → Live view utxo →
      utxo.scriptPubkey = treasuryScript programs eye)
    (h : selectTreasuryUtxos programs view view.indexedTreasury [] 0 = .ok treasury) :
    treasury ≠ [] ∧ ∀ utxo ∈ treasury, utxo.outpoint ∈ view.indexedTreasury.map Prod.fst ∧ Live view utxo ∧
      utxo.asset = programs.policyAsset ∧ utxo.scriptPubkey = treasuryScript programs eye := by
  obtain ⟨more, hmore, hfunded, hheld⟩ := selectTreasuryUtxos_ok h
  rw [List.nil_append] at hmore
  subst hmore
  refine ⟨hfunded, fun utxo hutxo => ?_⟩
  obtain ⟨hindexed, hshown, hasset⟩ := hheld utxo hutxo
  exact ⟨hindexed, hshown, hasset, hindex utxo hindexed hshown⟩

/-- The request that a proposer prepares for a vote is accepted by every node with the same view, where the index of the
Treasury names outputs of the Treasury. -/
theorem prepared_vote_accepted {message : Bytes} {members : List Bytes32} {prepared : PreparedVotingExecution W}
    (hindex : ∀ eye, view.stormEye = some eye → ∀ utxo : Utxo W, utxo.outpoint ∈ view.indexedTreasury.map Prod.fst →
      Live view utxo → utxo.scriptPubkey = treasuryScript programs eye)
    (h : prepareTransaction programs view message (some proposer) members = .ok prepared) :
    decodeOperation programs message members = .ok prepared.operation ∧ ∃ eye, view.stormEye = some eye ∧
      ∀ allowSpent allowUnindexed, validateLayout programs view prepared.request.tx eye allowSpent
        prepared.request.signingHashes prepared.request.proposerPublicKey prepared.operation allowUnindexed = .ok () := by
  obtain ⟨hoperation, htx, hproposer, eye, utxos, treasury, heye, hutxos, htreasury, hbuild⟩ := prepareTransaction_ok h
  obtain ⟨hfunded, hheld⟩ := selectTreasuryUtxos_held (hindex eye heye) htreasury
  rw [htx, hproposer]
  refine ⟨hoperation, eye, heye, fun allowSpent allowUnindexed => ?_⟩
  obtain ⟨hlive, hexpected⟩ := @operationUtxos_ok _ _ _ _ _ allowSpent prepared.pset _ hutxos
  refine buildTransaction_accepted hbuild hlive hexpected ?_ hfunded hheld
  have hbounded := decodeOperation_bounded hoperation
  rintro rfl
  cases hvote : prepared.operation with
  | merge outpoints =>
    rw [hvote] at hbounded hexpected
    obtain rfl : [] = outpoints := Except.ok.inj hexpected.symm
    simp [Bounded] at hbounded
  | split outpoint count =>
    rw [hvote] at hexpected
    cases hexpected
  | updateMembers members newRoot =>
    rw [hvote] at hutxos
    exact (scanStormEyeUtxos_ok hutxos).1 rfl

section Split

open Assets (exampleKey)
open StormEyeSpends (machineNetwork operationUtxos_split splitMessage splitStormEye splitTreasury splitUtxo splitView votingPrograms)

theorem splitTreasury_held (utxo : Utxo Bytes32) (hindexed : utxo.outpoint ∈ splitView.indexedTreasury.map Prod.fst)
    (hlive : Live splitView utxo) : utxo.scriptPubkey = treasuryScript (votingPrograms machineNetwork) splitStormEye := by
  have houtpoint : utxo.outpoint = (exampleKey 12, 0) := List.mem_singleton.mp hindexed
  have hshown : splitView.node.optionalOutpoint true (exampleKey 12, 0) = .ok (some splitTreasury) := by decide +kernel
  unfold Live at hlive
  rw [houtpoint, hshown] at hlive
  cases Option.some.inj (Except.ok.inj hlive)
  rfl

theorem exists_prepared_split : ∃ prepared,
    prepareTransaction (votingPrograms machineNetwork) splitView splitMessage (some (exampleKey 6)) [] = .ok prepared := by
  apply exists_of_isOk
  decide +kernel

/-- A Storm Eye in three parts, as the proposer asks for it and every signer accepts it. -/
theorem prepared_vote_accepted_split : ∃ prepared,
    prepareTransaction (votingPrograms machineNetwork) splitView splitMessage (some (exampleKey 6)) [] = .ok prepared ∧
      validateLayout (votingPrograms machineNetwork) splitView prepared.request.tx splitStormEye false
        prepared.request.signingHashes prepared.request.proposerPublicKey prepared.operation false = .ok () := by
  obtain ⟨prepared, hprepared⟩ := exists_prepared_split
  obtain ⟨-, eye, heye, haccepted⟩ := prepared_vote_accepted (fun eye heye => by
    cases Option.some.inj heye
    exact splitTreasury_held) hprepared
  cases Option.some.inj heye
  exact ⟨prepared, hprepared, haccepted false false⟩

/-- What the transaction of that split does, by the checks of a signer. -/
theorem validateLayout_sound_split : ∃ prepared parts,
    prepareTransaction (votingPrograms machineNetwork) splitView splitMessage (some (exampleKey 6)) [] = .ok prepared ∧
      SoundReshape (votingPrograms machineNetwork) splitView splitStormEye (.split (exampleKey 10, 1) 3) (exampleKey 6) false
        false prepared.pset.extractTx parts := by
  obtain ⟨prepared, hprepared⟩ := exists_prepared_split
  obtain ⟨hoperation, -, -, eye, utxos, treasury, heye, hutxos, htreasury, hbuild⟩ := prepareTransaction_ok hprepared
  cases Option.some.inj heye
  have hdecoded : decodeOperation (votingPrograms machineNetwork) splitMessage [] = .ok (.split (exampleKey 10, 1) 3) := by
    decide +kernel
  have hvote := Except.ok.inj (hoperation.symm.trans hdecoded)
  rw [hvote] at hutxos hbuild
  obtain rfl := Except.ok.inj (operationUtxos_split.symm.trans hutxos)
  obtain ⟨hlive, hexpected⟩ := @operationUtxos_ok _ _ _ _ _ false prepared.pset _ hutxos
  obtain ⟨hfunded, hheld⟩ := selectTreasuryUtxos_held splitTreasury_held htreasury
  obtain ⟨parts, hsound⟩ := validateLayout_sound hdecoded
    (@buildTransaction_accepted _ _ _ _ _ _ _ false false _ _ _ hbuild hlive hexpected (List.cons_ne_nil _ _) hfunded hheld)
  exact ⟨prepared, parts, hprepared, hsound⟩

end Split

end Agreement

end VotingReshape

end PriceOracle
