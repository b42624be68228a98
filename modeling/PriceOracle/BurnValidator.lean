import PriceOracle.BurnLayout
import PriceOracle.Sha256

/-!
# What the burn validator accepts

A transaction that a signer accepts has the shape of a burn in its explicit fields. The validator
never looks at the commitments of the burn, return and fee outputs, and the chain takes a
commitment for the field, so the burn is sound exactly when these commitments change nothing.
-/

namespace PriceOracle

namespace Burning

variable {W : Type}

section Property

/-- What a transaction is made of when it burns vouchers. -/
structure BurnParts (W : Type) where
  stormEye : W × ℕ
  ticks : List (MonitoredUtxo W)
  reserves : List (W × ℕ)
  stormEyeReturn : ChainTxOut W
  burns : List (ChainTxOut W)
  returns : List (ChainTxOut W)
  minerFee : ChainTxOut W
  fee : ℕ

variable [DecidableEq W] (programs : BurnPrograms W) (chain : ChainLedger W) (stormEye : NetworkAsset W)
  (assets : BurnAssets W) (expired : List (MonitoredUtxo W))

/-- The reserve holds an amount in the Account of the owner of its items, and all but its share goes back. -/
def ReturnsReserve (ticks : List (MonitoredUtxo W)) (reserve : W × ℕ) (share : ℕ) (output : ChainTxOut W) : Prop :=
  ∃ utxo amount, chain.utxos reserve = some utxo ∧
    utxo.content chain.openings = some (programs.policyAsset, amount) ∧ share < amount ∧
    output.content chain.openings = some (programs.policyAsset, amount - share) ∧
    ∀ tick ∈ ticks, tick.burningFee = reserve →
      utxo.scriptPubkey = programs.accountScript stormEye.assetId tick.accountOwnerPubkey ∧
        output.scriptPubkey = programs.accountScript stormEye.assetId tick.accountOwnerPubkey

/-- The transaction returns the Storm Eye, burns expired vouchers in full, takes the fee from their reserves
in even shares, and does nothing else. -/
structure SoundBurn (tx : ChainTx W) (parts : BurnParts W) : Prop where
  inputs : tx.inputs = parts.stormEye :: (parts.ticks.map MonitoredUtxo.outpoint ++ parts.reserves)
  outputs : tx.outputs = parts.stormEyeReturn :: (parts.burns ++ parts.returns ++ [parts.minerFee])
  stormEyeKept : ∃ utxo, chain.utxos parts.stormEye = some utxo ∧ utxo.asset = .explicit stormEye.assetId ∧
    utxo.scriptPubkey = stormEye.contractScript ∧ parts.stormEyeReturn.asset = utxo.asset ∧
    parts.stormEyeReturn.value = utxo.value ∧ parts.stormEyeReturn.scriptPubkey = utxo.scriptPubkey
  count : 1 ≤ parts.ticks.length ∧ parts.ticks.length ≤ maxTicksPerBurn
  distinct : (parts.ticks.map MonitoredUtxo.outpoint).Nodup
  members : ∀ tick ∈ parts.ticks, tick ∈ expired
  vouchers : ∀ tick ∈ parts.ticks, ∃ utxo asset, chain.utxos tick.outpoint = some utxo ∧
    assetOf assets tick = .ok asset ∧ utxo.content chain.openings = some (asset, tick.amount)
  burns : parts.burns.map (fun output => (output.content chain.openings, output.scriptPubkey)) =
    (voucherBurns assets parts.ticks).map fun burn => (some burn, opReturnScript)
  reserves : parts.reserves.Nodup ∧ ∀ reserve, reserve ∈ parts.reserves ↔ ∃ tick ∈ parts.ticks, tick.burningFee = reserve
  returnCount : parts.returns.length = parts.reserves.length
  returns : ∀ (i : ℕ) (reserve : W × ℕ) (output : ChainTxOut W), parts.reserves[i]? = some reserve → parts.returns[i]? = some output →
    ReturnsReserve programs chain stormEye parts.ticks reserve
      (FairDivision.share parts.fee parts.reserves.length i) output
  minerFee : parts.minerFee.asset = .explicit programs.policyAsset ∧ parts.minerFee.value = .explicit parts.fee ∧
    parts.minerFee.scriptPubkey = []
  sharesSum : (FairDivision.shares parts.fee parts.reserves.length).sum = parts.fee
  sharesEven : ∀ a ∈ FairDivision.shares parts.fee parts.reserves.length,
    ∀ b ∈ FairDivision.shares parts.fee parts.reserves.length, a ≤ b + 1

/-- The asset and the amount in the explicit fields of an output. -/
def statedContent (output : PsetOutput W) : Option (W × ℕ) :=
  output.asset.bind fun asset => output.amount.map fun amount => (asset, amount)

/-- Between the Storm Eye output and the last one, commitments hide what the explicit fields say; the last
output carries none. -/
def HonestCommitments (openings : Openings W) (pset : Pset W) : Prop :=
  (∀ output ∈ pset.outputs.tail.dropLast, output.toTxout.content openings = statedContent output) ∧
    ∀ output, pset.outputs.getLast? = some output → output.assetComm = none ∧ output.amountComm = none

end Property

section Soundness

variable [LinearOrder W] {programs : BurnPrograms W} {stormEye : NetworkAsset W} {assets : BurnAssets W}
  {expired : List (MonitoredUtxo W)} {pset : Pset W} {chain : ChainLedger W} {layout : BurnLayout W}
  {ticks : List (MonitoredUtxo W)}

omit [LinearOrder W] in
theorem statedContent_eq {output : PsetOutput W} {asset : W} {amount : ℕ} (hasset : output.asset = some asset)
    (hamount : output.amount = some amount) : statedContent output = some (asset, amount) := by
  unfold statedContent
  rw [hasset, hamount]
  rfl

theorem Grouped.mem_reserves {groups : List (BurnGroup W)} (h : Grouped ticks groups) (reserve : W × ℕ) :
    reserve ∈ groups.map BurnGroup.reserve ↔ ∃ tick ∈ ticks, tick.burningFee = reserve := by
  constructor
  · intro hmem
    obtain ⟨group, hgroup, rfl⟩ := List.mem_map.mp hmem
    obtain ⟨tick, htick⟩ := List.exists_mem_of_ne_nil _ (h.nonempty group hgroup)
    rw [h.items group hgroup] at htick
    obtain ⟨htick, hreserve⟩ := List.mem_filter.mp htick
    exact ⟨tick, htick, of_decide_eq_true hreserve⟩
  · rintro ⟨tick, htick, rfl⟩
    obtain ⟨group, hgroup, hreserve⟩ := h.complete tick htick
    exact hreserve ▸ List.mem_map_of_mem hgroup

theorem Grouped.owner_eq {groups : List (BurnGroup W)} (h : Grouped ticks groups) {group : BurnGroup W}
    (hgroup : group ∈ groups) {tick : MonitoredUtxo W} (htick : tick ∈ ticks) (hreserve : tick.burningFee = group.reserve) :
    tick.accountOwnerPubkey = group.owner := by
  apply h.owners group hgroup
  rw [h.items group hgroup]
  exact List.mem_filter.mpr ⟨htick, decide_eq_true hreserve⟩

theorem BurnLayout.Accepted.extract_inputs (h : layout.Accepted programs stormEye assets expired pset ticks) :
    pset.extractTx.inputs = layout.first.outpoint ::
      (ticks.map MonitoredUtxo.outpoint ++ layout.groups.map BurnGroup.reserve) := by
  change pset.inputs.map PsetInput.outpoint = _
  rw [h.inputs, List.map_cons, List.map_append, h.outpoints, h.reserves]

theorem BurnLayout.Accepted.extract_outputs (h : layout.Accepted programs stormEye assets expired pset ticks) :
    pset.extractTx.outputs = layout.stormEyeReturn.toTxout ::
      (layout.burns.map PsetOutput.toTxout ++ layout.returns.map PsetOutput.toTxout ++ [layout.minerFee.toTxout]) := by
  change pset.outputs.map PsetOutput.toTxout = _
  rw [h.outputs, List.map_cons, List.map_append, List.map_append, List.map_singleton]

omit [LinearOrder W] in
/-- The input at a position of a part, from the outpoints of the part. -/
theorem exists_input {A : Type} {inputs : List (PsetInput W)} {outpoint : A → W × ℕ} {items : List A}
    (hmap : inputs.map PsetInput.outpoint = items.map outpoint) {i : ℕ} {item : A} (hitem : items[i]? = some item) :
    ∃ input, inputs[i]? = some input ∧ input.outpoint = outpoint item := by
  have hi := congrArg (·[i]?) hmap
  simp only [List.getElem?_map, hitem, Option.map_some, Option.map_eq_some_iff] at hi
  exact hi

/-- With honest commitments the transaction holds what its explicit fields say. -/
theorem BurnLayout.Accepted.sound (h : layout.Accepted programs stormEye assets expired pset ticks)
    (hlive : chain.Witnessed pset) (hvalid : chain.Valid pset.extractTx)
    (hhonest : HonestCommitments chain.openings pset) :
    ∃ parts, SoundBurn programs chain stormEye assets expired pset.extractTx parts := by
  have hmiddle : ∀ output ∈ layout.burns ++ layout.returns,
      output.toTxout.content chain.openings = statedContent output := by
    have hcontent := hhonest.1
    rw [h.outputs, List.tail_cons, List.dropLast_concat] at hcontent
    exact hcontent
  have hlast : layout.minerFee.assetComm = none ∧ layout.minerFee.amountComm = none := by
    apply hhonest.2
    rw [h.outputs, ← List.cons_append, List.getLast?_append, List.getLast?_singleton]
    rfl
  have hgroupCount : 0 < layout.groups.length := by
    obtain ⟨tick, htick⟩ := List.exists_mem_of_length_pos h.count.1
    obtain ⟨group, hgroup, -⟩ := h.grouped.complete tick htick
    exact List.length_pos_of_mem hgroup
  have htickLive : ∀ input ∈ layout.tickInputs, chain.utxos input.outpoint = input.witnessUtxo := fun input hinput =>
    hlive input (h.inputs ▸ List.mem_cons_of_mem _ (List.mem_append_left _ hinput))
  have hreserveLive : ∀ input ∈ layout.reserveInputs, chain.utxos input.outpoint = input.witnessUtxo :=
    fun input hinput => hlive input (h.inputs ▸ List.mem_cons_of_mem _ (List.mem_append_right _ hinput))
  refine ⟨⟨layout.first.outpoint, ticks, layout.groups.map BurnGroup.reserve, layout.stormEyeReturn.toTxout,
    layout.burns.map PsetOutput.toTxout, layout.returns.map PsetOutput.toTxout, layout.minerFee.toTxout, layout.fee⟩, ?_⟩
  refine ⟨h.extract_inputs, h.extract_outputs, ?_, h.count, ?_, ?_, ?_, ?_, ⟨h.grouped.reserves, h.grouped.mem_reserves⟩,
    ?_, ?_, ?_, ?_, ?_⟩
  · obtain ⟨utxo, hutxo, hkept⟩ := h.stormEyeKept
    have hfirst := hlive layout.first (h.inputs ▸ List.mem_cons_self)
    exact ⟨utxo, hfirst.trans hutxo, hkept⟩
  · have hdistinct := hvalid.distinct
    rw [h.extract_inputs] at hdistinct
    exact (List.nodup_append.mp (List.nodup_cons.mp hdistinct).2).1
  · rw [h.leading]
    obtain ⟨_, _, _, _, hmembers⟩ := leadingTicks_inputs expired pset.inputs.tail
    exact hmembers
  · intro tick htick
    obtain ⟨i, hi⟩ := List.getElem?_of_mem htick
    obtain ⟨input, hinput, houtpoint⟩ := exists_input h.outpoints hi
    obtain ⟨utxo, asset, hutxo, hasset, hexplicit, hvalue⟩ := h.vouchers i tick input hi hinput
    have hlive := htickLive input (List.mem_of_getElem? hinput)
    rw [houtpoint] at hlive
    exact ⟨utxo, asset, hlive.trans hutxo, hasset, ChainTxOut.content_explicit hexplicit hvalue⟩
  · apply List.ext_getElem?
    intro i
    simp only [List.getElem?_map, Option.map_map]
    cases hburn : (voucherBurns assets ticks)[i]? with
    | none =>
      have hnone : layout.burns[i]? = none := by
        rw [List.getElem?_eq_none_iff] at hburn ⊢
        rw [h.burnCount]
        exact hburn
      rw [hnone]
      rfl
    | some burn =>
      obtain ⟨output, houtput⟩ : ∃ output, layout.burns[i]? = some output := by
        have hi := (List.getElem?_eq_some_iff.mp hburn).1
        rw [← h.burnCount] at hi
        exact ⟨_, List.getElem?_eq_getElem hi⟩
      obtain ⟨hasset, hamount, hscript⟩ := h.burns i burn output hburn houtput
      have hcontent := hmiddle output (List.mem_append_left _ (List.mem_of_getElem? houtput))
      rw [statedContent_eq hasset hamount] at hcontent
      rw [houtput, Option.map_some, Option.map_some, Function.comp_apply, hcontent]
      exact congrArg (fun script => some (some burn, script)) hscript
  · rw [List.length_map, List.length_map, h.returnCount]
  · intro i reserve output hreserve houtput
    rw [List.getElem?_map, Option.map_eq_some_iff] at hreserve houtput
    obtain ⟨group, hgroup, rfl⟩ := hreserve
    obtain ⟨returned, hreturned, rfl⟩ := houtput
    obtain ⟨input, hinput, houtpoint⟩ := exists_input h.reserves hgroup
    obtain ⟨utxo, amount, hutxo, hasset, hvalue, hscript, hlt, houtAsset, houtAmount, houtScript⟩ :=
      h.returns i group input returned hgroup hinput hreturned
    have hlive := hreserveLive input (List.mem_of_getElem? hinput)
    have hcontent := hmiddle returned (List.mem_append_right _ (List.mem_of_getElem? hreturned))
    rw [statedContent_eq houtAsset houtAmount] at hcontent
    rw [houtpoint] at hlive
    rw [List.length_map]
    refine ⟨utxo, amount, hlive.trans hutxo, ChainTxOut.content_explicit hasset hvalue, hlt, hcontent, ?_⟩
    intro tick htick htickReserve
    rw [h.grouped.owner_eq (List.mem_of_getElem? hgroup) htick htickReserve]
    exact ⟨hscript, houtScript⟩
  · exact ⟨PsetOutput.toTxout_asset.mpr ⟨hlast.1, h.minerFee.1⟩, PsetOutput.toTxout_value.mpr ⟨hlast.2, h.minerFee.2.1⟩,
      h.minerFee.2.2⟩
  · rw [List.length_map]
    exact FairDivision.sum_shares _ hgroupCount
  · exact fun a ha b hb => FairDivision.shares_le_succ ha hb

/-- Each outpoint has one item, so the items found at inputs are the ones they spend. -/
theorem expiredAt_mem (hkey : (expired.map MonitoredUtxo.outpoint).Nodup) {tick : MonitoredUtxo W}
    (htick : tick ∈ expired) : expiredAt expired tick.outpoint = some tick := by
  unfold expiredAt
  cases hfind : expired.reverse.find? (fun other => other.outpoint = tick.outpoint) with
  | none =>
    rw [List.find?_eq_none] at hfind
    exact absurd (decide_eq_true rfl) (hfind tick (List.mem_reverse.mpr htick))
  | some other =>
    have hother := List.mem_reverse.mp (List.mem_of_find?_eq_some hfind)
    have houtpoint : other.outpoint = tick.outpoint := by simpa using List.find?_some hfind
    rw [List.inj_on_of_nodup_map hkey hother htick houtpoint]

theorem leadingTicks_of_members (hkey : (expired.map MonitoredUtxo.outpoint).Nodup) (items : List (MonitoredUtxo W)) :
    ∀ {inputs : List (PsetInput W)} {rest : List (W × ℕ)}, (∀ tick ∈ items, tick ∈ expired) →
      inputs.map PsetInput.outpoint = items.map MonitoredUtxo.outpoint ++ rest →
      ∃ more, leadingTicks expired inputs = items ++ more := by
  induction items with
  | nil => exact fun _ _ => ⟨_, rfl⟩
  | cons tick items ih =>
    intro inputs rest hmembers hmap
    cases inputs with
    | nil => cases hmap
    | cons input inputs =>
      obtain ⟨houtpoint, hmap⟩ := List.cons.inj hmap
      obtain ⟨more, hmore⟩ := ih (fun t ht => hmembers t (List.mem_cons_of_mem _ ht)) hmap
      refine ⟨more, ?_⟩
      rw [leadingTicks, houtpoint, expiredAt_mem hkey (hmembers tick List.mem_cons_self), hmore]
      rfl

/-- The items and reserves of a sound burn are the ones the validator reads: a further item among the
reserves would be the reserve of a group twice. -/
theorem BurnLayout.Accepted.parts_inputs (h : layout.Accepted programs stormEye assets expired pset ticks)
    (hkey : (expired.map MonitoredUtxo.outpoint).Nodup) {parts : BurnParts W}
    (hsound : SoundBurn programs chain stormEye assets expired pset.extractTx parts) :
    parts.ticks = ticks ∧ parts.reserves = layout.groups.map BurnGroup.reserve := by
  have hinputs := hsound.inputs
  rw [h.extract_inputs] at hinputs
  have hrest := (List.cons.inj hinputs).2
  have hmap : pset.inputs.tail.map PsetInput.outpoint = parts.ticks.map MonitoredUtxo.outpoint ++ parts.reserves := by
    rw [h.inputs, List.tail_cons, List.map_append, h.outpoints, h.reserves, hrest]
  obtain ⟨more, hmore⟩ := leadingTicks_of_members hkey parts.ticks hsound.members hmap
  rw [← h.leading] at hmore
  rw [hmore, List.map_append, List.append_assoc] at hrest
  have hreserves : more.map MonitoredUtxo.outpoint ++ layout.groups.map BurnGroup.reserve = parts.reserves :=
    List.append_cancel_left hrest
  cases more with
  | nil => exact ⟨by rw [hmore, List.append_nil], by rw [← hreserves]; rfl⟩
  | cons tick more =>
    have hnodup := hsound.reserves.1
    rw [← hreserves] at hnodup
    have hmem : tick.outpoint ∈ parts.reserves := by
      rw [← hreserves]
      exact List.mem_append_left _ List.mem_cons_self
    obtain ⟨paying, hpaying, hreserve⟩ := (hsound.reserves.2 tick.outpoint).mp hmem
    have hgroup : tick.outpoint ∈ layout.groups.map BurnGroup.reserve :=
      (h.grouped.mem_reserves _).mpr ⟨paying, hmore ▸ List.mem_append_left _ hpaying, hreserve⟩
    exact absurd hgroup (List.disjoint_of_nodup_append hnodup List.mem_cons_self)

/-- A sound burn holds what its explicit fields say. -/
theorem BurnLayout.Accepted.honest (h : layout.Accepted programs stormEye assets expired pset ticks)
    (hkey : (expired.map MonitoredUtxo.outpoint).Nodup) (hlive : chain.Witnessed pset) {parts : BurnParts W}
    (hsound : SoundBurn programs chain stormEye assets expired pset.extractTx parts) :
    HonestCommitments chain.openings pset := by
  obtain ⟨hticks, hreserves⟩ := h.parts_inputs hkey hsound
  have hreserveCount : parts.reserves.length = layout.groups.length := by rw [hreserves, List.length_map]
  have hburnCount : parts.burns.length = layout.burns.length := by
    have hlength := congrArg List.length hsound.burns
    rw [List.length_map, List.length_map, hticks] at hlength
    rw [hlength, h.burnCount]
  have houtputs := hsound.outputs
  rw [h.extract_outputs] at houtputs
  obtain ⟨hmiddle, hlast⟩ := List.append_inj' (List.cons.inj houtputs).2 rfl
  obtain ⟨hburns, hreturns⟩ := List.append_inj hmiddle (by rw [List.length_map, hburnCount])
  have hminerFee : parts.minerFee = layout.minerFee.toTxout := (List.cons.inj hlast).1.symm
  obtain ⟨hfeeAsset, hfeeValue, -⟩ := hsound.minerFee
  rw [hminerFee] at hfeeAsset hfeeValue
  obtain ⟨hassetComm, -⟩ := PsetOutput.toTxout_asset.mp hfeeAsset
  obtain ⟨hamountComm, hamount⟩ := PsetOutput.toTxout_value.mp hfeeValue
  have hfee : parts.fee = layout.fee := Option.some.inj (hamount.symm.trans h.minerFee.2.1)
  have hreserveLive : ∀ input ∈ layout.reserveInputs, chain.utxos input.outpoint = input.witnessUtxo :=
    fun input hinput => hlive input (h.inputs ▸ List.mem_cons_of_mem _ (List.mem_append_right _ hinput))
  refine ⟨fun output houtput => ?_, fun output houtput => ?_⟩
  · rw [h.outputs, List.tail_cons, List.dropLast_concat] at houtput
    rcases List.mem_append.mp houtput with houtput | houtput
    · obtain ⟨i, hi⟩ := List.getElem?_of_mem houtput
      have hat := congrArg (·[i]?) hsound.burns
      simp only [List.getElem?_map, ← hburns, hi, Option.map_some, hticks] at hat
      obtain ⟨burn, hburn, heq⟩ := Option.map_eq_some_iff.mp hat.symm
      obtain ⟨hasset, hburnAmount, -⟩ := h.burns i burn output hburn hi
      rw [statedContent_eq hasset hburnAmount]
      exact (Prod.mk.inj heq).1.symm
    · obtain ⟨i, hi⟩ := List.getElem?_of_mem houtput
      have hlt := (List.getElem?_eq_some_iff.mp hi).1
      rw [h.returnCount] at hlt
      obtain ⟨group, hgroup⟩ : ∃ group, layout.groups[i]? = some group := ⟨_, List.getElem?_eq_getElem hlt⟩
      obtain ⟨input, hinput, houtpoint⟩ := exists_input h.reserves hgroup
      obtain ⟨utxo, amount, hutxo, hasset, hvalue, -, -, houtAsset, houtAmount, -⟩ :=
        h.returns i group input output hgroup hinput hi
      have hlive := hreserveLive input (List.mem_of_getElem? hinput)
      rw [houtpoint, hutxo] at hlive
      obtain ⟨utxo', amount', hutxo', hcontent', -, hreturned, -⟩ := hsound.returns i group.reserve output.toTxout
        (by rw [hreserves, List.getElem?_map, hgroup]; rfl) (by rw [← hreturns, List.getElem?_map, hi]; rfl)
      rw [hlive] at hutxo'
      cases hutxo'
      rw [ChainTxOut.content_explicit hasset hvalue] at hcontent'
      cases hcontent'
      rw [hreturned, statedContent_eq houtAsset houtAmount, hfee, hreserveCount]
  · rw [h.outputs, ← List.cons_append, List.getLast?_append, List.getLast?_singleton] at houtput
    cases houtput
    exact ⟨hassetComm, hamountComm⟩

/-- A request that is accepted has an accepted layout, with witnesses that are live. -/
theorem validateRequest_ok {outpoint : W × ℕ → Except String (Option (Utxo W))} {request : BurnExpiredUtxos W}
    {minimumFee : ℕ} (hnode : ∀ o utxo, outpoint o = .ok (some utxo) → chain.utxos o = some utxo.txout)
    (h : validateRequest programs outpoint request expired stormEye assets minimumFee = .ok ()) :
    chain.Witnessed request.tx ∧
      validateLayout programs request.tx request expired stormEye assets minimumFee = .ok () := by
  unfold validateRequest at h
  obtain ⟨hinputs, h⟩ := then_ok.mp h
  refine ⟨fun input hinput => ?_, h⟩
  obtain ⟨i, hi⟩ := List.getElem?_of_mem hinput
  have hchecked := forM_zipIdx_ok.mp hinputs i input hi
  dsimp only at hchecked
  obtain ⟨found, hfound, hchecked⟩ := Db.except_bind_ok.mp hchecked
  cases found with
  | none => cases hchecked
  | some actual =>
    obtain ⟨witness, hwitness, hchecked⟩ := Db.except_bind_ok.mp hchecked
    obtain ⟨input', hinput', hutxo⟩ := Pset.witnessUtxo_ok.mp (helper_ok.mp hwitness)
    rw [hi] at hinput'
    cases hinput'
    rw [hnode _ _ (helper_ok.mp hfound), hutxo, require_ok.mp hchecked]

/-- A burn that a signer accepts is sound exactly when its commitments hide what the explicit fields say. -/
theorem accepted_burn_sound_iff {request : BurnExpiredUtxos W} {minimumFee : ℕ}
    (hkey : (expired.map MonitoredUtxo.outpoint).Nodup) (hlive : chain.Witnessed pset)
    (hvalid : chain.Valid pset.extractTx)
    (h : validateLayout programs pset request expired stormEye assets minimumFee = .ok ()) :
    (∃ parts, SoundBurn programs chain stormEye assets expired pset.extractTx parts) ↔
      HonestCommitments chain.openings pset := by
  obtain ⟨layout, haccepted⟩ := validateLayout_accepted h
  constructor
  · rintro ⟨parts, hsound⟩
    exact haccepted.honest hkey hlive hsound
  · exact haccepted.sound hlive hvalid

end Soundness

section HiddenTransfer

/-- Every voucher has the script 2, the Account of an owner is the owner's number. -/
def transferPrograms : BurnPrograms ℕ where
  policyAsset := 0
  accountScript _ owner := [UInt8.ofNat owner]
  voucherScript _ _ _ _ := .ok [2]
  toWord bytes := if bytes.length = 32 then some (Sha256.bigEndianValue bytes) else none
  stormTreeRoot _ := .ok 9
  signingHash pset _ := .ok pset.outputs.length

def transferStormEye : NetworkAsset ℕ where
  kind := Indexer.stormEyeKind
  name := "Storm Eye"
  assetId := 1
  reissuanceTokenId := none
  entropy := none
  issuanceTxid := 0
  contractScript := [1]
  contractData := none
  supply := 1
  createdAtBlock := 0

/-- An expired Tick of an owner, with a reserve of its own. -/
def transferTick (txid owner reserve : ℕ) : MonitoredUtxo ℕ where
  txid := txid
  outputIndex := 0
  assetKind := Indexer.tickAssetKind
  amount := 100
  scriptPubkey := [2]
  authMethod := "signature-auth"
  authData := List.replicate 32 7
  accountOwnerPubkey := owner
  internalKey := none
  burningFeeTxid := reserve
  burningFeeOutputIndex := 0
  blockHeight := 3
  status := .expired
  statusBlockHeight := 60
  burnTxid := none

def transferExpired : List (MonitoredUtxo ℕ) := [transferTick 10 5 20, transferTick 11 6 21]

def transferUtxos : List (Utxo ℕ) :=
  [⟨(1, 0), 1, 1, [1]⟩, ⟨(10, 0), 2, 100, [2]⟩, ⟨(11, 0), 2, 100, [2]⟩, ⟨(20, 0), 0, 5000, [5]⟩, ⟨(21, 0), 0, 5000, [6]⟩]

/-- The returns state 4900 satoshis each and carry commitments to 3900 and 5900. -/
def transferPset : Pset ℕ where
  inputs := transferUtxos.map .new
  outputs :=
    [.new [1] 1 1, .new opReturnScript 200 2, { PsetOutput.new [5] 4900 0 with amountComm := some [1] },
      { PsetOutput.new [6] 4900 0 with amountComm := some [2] }, .new [] 200 0]

def transferRequest : BurnExpiredUtxos ℕ := ⟨transferPset, 5, 9, 100⟩

/-- The Storm Eye leaves along its inclusion path, everything else along a network path, which asks for the
Storm Eye at the first input. -/
def networkPaths (utxos : ℕ × ℕ → Option (ChainTxOut ℕ)) (tx : ChainTx ℕ) : Prop :=
  ∃ first utxo returned, tx.inputs.head? = some first ∧ utxos first = some utxo ∧ tx.outputs.head? = some returned ∧
    utxo.asset = .explicit 1 ∧ returned = utxo

def transferLive (outpoint : ℕ × ℕ) : Option (ChainTxOut ℕ) :=
  (transferUtxos.find? fun utxo => utxo.outpoint = outpoint).map Utxo.txout

def transferChain : ChainLedger ℕ where
  utxos := transferLive
  openings := ⟨fun _ => 0, fun _ commitment => if commitment = [1] then 3900 else 5900⟩
  scripts := networkPaths transferLive

theorem transferChain_valid : transferChain.Valid transferPset.extractTx where
  distinct := by decide
  spends := by decide
  held := by decide
  balanced asset := by
    by_cases h0 : 0 = asset
    · subst h0
      decide
    by_cases h1 : 1 = asset
    · subst h1
      decide
    by_cases h2 : 2 = asset
    · subst h2
      decide
    · have hother : ∀ value : ℕ, contentOf asset (some (0, value)) = 0 ∧ contentOf asset (some (1, value)) = 0 ∧
          contentOf asset (some (2, value)) = 0 := fun value => ⟨if_neg h0, if_neg h1, if_neg h2⟩
      change contentOf asset (some (1, 1)) + (contentOf asset (some (2, 100)) + (contentOf asset (some (2, 100)) +
        (contentOf asset (some (0, 5000)) + (contentOf asset (some (0, 5000)) + 0)))) + 0 =
        contentOf asset (some (1, 1)) + (contentOf asset (some (2, 200)) + (contentOf asset (some (0, 3900)) +
          (contentOf asset (some (0, 5900)) + (contentOf asset (some (0, 200)) + 0))))
      simp only [hother]
  scripts := ⟨(1, 0), _, _, rfl, rfl, rfl, rfl, rfl⟩

theorem transferChain_witnessed : transferChain.Witnessed transferPset := by
  unfold ChainLedger.Witnessed
  decide

theorem transferRequest_accepted : validateLayout transferPrograms transferPset transferRequest transferExpired
    transferStormEye ⟨some 2, none⟩ 200 = .ok () := by
  decide +kernel

theorem accepted_burn_sound_iff_transfer :
    (∃ parts, SoundBurn transferPrograms transferChain transferStormEye ⟨some 2, none⟩ transferExpired
      transferPset.extractTx parts) ↔ HonestCommitments transferChain.openings transferPset :=
  accepted_burn_sound_iff (by decide) transferChain_witnessed transferChain_valid transferRequest_accepted

/-- A signer accepts a burn that moves a thousand satoshis from one Account to another, and the chain takes it. -/
theorem accepted_burn_moves_value :
    validateLayout transferPrograms transferPset transferRequest transferExpired transferStormEye ⟨some 2, none⟩ 200 =
        .ok () ∧
      transferChain.Witnessed transferPset ∧ transferChain.Valid transferPset.extractTx ∧
      ¬ ∃ parts, SoundBurn transferPrograms transferChain transferStormEye ⟨some 2, none⟩ transferExpired
        transferPset.extractTx parts := by
  refine ⟨transferRequest_accepted, transferChain_witnessed, transferChain_valid, ?_⟩
  rintro ⟨parts, hsound⟩
  obtain ⟨layout, haccepted⟩ := validateLayout_accepted transferRequest_accepted
  obtain ⟨hmiddle, -⟩ := haccepted.honest (by decide) transferChain_witnessed hsound
  exact absurd hmiddle (by decide)

end HiddenTransfer

end Burning

end PriceOracle
