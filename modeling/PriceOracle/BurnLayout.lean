import PriceOracle.BurnGroups

/-!
# The layout a signer accepts

The checks of `validate_layout` as facts about the parts of a PSET: items and reserves among its
inputs, burns and returns among its outputs, position by position.
-/

namespace PriceOracle

namespace Burning

variable {W : Type}

section Acceptance

/-- The parts of a PSET as the validator cuts it. -/
structure BurnLayout (W : Type) where
  first : PsetInput W
  tickInputs : List (PsetInput W)
  reserveInputs : List (PsetInput W)
  stormEyeReturn : PsetOutput W
  burns : List (PsetOutput W)
  returns : List (PsetOutput W)
  minerFee : PsetOutput W
  groups : List (BurnGroup W)
  fee : ℕ

variable [LinearOrder W] (programs : BurnPrograms W) (stormEye : NetworkAsset W) (assets : BurnAssets W)
  (expired : List (MonitoredUtxo W)) (pset : Pset W)

structure BurnLayout.Accepted (layout : BurnLayout W) (ticks : List (MonitoredUtxo W)) : Prop where
  inputs : pset.inputs = layout.first :: (layout.tickInputs ++ layout.reserveInputs)
  outputs : pset.outputs = layout.stormEyeReturn :: (layout.burns ++ layout.returns ++ [layout.minerFee])
  stormEyeKept : ∃ utxo, layout.first.witnessUtxo = some utxo ∧ utxo.asset = .explicit stormEye.assetId ∧
    utxo.scriptPubkey = stormEye.contractScript ∧ layout.stormEyeReturn.toTxout.asset = utxo.asset ∧
    layout.stormEyeReturn.toTxout.value = utxo.value ∧ layout.stormEyeReturn.toTxout.scriptPubkey = utxo.scriptPubkey
  count : 1 ≤ ticks.length ∧ ticks.length ≤ maxTicksPerBurn
  leading : ticks = leadingTicks expired pset.inputs.tail
  outpoints : layout.tickInputs.map PsetInput.outpoint = ticks.map MonitoredUtxo.outpoint
  vouchers : ∀ (i : ℕ) (tick : MonitoredUtxo W) (input : PsetInput W), ticks[i]? = some tick → layout.tickInputs[i]? = some input →
    ∃ utxo asset, input.witnessUtxo = some utxo ∧ assetOf assets tick = .ok asset ∧ utxo.asset = .explicit asset ∧
      utxo.value = .explicit tick.amount
  burnCount : layout.burns.length = (voucherBurns assets ticks).length
  burns : ∀ (i : ℕ) (burn : W × ℕ) (output : PsetOutput W), (voucherBurns assets ticks)[i]? = some burn → layout.burns[i]? = some output →
    output.asset = some burn.1 ∧ output.amount = some burn.2 ∧ output.scriptPubkey = opReturnScript
  grouped : Grouped ticks layout.groups
  reserves : layout.reserveInputs.map PsetInput.outpoint = layout.groups.map BurnGroup.reserve
  returnCount : layout.returns.length = layout.groups.length
  returns : ∀ (i : ℕ) (group : BurnGroup W) (input : PsetInput W) (output : PsetOutput W), layout.groups[i]? = some group → layout.reserveInputs[i]? = some input →
    layout.returns[i]? = some output → ∃ utxo amount, input.witnessUtxo = some utxo ∧
      utxo.asset = .explicit programs.policyAsset ∧ utxo.value = .explicit amount ∧
      utxo.scriptPubkey = programs.accountScript stormEye.assetId group.owner ∧
      FairDivision.share layout.fee layout.groups.length i < amount ∧ output.asset = some programs.policyAsset ∧
      output.amount = some (amount - FairDivision.share layout.fee layout.groups.length i) ∧
      output.scriptPubkey = programs.accountScript stormEye.assetId group.owner
  minerFee : layout.minerFee.asset = some programs.policyAsset ∧ layout.minerFee.amount = some layout.fee ∧
    layout.minerFee.scriptPubkey = []

theorem helper_ok {A : Type} {result : Except String A} {a : A} : helper result = .ok a ↔ result = .ok a :=
  mapError_ok

/-- The items are read off the first inputs, in order. -/
theorem leadingTicks_inputs (expired : List (MonitoredUtxo W)) (inputs : List (PsetInput W)) :
    ∃ front back, inputs = front ++ back ∧
      front.map PsetInput.outpoint = (leadingTicks expired inputs).map MonitoredUtxo.outpoint ∧
      ∀ tick ∈ leadingTicks expired inputs, tick ∈ expired := by
  induction inputs with
  | nil => exact ⟨[], [], rfl, rfl, fun _ h => absurd h List.not_mem_nil⟩
  | cons input inputs ih =>
    rw [leadingTicks]
    cases hfind : expiredAt expired input.outpoint with
    | none => exact ⟨[], input :: inputs, rfl, rfl, fun _ h => absurd h List.not_mem_nil⟩
    | some tick =>
      obtain ⟨front, back, rfl, hmap, hexpired⟩ := ih
      unfold expiredAt at hfind
      have houtpoint : tick.outpoint = input.outpoint := by simpa using List.find?_some hfind
      refine ⟨input :: front, back, rfl, by rw [List.map_cons, List.map_cons, hmap, houtpoint], ?_⟩
      intro t ht
      rcases List.mem_cons.mp ht with rfl | ht
      · exact List.mem_reverse.mp (List.mem_of_find?_eq_some hfind)
      · exact hexpired t ht

theorem remainingReserve_eq {amount : Option ℕ} {share remaining : ℕ}
    (h : remainingReserve amount share = some remaining) :
    ∃ value, amount = some value ∧ share < value ∧ remaining = value - share := by
  unfold remainingReserve checkedSub at h
  rw [Option.filter_eq_some_iff, Option.bind_eq_some_iff] at h
  obtain ⟨⟨value, hvalue, hsub⟩, hpos⟩ := h
  split_ifs at hsub with hle
  cases hsub
  have hpos := of_decide_eq_true hpos
  exact ⟨value, hvalue, by omega, rfl⟩

theorem feeShare_ok {total groups index share : ℕ} (h : feeShare total groups index = .ok share) :
    share = FairDivision.share total groups index := by
  unfold feeShare at h
  split_ifs at h
  cases h
  rfl

variable {programs stormEye assets expired pset}

theorem checkTick_ok {item : MonitoredUtxo W × ℕ} (h : checkTick programs pset stormEye assets item = .ok ()) :
    ∃ input utxo asset, pset.inputs[1 + item.2]? = some input ∧ input.witnessUtxo = some utxo ∧
      assetOf assets item.1 = .ok asset ∧ utxo.asset = .explicit asset ∧ utxo.value = .explicit item.1.amount := by
  unfold checkTick at h
  obtain ⟨utxo, hutxo, h⟩ := Db.except_bind_ok.mp h
  obtain ⟨asset, hasset, h⟩ := Db.except_bind_ok.mp h
  obtain ⟨hexplicit, h⟩ := then_ok.mp h
  obtain ⟨-, h⟩ := then_ok.mp h
  obtain ⟨input, hinput, hutxo⟩ := Pset.witnessUtxo_ok.mp (helper_ok.mp hutxo)
  obtain ⟨heq, -, -⟩ := requireExplicitUtxo_ok.mp (helper_ok.mp hexplicit)
  exact ⟨input, utxo, asset, hinput, hutxo, hasset, heq, ChainField.getExplicit_eq_some.mp (require_ok.mp h)⟩

theorem checkBurn_ok {item : (W × ℕ) × ℕ} (h : checkBurn pset item = .ok ()) :
    ∃ output, pset.outputs[1 + item.2]? = some output ∧ output.asset = some item.1.1 ∧
      output.amount = some item.1.2 ∧ output.scriptPubkey = opReturnScript := by
  unfold checkBurn at h
  cases houtput : pset.outputs[1 + item.2]? with
  | none =>
    rw [houtput] at h
    cases h
  | some output =>
    rw [houtput] at h
    exact ⟨output, rfl, require_ok.mp h⟩

theorem checkReserve_ok {fee groupCount firstInput firstOutput : ℕ} {item : BurnGroup W × ℕ}
    (h : checkReserve programs pset stormEye fee groupCount firstInput firstOutput item = .ok ()) :
    ∃ input output utxo amount, pset.inputs[firstInput + item.2]? = some input ∧
      pset.outputs[firstOutput + item.2]? = some output ∧ input.outpoint = item.1.reserve ∧
      input.witnessUtxo = some utxo ∧ utxo.asset = .explicit programs.policyAsset ∧ utxo.value = .explicit amount ∧
      utxo.scriptPubkey = programs.accountScript stormEye.assetId item.1.owner ∧
      FairDivision.share fee groupCount item.2 < amount ∧ output.asset = some programs.policyAsset ∧
      output.amount = some (amount - FairDivision.share fee groupCount item.2) ∧
      output.scriptPubkey = programs.accountScript stormEye.assetId item.1.owner := by
  unfold checkReserve at h
  cases hinput : pset.inputs[firstInput + item.2]? with
  | none =>
    rw [hinput] at h
    cases h
  | some input =>
    cases houtput : pset.outputs[firstOutput + item.2]? with
    | none =>
      rw [hinput, houtput] at h
      cases h
    | some output =>
      rw [hinput, houtput] at h
      dsimp only at h
      obtain ⟨hreserve, h⟩ := then_ok.mp h
      obtain ⟨utxo, hutxo, h⟩ := Db.except_bind_ok.mp h
      obtain ⟨hexplicit, h⟩ := then_ok.mp h
      obtain ⟨share, hshare, h⟩ := Db.except_bind_ok.mp h
      obtain ⟨input', hinput', hutxo⟩ := Pset.witnessUtxo_ok.mp (helper_ok.mp hutxo)
      obtain ⟨hasset, hscript, amount, hamount⟩ := requireExplicitUtxo_ok.mp (helper_ok.mp hexplicit)
      rw [hinput] at hinput'
      cases hinput'
      obtain rfl := feeShare_ok hshare
      rw [hamount] at h
      cases hremaining : remainingReserve (ChainField.explicit amount).getExplicit
          (FairDivision.share fee groupCount item.2) with
      | none =>
        rw [hremaining] at h
        cases h
      | some remaining =>
        rw [hremaining] at h
        obtain ⟨value, hvalue, hlt, rfl⟩ := remainingReserve_eq hremaining
        cases hvalue
        obtain ⟨hout, hrest, hback⟩ := require_ok.mp h
        exact ⟨input, output, utxo, amount, rfl, rfl, require_ok.mp hreserve, hutxo, hasset, hamount, hscript, hlt, hout, hrest, hback⟩

theorem checkMinerFee_ok {fee : ℕ} (h : checkMinerFee programs pset fee = .ok ()) :
    ∃ output, pset.outputs.getLast? = some output ∧ output.asset = some programs.policyAsset ∧
      output.amount = some fee ∧ output.scriptPubkey = [] := by
  unfold checkMinerFee at h
  cases houtput : pset.outputs.getLast? with
  | none =>
    rw [houtput] at h
    cases h
  | some output =>
    rw [houtput] at h
    exact ⟨output, rfl, require_ok.mp h⟩

/-- A list of a known length is a head, two parts and a last element. -/
theorem exists_cut {A : Type} {xs : List A} (left right : ℕ) (hlength : xs.length = 2 + left + right) :
    ∃ head front back last, xs = head :: (front ++ back ++ [last]) ∧ front.length = left ∧ back.length = right := by
  cases xs with
  | nil =>
    rw [List.length_nil] at hlength
    omega
  | cons head tail =>
    rw [List.length_cons] at hlength
    have hne : tail.drop left ≠ [] := by
      intro hnil
      have := congrArg List.length hnil
      rw [List.length_drop, List.length_nil] at this
      omega
    refine ⟨head, tail.take left, (tail.drop left).dropLast, (tail.drop left).getLast hne, ?_, ?_, ?_⟩
    · rw [List.append_assoc, List.dropLast_append_getLast, List.take_append_drop]
    · rw [List.length_take]
      omega
    · rw [List.length_dropLast, List.length_drop]
      omega

theorem getElem?_of_append {A : Type} {head : A} {front back : List A} {i : ℕ} :
    (head :: (front ++ back))[1 + front.length + i]? = back[i]? := by
  rw [show 1 + front.length + i = (front.length + i) + 1 by omega, List.getElem?_cons_succ,
    List.getElem?_append_right (by omega), Nat.add_sub_cancel_left]

theorem getElem?_of_front {A : Type} {head x : A} {front back : List A} {i : ℕ} (h : front[i]? = some x) :
    (head :: (front ++ back))[1 + i]? = some x := by
  obtain ⟨hi, -⟩ := List.getElem?_eq_some_iff.mp h
  rw [Nat.add_comm, List.getElem?_cons_succ, List.getElem?_append_left hi, h]

/-- The checks, position by position, as facts about the parts of the PSET. -/
theorem validateLayout_accepted {request : BurnExpiredUtxos W} {minimumFee : ℕ}
    (h : validateLayout programs pset request expired stormEye assets minimumFee = .ok ()) :
    ∃ layout : BurnLayout W, layout.Accepted programs stormEye assets expired pset
      (leadingTicks expired pset.inputs.tail) := by
  unfold validateLayout at h
  obtain ⟨-, h⟩ := then_ok.mp h
  obtain ⟨utxo, hutxo, h⟩ := Db.except_bind_ok.mp h
  obtain ⟨hexplicit, h⟩ := then_ok.mp h
  obtain ⟨hpreserved, h⟩ := then_ok.mp h
  obtain ⟨hcount, h⟩ := then_ok.mp h
  obtain ⟨hticks, h⟩ := then_ok.mp h
  obtain ⟨burns, hburnOutputs, h⟩ := Db.except_bind_ok.mp h
  obtain ⟨hburns, h⟩ := then_ok.mp h
  obtain ⟨groups, hgroups, h⟩ := Db.except_bind_ok.mp h
  obtain ⟨fee, -, h⟩ := Db.except_bind_ok.mp h
  obtain ⟨hlengths, h⟩ := then_ok.mp h
  obtain ⟨hreserves, h⟩ := then_ok.mp h
  obtain ⟨hfee, -⟩ := then_ok.mp h
  obtain ⟨input, hinput, hutxo⟩ := Pset.witnessUtxo_ok.mp (helper_ok.mp hutxo)
  obtain ⟨hasset, hscript, -⟩ := requireExplicitUtxo_ok.mp (helper_ok.mp hexplicit)
  obtain ⟨output, houtput, hkept⟩ := requirePreservedOutput_ok.mp (helper_ok.mp hpreserved)
  obtain ⟨hsome, hmax⟩ := require_ok.mp hcount
  obtain ⟨hinputs, houtputs⟩ := require_ok.mp hlengths
  obtain ⟨hgrouped, -⟩ := selectGroups_ok hmax hgroups
  obtain rfl := burnOutputs_ok hburnOutputs
  rw [forM_zipIdx_ok] at hticks hburns hreserves
  obtain ⟨minerFee, hlast, hminerFee⟩ := checkMinerFee_ok hfee
  obtain ⟨front, back, hcut, hfront, -⟩ := leadingTicks_inputs expired pset.inputs.tail
  generalize hleading : leadingTicks expired pset.inputs.tail = ticks at *
  cases hpset : pset.inputs with
  | nil =>
    rw [hpset] at hinput
    cases hinput
  | cons first rest =>
    rw [hpset, List.tail_cons] at hcut
    subst hcut
    rw [hpset] at hinput hinputs
    cases hinput
    have hfrontLength : front.length = ticks.length := by
      have := congrArg List.length hfront
      rwa [List.length_map, List.length_map] at this
    rw [List.length_cons, List.length_append, hgrouped.count, hfrontLength] at hinputs
    obtain ⟨head, burnOutputs, returns, last, hcutOutputs, hburnLength, hreturnLength⟩ := exists_cut _ _ houtputs
    rw [hcutOutputs] at houtput hlast
    cases houtput
    rw [← List.cons_append, List.getLast?_append, List.getLast?_singleton] at hlast
    cases hlast
    refine ⟨⟨input, front, back, output, burnOutputs, returns, minerFee, groups, fee⟩, ?_⟩
    refine ⟨hpset, hcutOutputs, ⟨utxo, hutxo, hasset, hscript, hkept⟩, ⟨List.length_pos_iff.mpr hsome, hmax⟩,
      hleading.symm, hfront, ?_, hburnLength, ?_, hgrouped, ?_, hreturnLength, ?_, hminerFee⟩
    · intro i tick tickInput htick htickInput
      obtain ⟨found, utxo, asset, hfound, hrest⟩ := checkTick_ok (hticks i tick htick)
      rw [hpset, getElem?_of_front htickInput] at hfound
      cases hfound
      exact ⟨utxo, asset, hrest⟩
    · intro i burn burnOutput hburn hburnOutput
      obtain ⟨found, hfound, hrest⟩ := checkBurn_ok (hburns i burn hburn)
      rw [hcutOutputs, List.append_assoc, getElem?_of_front hburnOutput] at hfound
      cases hfound
      exact hrest
    · apply List.ext_getElem?
      intro i
      rw [List.getElem?_map, List.getElem?_map]
      cases hgroup : groups[i]? with
      | none =>
        have hback : back[i]? = none := by
          rw [List.getElem?_eq_none_iff] at hgroup ⊢
          omega
        rw [hback]
        rfl
      | some group =>
        obtain ⟨found, _, _, _, hfound, -, hreserve, -⟩ := checkReserve_ok (hreserves i group hgroup)
        dsimp only at hfound
        rw [hpset, hgrouped.count, ← hfrontLength, getElem?_of_append] at hfound
        rw [hfound, Option.map_some, Option.map_some, hreserve]
    · intro i group reserveInput returned hgroup hreserveInput hreturned
      obtain ⟨found, back', utxo, amount, hfound, hfound', -, hrest⟩ := checkReserve_ok (hreserves i group hgroup)
      dsimp only at hfound hfound'
      rw [hpset, hgrouped.count, ← hfrontLength, getElem?_of_append, hreserveInput] at hfound
      rw [hcutOutputs, List.append_assoc, ← hburnLength, getElem?_of_append,
        List.getElem?_append_left (List.getElem?_eq_some_iff.mp hreturned).1, hreturned] at hfound'
      cases hfound
      cases hfound'
      exact ⟨utxo, amount, hrest⟩

end Acceptance

end Burning

end PriceOracle
