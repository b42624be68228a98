import PriceOracle.BurnSurvivors
import PriceOracle.BurnValidator

/-!
# Leader and signer of a burn

The leader orders groups by their oldest item and drops spent items afterwards; a signer orders
what is left. So a signer accepts what the leader prepares exactly when dropping keeps the order,
and no item stands at the outpoint of the first reserve.
-/

namespace PriceOracle

namespace Burning

variable {W : Type} [LinearOrder W]

section Built

variable {programs : BurnPrograms W} {stormEye : NetworkAsset W} {assets : BurnAssets W}
  {burnables : List (BurnableGroup W)} {stormEyeUtxo : Utxo W}

/-- The items of a burn with their UTXOs, in the order of the inputs. -/
def burnItems (burnables : List (BurnableGroup W)) : List (MonitoredUtxo W × Utxo W) :=
  burnables.flatMap fun burnable => burnable.group.ticks.zip burnable.tickUtxos

omit [LinearOrder W] in
theorem burnItems_ticks (hlive : ∀ burnable ∈ burnables, Live programs stormEye burnable) :
    (burnItems burnables).map Prod.fst = (burnables.map BurnableGroup.group).flatMap BurnGroup.ticks := by
  unfold burnItems
  rw [List.map_flatMap, List.flatMap_map]
  apply List.flatMap_congr
  intro burnable hburnable
  exact List.map_fst_zip (hlive burnable hburnable).length.le

omit [LinearOrder W] in
theorem burnItems_outpoints (hlive : ∀ burnable ∈ burnables, Live programs stormEye burnable) :
    ∀ item ∈ burnItems burnables, item.2.outpoint = item.1.outpoint := by
  intro item hitem
  obtain ⟨burnable, hburnable, hzip⟩ := List.mem_flatMap.mp hitem
  exact (hlive burnable hburnable).outpoints item hzip

omit [LinearOrder W] in
theorem burnItems_length (hlive : ∀ burnable ∈ burnables, Live programs stormEye burnable) :
    (burnItems burnables).length = itemCount (burnables.map BurnableGroup.group) := by
  rw [← List.length_map Prod.fst, burnItems_ticks hlive, List.length_flatMap]
  rfl

/-- The PSET of a leader. -/
structure BuiltBy (programs : BurnPrograms W) (stormEye : NetworkAsset W) (assets : BurnAssets W)
    (stormEyeUtxo : Utxo W) (burnables : List (BurnableGroup W)) (minimumFee : ℕ) (pset : Pset W) (fee : ℕ)
    (burns : List (W × ℕ)) (returns : List (PsetOutput W)) : Prop where
  inputs : pset.inputs = .new stormEyeUtxo ::
    ((burnItems burnables).map (fun item => .new item.2) ++ burnables.map fun burnable => .new burnable.reserve)
  outputs : pset.outputs = .fromUtxo stormEyeUtxo ::
    (burns.map (fun burn => .new opReturnScript burn.2 burn.1) ++ returns ++ [.new [] fee programs.policyAsset])
  charged : burnFee minimumFee (itemCount (burnables.map BurnableGroup.group)) burnables.length = .ok fee
  items : ∀ item ∈ burnItems burnables,
    requireUnchanged assets item.1 item.2 = .ok () ∧ issuedNetworkInput programs stormEye.assetId item.1 = .ok ()
  burns : burnOutputs ((burnables.map BurnableGroup.group).flatMap BurnGroup.ticks) assets = .ok burns
  returnCount : returns.length = burnables.length
  returns : ∀ (i : ℕ) (burnable : BurnableGroup W), burnables[i]? = some burnable → ∃ output, returns[i]? = some output ∧
    reserveReturn programs fee burnables.length (burnable, i) = .ok output

theorem buildBurnTransaction_ok {minimumFee : ℕ} {built : BuiltBurn W}
    (h : buildBurnTransaction programs stormEye stormEyeUtxo burnables assets minimumFee = .ok built) :
    ∃ fee burns returns,
      BuiltBy programs stormEye assets stormEyeUtxo burnables minimumFee built.pset fee burns returns := by
  unfold buildBurnTransaction at h
  obtain ⟨fee, hfee, h⟩ := Db.except_bind_ok.mp h
  obtain ⟨branch, -, h⟩ := Db.except_bind_ok.mp h
  dsimp only at h
  obtain ⟨hitems, h⟩ := then_ok.mp h
  obtain ⟨burns, hburns, h⟩ := Db.except_bind_ok.mp h
  obtain ⟨returns, hreturns, h⟩ := Db.except_bind_ok.mp h
  cases h
  obtain ⟨hcount, hall⟩ := mapM_ok hreturns
  rw [List.length_zipIdx] at hcount
  refine ⟨fee, burns, returns, ?_, rfl, hfee, ?_, ?_, hcount, ?_⟩
  · rw [List.map_cons, List.map_append, List.map_map, List.map_map]
    rfl
  · exact fun item hitem => then_ok.mp (forM_ok.mp hitems item hitem)
  · rw [List.flatMap_map]
    exact hburns
  · intro i burnable hburnable
    exact hall i (burnable, i) (by rw [List.getElem?_zipIdx, hburnable, Option.map_some, Nat.zero_add])

variable {pset : Pset W} {expired : List (MonitoredUtxo W)} {minimumFee fee : ℕ} {burns : List (W × ℕ)}
  {returns : List (PsetOutput W)}

theorem expiredAt_eq (hnodup : (expired.map MonitoredUtxo.outpoint).Nodup) {tick : MonitoredUtxo W} (htick : tick ∈ expired) :
    expiredAt expired tick.outpoint = some tick := by
  unfold expiredAt
  cases hfind : expired.reverse.find? fun other => decide (other.outpoint = tick.outpoint) with
  | none => exact absurd (List.find?_eq_none.mp hfind tick (List.mem_reverse.mpr htick)) (by simp)
  | some other =>
    have hother : other ∈ expired := List.mem_reverse.mp (List.mem_of_find?_eq_some hfind)
    have heq : other.outpoint = tick.outpoint := by simpa using List.find?_some hfind
    rw [List.inj_on_of_nodup_map hnodup hother htick heq]

theorem expiredAt_eq_none {outpoint : W × ℕ} :
    expiredAt expired outpoint = none ↔ outpoint ∉ expired.map MonitoredUtxo.outpoint := by
  unfold expiredAt
  rw [List.find?_eq_none, List.mem_map]
  constructor
  · rintro h ⟨tick, htick, rfl⟩
    exact h tick (List.mem_reverse.mpr htick) (by simp)
  · intro h tick htick heq
    exact h ⟨tick, List.mem_reverse.mp htick, of_decide_eq_true heq⟩

/-- A signer reads the leader's items off the inputs, and then whatever the reserves seem to be. -/
theorem leadingTicks_items (hnodup : (expired.map MonitoredUtxo.outpoint).Nodup) (rest : List (PsetInput W)) :
    ∀ items : List (MonitoredUtxo W × Utxo W), (∀ item ∈ items, item.2.outpoint = item.1.outpoint ∧ item.1 ∈ expired) →
      leadingTicks expired (items.map (fun item => .new item.2) ++ rest) =
        items.map Prod.fst ++ leadingTicks expired rest := by
  intro items
  induction items with
  | nil => exact fun _ => rfl
  | cons item items ih =>
    intro hitems
    obtain ⟨houtpoint, hexpired⟩ := hitems item List.mem_cons_self
    rw [List.map_cons, List.cons_append, leadingTicks, PsetInput.outpoint_new, houtpoint, expiredAt_eq hnodup hexpired]
    dsimp only
    rw [ih fun other hother => hitems other (List.mem_cons_of_mem _ hother)]
    rfl

/-- No item stands at the first reserve. -/
def FirstReserveFree (expired : List (MonitoredUtxo W)) (burnables : List (BurnableGroup W)) : Prop :=
  ∀ first ∈ burnables.head?, first.group.reserve ∉ expired.map MonitoredUtxo.outpoint

theorem leadingTicks_reserves (hlive : ∀ burnable ∈ burnables, Live programs stormEye burnable) :
    leadingTicks expired (burnables.map fun burnable => .new burnable.reserve) = [] ↔
      FirstReserveFree expired burnables := by
  unfold FirstReserveFree
  cases burnables with
  | nil => simp [leadingTicks]
  | cons first rest =>
    rw [List.map_cons, leadingTicks, PsetInput.outpoint_new, (hlive first List.mem_cons_self).reserve]
    cases hfind : expiredAt expired first.group.reserve with
    | none => simpa using expiredAt_eq_none.mp hfind
    | some tick =>
      have hin : first.group.reserve ∈ expired.map MonitoredUtxo.outpoint := by
        by_contra hout
        rw [expiredAt_eq_none.mpr hout] at hfind
        cases hfind
      simpa using hin

/-- The groups of a burn are in the order of a signer. -/
def OldestFirst (burnables : List (BurnableGroup W)) : Prop :=
  (burnables.map BurnableGroup.group).Pairwise fun a b => groupKey a ≤ groupKey b

omit [LinearOrder W] in
theorem voucherBurns_ne_nil {ticks : List (MonitoredUtxo W)} {tick : MonitoredUtxo W} {asset : W} (htick : tick ∈ ticks)
    (hasset : assetOf assets tick = .ok asset) : voucherBurns assets ticks ≠ [] := by
  have hany {kind : String} (hkind : tick.assetKind = kind) : (ticks.any fun other => other.assetKind = kind) = true :=
    List.any_eq_true.mpr ⟨tick, htick, decide_eq_true hkind⟩
  unfold voucherBurns
  rcases assetOf_ok hasset with ⟨hkind, hsome⟩ | ⟨hkind, hsome⟩
  · rw [kindBurn, if_pos (hany hkind), hsome]
    exact List.cons_ne_nil _ _
  · apply List.append_ne_nil_of_right_ne_nil
    rw [kindBurn, if_pos (hany hkind), hsome]
    exact List.cons_ne_nil _ _

namespace BuiltBy

variable (h : BuiltBy programs stormEye assets stormEyeUtxo burnables minimumFee pset fee burns returns)
include h

theorem leadingTicks (hlive : ∀ burnable ∈ burnables, Live programs stormEye burnable)
    (hnodup : (expired.map MonitoredUtxo.outpoint).Nodup) (hexpired : ∀ item ∈ burnItems burnables, item.1 ∈ expired) :
    leadingTicks expired pset.inputs.tail = (burnables.map BurnableGroup.group).flatMap BurnGroup.ticks ++
      Burning.leadingTicks expired (burnables.map fun burnable => .new burnable.reserve) := by
  rw [h.inputs, List.tail_cons, ← burnItems_ticks hlive]
  exact leadingTicks_items hnodup _ (burnItems burnables) fun item hitem =>
    ⟨burnItems_outpoints hlive item hitem, hexpired item hitem⟩

theorem checkTick {item : MonitoredUtxo W × Utxo W} {i : ℕ} (hitem : (burnItems burnables)[i]? = some item) :
    checkTick programs pset stormEye assets (item.1, i) = .ok () := by
  obtain ⟨hunchanged, hprogram⟩ := h.items item (List.mem_of_getElem? hitem)
  obtain ⟨asset, hasset, hunchanged⟩ := Db.except_bind_ok.mp hunchanged
  obtain ⟨hheld, hamount, hscript⟩ := require_ok.mp hunchanged
  have hinput : pset.inputs[1 + i]? = some (.new item.2) := by
    rw [h.inputs]
    exact getElem?_of_front (by rw [List.getElem?_map, hitem, Option.map_some])
  unfold Burning.checkTick
  refine Db.except_bind_ok.mpr ⟨item.2.txout, helper_ok.mpr (Pset.witnessUtxo_ok.mpr ⟨_, hinput, rfl⟩), ?_⟩
  refine Db.except_bind_ok.mpr ⟨asset, hasset, ?_⟩
  refine then_ok.mpr ⟨helper_ok.mpr (requireExplicitUtxo_ok.mpr ⟨?_, hscript, _, rfl⟩), ?_⟩
  · rw [← hheld]
    rfl
  refine then_ok.mpr ⟨hprogram, require_ok.mpr ?_⟩
  rw [← hamount]
  rfl

theorem checkBurn {burn : W × ℕ} {i : ℕ} (hburn : burns[i]? = some burn) : checkBurn pset (burn, i) = .ok () := by
  have houtput : pset.outputs[1 + i]? = some (.new opReturnScript burn.2 burn.1) := by
    rw [h.outputs, List.append_assoc]
    exact getElem?_of_front (by rw [List.getElem?_map, hburn, Option.map_some])
  unfold Burning.checkBurn
  rw [houtput]
  exact require_ok.mpr ⟨rfl, rfl, rfl⟩

theorem reserve_input (hlive : ∀ burnable ∈ burnables, Live programs stormEye burnable) {i : ℕ} :
    pset.inputs[1 + itemCount (burnables.map BurnableGroup.group) + i]? =
      (burnables[i]?).map fun burnable => .new burnable.reserve := by
  rw [h.inputs, ← burnItems_length hlive, ← List.length_map fun item : MonitoredUtxo W × Utxo W => PsetInput.new item.2,
    getElem?_of_append, List.getElem?_map]

theorem checkReserve (hlive : ∀ burnable ∈ burnables, Live programs stormEye burnable) {burnable : BurnableGroup W}
    {i : ℕ} (hburnable : burnables[i]? = some burnable) :
    checkReserve programs pset stormEye fee burnables.length (1 + itemCount (burnables.map BurnableGroup.group))
      (1 + burns.length) (burnable.group, i) = .ok () := by
  obtain ⟨output, houtput, hreturn⟩ := h.returns i burnable hburnable
  have hreserve := hlive burnable (List.mem_of_getElem? hburnable)
  have hinput := h.reserve_input hlive (i := i)
  have hback : pset.outputs[1 + burns.length + i]? = some output := by
    rw [h.outputs, List.append_assoc, ← List.length_map fun burn : W × ℕ => PsetOutput.new opReturnScript burn.2 burn.1,
      getElem?_of_append]
    rw [List.getElem?_append_left (List.getElem?_eq_some_iff.mp houtput).1, houtput]
  rw [hburnable, Option.map_some] at hinput
  unfold reserveReturn at hreturn
  obtain ⟨share, hshare, hreturn⟩ := Db.except_bind_ok.mp hreturn
  dsimp only at hshare hreturn
  unfold Burning.checkReserve
  dsimp only
  rw [hinput, hback]
  dsimp only
  refine then_ok.mpr ⟨require_ok.mpr hreserve.reserve, ?_⟩
  refine Db.except_bind_ok.mpr ⟨burnable.reserve.txout, helper_ok.mpr (Pset.witnessUtxo_ok.mpr ⟨_, hinput, rfl⟩), ?_⟩
  refine then_ok.mpr ⟨helper_ok.mpr (requireExplicitUtxo_ok.mpr ⟨?_, ?_, _, rfl⟩), ?_⟩
  · rw [← hreserve.asset]
    rfl
  · rw [← hreserve.account]
    exact hreserve.script
  refine Db.except_bind_ok.mpr ⟨share, hshare, ?_⟩
  have hamount : burnable.reserve.txout.value.getExplicit = some burnable.reserve.amount := rfl
  rw [hamount]
  cases hremaining : remainingReserve (some burnable.reserve.amount) share with
  | none =>
    rw [hremaining] at hreturn
    cases hreturn
  | some remaining =>
    rw [hremaining] at hreturn
    cases hreturn
    exact require_ok.mpr ⟨rfl, rfl, hreserve.account⟩

theorem checkMinerFee : checkMinerFee programs pset fee = .ok () := by
  unfold Burning.checkMinerFee
  rw [h.outputs, ← List.cons_append, List.getLast?_append, List.getLast?_singleton]
  exact require_ok.mpr ⟨rfl, rfl, rfl⟩

theorem lengths (hlive : ∀ burnable ∈ burnables, Live programs stormEye burnable) :
    pset.inputs.length = 1 + itemCount (burnables.map BurnableGroup.group) + burnables.length ∧
      pset.outputs.length = 2 + burns.length + burnables.length := by
  rw [h.inputs, h.outputs]
  simp only [List.length_cons, List.length_append, List.length_map, List.length_nil, burnItems_length hlive, h.returnCount]
  omega

theorem burns_pos (hlive : ∀ burnable ∈ burnables, Live programs stormEye burnable)
    (hcoherent : Coherent (burnables.map BurnableGroup.group)) (hne : burnables ≠ []) :
    1 ≤ itemCount (burnables.map BurnableGroup.group) ∧ 1 ≤ burns.length := by
  have hgroups := hcoherent.length_le
  have hpos := List.length_pos_iff.mpr hne
  rw [List.length_map] at hgroups
  have hitems : burnItems burnables ≠ [] := by
    rw [← List.length_pos_iff, burnItems_length hlive]
    omega
  obtain ⟨item, rest, hcons⟩ := List.exists_cons_of_ne_nil hitems
  have hitem : item ∈ burnItems burnables := hcons ▸ List.mem_cons_self
  obtain ⟨asset, hasset, -⟩ := Db.except_bind_ok.mp (h.items item hitem).1
  refine ⟨by omega, ?_⟩
  rw [burnOutputs_ok h.burns, Nat.one_le_iff_ne_zero, Ne, List.length_eq_zero_iff]
  have hmem : item.1 ∈ (burnables.map BurnableGroup.group).flatMap BurnGroup.ticks := by
    rw [← burnItems_ticks hlive]
    exact List.mem_map_of_mem hitem
  exact voucherBurns_ne_nil hmem hasset

/-- Groups in the order of a signer, and no item at the first reserve: the signer's checks all pass. -/
theorem accepted (hlive : ∀ burnable ∈ burnables, Live programs stormEye burnable)
    (hcoherent : Coherent (burnables.map BurnableGroup.group)) (hne : burnables ≠ [])
    (hcount : itemCount (burnables.map BurnableGroup.group) ≤ maxTicksPerBurn)
    (hnodup : (expired.map MonitoredUtxo.outpoint).Nodup) (hexpired : ∀ item ∈ burnItems burnables, item.1 ∈ expired)
    (hasset : stormEyeUtxo.asset = stormEye.assetId) (hscript : stormEyeUtxo.scriptPubkey = stormEye.contractScript)
    {request : BurnExpiredUtxos W} (hhash : signingHash programs pset stormEye = .ok request.signingHash)
    (horder : OldestFirst burnables) (hfree : FirstReserveFree expired burnables) :
    validateLayout programs pset request expired stormEye assets minimumFee = .ok () := by
  obtain ⟨hinputs, houtputs⟩ := h.lengths hlive
  obtain ⟨hitemsPos, hburnsPos⟩ := h.burns_pos hlive hcoherent hne
  have hgroupsPos := List.length_pos_iff.mpr hne
  have hlength : ((burnables.map BurnableGroup.group).flatMap BurnGroup.ticks).length =
      itemCount (burnables.map BurnableGroup.group) := by
    rw [List.length_flatMap]
    rfl
  have hfirst : pset.witnessUtxo 0 = .ok stormEyeUtxo.txout :=
    Pset.witnessUtxo_ok.mpr ⟨.new stormEyeUtxo, by rw [h.inputs]; rfl, rfl⟩
  have hselected : selectGroups ((burnables.map BurnableGroup.group).flatMap BurnGroup.ticks) maxTicksPerBurn =
      .ok (burnables.map BurnableGroup.group) := by
    rw [hcoherent.selectGroups hcount, List.Pairwise.insertionSort_eq horder]
  unfold validateLayout
  refine then_ok.mpr ⟨require_ok.mpr ⟨by omega, by omega⟩, ?_⟩
  refine Db.except_bind_ok.mpr ⟨stormEyeUtxo.txout, helper_ok.mpr hfirst, ?_⟩
  refine then_ok.mpr ⟨helper_ok.mpr (requireExplicitUtxo_ok.mpr ⟨by rw [← hasset]; rfl, hscript, _, rfl⟩), ?_⟩
  refine then_ok.mpr ⟨helper_ok.mpr (requirePreservedOutput_ok.mpr ⟨.fromUtxo stormEyeUtxo, ?_, rfl, rfl, rfl⟩), ?_⟩
  · rw [h.outputs]
    rfl
  dsimp only
  rw [h.leadingTicks hlive hnodup hexpired, (leadingTicks_reserves hlive).mpr hfree, List.append_nil]
  refine then_ok.mpr ⟨require_ok.mpr ⟨?_, by omega⟩, ?_⟩
  · rw [← List.length_pos_iff]
    omega
  refine then_ok.mpr ⟨forM_zipIdx_ok.mpr fun i tick htick => ?_, ?_⟩
  · rw [← burnItems_ticks hlive, List.getElem?_map] at htick
    obtain ⟨item, hitem, rfl⟩ := Option.map_eq_some_iff.mp htick
    exact h.checkTick hitem
  refine Db.except_bind_ok.mpr ⟨burns, h.burns, ?_⟩
  refine then_ok.mpr ⟨forM_zipIdx_ok.mpr fun i burn hburn => h.checkBurn hburn, ?_⟩
  refine Db.except_bind_ok.mpr ⟨_, hselected, ?_⟩
  rw [List.length_map]
  refine Db.except_bind_ok.mpr ⟨fee, h.charged, ?_⟩
  refine then_ok.mpr ⟨require_ok.mpr ⟨hinputs, houtputs⟩, ?_⟩
  refine then_ok.mpr ⟨forM_zipIdx_ok.mpr fun i group hgroup => ?_, ?_⟩
  · rw [List.getElem?_map] at hgroup
    obtain ⟨burnable, hburnable, rfl⟩ := Option.map_eq_some_iff.mp hgroup
    exact h.checkReserve hlive hburnable
  refine then_ok.mpr ⟨h.checkMinerFee, ?_⟩
  exact Db.except_bind_ok.mpr ⟨request.signingHash, hhash, require_ok.mpr rfl⟩

/-- Accepted inputs are those of the signer's own groups, so these are the leader's in the leader's order. -/
theorem ordered (hlive : ∀ burnable ∈ burnables, Live programs stormEye burnable)
    (hcoherent : Coherent (burnables.map BurnableGroup.group))
    (hcount : itemCount (burnables.map BurnableGroup.group) ≤ maxTicksPerBurn)
    (hnodup : (expired.map MonitoredUtxo.outpoint).Nodup) (hexpired : ∀ item ∈ burnItems burnables, item.1 ∈ expired)
    {request : BurnExpiredUtxos W}
    (haccepted : validateLayout programs pset request expired stormEye assets minimumFee = .ok ()) :
    OldestFirst burnables ∧ FirstReserveFree expired burnables := by
  have hlength : ((burnables.map BurnableGroup.group).flatMap BurnGroup.ticks).length =
      itemCount (burnables.map BurnableGroup.group) := by
    rw [List.length_flatMap]
    rfl
  unfold validateLayout at haccepted
  obtain ⟨-, haccepted⟩ := then_ok.mp haccepted
  obtain ⟨utxo, -, haccepted⟩ := Db.except_bind_ok.mp haccepted
  obtain ⟨-, haccepted⟩ := then_ok.mp haccepted
  obtain ⟨-, haccepted⟩ := then_ok.mp haccepted
  dsimp only at haccepted
  rw [h.leadingTicks hlive hnodup hexpired] at haccepted
  obtain ⟨hticks, haccepted⟩ := then_ok.mp haccepted
  obtain ⟨-, haccepted⟩ := then_ok.mp haccepted
  obtain ⟨burned, -, haccepted⟩ := Db.except_bind_ok.mp haccepted
  obtain ⟨-, haccepted⟩ := then_ok.mp haccepted
  obtain ⟨groups, hgroups, haccepted⟩ := Db.except_bind_ok.mp haccepted
  obtain ⟨charged, -, haccepted⟩ := Db.except_bind_ok.mp haccepted
  obtain ⟨hlengths, haccepted⟩ := then_ok.mp haccepted
  obtain ⟨hreserves, -⟩ := then_ok.mp haccepted
  have hgrouped := (selectGroups_ok (require_ok.mp hticks).2 hgroups).1
  have hle : burnables.length ≤ groups.length := by
    have hsub : (burnables.map BurnableGroup.group).map BurnGroup.reserve ⊆ groups.map BurnGroup.reserve := by
      intro reserve hreserve
      obtain ⟨group, hgroup, rfl⟩ := List.mem_map.mp hreserve
      obtain ⟨tick, htick⟩ := List.exists_mem_of_ne_nil _ (hcoherent.nonempty group hgroup)
      obtain ⟨found, hfound, heq⟩ := hgrouped.complete tick
        (List.mem_append_left _ (List.mem_flatMap.mpr ⟨group, hgroup, htick⟩))
      rw [← (hcoherent.items group hgroup tick htick).1, ← heq]
      exact List.mem_map_of_mem hfound
    have hsubperm := (hcoherent.reserves.subperm hsub).length_le
    rwa [List.length_map, List.length_map, List.length_map] at hsubperm
  have hinputs := (require_ok.mp hlengths).1
  rw [(h.lengths hlive).1, hgrouped.count, List.length_append, hlength] at hinputs
  have hextra : Burning.leadingTicks expired (burnables.map fun burnable => .new burnable.reserve) = [] := by
    rw [← List.length_eq_zero_iff]
    omega
  rw [hextra, List.append_nil] at hgroups hgrouped
  rw [hcoherent.selectGroups hcount] at hgroups
  obtain rfl := Except.ok.inj hgroups
  have hperm := List.perm_insertionSort (fun a b => groupKey a ≤ groupKey b) (burnables.map BurnableGroup.group)
  have hitems := hgrouped.count
  rw [hlength] at hitems
  rw [hitems, hperm.length_eq, List.length_map, forM_zipIdx_ok] at hreserves
  have hsorted : (burnables.map BurnableGroup.group).insertionSort (fun a b => groupKey a ≤ groupKey b) =
      burnables.map BurnableGroup.group := by
    apply List.ext_getElem hperm.length_eq
    intro i hi hi'
    obtain ⟨input, _, _, _, hinput, -, houtpoint, -⟩ := checkReserve_ok (hreserves i _ (List.getElem?_eq_getElem hi))
    dsimp only at hinput houtpoint
    rw [h.reserve_input hlive] at hinput
    obtain ⟨burnable, hburnable, rfl⟩ := Option.map_eq_some_iff.mp hinput
    rw [PsetInput.outpoint_new, (hlive burnable (List.mem_of_getElem? hburnable)).reserve] at houtpoint
    have hat : (burnables.map BurnableGroup.group)[i] = burnable.group := by
      rw [List.getElem_map, (List.getElem?_eq_some_iff.mp hburnable).2]
    apply List.inj_on_of_nodup_map hcoherent.reserves (hperm.mem_iff.mp (List.getElem_mem hi)) (List.getElem_mem hi')
    rw [hat]
    exact houtpoint.symm
  refine ⟨?_, (leadingTicks_reserves hlive).mp hextra⟩
  unfold OldestFirst
  rw [← hsorted]
  exact List.pairwise_insertionSort _ _

end BuiltBy

end Built

section Agreement

variable {programs : BurnPrograms W} {view : BurnView W} {stormEye : NetworkAsset W} {store store' : MonitoredUtxoStore W}
  {blockHeight stormEyeLane groupLimit maxTransactionWeight : ℕ}

/-- Rows stand under their outpoints, so the expired ones have different outpoints. -/
theorem expiredItems_nodup (hkeyed : ∀ entry ∈ store.monitoredUtxos.entries, entry.2.outpoint = entry.1) :
    ((expiredItems store).map MonitoredUtxo.outpoint).Nodup := by
  unfold expiredItems
  rw [((List.perm_insertionSort _ _).map _).nodup_iff]
  apply (List.filter_sublist.map MonitoredUtxo.outpoint).nodup
  rw [List.map_map]
  have hkeys : store.monitoredUtxos.entries.map (MonitoredUtxo.outpoint ∘ fun entry => entry.2) =
      store.monitoredUtxos.keys :=
    List.map_congr_left hkeyed
  rw [hkeys]
  exact store.monitoredUtxos.keys_nodup

/-- Dropping spent items leaves the selected groups oldest first, and no expired item stands at the first
reserve that is burned. -/
def KeepsOrder (programs : BurnPrograms W) (view : BurnView W) (stormEye : NetworkAsset W)
    (store : MonitoredUtxoStore W) (groupLimit : ℕ) : Prop :=
  ∃ groups, selectGroups (splitConflictingReserves (expiredItems store)).1 groupLimit = .ok groups ∧
    OldestFirst (groups.filterMap (survivor programs view stormEye)) ∧
    FirstReserveFree (expiredItems store) (groups.filterMap (survivor programs view stormEye))

/-- A signer with the same items accepts a prepared burn exactly when dropping spent items kept its order. -/
theorem prepared_burn_accepted_iff (hstorm : view.stormEye = some stormEye) (hscan : view.node.ScansScript)
    (hkeyed : ∀ entry ∈ store.monitoredUtxos.entries, entry.2.outpoint = entry.1) {prepared : PreparedBurn W}
    (hprepared : (prepareRoundCandidate programs view blockHeight stormEyeLane groupLimit maxTransactionWeight).Returns
      store (some prepared) store') :
    validateLayout programs prepared.pset prepared.request (expiredItems store) stormEye view.assets
      view.burnTransactionFeeSats = .ok () ↔ KeepsOrder programs view stormEye store groupLimit := by
  obtain ⟨groups, stormEyeUtxo, built, hash, hgroups, hne, hutxo, hbuilt, hhash, hpset, hrequest⟩ :=
    prepareRoundCandidate_returns hstorm hprepared
  obtain ⟨hasset, hscript⟩ := ElementsNode.findContractUtxo_ok hscan hutxo
  obtain ⟨hcoherent, hcount, hselected⟩ := selectGroups_coherent hgroups
  obtain ⟨fee, burns, returns, hbuilt⟩ := buildBurnTransaction_ok hbuilt
  have hasset : stormEyeUtxo.asset = stormEye.assetId := by
    simpa [ElementsNode.matchesExpectedAsset, ElementsNode.matchesScannedAsset] using hasset
  have hnodup := expiredItems_nodup hkeyed
  have hcoherent' := @survivors_coherent _ _ programs view stormEye _ hcoherent
  have hcount' := @survivors_count _ _ programs view stormEye groups
  have hlive : ∀ burnable ∈ groups.filterMap (survivor programs view stormEye), Live programs stormEye burnable := by
    intro burnable hburnable
    obtain ⟨group, -, hkeep⟩ := List.mem_filterMap.mp hburnable
    exact (survivor_some hkeep).1
  have hexpired : ∀ item ∈ burnItems (groups.filterMap (survivor programs view stormEye)), item.1 ∈ expiredItems store := by
    intro item hitem
    obtain ⟨burnable, hburnable, hzip⟩ := List.mem_flatMap.mp hitem
    obtain ⟨group, hgroup, hkeep⟩ := List.mem_filterMap.mp hburnable
    have htick := (survivor_some hkeep).2.2.2.1.subset (List.of_mem_zip hzip).1
    exact (List.mem_filter.mp (hselected group hgroup item.1 htick)).1
  rw [hpset, hrequest]
  constructor
  · intro haccepted
    obtain ⟨horder, hfree⟩ := hbuilt.ordered hlive hcoherent' (hcount'.trans hcount) hnodup hexpired haccepted
    exact ⟨groups, hgroups, horder, hfree⟩
  · rintro ⟨groups', hgroups', horder, hfree⟩
    rw [hgroups] at hgroups'
    cases hgroups'
    exact hbuilt.accepted hlive hcoherent' hne (hcount'.trans hcount) hnodup hexpired hasset hscript hhash horder hfree

/-- What a signer with the same items says to the burn of a leader that returns one. -/
def signerVerdict (programs : BurnPrograms W) (view : BurnView W) (store : MonitoredUtxoStore W) :
    Option (Except BurningError Unit) :=
  match view.stormEye, ((prepareRoundCandidate programs view 100 0 100 400000).exec store).1 with
  | some stormEye, .ok (some prepared) =>
    some (validateLayout programs prepared.pset prepared.request (expiredItems store) stormEye view.assets
      view.burnTransactionFeeSats)
  | _, _ => none

theorem signerVerdict_eq {verdict : Except BurningError Unit} (hstorm : view.stormEye = some stormEye)
    (h : signerVerdict programs view store = some verdict) :
    ∃ prepared store', (prepareRoundCandidate programs view 100 0 100 400000).Returns store (some prepared) store' ∧
      validateLayout programs prepared.pset prepared.request (expiredItems store) stormEye view.assets
        view.burnTransactionFeeSats = verdict := by
  unfold signerVerdict at h
  rw [hstorm] at h
  cases hrun : (prepareRoundCandidate programs view 100 0 100 400000).exec store with
  | mk result store' =>
    rw [hrun] at h
    cases result with
    | error error => cases h
    | ok answer =>
      cases answer with
      | none => cases h
      | some prepared =>
        cases h
        exact ⟨prepared, store', hrun, rfl⟩

end Agreement

section SpentItem

/-- Three expired Ticks. The reserve 20 pays for the oldest and the youngest. -/
def queuedTicks : List (MonitoredUtxo ℕ) :=
  [{ transferTick 10 5 20 with blockHeight := 1 }, transferTick 11 6 21, { transferTick 12 5 20 with blockHeight := 5 }]

def queueStore : MonitoredUtxoStore ℕ :=
  ⟨⟨queuedTicks.map fun tick => ⟨tick.outpoint, tick⟩, by unfold List.NodupKeys; decide⟩, ∅⟩

def queueUtxos : List (Utxo ℕ) :=
  [⟨(1, 0), 1, 1, [1]⟩, ⟨(10, 0), 2, 100, [2]⟩, ⟨(11, 0), 2, 100, [2]⟩, ⟨(12, 0), 2, 100, [2]⟩, ⟨(20, 0), 0, 5000, [5]⟩,
    ⟨(21, 0), 0, 5000, [6]⟩]

/-- A node with these live UTXOs, its mempool empty, and with one Storm Eye. -/
def queueView (utxos : List (Utxo ℕ)) : BurnView ℕ where
  node :=
    { txout _ outpoint :=
        .ok ((utxos.find? fun utxo => utxo.outpoint = outpoint).map fun utxo => (utxo.asset, utxo.amount, utxo.scriptPubkey))
      scan script :=
        .ok ((utxos.filter fun utxo => utxo.scriptPubkey = script).map fun utxo =>
          ⟨some utxo.outpoint.1, utxo.outpoint.2, some utxo.asset⟩) }
  mempoolSpender _ := .ok none
  stormEye := some transferStormEye
  assets := ⟨some 2, none⟩
  burnTransactionFeeSats := 200

theorem queueView_scansScript {utxos : List (Utxo ℕ)} (hnodup : (utxos.map Utxo.outpoint).Nodup) :
    (queueView utxos).node.ScansScript := by
  rintro script unspents ⟨⟩ unspent hunspent txid asset amount held htxid htxout
  obtain ⟨utxo, hutxo, rfl⟩ := List.mem_map.mp hunspent
  obtain ⟨hmem, hscript⟩ := List.mem_filter.mp hutxo
  cases htxid
  obtain ⟨found, hfound, hshown⟩ := Option.map_eq_some_iff.mp (Except.ok.inj htxout)
  cases hshown
  have heq : found.outpoint = utxo.outpoint := by simpa using List.find?_some hfound
  rw [List.inj_on_of_nodup_map hnodup (List.mem_of_find?_eq_some hfound) hmem heq]
  exact of_decide_eq_true hscript

theorem prepared_burn_accepted_iff_live : KeepsOrder transferPrograms (queueView queueUtxos) transferStormEye queueStore 100 := by
  obtain ⟨prepared, store', hprepared, haccepted⟩ := @signerVerdict_eq ℕ _ transferPrograms (queueView queueUtxos)
    transferStormEye queueStore (.ok ()) rfl (by decide +kernel)
  exact (prepared_burn_accepted_iff rfl (queueView_scansScript (by decide)) (by decide) hprepared).mp haccepted

/-- The oldest item is spent: the leader keeps the place of its group, a signer does not. -/
theorem prepared_burn_refused : ∃ prepared store',
    (prepareRoundCandidate transferPrograms (queueView (queueUtxos.eraseIdx 1)) 100 0 100 400000).Returns queueStore
        (some prepared) store' ∧
      validateLayout transferPrograms prepared.pset prepared.request (expiredItems queueStore) transferStormEye
        (queueView (queueUtxos.eraseIdx 1)).assets 200 ≠ .ok () := by
  obtain ⟨prepared, store', hprepared, hrefused⟩ := @signerVerdict_eq ℕ _ transferPrograms
    (queueView (queueUtxos.eraseIdx 1)) transferStormEye queueStore
    (.error (.invalid "burn reserve input does not match indexed state")) rfl (by decide +kernel)
  refine ⟨prepared, store', hprepared, fun haccepted => ?_⟩
  rw [show (200 : ℕ) = (queueView (queueUtxos.eraseIdx 1)).burnTransactionFeeSats from rfl, hrefused] at haccepted
  cases haccepted

end SpentItem

end Burning

end PriceOracle
