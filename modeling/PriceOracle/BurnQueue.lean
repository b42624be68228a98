import PriceOracle.BurnAgreement
import PriceOracle.RoundRetries

/-!
# The queue of burns

A queue of groups in which only the reserves decide: every item is live and valid. A candidate of the search for
a burn is what can be made of the oldest groups that fit, and fails exactly if one of their reserves is short.
-/

namespace PriceOracle

namespace Burning

open RoundSearch

variable {W : Type} [LinearOrder W]

section Candidates

variable (programs : BurnPrograms W) (view : BurnView W) (stormEye : NetworkAsset W) (stormEyeUtxo : Utxo W)
  (blockHeight maxTransactionWeight : ℕ)

/-- The groups that a limit chooses from: those before which the items of a burn still have room. -/
def fitting : ℕ → List (BurnableGroup W) → List (BurnableGroup W)
  | _, [] => []
  | tickCount, burnable :: burnables =>
    if maxTicksPerBurn < tickCount + burnable.group.ticks.length then fitting tickCount burnables
    else burnable :: fitting (tickCount + burnable.group.ticks.length) burnables

/-- The groups of a candidate. -/
def taken (burnables : List (BurnableGroup W)) (groupLimit : ℕ) : List (BurnableGroup W) :=
  (fitting 0 burnables).take groupLimit

/-- What the leader makes of the groups it can burn. -/
def burnOf (selected : List (BurnableGroup W)) : Except BurningError (PreparedBurn W) := do
  let built ← buildBurnTransaction programs stormEye stormEyeUtxo selected view.assets view.burnTransactionFeeSats
  let signingHash ← signingHash programs built.pset stormEye
  return ⟨⟨built.pset, signingHash, built.signingBranch, blockHeight⟩, built.pset, built.spentUtxos, built.selected,
    selected.length, maxTransactionWeight⟩

/-- Every reserve has more than its share of the fee. -/
def Covered (minimumFee : ℕ) (selected : List (BurnableGroup W)) : Prop :=
  ∃ fee, burnFee minimumFee (itemCount (selected.map BurnableGroup.group)) selected.length = .ok fee ∧
    ∀ (i : ℕ) (burnable : BurnableGroup W), selected[i]? = some burnable →
      FairDivision.share fee selected.length i < burnable.reserve.amount

/-- The rules of `Burning::prepare_round`; the weight of a PSET is a parameter. -/
abbrev burnRules (estimatedWeight : Pset W → Except BurningError ℕ) (stormEyeLane : ℕ) :
    Rules (MonitoredUtxoStore W) BurningError (PreparedBurn W) :=
  roundRules (fun groupLimit => prepareRoundCandidate programs view blockHeight stormEyeLane groupLimit maxTransactionWeight)
    PreparedBurn.groupCount (fun prepared => estimatedWeight prepared.pset)
    fun prepared => { prepared with maxTransactionWeight := maxStandardTxWeight }

def prepareRound (checks : Bool) (estimatedWeight : Pset W → Except BurningError ℕ) (stormEyeLane turns : ℕ) :
    Db (MonitoredUtxoStore W) BurningError (Searched (PreparedBurn W)) :=
  search (machine checks) (burnRules programs view blockHeight maxTransactionWeight estimatedWeight stormEyeLane)
    maxTransactionWeight turns

/-- A group whose reserve and items are live and as they were indexed. -/
structure LiveGroup (burnable : BurnableGroup W) : Prop where
  reserve : optionalOutpoint view burnable.group.reserve = .ok (some burnable.reserve)
  asset : burnable.reserve.asset = programs.policyAsset
  script : burnable.reserve.scriptPubkey = burnable.accountScript
  account : burnable.accountScript = programs.accountScript stormEye.assetId burnable.group.owner
  length : burnable.group.ticks.length = burnable.tickUtxos.length
  items : ∀ item ∈ burnable.group.ticks.zip burnable.tickUtxos,
    optionalOutpoint view item.1.outpoint = .ok (some item.2) ∧ requireUnchanged view.assets item.1 item.2 = .ok () ∧
      issuedNetworkInput programs stormEye.assetId item.1 = .ok ()

/-- The groups in the queue, oldest first. All of them are live, so nothing but their reserves can stop a burn. -/
structure BurnQueue (estimatedWeight : Pset W → Except BurningError ℕ) (stormEyeLane : ℕ) (store : MonitoredUtxoStore W)
    (burnables : List (BurnableGroup W)) (weight : List (BurnableGroup W) → ℕ) : Prop where
  configured : view.stormEye = some stormEye
  found : view.node.findContractUtxo stormEye.contractScript (some stormEye.assetId) (.networkLeader stormEyeLane) =
    .ok stormEyeUtxo
  root : ∃ root, programs.stormTreeRoot stormEye = .ok root
  owners : (splitConflictingReserves (expiredItems store)).2 = []
  groups : ∃ grouped, (splitConflictingReserves (expiredItems store)).1.foldlM (fun groups tick => addTick tick groups) [] =
    .ok grouped ∧ (grouped.insertionSort fun a b => groupKey a ≤ groupKey b) = burnables.map BurnableGroup.group
  live : ∀ burnable ∈ burnables, LiveGroup programs view stormEye burnable
  amounts : (((burnables.map BurnableGroup.group).flatMap BurnGroup.ticks).map MonitoredUtxo.amount).sum < 2 ^ 64
  hashed : ∀ selected built, buildBurnTransaction programs stormEye stormEyeUtxo selected view.assets
    view.burnTransactionFeeSats = .ok built → ∃ hash, programs.signingHash built.pset stormEye = .ok hash
  weighed : ∀ selected built, buildBurnTransaction programs stormEye stormEyeUtxo selected view.assets
    view.burnTransactionFeeSats = .ok built → estimatedWeight built.pset = .ok (weight selected)
  standard : maxTransactionWeight ≤ maxStandardTxWeight

end Candidates

section Selection

omit [LinearOrder W] in
theorem takeGroups_fitting {groupLimit : ℕ} (burnables : List (BurnableGroup W)) :
    ∀ {selected tickCount : ℕ}, selected ≤ groupLimit →
      takeGroups groupLimit selected tickCount (burnables.map BurnableGroup.group) =
        ((fitting tickCount burnables).take (groupLimit - selected)).map BurnableGroup.group := by
  induction burnables with
  | nil => intro selected tickCount _; rw [fitting, List.take_nil]; rfl
  | cons burnable burnables ih =>
    intro selected tickCount hle
    rw [List.map_cons, takeGroups, fitting]
    by_cases hfull : selected = groupLimit
    · rw [if_pos hfull, hfull, Nat.sub_self, List.take_zero]
      rfl
    · rw [if_neg hfull]
      by_cases hlarge : maxTicksPerBurn < tickCount + burnable.group.ticks.length
      · rw [if_pos hlarge, if_pos hlarge]
        exact ih hle
      · rw [if_neg hlarge, if_neg hlarge, ih (by omega), show groupLimit - selected = groupLimit - (selected + 1) + 1 by omega,
          List.take_succ_cons, List.map_cons]

omit [LinearOrder W] in
theorem fitting_sublist (burnables : List (BurnableGroup W)) : ∀ tickCount, (fitting tickCount burnables).Sublist burnables := by
  induction burnables with
  | nil => exact fun _ => List.Sublist.refl _
  | cons burnable burnables ih =>
    intro tickCount
    rw [fitting]
    split_ifs
    · exact (ih _).cons _
    · exact (ih _).cons_cons _

omit [LinearOrder W] in
theorem fitting_count (burnables : List (BurnableGroup W)) : ∀ tickCount, tickCount ≤ maxTicksPerBurn →
    tickCount + itemCount ((fitting tickCount burnables).map BurnableGroup.group) ≤ maxTicksPerBurn := by
  induction burnables with
  | nil => exact fun _ h => h
  | cons burnable burnables ih =>
    intro tickCount hle
    rw [fitting]
    split_ifs with hlarge
    · exact ih _ hle
    · rw [List.map_cons, itemCount_cons, ← Nat.add_assoc]
      exact ih _ (not_lt.mp hlarge)

omit [LinearOrder W] in
theorem itemCount_sublist {groups groups' : List (BurnGroup W)} (h : groups.Sublist groups') :
    itemCount groups ≤ itemCount groups' :=
  (h.map _).sum_le_sum (fun _ _ => Nat.zero_le _)

variable {burnables : List (BurnableGroup W)} {groupLimit : ℕ}

omit [LinearOrder W] in
theorem taken_sublist : (taken burnables groupLimit).Sublist burnables :=
  (List.take_sublist _ _).trans (fitting_sublist burnables 0)

omit [LinearOrder W] in
theorem taken_count : itemCount ((taken burnables groupLimit).map BurnableGroup.group) ≤ maxTicksPerBurn := by
  have hall := fitting_count burnables 0 (Nat.zero_le _)
  have htaken := itemCount_sublist ((List.take_sublist groupLimit (fitting 0 burnables)).map BurnableGroup.group)
  unfold taken
  omega

end Selection

section Queue

variable {programs : BurnPrograms W} {view : BurnView W} {stormEye : NetworkAsset W} {blockHeight : ℕ}
  {store : MonitoredUtxoStore W}

omit [LinearOrder W] in
theorem exec_bind_ok {S E A B : Type} {x : Db S E A} {f : A → Db S E B} {s t : S} {a : A} (h : x.exec s = (.ok a, t)) :
    (x >>= f).exec s = (f a).exec t := by
  rw [Db.exec_bind, h]

theorem availableItems_live : ∀ {items : List (MonitoredUtxo W × Utxo W)},
    (∀ item ∈ items, optionalOutpoint view item.1.outpoint = .ok (some item.2)) →
      (availableItems view blockHeight (items.map Prod.fst)).exec store = (.ok items, store) := by
  intro items
  induction items with
  | nil => exact fun _ => rfl
  | cons item items ih =>
    intro hlive
    have hitem : (Db.check (optionalOutpoint view item.1.outpoint) : Db (MonitoredUtxoStore W) BurningError _).exec store =
        (.ok (some item.2), store) := by
      rw [hlive item List.mem_cons_self]
      rfl
    rw [List.map_cons, availableItems, exec_bind_ok hitem]
    dsimp only
    rw [exec_bind_ok (ih fun other hother => hlive other (.tail _ hother))]
    rfl

theorem LiveGroup.validates {burnable : BurnableGroup W} (h : LiveGroup programs view stormEye burnable) :
    validateGroupItems programs stormEye.assetId view.assets burnable.group burnable.tickUtxos = .ok () := by
  unfold validateGroupItems
  apply forM_ok.mpr
  intro item hitem
  obtain ⟨-, hunchanged, hinput⟩ := h.items item hitem
  obtain ⟨script, hscript, -⟩ := Db.except_bind_ok.mp hinput
  rw [hunchanged, hscript]
  rfl

/-- A live group stays as it is, and the queue with it. -/
theorem LiveGroup.burnableGroup {burnable : BurnableGroup W} (h : LiveGroup programs view stormEye burnable)
    (hnonempty : burnable.group.ticks ≠ []) :
    (burnableGroup programs view stormEye blockHeight burnable.group).exec store = (.ok (some burnable), store) := by
  have hreserve : (Db.check (optionalOutpoint view burnable.group.reserve) : Db (MonitoredUtxoStore W) BurningError _).exec
      store = (.ok (some burnable.reserve), store) := by
    rw [h.reserve]
    rfl
  have hzip : (burnable.group.ticks.zip burnable.tickUtxos).map Prod.fst = burnable.group.ticks :=
    List.map_fst_zip h.length.le
  have hutxos : (burnable.group.ticks.zip burnable.tickUtxos).map Prod.snd = burnable.tickUtxos :=
    List.map_snd_zip h.length.ge
  have havailable : (availableItems view blockHeight ((burnable.group.ticks.zip burnable.tickUtxos).map Prod.fst)).exec store =
      (.ok (burnable.group.ticks.zip burnable.tickUtxos), store) :=
    availableItems_live fun item hitem => (h.items item hitem).1
  rw [hzip] at havailable
  have hticks : (availableTicks view burnable.group blockHeight).exec store =
      (.ok (some (burnable.group, burnable.tickUtxos)), store) := by
    unfold availableTicks
    rw [exec_bind_ok havailable, if_neg, hzip, hutxos]
    · rfl
    · intro hnil
      rw [hnil] at hzip
      exact hnonempty hzip.symm
  unfold Burning.burnableGroup
  rw [exec_bind_ok hreserve]
  dsimp only
  rw [if_neg, exec_bind_ok hticks]
  · dsimp only
    rw [h.validates, ← h.account]
    rfl
  · rw [not_or, not_not, not_not, h.asset, h.script, h.account]
    exact ⟨rfl, rfl⟩

theorem burnableGroups_live : ∀ {burnables : List (BurnableGroup W)},
    (∀ burnable ∈ burnables, LiveGroup programs view stormEye burnable ∧ burnable.group.ticks ≠ []) →
      (burnableGroups programs view stormEye blockHeight (burnables.map BurnableGroup.group)).exec store =
        (.ok burnables, store) := by
  intro burnables
  induction burnables with
  | nil => exact fun _ => rfl
  | cons burnable burnables ih =>
    intro hlive
    obtain ⟨hgroup, hnonempty⟩ := hlive burnable List.mem_cons_self
    rw [List.map_cons, burnableGroups, exec_bind_ok (hgroup.burnableGroup hnonempty),
      exec_bind_ok (ih fun other hother => hlive other (.tail _ hother))]
    rfl

end Queue

section Build

variable {programs : BurnPrograms W} {view : BurnView W} {stormEye : NetworkAsset W} {stormEyeUtxo : Utxo W}

omit [LinearOrder W] in
/-- The fee of a burn of at most a hundred items and groups is far from overflowing. -/
theorem burnFee_ok (minimumFee : ℕ) {items groups : ℕ} (hitems : items ≤ maxTicksPerBurn) (hgroups : groups ≤ maxTicksPerBurn) :
    ∃ fee, burnFee minimumFee items groups = .ok fee := by
  have hitems : items ≤ 100 := hitems
  have hgroups : groups ≤ 100 := hgroups
  unfold burnFee burnFloor checkedMul checkedAdd divCeil burnItemWeight burnReserveWeight burnBaseWeight burnFeeRateSatPerKvb
  simp only [Option.bind_eq_bind]
  rw [if_pos (by omega), if_pos (by omega), Option.bind_some, Option.bind_some, if_pos (by omega), Option.bind_some,
    if_pos (by omega), Option.bind_some, if_pos (by omega)]
  exact ⟨_, rfl⟩

omit [LinearOrder W] in
theorem remainingReserve_of_lt {amount share : ℕ} (h : share < amount) :
    remainingReserve (some amount) share = some (amount - share) := by
  unfold remainingReserve checkedSub
  rw [Option.bind_some, if_pos h.le, Option.filter_some, if_pos (by simpa using h)]

omit [LinearOrder W] in
theorem remainingReserve_of_ge {amount share : ℕ} (h : amount ≤ share) : remainingReserve (some amount) share = none := by
  cases hremaining : remainingReserve (some amount) share with
  | none => rfl
  | some remaining =>
    obtain ⟨value, hvalue, hlt, -⟩ := remainingReserve_eq hremaining
    cases hvalue
    omega

omit [LinearOrder W] in
theorem reserveReturn_covered {fee groupCount : ℕ} (hgroups : groupCount ≠ 0) {item : BurnableGroup W × ℕ}
    (h : FairDivision.share fee groupCount item.2 < item.1.reserve.amount) :
    ∃ output, reserveReturn programs fee groupCount item = .ok output := by
  unfold reserveReturn feeShare
  rw [if_neg hgroups]
  dsimp only [bind, Except.bind]
  rw [remainingReserve_of_lt h]
  exact ⟨_, rfl⟩

omit [LinearOrder W] in
theorem reserveReturn_short {fee groupCount : ℕ} (hgroups : groupCount ≠ 0) {item : BurnableGroup W × ℕ}
    (h : item.1.reserve.amount ≤ FairDivision.share fee groupCount item.2) :
    reserveReturn programs fee groupCount item = .error .reserveShortfall := by
  unfold reserveReturn feeShare
  rw [if_neg hgroups]
  dsimp only [bind, Except.bind]
  rw [remainingReserve_of_ge h]
  rfl

omit [LinearOrder W] in
/-- What the burns of both kinds hold. -/
def burned (burns : Option (W × ℕ) × Option (W × ℕ)) : ℕ :=
  (burns.1.map Prod.snd).getD 0 + (burns.2.map Prod.snd).getD 0

omit [LinearOrder W] in
theorem addBurn_total {asset : W} {amount : ℕ} {burn : Option (W × ℕ)}
    (h : (burn.map Prod.snd).getD 0 + amount < 2 ^ 64) :
    ∃ burn', addBurn asset amount burn = .ok burn' ∧ (burn'.map Prod.snd).getD 0 = (burn.map Prod.snd).getD 0 + amount := by
  unfold addBurn checkedAdd
  cases burn with
  | none =>
    have h : ((none : Option (W × ℕ)).getD (asset, 0)).2 + amount < 2 ^ 64 := h
    dsimp only
    rw [if_pos h]
    exact ⟨_, rfl, rfl⟩
  | some burn =>
    have h : ((some burn).getD (asset, 0)).2 + amount < 2 ^ 64 := h
    dsimp only
    rw [if_pos h]
    exact ⟨_, rfl, rfl⟩

omit [LinearOrder W] in
theorem burnStep_total {assets : BurnAssets W} {burns : Option (W × ℕ) × Option (W × ℕ)} {tick : MonitoredUtxo W} {asset : W}
    (hasset : assetOf assets tick = .ok asset) (h : burned burns + tick.amount < 2 ^ 64) :
    ∃ burns', burnStep assets burns tick = .ok burns' ∧ burned burns' = burned burns + tick.amount := by
  unfold burned at h
  unfold burnStep
  rw [hasset]
  by_cases hkind : tick.assetKind = Indexer.oracleVerifierKind
  · obtain ⟨verifier, hverifier, htotal⟩ := @addBurn_total W asset tick.amount burns.2 (by omega)
    refine ⟨(burns.1, verifier), ?_, ?_⟩
    · change (if tick.assetKind = Indexer.oracleVerifierKind then _ else _) = _
      rw [if_pos hkind, hverifier]
      rfl
    · change (burns.1.map Prod.snd).getD 0 + (verifier.map Prod.snd).getD 0 = burned burns + _
      unfold burned
      omega
  · obtain ⟨ticks, hticks, htotal⟩ := @addBurn_total W asset tick.amount burns.1 (by omega)
    refine ⟨(ticks, burns.2), ?_, ?_⟩
    · change (if tick.assetKind = Indexer.oracleVerifierKind then _ else _) = _
      rw [if_neg hkind, hticks]
      rfl
    · change (ticks.map Prod.snd).getD 0 + (burns.2.map Prod.snd).getD 0 = burned burns + _
      unfold burned
      omega

omit [LinearOrder W] in
theorem burnOutputs_total {assets : BurnAssets W} {ticks : List (MonitoredUtxo W)}
    (hassets : ∀ tick ∈ ticks, ∃ asset, assetOf assets tick = .ok asset)
    (hsum : (ticks.map MonitoredUtxo.amount).sum < 2 ^ 64) : ∃ burns, burnOutputs ticks assets = .ok burns := by
  have hfold : ∀ (ticks : List (MonitoredUtxo W)) burns, (∀ tick ∈ ticks, ∃ asset, assetOf assets tick = .ok asset) →
      burned burns + (ticks.map MonitoredUtxo.amount).sum < 2 ^ 64 → ∃ burns', ticks.foldlM (burnStep assets) burns = .ok burns' := by
    intro ticks
    induction ticks with
    | nil => exact fun burns _ _ => ⟨burns, rfl⟩
    | cons tick ticks ih =>
      intro burns hassets hsum
      rw [List.map_cons, List.sum_cons] at hsum
      obtain ⟨asset, hasset⟩ := hassets tick List.mem_cons_self
      obtain ⟨burns', hstep, htotal⟩ := burnStep_total hasset (show burned burns + tick.amount < 2 ^ 64 by omega)
      rw [List.foldlM_cons, hstep]
      exact ih burns' (fun other hother => hassets other (.tail _ hother)) (by omega)
  obtain ⟨burns, hburns⟩ := hfold ticks (none, none) hassets (by simpa [burned] using hsum)
  exact ⟨burns.1.toList ++ burns.2.toList, by rw [burnOutputs, hburns]; rfl⟩

variable {blockHeight maxTransactionWeight stormEyeLane : ℕ} {estimatedWeight : Pset W → Except BurningError ℕ}
  {store : MonitoredUtxoStore W} {burnables selected : List (BurnableGroup W)} {weight : List (BurnableGroup W) → ℕ}

theorem BurnQueue.burnsOk (h : BurnQueue programs view stormEye stormEyeUtxo maxTransactionWeight estimatedWeight stormEyeLane
    store burnables weight) (hsub : selected.Sublist burnables) :
    ∃ burns, burnOutputs (selected.flatMap fun burnable => burnable.group.ticks) view.assets = .ok burns := by
  have hticks : (selected.flatMap fun burnable => burnable.group.ticks).Sublist
      ((burnables.map BurnableGroup.group).flatMap BurnGroup.ticks) := by
    rw [List.flatMap_map]
    exact hsub.flatMap _
  apply burnOutputs_total
  · intro tick htick
    obtain ⟨burnable, hburnable, htick⟩ := List.mem_flatMap.mp htick
    have hlive := h.live burnable (hsub.subset hburnable)
    rw [← List.map_fst_zip hlive.length.le] at htick
    obtain ⟨item, hitem, rfl⟩ := List.mem_map.mp htick
    obtain ⟨-, hunchanged, -⟩ := hlive.items item hitem
    obtain ⟨asset, hasset, -⟩ := Db.except_bind_ok.mp hunchanged
    exact ⟨asset, hasset⟩
  · exact lt_of_le_of_lt ((hticks.map _).sum_le_sum fun _ _ => Nat.zero_le _) h.amounts

/-- Some of the groups make a burn exactly if each of their reserves covers its share. -/
theorem BurnQueue.build (h : BurnQueue programs view stormEye stormEyeUtxo maxTransactionWeight estimatedWeight stormEyeLane
    store burnables weight) (hsub : selected.Sublist burnables) (hne : selected ≠ [])
    (hcount : itemCount (selected.map BurnableGroup.group) ≤ maxTicksPerBurn) (hlength : selected.length ≤ maxTicksPerBurn) :
    (Covered view.burnTransactionFeeSats selected → ∃ built, buildBurnTransaction programs stormEye stormEyeUtxo selected
      view.assets view.burnTransactionFeeSats = .ok built) ∧
    (¬Covered view.burnTransactionFeeSats selected → buildBurnTransaction programs stormEye stormEyeUtxo selected
      view.assets view.burnTransactionFeeSats = .error .reserveShortfall) := by
  obtain ⟨fee, hfee⟩ := burnFee_ok view.burnTransactionFeeSats hcount hlength
  obtain ⟨root, hroot⟩ := h.root
  obtain ⟨burns, hburns⟩ := h.burnsOk hsub
  have hpos : selected.length ≠ 0 := fun hzero => hne (List.length_eq_zero_iff.mp hzero)
  have hitems : (selected.flatMap fun burnable => burnable.group.ticks.zip burnable.tickUtxos).forM (fun item => do
      requireUnchanged view.assets item.1 item.2
      issuedNetworkInput programs stormEye.assetId item.1) = .ok () := by
    apply forM_ok.mpr
    intro item hitem
    obtain ⟨burnable, hburnable, hitem⟩ := List.mem_flatMap.mp hitem
    exact then_ok.mpr ((h.live burnable (hsub.subset hburnable)).items item hitem).2
  have hbuild : ∀ returns : Except BurningError (List (PsetOutput W)),
      selected.zipIdx.mapM (reserveReturn programs fee selected.length) = returns →
        buildBurnTransaction programs stormEye stormEyeUtxo selected view.assets view.burnTransactionFeeSats = do
          let returns ← returns
          let items := selected.flatMap fun burnable => burnable.group.ticks.zip burnable.tickUtxos
          let spent := stormEyeUtxo :: (items.map Prod.snd ++ selected.map BurnableGroup.reserve)
          let outputs := .fromUtxo stormEyeUtxo ::
            (burns.map (fun burn => .new opReturnScript burn.2 burn.1) ++ returns ++ [.new [] fee programs.policyAsset])
          return ⟨⟨spent.map .new, outputs⟩, spent.map Utxo.txout, items.map fun item => item.1.outpoint, root⟩ := by
    rintro returns rfl
    unfold buildBurnTransaction
    rw [hfee, hroot]
    dsimp only
    rw [hburns]
    have hgo : ∀ next : Except BurningError (BuiltBurn W),
        ((selected.flatMap fun burnable => burnable.group.ticks.zip burnable.tickUtxos).forM (fun item => do
          requireUnchanged view.assets item.1 item.2
          issuedNetworkInput programs stormEye.assetId item.1) >>= fun _ => next) = next := by
      intro next
      rw [hitems]
      rfl
    exact hgo _
  constructor
  · rintro ⟨fee', hfee', hcovered⟩
    obtain rfl : fee = fee' := Except.ok.inj (hfee.symm.trans hfee')
    have hall : ∀ item ∈ selected.zipIdx, ∃ output, reserveReturn programs fee selected.length item = .ok output := by
      intro item hitem
      exact reserveReturn_covered hpos (hcovered item.2 item.1 (List.mem_zipIdx_iff_getElem?.mp hitem))
    obtain ⟨returns, hreturns⟩ := mapM_ok_of_forall hall
    exact ⟨_, hbuild _ hreturns⟩
  · intro huncovered
    have hsome : ∃ item ∈ selected.zipIdx, reserveReturn programs fee selected.length item = .error .reserveShortfall := by
      by_contra hnone
      refine huncovered ⟨fee, hfee, fun i burnable hburnable => ?_⟩
      by_contra hshort
      exact hnone ⟨(burnable, i), List.mem_zipIdx_iff_getElem?.mpr hburnable, reserveReturn_short hpos (not_lt.mp hshort)⟩
    have hall : ∀ item ∈ selected.zipIdx, reserveReturn programs fee selected.length item = .error .reserveShortfall ∨
        ∃ output, reserveReturn programs fee selected.length item = .ok output := by
      intro item _
      rcases lt_or_ge (FairDivision.share fee selected.length item.2) item.1.reserve.amount with hlt | hge
      · exact .inr (reserveReturn_covered hpos hlt)
      · exact .inl (reserveReturn_short hpos hge)
    exact hbuild _ (mapM_error hall hsome)

end Build

section Choices

variable {programs : BurnPrograms W} {view : BurnView W} {stormEye : NetworkAsset W} {stormEyeUtxo : Utxo W}
  {blockHeight maxTransactionWeight stormEyeLane : ℕ} {estimatedWeight : Pset W → Except BurningError ℕ}
  {store : MonitoredUtxoStore W} {burnables : List (BurnableGroup W)} {weight : List (BurnableGroup W) → ℕ}
  (h : BurnQueue programs view stormEye stormEyeUtxo maxTransactionWeight estimatedWeight stormEyeLane store burnables weight)

include h

theorem BurnQueue.nonempty : ∀ burnable ∈ burnables, burnable.group.ticks ≠ [] := by
  obtain ⟨grouped, hfold, hsorted⟩ := h.groups
  have hgrouped := (grouped_foldlM _ grouped_nil hfold).perm
    (List.perm_insertionSort (fun a b => groupKey a ≤ groupKey b) grouped)
  rw [hsorted] at hgrouped
  exact fun burnable hburnable => hgrouped.nonempty _ (List.mem_map_of_mem hburnable)

theorem BurnQueue.fitting_length : (fitting 0 burnables).length ≤ maxTicksPerBurn := by
  have hcount := fitting_count burnables 0 (Nat.zero_le _)
  have hle : ∀ burnables : List (BurnableGroup W), (∀ burnable ∈ burnables, burnable.group.ticks ≠ []) →
      burnables.length ≤ itemCount (burnables.map BurnableGroup.group) := by
    intro burnables
    induction burnables with
    | nil => exact fun _ => Nat.le_refl 0
    | cons burnable burnables ih =>
      intro hne
      have hpos := List.length_pos_iff.mpr (hne burnable List.mem_cons_self)
      have hrest := ih fun other hother => hne other (.tail _ hother)
      rw [List.map_cons, itemCount_cons, List.length_cons]
      omega
  have hlength := hle (fitting 0 burnables) fun burnable hburnable =>
    h.nonempty burnable ((fitting_sublist burnables 0).subset hburnable)
  omega

theorem BurnQueue.selects (groupLimit : ℕ) :
    selectGroups (splitConflictingReserves (expiredItems store)).1 groupLimit =
      .ok ((taken burnables groupLimit).map BurnableGroup.group) := by
  obtain ⟨grouped, hfold, hsorted⟩ := h.groups
  unfold selectGroups taken
  rw [hfold]
  change Except.ok (takeGroups groupLimit 0 0 (grouped.insertionSort fun a b => groupKey a ≤ groupKey b)) = _
  rw [hsorted, takeGroups_fitting burnables (Nat.zero_le groupLimit), Nat.sub_zero]

/-- A candidate is what can be made of the groups its limit takes. -/
theorem BurnQueue.candidate {groupLimit : ℕ} (htaken : taken burnables groupLimit ≠ []) :
    (prepareRoundCandidate programs view blockHeight stormEyeLane groupLimit maxTransactionWeight).exec store =
      ((burnOf programs view stormEye stormEyeUtxo blockHeight maxTransactionWeight (taken burnables groupLimit)).map some,
        store) := by
  have hburnable : (burnableGroups programs view stormEye blockHeight ((taken burnables groupLimit).map BurnableGroup.group)).exec
      store = (.ok (taken burnables groupLimit), store) :=
    burnableGroups_live fun burnable hmem =>
      ⟨h.live burnable (taken_sublist.subset hmem), h.nonempty burnable (taken_sublist.subset hmem)⟩
  have hexpired : (listExpired : Db (MonitoredUtxoStore W) BurningError _).exec store = (.ok (expiredItems store), store) := rfl
  have hselected : (Db.check (selectGroups (splitConflictingReserves (expiredItems store)).1 groupLimit) :
      Db (MonitoredUtxoStore W) BurningError _).exec store = (.ok ((taken burnables groupLimit).map BurnableGroup.group), store) := by
    rw [h.selects]
    rfl
  have howners : ((splitConflictingReserves (expiredItems store)).2.forM fun entry => quarantineGroup entry.2 blockHeight).exec
      store = (.ok (), store) := by
    rw [h.owners]
    rfl
  unfold prepareRoundCandidate
  rw [exec_bind_ok hexpired]
  dsimp only
  rw [exec_bind_ok howners, exec_bind_ok hselected, if_neg (fun hnil => htaken (List.map_eq_nil_iff.mp hnil)), h.configured]
  dsimp only
  rw [exec_bind_ok hburnable]
  cases hgroups : taken burnables groupLimit with
  | nil => exact absurd hgroups htaken
  | cons first rest =>
    dsimp only
    rw [h.found]
    change ((Db.check (buildBurnTransaction programs stormEye stormEyeUtxo (first :: rest) view.assets
      view.burnTransactionFeeSats) >>= _ : Db (MonitoredUtxoStore W) BurningError _)).exec store = _
    unfold burnOf
    cases hbuilt : buildBurnTransaction programs stormEye stormEyeUtxo (first :: rest) view.assets
        view.burnTransactionFeeSats with
    | error error => rfl
    | ok built =>
      change ((Db.check (signingHash programs built.pset stormEye) >>= _ :
        Db (MonitoredUtxoStore W) BurningError _)).exec store =
          (Except.map some (signingHash programs built.pset stormEye >>= _), store)
      cases hhash : signingHash programs built.pset stormEye with
      | error error => rfl
      | ok hash => rfl

omit h in
omit [LinearOrder W] in
theorem taken_min (groupLimit : ℕ) :
    taken burnables (min groupLimit (fitting 0 burnables).length) = taken burnables groupLimit := by
  unfold taken
  rw [List.take_eq_take_iff]
  omega

theorem BurnQueue.burnOf_covered {selected : List (BurnableGroup W)} (hsub : selected.Sublist burnables) (hne : selected ≠ [])
    (hcount : itemCount (selected.map BurnableGroup.group) ≤ maxTicksPerBurn) (hlength : selected.length ≤ maxTicksPerBurn)
    (hcovered : Covered view.burnTransactionFeeSats selected) : ∃ prepared,
      burnOf programs view stormEye stormEyeUtxo blockHeight maxTransactionWeight selected = .ok prepared ∧
        prepared.groupCount = selected.length ∧ estimatedWeight prepared.pset = .ok (weight selected) := by
  obtain ⟨built, hbuilt⟩ := (h.build hsub hne hcount hlength).1 hcovered
  obtain ⟨hash, hhash⟩ := h.hashed selected built hbuilt
  have hsigning : signingHash programs built.pset stormEye = .ok hash := by
    rw [signingHash, hhash]
    rfl
  refine ⟨⟨⟨built.pset, hash, built.signingBranch, blockHeight⟩, built.pset, built.spentUtxos, built.selected,
    selected.length, maxTransactionWeight⟩, ?_, rfl, h.weighed selected built hbuilt⟩
  unfold burnOf
  rw [hbuilt]
  change (signingHash programs built.pset stormEye >>= _) = _
  rw [hsigning]
  rfl

theorem BurnQueue.burnOf_short {selected : List (BurnableGroup W)} (hsub : selected.Sublist burnables) (hne : selected ≠ [])
    (hcount : itemCount (selected.map BurnableGroup.group) ≤ maxTicksPerBurn) (hlength : selected.length ≤ maxTicksPerBurn)
    (hcovered : ¬Covered view.burnTransactionFeeSats selected) :
    burnOf programs view stormEye stormEyeUtxo blockHeight maxTransactionWeight selected = .error .reserveShortfall := by
  unfold burnOf
  rw [(h.build hsub hne hcount hlength).2 hcovered]
  rfl

theorem BurnQueue.choices (hfitting : fitting 0 burnables ≠ []) :
    Choices (burnRules programs view blockHeight maxTransactionWeight estimatedWeight stormEyeLane) store
      (fitting 0 burnables).length (fun groupLimit => Covered view.burnTransactionFeeSats (taken burnables groupLimit))
      fun groupLimit => weight (taken burnables groupLimit) := by
  have hpos := List.length_pos_iff.mpr hfitting
  have hlength : ∀ groupLimit, (taken burnables groupLimit).length = min groupLimit (fitting 0 burnables).length :=
    fun groupLimit => List.length_take
  have hne : ∀ groupLimit, 0 < groupLimit → taken burnables groupLimit ≠ [] := by
    intro groupLimit hlimit hnil
    have hzero := hlength groupLimit
    rw [hnil, List.length_nil] at hzero
    omega
  have hfew : ∀ groupLimit, (taken burnables groupLimit).length ≤ maxTicksPerBurn := by
    intro groupLimit
    have hall := h.fitting_length
    rw [hlength]
    omega
  refine ⟨hpos, ?_, ?_⟩
  · intro groupLimit hlimit hcovered
    rw [taken_min] at hcovered ⊢
    obtain ⟨prepared, hburn, hcount, hweight⟩ :=
      h.burnOf_covered taken_sublist (hne groupLimit hlimit) taken_count (hfew groupLimit) hcovered
    refine ⟨prepared, ?_, hcount.trans (hlength groupLimit), hweight⟩
    change (prepareRoundCandidate programs view blockHeight stormEyeLane groupLimit maxTransactionWeight).exec store = _
    rw [h.candidate (hne groupLimit hlimit), hburn]
    rfl
  · intro groupLimit hlimit hcovered
    rw [taken_min] at hcovered
    refine ⟨.reserveShortfall, ?_, rfl⟩
    change (prepareRoundCandidate programs view blockHeight stormEyeLane groupLimit maxTransactionWeight).exec store = _
    rw [h.candidate (hne groupLimit hlimit),
      h.burnOf_short taken_sublist (hne groupLimit hlimit) taken_count (hfew groupLimit) hcovered]
    rfl

end Choices

end Burning

end PriceOracle
