import PriceOracle.BurnLayout
import PriceOracle.BurnLeader

/-!
# What a leader burns

The groups that are left after spent items and unusable reserves are taken out, as one function of
the selected groups and the node's answers, and what a leader that returns a burn has computed.
-/

namespace PriceOracle

namespace Burning

variable {W : Type} [LinearOrder W]

/-- What a filter keeps, under names that it does not change. -/
theorem filterMap_map_sublist {A B C : Type} {keep : A → Option B} {name : B → C} {name' : A → C}
    (hname : ∀ a b, keep a = some b → name b = name' a) (as : List A) :
    ((as.filterMap keep).map name).Sublist (as.map name') := by
  induction as with
  | nil => exact List.Sublist.refl _
  | cons a as ih =>
    cases hkeep : keep a with
    | none =>
      rw [List.filterMap_cons_none hkeep]
      exact ih.cons _
    | some b =>
      rw [List.filterMap_cons_some hkeep, List.map_cons, List.map_cons, hname a b hkeep]
      exact ih.cons_cons _

section Survivors

variable (programs : BurnPrograms W) (view : BurnView W) (stormEye : NetworkAsset W)

def liveUtxo (outpoint : W × ℕ) : Option (Utxo W) :=
  match optionalOutpoint view outpoint with
  | .ok utxo => utxo
  | .error _ => none

def liveItems (ticks : List (MonitoredUtxo W)) : List (MonitoredUtxo W × Utxo W) :=
  ticks.filterMap fun tick => (liveUtxo view tick.outpoint).map fun utxo => (tick, utxo)

/-- What is left of a group to burn, if anything is. -/
def survivor (group : BurnGroup W) : Option (BurnableGroup W) :=
  (liveUtxo view group.reserve).bind fun reserve =>
    let accountScript := programs.accountScript stormEye.assetId group.owner
    let remaining : BurnGroup W := { group with ticks := (liveItems view group.ticks).map Prod.fst }
    let tickUtxos := (liveItems view group.ticks).map Prod.snd
    if reserve.asset ≠ programs.policyAsset ∨ reserve.scriptPubkey ≠ accountScript then none
    else if liveItems view group.ticks = [] then none
    else if validateGroupItems programs stormEye.assetId view.assets remaining tickUtxos = .ok () then
      some ⟨remaining, reserve, accountScript, tickUtxos⟩
    else none

variable {programs view stormEye} {s t : MonitoredUtxoStore W} {blockHeight : ℕ}

omit [LinearOrder W] in
theorem liveUtxo_ok {outpoint : W × ℕ} {answer : Option (Utxo W)} (h : optionalOutpoint view outpoint = .ok answer) :
    liveUtxo view outpoint = answer := by
  rw [liveUtxo, h]

theorem availableItems_returns (ticks : List (MonitoredUtxo W)) :
    ∀ {s t : MonitoredUtxoStore W} {available : List (MonitoredUtxo W × Utxo W)},
      (availableItems view blockHeight ticks).Returns s available t → available = liveItems view ticks := by
  induction ticks with
  | nil =>
    intro s t available h
    exact (Db.returns_pure.mp h).1
  | cons tick ticks ih =>
    intro s t available h
    rw [availableItems] at h
    obtain ⟨answer, u, hanswer, h⟩ := Db.returns_bind.mp h
    have hlive := liveUtxo_ok (Db.returns_check.mp hanswer).1
    cases answer with
    | some utxo =>
      obtain ⟨rest, u', hrest, h⟩ := Db.returns_bind.mp h
      obtain ⟨rfl, -⟩ := Db.returns_pure.mp h
      rw [ih hrest]
      exact (List.filterMap_cons_some (by rw [hlive]; rfl)).symm
    | none =>
      have hskip : liveItems view (tick :: ticks) = liveItems view ticks :=
        List.filterMap_cons_none (by rw [hlive]; rfl)
      rw [hskip]
      obtain ⟨spender, u', -, h⟩ := Db.returns_bind.mp h
      cases spender with
      | none => exact ih h
      | some txid =>
        obtain ⟨_, u'', -, h⟩ := Db.returns_bind.mp h
        exact ih h

theorem burnableGroup_returns {group : BurnGroup W} {burnable : Option (BurnableGroup W)}
    (h : (burnableGroup programs view stormEye blockHeight group).Returns s burnable t) :
    burnable = survivor programs view stormEye group := by
  unfold burnableGroup at h
  obtain ⟨answer, u, hanswer, h⟩ := Db.returns_bind.mp h
  unfold survivor
  rw [liveUtxo_ok (Db.returns_check.mp hanswer).1]
  cases answer with
  | none =>
    obtain ⟨spender, u', -, h⟩ := Db.returns_bind.mp h
    cases spender with
    | some txid => exact (Db.returns_pure.mp h).1
    | none =>
      obtain ⟨_, u'', -, h⟩ := Db.returns_bind.mp h
      exact (Db.returns_pure.mp h).1
  | some reserve =>
    rw [Option.bind_some]
    dsimp only at h ⊢
    by_cases hreserve : reserve.asset ≠ programs.policyAsset ∨
        reserve.scriptPubkey ≠ programs.accountScript stormEye.assetId group.owner
    · rw [if_pos hreserve] at h ⊢
      obtain ⟨_, u', -, h⟩ := Db.returns_bind.mp h
      exact (Db.returns_pure.mp h).1
    · rw [if_neg hreserve] at h ⊢
      obtain ⟨ticks, u', hticks, h⟩ := Db.returns_bind.mp h
      unfold availableTicks at hticks
      obtain ⟨available, v, havailable, hticks⟩ := Db.returns_bind.mp hticks
      obtain rfl := availableItems_returns group.ticks havailable
      by_cases hnone : liveItems view group.ticks = []
      · rw [if_pos hnone] at hticks ⊢
        obtain ⟨rfl, -⟩ := Db.returns_pure.mp hticks
        exact (Db.returns_pure.mp h).1
      · rw [if_neg hnone] at hticks ⊢
        obtain ⟨rfl, -⟩ := Db.returns_pure.mp hticks
        dsimp only at h
        cases hitems : validateGroupItems programs stormEye.assetId view.assets
            { group with ticks := (liveItems view group.ticks).map Prod.fst }
            ((liveItems view group.ticks).map Prod.snd) with
        | ok result =>
          rw [hitems] at h
          rw [if_pos rfl]
          exact (Db.returns_pure.mp h).1
        | error error =>
          rw [hitems] at h
          rw [if_neg (by simp)]
          cases error with
          | invalid reason =>
            obtain ⟨_, u'', -, h⟩ := Db.returns_bind.mp h
            exact (Db.returns_pure.mp h).1
          | _ => exact absurd h Db.returns_throw

theorem burnableGroups_returns (groups : List (BurnGroup W)) :
    ∀ {s t : MonitoredUtxoStore W} {burnable : List (BurnableGroup W)},
      (burnableGroups programs view stormEye blockHeight groups).Returns s burnable t →
        burnable = groups.filterMap (survivor programs view stormEye) := by
  induction groups with
  | nil =>
    intro s t burnable h
    exact (Db.returns_pure.mp h).1
  | cons group groups ih =>
    intro s t burnable h
    rw [burnableGroups] at h
    obtain ⟨first, u, hfirst, h⟩ := Db.returns_bind.mp h
    obtain ⟨rest, u', hrest, h⟩ := Db.returns_bind.mp h
    obtain ⟨rfl, -⟩ := Db.returns_pure.mp h
    rw [burnableGroup_returns hfirst, ih hrest]
    cases hsurvivor : survivor programs view stormEye group with
    | none => rw [List.filterMap_cons_none hsurvivor]; rfl
    | some burnable => rw [List.filterMap_cons_some hsurvivor]; rfl

/-- A group with the live UTXOs of its reserve and of its items. -/
structure Live (programs : BurnPrograms W) (stormEye : NetworkAsset W) (burnable : BurnableGroup W) : Prop where
  reserve : burnable.reserve.outpoint = burnable.group.reserve
  asset : burnable.reserve.asset = programs.policyAsset
  script : burnable.reserve.scriptPubkey = burnable.accountScript
  account : burnable.accountScript = programs.accountScript stormEye.assetId burnable.group.owner
  length : burnable.group.ticks.length = burnable.tickUtxos.length
  outpoints : ∀ item ∈ burnable.group.ticks.zip burnable.tickUtxos, item.2.outpoint = item.1.outpoint

omit [LinearOrder W] in
theorem liveUtxo_outpoint {outpoint : W × ℕ} {utxo : Utxo W} (h : liveUtxo view outpoint = some utxo) :
    utxo.outpoint = outpoint := by
  unfold liveUtxo at h
  cases hanswer : optionalOutpoint view outpoint with
  | error error =>
    rw [hanswer] at h
    cases h
  | ok answer =>
    rw [hanswer] at h
    obtain rfl : answer = some utxo := h
    obtain ⟨shown, -, hshown⟩ := Db.except_bind_ok.mp (helper_ok.mp hanswer)
    cases shown with
    | none => cases hshown
    | some shown =>
      cases hshown
      rfl

omit [LinearOrder W] in
theorem liveItems_zip (ticks : List (MonitoredUtxo W)) :
    ((liveItems view ticks).map Prod.fst).zip ((liveItems view ticks).map Prod.snd) = liveItems view ticks := by
  exact (List.zip_of_prod rfl rfl).symm

omit [LinearOrder W] in
theorem liveItems_ticks (ticks : List (MonitoredUtxo W)) : ((liveItems view ticks).map Prod.fst).Sublist ticks := by
  have hsub := @filterMap_map_sublist _ _ _ (fun tick => (liveUtxo view tick.outpoint).map fun utxo => (tick, utxo))
    Prod.fst id (fun tick item hitem => by
      obtain ⟨utxo, -, rfl⟩ := Option.map_eq_some_iff.mp hitem
      rfl) ticks
  rwa [List.map_id] at hsub

theorem survivor_some {group : BurnGroup W} {burnable : BurnableGroup W}
    (h : survivor programs view stormEye group = some burnable) :
    Live programs stormEye burnable ∧ burnable.group.reserve = group.reserve ∧ burnable.group.owner = group.owner ∧
      burnable.group.ticks.Sublist group.ticks ∧ burnable.group.ticks ≠ [] := by
  unfold survivor at h
  obtain ⟨reserve, hreserve, h⟩ := Option.bind_eq_some_iff.mp h
  dsimp only at h
  split_ifs at h with hheld hnone hvalid
  cases h
  obtain ⟨hasset, hscript⟩ := not_or.mp hheld
  refine ⟨⟨liveUtxo_outpoint hreserve, not_not.mp hasset, not_not.mp hscript, rfl, ?_, ?_⟩, rfl, rfl, ?_, ?_⟩
  · rw [List.length_map, List.length_map]
  · rw [liveItems_zip]
    intro item hitem
    obtain ⟨tick, -, hlive⟩ := List.mem_filterMap.mp hitem
    obtain ⟨utxo, hutxo, rfl⟩ := Option.map_eq_some_iff.mp hlive
    exact liveUtxo_outpoint hutxo
  · exact liveItems_ticks group.ticks
  · exact fun hnil => hnone (List.map_eq_nil_iff.mp hnil)

theorem survivors_coherent {groups : List (BurnGroup W)} (h : Coherent groups) :
    Coherent ((groups.filterMap (survivor programs view stormEye)).map BurnableGroup.group) where
  reserves := by
    rw [List.map_map]
    exact h.reserves.sublist (filterMap_map_sublist (fun _ _ hkeep => (survivor_some hkeep).2.1) groups)
  nonempty := by
    intro kept hkept
    obtain ⟨burnable, hburnable, rfl⟩ := List.mem_map.mp hkept
    obtain ⟨group, -, hkeep⟩ := List.mem_filterMap.mp hburnable
    exact (survivor_some hkeep).2.2.2.2
  items := by
    intro kept hkept tick htick
    obtain ⟨burnable, hburnable, rfl⟩ := List.mem_map.mp hkept
    obtain ⟨group, hgroup, hkeep⟩ := List.mem_filterMap.mp hburnable
    obtain ⟨-, hreserve, howner, hsub, -⟩ := survivor_some hkeep
    rw [hreserve, howner]
    exact h.items group hgroup tick (hsub.subset htick)

theorem survivors_count (groups : List (BurnGroup W)) :
    itemCount ((groups.filterMap (survivor programs view stormEye)).map BurnableGroup.group) ≤ itemCount groups := by
  induction groups with
  | nil => exact Nat.le_refl 0
  | cons group groups ih =>
    rw [itemCount_cons]
    cases hkeep : survivor programs view stormEye group with
    | none =>
      rw [List.filterMap_cons_none hkeep]
      omega
    | some burnable =>
      rw [List.filterMap_cons_some hkeep, List.map_cons, itemCount_cons]
      have hle := (survivor_some hkeep).2.2.2.1.length_le
      omega

/-- What a leader that returns a burn has computed. -/
theorem prepareRoundCandidate_returns {stormEyeLane groupLimit maxTransactionWeight : ℕ} {prepared : PreparedBurn W}
    (hstorm : view.stormEye = some stormEye)
    (h : (prepareRoundCandidate programs view blockHeight stormEyeLane groupLimit maxTransactionWeight).Returns
      s (some prepared) t) :
    ∃ groups stormEyeUtxo built hash, selectGroups (splitConflictingReserves (expiredItems s)).1 groupLimit = .ok groups ∧
      groups.filterMap (survivor programs view stormEye) ≠ [] ∧
      view.node.findContractUtxo stormEye.contractScript (some stormEye.assetId) (.networkLeader stormEyeLane) =
        .ok stormEyeUtxo ∧
      buildBurnTransaction programs stormEye stormEyeUtxo (groups.filterMap (survivor programs view stormEye))
        view.assets view.burnTransactionFeeSats = .ok built ∧
      signingHash programs built.pset stormEye = .ok hash ∧ prepared.pset = built.pset ∧
      prepared.request = ⟨built.pset, hash, built.signingBranch, blockHeight⟩ := by
  unfold prepareRoundCandidate at h
  obtain ⟨expired, u, hexpired, h⟩ := Db.returns_bind.mp h
  rw [listExpired, Db.returns_get_bind] at hexpired
  obtain ⟨rfl, -⟩ := Db.returns_pure.mp hexpired
  obtain ⟨_, u', -, h⟩ := Db.returns_bind.mp h
  obtain ⟨groups, u'', hgroups, h⟩ := Db.returns_bind.mp h
  by_cases hnone : groups = []
  · rw [if_pos hnone] at h
    cases (Db.returns_pure.mp h).1
  · rw [if_neg hnone, hstorm] at h
    obtain ⟨burnable, v, hburnable, h⟩ := Db.returns_bind.mp h
    have hsurvivors := burnableGroups_returns groups hburnable
    cases burnable with
    | nil => cases (Db.returns_pure.mp h).1
    | cons first rest =>
      obtain ⟨stormEyeUtxo, v', hutxo, h⟩ := Db.returns_bind.mp h
      obtain ⟨built, v'', hbuilt, h⟩ := Db.returns_bind.mp h
      obtain ⟨hash, w, hhash, h⟩ := Db.returns_bind.mp h
      obtain ⟨hprepared, -⟩ := Db.returns_pure.mp h
      cases hprepared
      refine ⟨groups, stormEyeUtxo, built, hash, (Db.returns_check.mp hgroups).1, ?_,
        helper_ok.mp (Db.returns_check.mp hutxo).1, ?_, (Db.returns_check.mp hhash).1, rfl, rfl⟩
      · rw [← hsurvivors]
        exact List.cons_ne_nil _ _
      · rw [← hsurvivors]
        exact (Db.returns_check.mp hbuilt).1

end Survivors

end Burning

end PriceOracle
