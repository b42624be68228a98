import PriceOracle.Burning

/-!
# Groups and burns of a list of items

What grouping and summing compute: one group for every reserve with its items in order, all of
one owner, sorted by age; one burn for every kind of voucher with the total of its items.
-/

namespace PriceOracle.Burning

variable {W : Type} [LinearOrder W]

section Grouping

/-- The groups of a list of items. -/
structure Grouped (ticks : List (MonitoredUtxo W)) (groups : List (BurnGroup W)) : Prop where
  reserves : (groups.map BurnGroup.reserve).Nodup
  items : ∀ group ∈ groups, group.ticks = ticks.filter fun tick => tick.burningFee = group.reserve
  nonempty : ∀ group ∈ groups, group.ticks ≠ []
  owners : ∀ group ∈ groups, ∀ tick ∈ group.ticks, tick.accountOwnerPubkey = group.owner
  complete : ∀ tick ∈ ticks, ∃ group ∈ groups, group.reserve = tick.burningFee
  count : itemCount groups = ticks.length

/-- An item joins the one group of its reserve or founds it. -/
theorem addTick_ok {tick : MonitoredUtxo W} {groups groups' : List (BurnGroup W)}
    (h : addTick tick groups = .ok groups') :
    (∃ front group back, groups = front ++ group :: back ∧ group.reserve = tick.burningFee ∧
      group.owner = tick.accountOwnerPubkey ∧
      groups' = front ++ { group with ticks := group.ticks ++ [tick] } :: back) ∨
    (∀ group ∈ groups, group.reserve ≠ tick.burningFee) ∧
      groups' = groups ++ [⟨tick.burningFee, tick.accountOwnerPubkey, [tick]⟩] := by
  induction groups generalizing groups' with
  | nil =>
    cases h
    exact .inr ⟨fun _ hmem => absurd hmem List.not_mem_nil, rfl⟩
  | cons group groups ih =>
    rw [addTick] at h
    by_cases hreserve : group.reserve = tick.burningFee
    · rw [if_pos hreserve] at h
      by_cases howner : group.owner = tick.accountOwnerPubkey
      · rw [if_neg (not_not.mpr howner)] at h
        cases h
        exact .inl ⟨[], group, groups, rfl, hreserve, howner, rfl⟩
      · rw [if_pos howner] at h
        cases h
    · rw [if_neg hreserve] at h
      cases hrest : addTick tick groups with
      | error error =>
        rw [hrest] at h
        cases h
      | ok rest =>
        rw [hrest] at h
        cases h
        rcases ih hrest with ⟨front, found, back, rfl, hfound, howner, rfl⟩ | ⟨hnone, rfl⟩
        · exact .inl ⟨group :: front, found, back, rfl, hfound, howner, rfl⟩
        · refine .inr ⟨fun other hother => ?_, rfl⟩
          rcases List.mem_cons.mp hother with rfl | hother
          · exact hreserve
          · exact hnone other hother

omit [LinearOrder W] in
theorem itemCount_append (groups groups' : List (BurnGroup W)) :
    itemCount (groups ++ groups') = itemCount groups + itemCount groups' := by
  unfold itemCount
  rw [List.map_append, List.sum_append]

omit [LinearOrder W] in
theorem itemCount_cons (group : BurnGroup W) (groups : List (BurnGroup W)) :
    itemCount (group :: groups) = group.ticks.length + itemCount groups := by
  unfold itemCount
  rw [List.map_cons, List.sum_cons]

omit [LinearOrder W] in
theorem filter_append_singleton {p : MonitoredUtxo W → Bool} (ticks : List (MonitoredUtxo W)) (tick : MonitoredUtxo W) :
    (ticks ++ [tick]).filter p = ticks.filter p ++ if p tick then [tick] else [] := by
  rw [List.filter_append, List.filter_singleton]
  cases p tick <;> rfl

theorem Grouped.addTick {ticks : List (MonitoredUtxo W)} {groups groups' : List (BurnGroup W)}
    (h : Grouped ticks groups) {tick : MonitoredUtxo W} (hadd : addTick tick groups = .ok groups') :
    Grouped (ticks ++ [tick]) groups' := by
  rcases addTick_ok hadd with ⟨front, found, back, rfl, hreserve, howner, rfl⟩ | ⟨hnone, rfl⟩
  · have hreserves : (front ++ { found with ticks := found.ticks ++ [tick] } :: back).map BurnGroup.reserve =
        (front ++ found :: back).map BurnGroup.reserve := by
      simp only [List.map_append, List.map_cons]
    have hother : ∀ group ∈ front ++ back, group.reserve ≠ tick.burningFee := by
      intro group hgroup heq
      have hnodup := h.reserves
      rw [List.map_append, List.map_cons, List.nodup_middle, ← List.map_append, List.nodup_cons] at hnodup
      apply hnodup.1
      rw [hreserve, ← heq]
      exact List.mem_map_of_mem hgroup
    have hmem {group : BurnGroup W} (hgroup : group ∈ front ++ { found with ticks := found.ticks ++ [tick] } :: back) :
        group = { found with ticks := found.ticks ++ [tick] } ∨ group ∈ front ++ back := by
      simp only [List.mem_append, List.mem_cons] at hgroup ⊢
      tauto
    have hold {group : BurnGroup W} (hgroup : group ∈ front ++ back) : group ∈ front ++ found :: back := by
      simp only [List.mem_append, List.mem_cons] at hgroup ⊢
      tauto
    have hfound : found ∈ front ++ found :: back := List.mem_append_right _ List.mem_cons_self
    refine ⟨hreserves ▸ h.reserves, fun group hgroup => ?_, fun group hgroup => ?_, fun group hgroup => ?_, ?_, ?_⟩
    · rcases hmem hgroup with rfl | hgroup
      · rw [filter_append_singleton, if_pos (by simp [hreserve]), ← h.items found hfound]
      · rw [filter_append_singleton, if_neg (by simp [Ne.symm (hother group hgroup)]), List.append_nil]
        exact h.items group (hold hgroup)
    · rcases hmem hgroup with rfl | hgroup
      · exact List.append_ne_nil_of_right_ne_nil _ (List.cons_ne_nil _ _)
      · exact h.nonempty group (hold hgroup)
    · rcases hmem hgroup with rfl | hgroup
      · intro t ht
        rcases List.mem_append.mp ht with ht | ht
        · exact h.owners found hfound t ht
        · rw [List.mem_singleton.mp ht]
          exact howner.symm
      · exact h.owners group (hold hgroup)
    · intro t ht
      have hin : ∃ reserve ∈ (front ++ found :: back).map BurnGroup.reserve, reserve = t.burningFee := by
        rcases List.mem_append.mp ht with ht | ht
        · obtain ⟨group, hgroup, heq⟩ := h.complete t ht
          exact ⟨_, List.mem_map_of_mem hgroup, heq⟩
        · rw [List.mem_singleton.mp ht]
          exact ⟨_, List.mem_map_of_mem hfound, hreserve⟩
      obtain ⟨reserve, hmem, heq⟩ := hin
      rw [← hreserves] at hmem
      obtain ⟨group, hgroup, rfl⟩ := List.mem_map.mp hmem
      exact ⟨group, hgroup, heq⟩
    · have hcount := h.count
      rw [itemCount_append, itemCount_cons] at hcount ⊢
      rw [List.length_append, List.length_append, ← hcount, List.length_singleton]
      omega
  · have hfilter : ticks.filter (fun t => t.burningFee = tick.burningFee) = [] := by
      rw [List.filter_eq_nil_iff]
      intro t ht heq
      obtain ⟨group, hgroup, hreserve⟩ := h.complete t ht
      exact hnone group hgroup (hreserve.trans (of_decide_eq_true heq))
    refine ⟨?_, fun group hgroup => ?_, fun group hgroup => ?_, fun group hgroup => ?_, fun t ht => ?_, ?_⟩
    · rw [List.map_append, List.map_singleton, ← List.concat_eq_append, List.nodup_concat]
      refine ⟨fun hmem => ?_, h.reserves⟩
      obtain ⟨group, hgroup, heq⟩ := List.mem_map.mp hmem
      exact hnone group hgroup heq
    · rw [filter_append_singleton]
      rcases List.mem_append.mp hgroup with hgroup | hgroup
      · rw [if_neg (by simp [Ne.symm (hnone group hgroup)]), List.append_nil]
        exact h.items group hgroup
      · rw [List.mem_singleton.mp hgroup, hfilter]
        simp
    · rcases List.mem_append.mp hgroup with hgroup | hgroup
      · exact h.nonempty group hgroup
      · rw [List.mem_singleton.mp hgroup]
        exact List.cons_ne_nil _ _
    · rcases List.mem_append.mp hgroup with hgroup | hgroup
      · exact h.owners group hgroup
      · rw [List.mem_singleton.mp hgroup]
        intro t ht
        rw [List.mem_singleton.mp ht]
    · rcases List.mem_append.mp ht with ht | ht
      · obtain ⟨group, hgroup, heq⟩ := h.complete t ht
        exact ⟨group, List.mem_append_left _ hgroup, heq⟩
      · rw [List.mem_singleton.mp ht]
        exact ⟨_, List.mem_append_right _ (List.mem_singleton_self _), rfl⟩
    · rw [itemCount_append, h.count, List.length_append]
      rfl

theorem grouped_nil : Grouped ([] : List (MonitoredUtxo W)) [] := by
  refine ⟨List.nodup_nil, ?_, ?_, ?_, ?_, rfl⟩ <;> exact fun _ h => absurd h List.not_mem_nil

theorem grouped_foldlM (ticks : List (MonitoredUtxo W)) :
    ∀ {before : List (MonitoredUtxo W)} {groups groups' : List (BurnGroup W)}, Grouped before groups →
      ticks.foldlM (fun groups tick => addTick tick groups) groups = .ok groups' → Grouped (before ++ ticks) groups' := by
  induction ticks with
  | nil =>
    rintro before groups groups' h ⟨⟩
    rwa [List.append_nil]
  | cons tick ticks ih =>
    intro before groups groups' h hfold
    rw [List.foldlM_cons] at hfold
    obtain ⟨next, hnext, hfold⟩ := Db.except_bind_ok.mp hfold
    have hgrouped := ih (h.addTick hnext) hfold
    rwa [List.append_assoc] at hgrouped

theorem Grouped.perm {ticks : List (MonitoredUtxo W)} {groups groups' : List (BurnGroup W)} (h : Grouped ticks groups)
    (hperm : groups'.Perm groups) : Grouped ticks groups' where
  reserves := (hperm.map _).nodup_iff.mpr h.reserves
  items group hgroup := h.items group (hperm.mem_iff.mp hgroup)
  nonempty group hgroup := h.nonempty group (hperm.mem_iff.mp hgroup)
  owners group hgroup := h.owners group (hperm.mem_iff.mp hgroup)
  complete tick htick := by
    obtain ⟨group, hgroup, heq⟩ := h.complete tick htick
    exact ⟨group, hperm.mem_iff.mpr hgroup, heq⟩
  count := by rw [← h.count, itemCount, itemCount, (hperm.map _).sum_eq]

theorem Grouped.length_le {ticks : List (MonitoredUtxo W)} {groups : List (BurnGroup W)} (h : Grouped ticks groups) :
    groups.length ≤ ticks.length := by
  have hle : ∀ groups : List (BurnGroup W), (∀ group ∈ groups, group.ticks ≠ []) → groups.length ≤ itemCount groups := by
    intro groups
    induction groups with
    | nil => exact fun _ => Nat.le_refl 0
    | cons group groups ih =>
      intro hne
      have hpos := List.length_pos_iff.mpr (hne group List.mem_cons_self)
      have hrest := ih fun g hg => hne g (List.mem_cons_of_mem _ hg)
      rw [itemCount_cons, List.length_cons]
      omega
  exact h.count ▸ hle groups h.nonempty

omit [LinearOrder W] in
/-- Groups that fit together are all taken. -/
theorem takeGroups_all {maxGroups : ℕ} (groups : List (BurnGroup W)) :
    ∀ {selected tickCount : ℕ}, selected + groups.length ≤ maxGroups → tickCount + itemCount groups ≤ maxTicksPerBurn →
      takeGroups maxGroups selected tickCount groups = groups := by
  induction groups with
  | nil => exact fun _ _ => rfl
  | cons group groups ih =>
    intro selected tickCount hgroups hticks
    rw [itemCount_cons] at hticks
    rw [List.length_cons] at hgroups
    rw [takeGroups, if_neg (by omega), if_neg (by omega), ih (by omega) (by omega)]

/-- Items that fit a burn are grouped by reserve, none left out, oldest group first. -/
theorem selectGroups_ok {ticks : List (MonitoredUtxo W)} {groups : List (BurnGroup W)}
    (hcount : ticks.length ≤ maxTicksPerBurn) (h : selectGroups ticks maxTicksPerBurn = .ok groups) :
    Grouped ticks groups ∧ groups.Pairwise fun a b => groupKey a ≤ groupKey b := by
  unfold selectGroups at h
  obtain ⟨grouped, hfold, h⟩ := Db.except_bind_ok.mp h
  have hgrouped := (grouped_foldlM ticks grouped_nil hfold).perm
    (List.perm_insertionSort (fun a b => groupKey a ≤ groupKey b) grouped)
  rw [List.nil_append] at hgrouped
  have hall : takeGroups maxTicksPerBurn 0 0 (grouped.insertionSort fun a b => groupKey a ≤ groupKey b) =
      grouped.insertionSort fun a b => groupKey a ≤ groupKey b := by
    apply takeGroups_all
    · have hle := hgrouped.length_le
      omega
    · have hitems := hgrouped.count
      omega
  rw [hall] at h
  cases h
  exact ⟨hgrouped, List.pairwise_insertionSort _ grouped⟩

end Grouping

section Coherent

/-- Groups of distinct reserves, each of items that name its reserve and its owner. -/
structure Coherent (groups : List (BurnGroup W)) : Prop where
  reserves : (groups.map BurnGroup.reserve).Nodup
  nonempty : ∀ group ∈ groups, group.ticks ≠ []
  items : ∀ group ∈ groups, ∀ tick ∈ group.ticks,
    tick.burningFee = group.reserve ∧ tick.accountOwnerPubkey = group.owner

theorem Grouped.coherent {ticks : List (MonitoredUtxo W)} {groups : List (BurnGroup W)} (h : Grouped ticks groups) :
    Coherent groups where
  reserves := h.reserves
  nonempty := h.nonempty
  items group hgroup tick htick := by
    refine ⟨?_, h.owners group hgroup tick htick⟩
    rw [h.items group hgroup] at htick
    exact of_decide_eq_true (List.mem_filter.mp htick).2

omit [LinearOrder W] in
theorem Coherent.sublist {groups groups' : List (BurnGroup W)} (h : Coherent groups) (hsub : groups'.Sublist groups) :
    Coherent groups' where
  reserves := h.reserves.sublist (hsub.map _)
  nonempty group hgroup := h.nonempty group (hsub.subset hgroup)
  items group hgroup := h.items group (hsub.subset hgroup)

theorem addTick_new {tick : MonitoredUtxo W} {groups : List (BurnGroup W)}
    (hnew : ∀ group ∈ groups, group.reserve ≠ tick.burningFee) :
    addTick tick groups = .ok (groups ++ [⟨tick.burningFee, tick.accountOwnerPubkey, [tick]⟩]) := by
  induction groups with
  | nil => rfl
  | cons group groups ih =>
    rw [addTick, if_neg (hnew group List.mem_cons_self), ih fun g hg => hnew g (List.mem_cons_of_mem _ hg)]
    rfl

theorem addTick_last {tick : MonitoredUtxo W} {groups : List (BurnGroup W)} {group : BurnGroup W}
    (hnew : ∀ group ∈ groups, group.reserve ≠ tick.burningFee) (hreserve : tick.burningFee = group.reserve)
    (howner : tick.accountOwnerPubkey = group.owner) :
    addTick tick (groups ++ [group]) = .ok (groups ++ [{ group with ticks := group.ticks ++ [tick] }]) := by
  induction groups with
  | nil => rw [List.nil_append, addTick, if_pos hreserve.symm, if_neg (not_not.mpr howner.symm), List.nil_append]
  | cons other groups ih =>
    rw [List.cons_append, addTick, if_neg (hnew other List.mem_cons_self),
      ih fun g hg => hnew g (List.mem_cons_of_mem _ hg)]
    rfl

/-- The items of one group, added after those of others, become that group. -/
theorem addTick_group {groups : List (BurnGroup W)} (ticks : List (MonitoredUtxo W)) (group : BurnGroup W)
    (hnew : ∀ other ∈ groups, other.reserve ≠ group.reserve)
    (hitems : ∀ tick ∈ ticks, tick.burningFee = group.reserve ∧ tick.accountOwnerPubkey = group.owner) :
    ticks.foldlM (fun groups tick => addTick tick groups) (groups ++ [group]) =
      .ok (groups ++ [{ group with ticks := group.ticks ++ ticks }]) := by
  induction ticks generalizing group with
  | nil =>
    rw [List.append_nil]
    rfl
  | cons tick ticks ih =>
    obtain ⟨hreserve, howner⟩ := hitems tick List.mem_cons_self
    rw [List.foldlM_cons, addTick_last (hreserve ▸ hnew) hreserve howner]
    have hrest := ih { group with ticks := group.ticks ++ [tick] } hnew
      fun t ht => hitems t (List.mem_cons_of_mem _ ht)
    rw [List.append_assoc, List.singleton_append] at hrest
    exact hrest

/-- Grouping the items of coherent groups gives these groups back. -/
theorem Coherent.addTicks {groups : List (BurnGroup W)} :
    ∀ front : List (BurnGroup W), Coherent (front ++ groups) →
      (groups.flatMap BurnGroup.ticks).foldlM (fun groups tick => addTick tick groups) front = .ok (front ++ groups) := by
  induction groups with
  | nil =>
    intro front _
    rw [List.append_nil]
    rfl
  | cons group groups ih =>
    intro front h
    have hmem : group ∈ front ++ group :: groups := List.mem_append_right _ List.mem_cons_self
    have hother : ∀ other ∈ front, other.reserve ≠ group.reserve := by
      intro other hfront heq
      have hnodup := h.reserves
      rw [List.map_append, List.map_cons, List.nodup_middle, List.nodup_cons] at hnodup
      exact hnodup.1 (List.mem_append_left _ (heq ▸ List.mem_map_of_mem hfront))
    have hgroup : group.ticks.foldlM (fun groups tick => addTick tick groups) front = .ok (front ++ [group]) := by
      have hitems := h.items group hmem
      cases hticks : group.ticks with
      | nil => exact absurd hticks (h.nonempty group hmem)
      | cons tick ticks =>
        rw [hticks] at hitems
        obtain ⟨hreserve, howner⟩ := hitems tick List.mem_cons_self
        rw [List.foldlM_cons, addTick_new (hreserve ▸ hother), hreserve, howner]
        change ticks.foldlM _ _ = _
        rw [addTick_group ticks ⟨group.reserve, group.owner, [tick]⟩ hother fun t ht =>
          hitems t (List.mem_cons_of_mem _ ht), List.singleton_append, ← hticks]
    rw [List.flatMap_cons, List.foldlM_append, hgroup]
    change (groups.flatMap BurnGroup.ticks).foldlM _ (front ++ [group]) = _
    rw [ih _ (by rwa [List.append_assoc]), List.append_assoc, List.singleton_append]

omit [LinearOrder W] in
theorem Coherent.length_le {groups : List (BurnGroup W)} (h : Coherent groups) : groups.length ≤ itemCount groups := by
  induction groups with
  | nil => exact Nat.zero_le _
  | cons group groups ih =>
    have hpos := List.length_pos_iff.mpr (h.nonempty group List.mem_cons_self)
    have hrest := ih (h.sublist (List.sublist_cons_self _ _))
    rw [itemCount_cons, List.length_cons]
    omega

/-- A signer's grouping of the items of coherent groups: the same groups, oldest first. -/
theorem Coherent.selectGroups {groups : List (BurnGroup W)} (h : Coherent groups)
    (hcount : itemCount groups ≤ maxTicksPerBurn) :
    selectGroups (groups.flatMap BurnGroup.ticks) maxTicksPerBurn =
      .ok (groups.insertionSort fun a b => groupKey a ≤ groupKey b) := by
  have hperm := List.perm_insertionSort (fun a b => groupKey a ≤ groupKey b) groups
  have hitems : itemCount (groups.insertionSort fun a b => groupKey a ≤ groupKey b) = itemCount groups := by
    rw [itemCount, itemCount, (hperm.map _).sum_eq]
  have hlength := h.length_le
  unfold Burning.selectGroups
  rw [Coherent.addTicks [] h]
  change Except.ok (takeGroups maxTicksPerBurn 0 0 (groups.insertionSort fun a b => groupKey a ≤ groupKey b)) = _
  rw [takeGroups_all _ (by rw [hperm.length_eq]; omega) (by omega)]

omit [LinearOrder W] in
theorem takeGroups_fits {maxGroups : ℕ} (groups : List (BurnGroup W)) :
    ∀ selected tickCount : ℕ, tickCount ≤ maxTicksPerBurn →
      (takeGroups maxGroups selected tickCount groups).Sublist groups ∧
        tickCount + itemCount (takeGroups maxGroups selected tickCount groups) ≤ maxTicksPerBurn := by
  induction groups with
  | nil => exact fun _ _ hcount => ⟨List.Sublist.refl _, hcount⟩
  | cons group groups ih =>
    intro selected tickCount hcount
    rw [takeGroups]
    by_cases hfull : selected = maxGroups
    · rw [if_pos hfull]
      exact ⟨List.nil_sublist _, hcount⟩
    · rw [if_neg hfull]
      by_cases hlarge : maxTicksPerBurn < tickCount + group.ticks.length
      · rw [if_pos hlarge]
        exact ⟨(ih _ _ hcount).1.cons _, (ih _ _ hcount).2⟩
      · rw [if_neg hlarge]
        obtain ⟨hsub, htotal⟩ := ih (selected + 1) _ (not_lt.mp hlarge)
        rw [itemCount_cons]
        exact ⟨hsub.cons_cons _, by omega⟩

/-- What a leader selects under any limit: coherent groups of the items it was given, few enough for one burn. -/
theorem selectGroups_coherent {expired : List (MonitoredUtxo W)} {maxGroups : ℕ} {groups : List (BurnGroup W)}
    (h : Burning.selectGroups expired maxGroups = .ok groups) :
    Coherent groups ∧ itemCount groups ≤ maxTicksPerBurn ∧ ∀ group ∈ groups, ∀ tick ∈ group.ticks, tick ∈ expired := by
  unfold Burning.selectGroups at h
  obtain ⟨grouped, hfold, h⟩ := Db.except_bind_ok.mp h
  cases h
  have hgrouped := (grouped_foldlM expired grouped_nil hfold).perm
    (List.perm_insertionSort (fun a b => groupKey a ≤ groupKey b) grouped)
  rw [List.nil_append] at hgrouped
  obtain ⟨hsub, htotal⟩ := @takeGroups_fits W maxGroups (grouped.insertionSort fun a b => groupKey a ≤ groupKey b)
    0 0 (Nat.zero_le maxTicksPerBurn)
  refine ⟨hgrouped.coherent.sublist hsub, by omega, fun group hgroup tick htick => ?_⟩
  rw [hgrouped.items group (hsub.subset hgroup)] at htick
  exact (List.mem_filter.mp htick).1

end Coherent

section Burns

omit [LinearOrder W]

def kindTotal (kind : String) (ticks : List (MonitoredUtxo W)) : ℕ :=
  ((ticks.filter fun tick => tick.assetKind = kind).map MonitoredUtxo.amount).sum

/-- The burn of one kind of voucher, if there are any. -/
def kindBurn (kind : String) (asset : Option W) (ticks : List (MonitoredUtxo W)) : Option (W × ℕ) :=
  if ticks.any fun tick => tick.assetKind = kind then asset.map fun asset => (asset, kindTotal kind ticks) else none

/-- The burns of a list of items: of each kind of voucher the sum of its items. -/
def voucherBurns (assets : BurnAssets W) (ticks : List (MonitoredUtxo W)) : List (W × ℕ) :=
  (kindBurn Indexer.tickAssetKind assets.tick ticks).toList ++
    (kindBurn Indexer.oracleVerifierKind assets.verifier ticks).toList

theorem kindBurn_getD (kind : String) (asset : W) (ticks : List (MonitoredUtxo W)) :
    (kindBurn kind (some asset) ticks).getD (asset, 0) = (asset, kindTotal kind ticks) := by
  unfold kindBurn
  by_cases hany : (ticks.any fun tick => tick.assetKind = kind) = true
  · rw [if_pos hany]
    rfl
  · rw [if_neg hany]
    have hnone : (ticks.filter fun tick => tick.assetKind = kind) = [] := by
      rw [List.filter_eq_nil_iff]
      intro tick htick hkind
      exact hany (List.any_eq_true.mpr ⟨tick, htick, hkind⟩)
    rw [kindTotal, hnone]
    rfl

theorem kindBurn_append_same {kind : String} {asset : W} {ticks : List (MonitoredUtxo W)} {tick : MonitoredUtxo W}
    (hkind : tick.assetKind = kind) :
    kindBurn kind (some asset) (ticks ++ [tick]) = some (asset, kindTotal kind ticks + tick.amount) := by
  unfold kindBurn kindTotal
  rw [if_pos (by simp [hkind]), filter_append_singleton, if_pos (by simp [hkind])]
  simp

theorem kindBurn_append_other {kind : String} {asset : Option W} {ticks : List (MonitoredUtxo W)}
    {tick : MonitoredUtxo W} (hkind : tick.assetKind ≠ kind) :
    kindBurn kind asset (ticks ++ [tick]) = kindBurn kind asset ticks := by
  have hfilter : (ticks ++ [tick]).filter (fun tick => tick.assetKind = kind) =
      ticks.filter fun tick => tick.assetKind = kind := by
    rw [List.filter_append, List.filter_singleton]
    simp [hkind]
  unfold kindBurn kindTotal
  rw [hfilter, List.any_append]
  simp [hkind]

theorem assetOf_ok {assets : BurnAssets W} {utxo : MonitoredUtxo W} {asset : W} (h : assetOf assets utxo = .ok asset) :
    utxo.assetKind = Indexer.tickAssetKind ∧ assets.tick = some asset ∨
      utxo.assetKind = Indexer.oracleVerifierKind ∧ assets.verifier = some asset := by
  unfold assetOf at h
  dsimp only at h
  by_cases htick : utxo.assetKind = Indexer.tickAssetKind
  · rw [if_pos htick] at h
    cases hasset : assets.tick with
    | none =>
      rw [hasset] at h
      cases h
    | some asset' =>
      rw [hasset] at h
      cases h
      exact .inl ⟨htick, rfl⟩
  · rw [if_neg htick] at h
    by_cases hverifier : utxo.assetKind = Indexer.oracleVerifierKind
    · rw [if_pos hverifier] at h
      cases hasset : assets.verifier with
      | none =>
        rw [hasset] at h
        cases h
      | some asset' =>
        rw [hasset] at h
        cases h
        exact .inr ⟨hverifier, rfl⟩
    · rw [if_neg hverifier] at h
      cases h

theorem addBurn_ok {asset : W} {amount : ℕ} {burn burn' : Option (W × ℕ)} (h : addBurn asset amount burn = .ok burn') :
    burn' = some ((burn.getD (asset, 0)).1, (burn.getD (asset, 0)).2 + amount) := by
  unfold addBurn checkedAdd at h
  dsimp only at h
  split_ifs at h with hfits
  cases h
  rfl

theorem kinds_ne : Indexer.tickAssetKind ≠ Indexer.oracleVerifierKind := by decide

theorem burnStep_ok {assets : BurnAssets W} {ticks : List (MonitoredUtxo W)} {utxo : MonitoredUtxo W}
    {burns : Option (W × ℕ) × Option (W × ℕ)}
    (h : burnStep assets (kindBurn Indexer.tickAssetKind assets.tick ticks,
      kindBurn Indexer.oracleVerifierKind assets.verifier ticks) utxo = .ok burns) :
    burns = (kindBurn Indexer.tickAssetKind assets.tick (ticks ++ [utxo]),
      kindBurn Indexer.oracleVerifierKind assets.verifier (ticks ++ [utxo])) := by
  unfold burnStep at h
  obtain ⟨asset, hasset, h⟩ := Db.except_bind_ok.mp h
  rcases assetOf_ok hasset with ⟨hkind, htick⟩ | ⟨hkind, hverifier⟩
  · have hother : utxo.assetKind ≠ Indexer.oracleVerifierKind := fun heq => kinds_ne (hkind.symm.trans heq)
    rw [if_neg hother] at h
    obtain ⟨burn, hburn, h⟩ := Db.except_bind_ok.mp h
    cases h
    have hadded := addBurn_ok hburn
    dsimp only at hadded
    rw [htick, kindBurn_getD] at hadded
    rw [hadded, htick, kindBurn_append_same hkind, kindBurn_append_other hother]
  · have hother : utxo.assetKind ≠ Indexer.tickAssetKind := fun heq => kinds_ne (heq.symm.trans hkind)
    rw [if_pos hkind] at h
    obtain ⟨burn, hburn, h⟩ := Db.except_bind_ok.mp h
    cases h
    have hadded := addBurn_ok hburn
    dsimp only at hadded
    rw [hverifier, kindBurn_getD] at hadded
    rw [hadded, hverifier, kindBurn_append_same hkind, kindBurn_append_other hother]

theorem burnOutputs_ok {assets : BurnAssets W} {ticks : List (MonitoredUtxo W)} {burns : List (W × ℕ)}
    (h : burnOutputs ticks assets = .ok burns) : burns = voucherBurns assets ticks := by
  have hrun : ∀ (ticks before : List (MonitoredUtxo W)) {burns : Option (W × ℕ) × Option (W × ℕ)},
      ticks.foldlM (burnStep assets) (kindBurn Indexer.tickAssetKind assets.tick before,
        kindBurn Indexer.oracleVerifierKind assets.verifier before) = .ok burns →
      burns = (kindBurn Indexer.tickAssetKind assets.tick (before ++ ticks),
        kindBurn Indexer.oracleVerifierKind assets.verifier (before ++ ticks)) := by
    intro ticks
    induction ticks with
    | nil =>
      rintro before burns ⟨⟩
      rw [List.append_nil]
    | cons tick ticks ih =>
      intro before burns hfold
      rw [List.foldlM_cons] at hfold
      obtain ⟨next, hnext, hfold⟩ := Db.except_bind_ok.mp hfold
      rw [burnStep_ok hnext] at hfold
      rw [ih _ hfold, List.append_assoc, List.singleton_append]
  unfold burnOutputs at h
  obtain ⟨totals, hfold, h⟩ := Db.except_bind_ok.mp h
  cases h
  rw [hrun ticks [] hfold]
  rfl

end Burns

end PriceOracle.Burning
