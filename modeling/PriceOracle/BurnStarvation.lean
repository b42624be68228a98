import PriceOracle.BurnQueue

/-!
# Which queue is burned

The search for a burn tries fewer and fewer of the oldest groups while one of them cannot pay its share. It ends
with an error if the oldest of them cannot pay alone, whatever is behind it.
-/

namespace PriceOracle

namespace Burning

open RoundSearch

variable {W : Type} [LinearOrder W]

section Starvation

variable {programs : BurnPrograms W} {view : BurnView W} {stormEye : NetworkAsset W} {stormEyeUtxo : Utxo W}
  {blockHeight maxTransactionWeight stormEyeLane : ℕ} {estimatedWeight : Pset W → Except BurningError ℕ}
  {store : MonitoredUtxoStore W} {burnables : List (BurnableGroup W)} {weight : List (BurnableGroup W) → ℕ}

/-- A burn of one group is within the standard weight, and its reserve covers the whole fee. -/
def BurnableAlone (minimumFee : ℕ) (weight : List (BurnableGroup W) → ℕ) (burnable : BurnableGroup W) : Prop :=
  burnable.group.ticks.length ≤ maxTicksPerBurn ∧ Covered minimumFee [burnable] ∧ weight [burnable] ≤ maxStandardTxWeight

/-- While one of the groups in the queue can be burned, a round burns something. -/
def NotStarved (programs : BurnPrograms W) (view : BurnView W) (blockHeight maxTransactionWeight stormEyeLane : ℕ)
    (estimatedWeight : Pset W → Except BurningError ℕ) (store : MonitoredUtxoStore W) (burnables : List (BurnableGroup W))
    (weight : List (BurnableGroup W) → ℕ) : Prop :=
  ∀ turns, maxTicksPerBurn < turns →
    (∃ burnable ∈ burnables, BurnableAlone view.burnTransactionFeeSats weight burnable) →
      ∃ prepared burnWeight, ((prepareRound programs view blockHeight maxTransactionWeight false estimatedWeight stormEyeLane
          turns).exec store).1 = .ok (.returned (some prepared)) ∧
        estimatedWeight prepared.pset = .ok burnWeight ∧ burnWeight ≤ maxStandardTxWeight

theorem alone_within : AloneWithin (burnRules programs view blockHeight maxTransactionWeight estimatedWeight stormEyeLane)
    maxStandardTxWeight store := by
  intro prepared burnWeight hweight
  constructor
  · intro hlight
    refine ⟨{ prepared with maxTransactionWeight := maxStandardTxWeight }, burnWeight, ?_, hweight, hlight⟩
    change ((Searched.returned <$> (if maxStandardTxWeight < burnWeight then _ else _) :
      Db (MonitoredUtxoStore W) BurningError _).exec store).1 = _
    rw [if_neg (not_lt.mpr hlight)]
    rfl
  · intro hheavy
    refine ⟨.invalid ("one burn group transaction weight " ++ toString burnWeight ++ " exceeds the standard limit"), ?_⟩
    change ((Searched.returned <$> (if maxStandardTxWeight < burnWeight then _ else _) :
      Db (MonitoredUtxoStore W) BurningError _).exec store).1 = _
    rw [if_pos hheavy]
    rfl

omit [LinearOrder W] in
theorem fitting_ne_nil : ∀ {burnables : List (BurnableGroup W)},
    (∃ burnable ∈ burnables, burnable.group.ticks.length ≤ maxTicksPerBurn) → fitting 0 burnables ≠ [] := by
  intro burnables
  induction burnables with
  | nil =>
    rintro ⟨burnable, hburnable, -⟩
    exact absurd hburnable List.not_mem_nil
  | cons first burnables ih =>
    rintro ⟨burnable, hburnable, hlength⟩
    rw [fitting]
    split_ifs with hlarge
    · rcases List.mem_cons.mp hburnable with rfl | hburnable
      · omega
      · exact ih ⟨burnable, hburnable, hlength⟩
    · exact List.cons_ne_nil _ _

/-- The queue is not starved exactly if no group can be burned alone, or the search comes down to a number of the oldest
groups that are covered together. -/
theorem burn_not_starved_iff
    (h : BurnQueue programs view stormEye stormEyeUtxo maxTransactionWeight estimatedWeight stormEyeLane store burnables weight) :
    NotStarved programs view blockHeight maxTransactionWeight stormEyeLane estimatedWeight store burnables weight ↔
      (∀ burnable ∈ burnables, ¬BurnableAlone view.burnTransactionFeeSats weight burnable) ∨
      Reaches (fitting 0 burnables).length
        (fun groupLimit => Covered view.burnTransactionFeeSats (taken burnables groupLimit))
        (fun groupLimit => weight (taken burnables groupLimit)) maxTransactionWeight maxStandardTxWeight maxTicksPerBurn := by
  by_cases hsome : ∃ burnable ∈ burnables, BurnableAlone view.burnTransactionFeeSats weight burnable
  · have hfitting : fitting 0 burnables ≠ [] := by
      obtain ⟨burnable, hburnable, hlength, -⟩ := hsome
      exact fitting_ne_nil ⟨burnable, hburnable, hlength⟩
    have hchoices : Choices (burnRules programs view blockHeight maxTransactionWeight estimatedWeight stormEyeLane) store
        (fitting 0 burnables).length (fun groupLimit => Covered view.burnTransactionFeeSats (taken burnables groupLimit))
        fun groupLimit => weight (taken burnables groupLimit) := h.choices hfitting
    have hrun := fun turns (hturns : maxTicksPerBurn < turns) =>
      searchLoop_reaches hchoices (show (machine false).checks = false from rfl) (show (100 : ℕ) < 2 ^ 64 by norm_num)
        alone_within h.standard (show (Search.start maxTicksPerBurn : Search (PreparedBurn W)).best = none from rfl) rfl
        (show 0 < 100 by norm_num) le_rfl le_rfl hturns
    constructor
    · intro hserved
      refine .inr ?_
      by_contra hnot
      obtain ⟨error, herror⟩ := (hrun _ (Nat.lt_succ_self _)).2 hnot
      obtain ⟨prepared, burnWeight, hreturned, -⟩ := hserved _ (Nat.lt_succ_self _) hsome
      exact absurd (herror.symm.trans hreturned) (by simp)
    · rintro (hnone | hreaches)
      · obtain ⟨burnable, hburnable, halone⟩ := hsome
        exact absurd halone (hnone burnable hburnable)
      · exact fun turns hturns _ => (hrun turns hturns).1 hreaches
  · refine iff_of_true (fun _ _ hburnable => absurd hburnable hsome) (.inl fun burnable hburnable halone => ?_)
    exact hsome ⟨burnable, hburnable, halone⟩

omit [LinearOrder W] in
/-- A queue whose oldest group can be burned alone is served, whatever the reserves behind it hold. -/
theorem reaches_of_oldest {oldest : BurnableGroup W} {others : List (BurnableGroup W)}
    (holdest : BurnableAlone view.burnTransactionFeeSats weight oldest) :
    Reaches (fitting 0 (oldest :: others)).length
      (fun groupLimit => Covered view.burnTransactionFeeSats (taken (oldest :: others) groupLimit))
      (fun groupLimit => weight (taken (oldest :: others) groupLimit)) maxTransactionWeight maxStandardTxWeight
      maxTicksPerBurn := by
  obtain ⟨hlength, hcovered, hlight⟩ := holdest
  have htaken : taken (oldest :: others) 1 = [oldest] := by
    unfold taken
    rw [fitting, if_neg (by omega)]
    rfl
  have hpos := List.length_pos_iff.mpr (fitting_ne_nil ⟨oldest, List.mem_cons_self, hlength⟩ : fitting 0 (oldest :: others) ≠ [])
  refine reaches_of_single hpos ?_ ?_ maxTicksPerBurn (by decide)
  · rw [htaken]
    exact hcovered
  · rw [htaken]
    exact hlight

end Starvation

section OldestShort

/-- The queue of the reserves 20 and 21, of which the older may be too small for the fee. -/
def shortUtxos (short : Bool) : List (Utxo ℕ) :=
  [⟨(1, 0), 1, 1, [1]⟩, ⟨(10, 0), 2, 100, [2]⟩, ⟨(11, 0), 2, 100, [2]⟩, ⟨(12, 0), 2, 100, [2]⟩,
    ⟨(20, 0), 0, if short then 100 else 5000, [5]⟩, ⟨(21, 0), 0, 5000, [6]⟩]

def shortQueue (short : Bool) : List (BurnableGroup ℕ) :=
  [⟨⟨(20, 0), 5, [{ transferTick 10 5 20 with blockHeight := 1 }, { transferTick 12 5 20 with blockHeight := 5 }]⟩,
      ⟨(20, 0), 0, if short then 100 else 5000, [5]⟩, [5], [⟨(10, 0), 2, 100, [2]⟩, ⟨(12, 0), 2, 100, [2]⟩]⟩,
    ⟨⟨(21, 0), 6, [transferTick 11 6 21]⟩, ⟨(21, 0), 0, 5000, [6]⟩, [6], [⟨(11, 0), 2, 100, [2]⟩]⟩]

theorem shortQueue_items : ∀ short, ∀ burnable ∈ shortQueue short, ∀ item ∈ burnable.group.ticks.zip burnable.tickUtxos,
    optionalOutpoint (queueView (shortUtxos short)) item.1.outpoint = .ok (some item.2) ∧
      requireUnchanged (queueView (shortUtxos short)).assets item.1 item.2 = .ok () ∧
      issuedNetworkInput transferPrograms transferStormEye.assetId item.1 = .ok () := by
  decide +kernel

theorem shortQueue_live (short : Bool) : ∀ burnable ∈ shortQueue short,
    LiveGroup transferPrograms (queueView (shortUtxos short)) transferStormEye burnable := by
  intro burnable hburnable
  have hitems := shortQueue_items short burnable hburnable
  rcases List.mem_cons.mp hburnable with rfl | hburnable
  · exact ⟨rfl, rfl, rfl, rfl, rfl, hitems⟩
  · obtain rfl := List.mem_singleton.mp hburnable
    exact ⟨rfl, rfl, rfl, rfl, rfl, hitems⟩

theorem shortQueue_found : ∀ short, (queueView (shortUtxos short)).node.findContractUtxo transferStormEye.contractScript
    (some transferStormEye.assetId) (.networkLeader 0) = .ok ⟨(1, 0), 1, 1, [1]⟩ := by
  decide +kernel

theorem shortQueue_groups : ∀ short, ((splitConflictingReserves (expiredItems queueStore)).1.foldlM
      (fun groups tick => addTick tick groups) []).map (fun grouped : List (BurnGroup ℕ) =>
        grouped.insertionSort fun a b => groupKey a ≤ groupKey b) =
    .ok ((shortQueue short).map BurnableGroup.group) := by
  decide +kernel

theorem shortQueue_queued (short : Bool) :
    BurnQueue transferPrograms (queueView (shortUtxos short)) transferStormEye ⟨(1, 0), 1, 1, [1]⟩ 400000
      (fun _ => .ok 1000) 0 queueStore (shortQueue short) fun _ => 1000 where
  configured := rfl
  found := shortQueue_found short
  root := ⟨9, rfl⟩
  owners := by decide +kernel
  groups := by
    have h := shortQueue_groups short
    cases hfold : (splitConflictingReserves (expiredItems queueStore)).1.foldlM (fun groups tick => addTick tick groups) [] with
    | error error =>
      rw [hfold] at h
      cases h
    | ok grouped =>
      rw [hfold] at h
      exact ⟨grouped, rfl, Except.ok.inj h⟩
  live := shortQueue_live short
  amounts := by
    revert short
    decide +kernel
  hashed _ built _ := ⟨built.pset.outputs.length, rfl⟩
  weighed _ _ _ := rfl
  standard := le_rfl

theorem covered_of_fee {fee : ℕ} {burnables : List (BurnableGroup ℕ)} {minimumFee : ℕ}
    (hfee : burnFee minimumFee (itemCount (burnables.map BurnableGroup.group)) burnables.length = .ok fee)
    (hcovered : ∀ item ∈ burnables.zipIdx, FairDivision.share fee burnables.length item.2 < item.1.reserve.amount) :
    Covered minimumFee burnables :=
  ⟨fee, hfee, fun i burnable hburnable => hcovered (burnable, i) (List.mem_zipIdx_iff_getElem?.mpr hburnable)⟩

/-- With both reserves large enough the first candidate is taken. -/
theorem burn_not_starved_iff_covered :
    NotStarved transferPrograms (queueView (shortUtxos false)) 100 400000 0 (fun _ => .ok 1000) queueStore
      (shortQueue false) fun _ => 1000 := by
  apply (burn_not_starved_iff (shortQueue_queued false)).mpr
  refine .inr (.light ?_ (by decide))
  have hcovered : Covered (queueView (shortUtxos false)).burnTransactionFeeSats
      (taken (shortQueue false) (min maxTicksPerBurn (fitting 0 (shortQueue false)).length)) :=
    @covered_of_fee 200 _ _ (by decide +kernel) (by decide +kernel)
  exact hcovered

/-- The younger group could be burned, but the oldest reserve of 100 satoshis cannot pay half of 200, nor all of them. -/
theorem burn_starved :
    BurnQueue transferPrograms (queueView (shortUtxos true)) transferStormEye ⟨(1, 0), 1, 1, [1]⟩ 400000
      (fun _ => .ok 1000) 0 queueStore (shortQueue true) (fun _ => 1000) ∧
    ¬NotStarved transferPrograms (queueView (shortUtxos true)) 100 400000 0 (fun _ => .ok 1000) queueStore
      (shortQueue true) fun _ => 1000 := by
  refine ⟨shortQueue_queued true, fun hserved => ?_⟩
  have hrun : ((prepareRound transferPrograms (queueView (shortUtxos true)) 100 400000 false (fun _ => .ok 1000) 0 101).exec
      queueStore).1.map (fun _ => ()) = .error .reserveShortfall := by
    decide +kernel
  have hyounger : BurnableAlone (queueView (shortUtxos true)).burnTransactionFeeSats (fun _ => 1000)
      (⟨⟨(21, 0), 6, [transferTick 11 6 21]⟩, ⟨(21, 0), 0, 5000, [6]⟩, [6], [⟨(11, 0), 2, 100, [2]⟩]⟩ : BurnableGroup ℕ) :=
    ⟨by decide, @covered_of_fee 200 _ _ (by decide +kernel) (by decide +kernel), by decide⟩
  obtain ⟨prepared, weight, hreturned, -⟩ := hserved 101 (by decide) ⟨_, List.mem_cons_of_mem _ List.mem_cons_self, hyounger⟩
  rw [hreturned] at hrun
  cases hrun

end OldestShort

end Burning

end PriceOracle
