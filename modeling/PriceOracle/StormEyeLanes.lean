import Mathlib.Data.List.Pairwise
import PriceOracle.ContractUtxos

/-!
# Storm Eye lanes

A numbered lane of `find_contract_utxo` designates one of the confirmed UTXOs by its place in their order. The
place depends on the chain alone; what the mempool spends decides whether the lane may use it.
-/

namespace PriceOracle

/-- What the chain holds for a script, however a scan orders it. -/
structure ConfirmedScan (W : Type) where
  unspents : List (ScannedUtxo W)
  /-- `gettxout` without the mempool. -/
  txout : W × ℕ → Except String (Option (W × ℕ × List UInt8))
  distinct : (unspents.map fun unspent => (unspent.txid, unspent.vout)).Nodup

namespace ConfirmedScan

variable {W : Type} [LinearOrder W]

section Definitions

/-- The UTXO of the asset that a scanned line stands for. -/
def eye (txout : W × ℕ → Except String (Option (W × ℕ × List UInt8))) (expectedAsset : Option W)
    (unspent : ScannedUtxo W) : Option (Utxo W) :=
  if ElementsNode.matchesScannedAsset unspent.asset expectedAsset then
    unspent.txid.bind fun txid =>
      match txout (txid, unspent.vout) with
      | .ok (some (asset, amount, script)) =>
        if ElementsNode.matchesExpectedAsset asset expectedAsset then
          some ⟨(txid, unspent.vout), asset, amount, script⟩
        else none
      | _ => none
  else none

/-- The lines of the asset have a transaction id, and the node answers for their outputs. -/
def Readable (txout : W × ℕ → Except String (Option (W × ℕ × List UInt8))) (expectedAsset : Option W)
    (unspents : List (ScannedUtxo W)) : Prop :=
  ∀ unspent ∈ unspents, ElementsNode.matchesScannedAsset unspent.asset expectedAsset →
    ∃ txid answer, unspent.txid = some txid ∧ txout (txid, unspent.vout) = .ok answer

variable (chain : ConfirmedScan W) (expectedAsset : Option W)

/-- The confirmed Storm Eyes in outpoint order. -/
def eyes : List (Utxo W) :=
  (chain.unspents.filterMap (eye chain.txout expectedAsset)).insertionSort fun a b =>
    toLex a.outpoint ≤ toLex b.outpoint

/-- The UTXO of a numbered lane. -/
def designated (pool : StormEyePool) : Option (Utxo W) :=
  (stormEyePoolIndex (chain.eyes expectedAsset).length pool).bind fun index => (chain.eyes expectedAsset)[index]?

/-- A node on the chain whose mempool spends some outpoints. -/
structure Shown (node : ElementsNode W) (script : List UInt8) (spent : W × ℕ → Bool) : Prop where
  scan : ∃ unspents, node.scan script = .ok unspents ∧ unspents.Perm chain.unspents
  confirmed : ∀ outpoint, node.txout false outpoint = chain.txout outpoint
  mempool : ∀ outpoint, node.txout true outpoint = if spent outpoint then .ok none else chain.txout outpoint

end Definitions

section Scan

variable {node : ElementsNode W} {spent : W × ℕ → Bool} {txout : W × ℕ → Except String (Option (W × ℕ × List UInt8))}
  {expectedAsset : Option W} {unspents : List (ScannedUtxo W)}

theorem eye_outpoint {unspent : ScannedUtxo W} {utxo : Utxo W} (h : eye txout expectedAsset unspent = some utxo) :
    (unspent.txid, unspent.vout) = (some utxo.outpoint.1, utxo.outpoint.2) := by
  unfold eye at h
  split_ifs at h
  obtain ⟨txid, htxid, h⟩ := Option.bind_eq_some_iff.mp h
  split at h
  · split_ifs at h
    cases h
    rw [htxid]
  · cases h

omit [LinearOrder W] in
/-- A confirmed output is live unless the mempool spends it. -/
theorem optionalOutpoint_live {outpoint : W × ℕ} {shown : W × ℕ × List UInt8}
    (hmempool : node.txout true outpoint = if spent outpoint then .ok none else txout outpoint)
    (hshown : txout outpoint = .ok (some shown)) :
    ∃ live, node.optionalOutpoint true outpoint = .ok live ∧ live.isNone = spent outpoint := by
  unfold ElementsNode.optionalOutpoint
  rw [hmempool, hshown]
  cases spent outpoint with
  | true => exact ⟨none, rfl, rfl⟩
  | false => exact ⟨some _, rfl, rfl⟩

/-- Each line of the scan is read as its UTXO, with the flag of the mempool, or some line cannot be read. -/
theorem scanCandidates_cases (hconfirmed : ∀ outpoint, node.txout false outpoint = txout outpoint)
    (hmempool : ∀ outpoint, node.txout true outpoint = if spent outpoint then .ok none else txout outpoint)
    (unspents : List (ScannedUtxo W)) : match node.scanCandidates expectedAsset unspents with
    | .ok candidates => Readable txout expectedAsset unspents ∧
        candidates = (unspents.filterMap (eye txout expectedAsset)).map fun utxo => (utxo, spent utxo.outpoint)
    | .error _ => ¬Readable txout expectedAsset unspents := by
  induction unspents with
  | nil => exact ⟨fun unspent hmem => absurd hmem List.not_mem_nil, rfl⟩
  | cons unspent unspents ih =>
    have hread_iff (hline : ElementsNode.matchesScannedAsset unspent.asset expectedAsset →
        ∃ txid answer, unspent.txid = some txid ∧ txout (txid, unspent.vout) = .ok answer) :
        Readable txout expectedAsset (unspent :: unspents) ↔ Readable txout expectedAsset unspents :=
      List.forall_mem_cons.trans (and_iff_right hline)
    -- A line without a UTXO of the asset leaves it to the rest.
    have hskip (hline : ElementsNode.matchesScannedAsset unspent.asset expectedAsset →
        ∃ txid answer, unspent.txid = some txid ∧ txout (txid, unspent.vout) = .ok answer)
        (hnone : eye txout expectedAsset unspent = none) : match node.scanCandidates expectedAsset unspents with
        | .ok candidates => Readable txout expectedAsset (unspent :: unspents) ∧ candidates =
            ((unspent :: unspents).filterMap (eye txout expectedAsset)).map fun utxo => (utxo, spent utxo.outpoint)
        | .error _ => ¬Readable txout expectedAsset (unspent :: unspents) := by
      rw [List.filterMap_cons_none hnone, hread_iff hline]
      exact ih
    unfold ElementsNode.scanCandidates
    by_cases hmatch : ElementsNode.matchesScannedAsset unspent.asset expectedAsset
    · rw [if_pos hmatch]
      cases htxid : unspent.txid with
      | none =>
        intro hread
        obtain ⟨txid, -, hsome, -⟩ := hread unspent List.mem_cons_self hmatch
        rw [htxid] at hsome
        cases hsome
      | some txid =>
        dsimp only
        rw [ElementsNode.optionalOutpoint, hconfirmed]
        cases hanswer : txout (txid, unspent.vout) with
        | error error =>
          intro hread
          obtain ⟨txid', answer, hsome, hok⟩ := hread unspent List.mem_cons_self hmatch
          obtain rfl := Option.some.inj (htxid.symm.trans hsome)
          rw [hanswer] at hok
          cases hok
        | ok answer =>
          have hline : ElementsNode.matchesScannedAsset unspent.asset expectedAsset →
              ∃ txid answer, unspent.txid = some txid ∧ txout (txid, unspent.vout) = .ok answer :=
            fun _ => ⟨txid, answer, htxid, hanswer⟩
          cases answer with
          | none => exact hskip hline (by simp [eye, hmatch, htxid, hanswer])
          | some shown =>
            obtain ⟨asset, amount, script⟩ := shown
            by_cases hasset : ElementsNode.matchesExpectedAsset asset expectedAsset
            · obtain ⟨live, hlive, hflag⟩ := optionalOutpoint_live (hmempool (txid, unspent.vout)) hanswer
              have hsome : eye txout expectedAsset unspent = some ⟨(txid, unspent.vout), asset, amount, script⟩ := by
                simp [eye, hmatch, htxid, hanswer, hasset]
              simp only [bind, Except.bind, pure, Except.pure, Option.map_some, if_pos hasset, hlive]
              rw [List.filterMap_cons_some hsome, hread_iff hline]
              cases hrest : node.scanCandidates expectedAsset unspents with
              | error error =>
                rw [hrest] at ih
                exact ih
              | ok candidates =>
                rw [hrest] at ih
                refine ⟨ih.1, ?_⟩
                rw [ih.2, hflag, List.map_cons]
            · have hnone : eye txout expectedAsset unspent = none := by simp [eye, hmatch, htxid, hanswer, hasset]
              simp only [bind, Except.bind, pure, Except.pure, Option.map_some, if_neg hasset]
              exact hskip hline hnone
    · rw [if_neg hmatch]
      exact hskip (fun h => absurd h hmatch) (if_neg hmatch)

end Scan

section Order

variable {chain : ConfirmedScan W} {node : ElementsNode W} {script : List UInt8} {spent : W × ℕ → Bool}
  {expectedAsset : Option W}

/-- No two of the Storm Eyes are of one outpoint. -/
theorem distinct_eyes : (chain.unspents.filterMap (eye chain.txout expectedAsset)).Pairwise fun a b =>
    a.outpoint ≠ b.outpoint := by
  refine List.Pairwise.filterMap _ ?_ (List.pairwise_map.mp chain.distinct)
  intro first second hne a ha b hb hsame
  rw [eye_outpoint ha, eye_outpoint hb, hsame] at hne
  exact hne rfl

theorem pairwise_eyes : (chain.eyes expectedAsset).Pairwise fun a b => toLex a.outpoint < toLex b.outpoint := by
  have htotal : Std.Total fun a b : Utxo W => toLex a.outpoint ≤ toLex b.outpoint := ⟨fun a b => le_total _ _⟩
  have htrans : IsTrans (Utxo W) fun a b => toLex a.outpoint ≤ toLex b.outpoint := ⟨fun _ _ _ => le_trans⟩
  have hsorted := List.pairwise_insertionSort (fun a b : Utxo W => toLex a.outpoint ≤ toLex b.outpoint)
    (chain.unspents.filterMap (eye chain.txout expectedAsset))
  have hdistinct := (@distinct_eyes W _ chain expectedAsset).perm
    (List.perm_insertionSort (fun a b : Utxo W => toLex a.outpoint ≤ toLex b.outpoint) _).symm fun h => h.symm
  refine (hsorted.and hdistinct).imp fun h => ?_
  exact lt_of_le_of_ne h.1 fun heq => h.2 (toLex.injective heq)

/-- A scan in any order is sorted into the Storm Eyes of the chain. -/
theorem sorted_candidates {unspents : List (ScannedUtxo W)} (hperm : unspents.Perm chain.unspents) :
    (((unspents.filterMap (eye chain.txout expectedAsset)).map fun utxo => (utxo, spent utxo.outpoint)).insertionSort
      fun a b => toLex a.1.outpoint ≤ toLex b.1.outpoint) =
    (chain.eyes expectedAsset).map fun utxo => (utxo, spent utxo.outpoint) := by
  have htotal : Std.Total fun a b : Utxo W × Bool => toLex a.1.outpoint ≤ toLex b.1.outpoint :=
    ⟨fun a b => le_total _ _⟩
  have htrans : IsTrans (Utxo W × Bool) fun a b => toLex a.1.outpoint ≤ toLex b.1.outpoint := ⟨fun _ _ _ => le_trans⟩
  have hsame : (((unspents.filterMap (eye chain.txout expectedAsset)).map fun utxo => (utxo, spent utxo.outpoint)).insertionSort
      fun a b => toLex a.1.outpoint ≤ toLex b.1.outpoint).Perm
      ((chain.eyes expectedAsset).map fun utxo => (utxo, spent utxo.outpoint)) := by
    refine (List.perm_insertionSort _ _).trans (List.Perm.map _ ?_)
    exact (hperm.filterMap _).trans (List.perm_insertionSort _ _).symm
  refine hsame.eq_of_pairwise ?_ (List.pairwise_insertionSort _ _)
    (List.pairwise_map.mpr (pairwise_eyes.imp fun h => h.le))
  intro a b ha hb hab hba
  -- Both stand for a Storm Eye of the chain, and those of one outpoint are the same.
  obtain ⟨first, hfirst, rfl⟩ := List.mem_map.mp (hsame.mem_iff.mp ha)
  obtain ⟨second, hsecond, rfl⟩ := List.mem_map.mp hb
  have houtpoint : first.outpoint = second.outpoint := toLex.injective (le_antisymm hab hba)
  have heq : first = second := by
    by_contra hne
    have hsymm : Std.Symm fun a b : Utxo W => a.outpoint ≠ b.outpoint := ⟨fun _ _ h => h.symm⟩
    have hdistinct : (chain.eyes expectedAsset).Pairwise fun a b => a.outpoint ≠ b.outpoint :=
      pairwise_eyes.imp fun hlt heq => absurd hlt (by rw [heq]; exact lt_irrefl _)
    exact hdistinct.forall hfirst hsecond hne houtpoint
  rw [heq]

/-- Two places of the order hold different outpoints. -/
theorem outpoint_ne {i j : ℕ} (hne : i ≠ j) {a b : Utxo W} (ha : (chain.eyes expectedAsset)[i]? = some a)
    (hb : (chain.eyes expectedAsset)[j]? = some b) : a.outpoint ≠ b.outpoint := by
  obtain ⟨hi, rfl⟩ := List.getElem?_eq_some_iff.mp ha
  obtain ⟨hj, rfl⟩ := List.getElem?_eq_some_iff.mp hb
  have hordered := List.pairwise_iff_getElem.mp (@pairwise_eyes W _ chain expectedAsset)
  rcases Nat.lt_or_gt_of_ne hne with hlt | hgt
  · exact fun heq => absurd (hordered i j hi hj hlt) (by rw [heq]; exact lt_irrefl _)
  · exact fun heq => absurd (hordered j i hj hi hgt) (by rw [heq]; exact lt_irrefl _)

/-- The scan of a node is the order of the chain, with the flags of its mempool. -/
theorem scanContractUtxos_cases (hshown : chain.Shown node script spent) :
    match node.scanContractUtxos script expectedAsset with
    | .ok candidates => Readable chain.txout expectedAsset chain.unspents ∧
        candidates = (chain.eyes expectedAsset).map fun utxo => (utxo, spent utxo.outpoint)
    | .error _ => ¬Readable chain.txout expectedAsset chain.unspents := by
  obtain ⟨unspents, hscan, hperm⟩ := hshown.scan
  have hread : Readable chain.txout expectedAsset unspents ↔ Readable chain.txout expectedAsset chain.unspents :=
    forall_congr' fun unspent => imp_congr_left hperm.mem_iff
  have hcandidates := @scanCandidates_cases W _ node spent chain.txout expectedAsset hshown.confirmed hshown.mempool unspents
  unfold ElementsNode.scanContractUtxos
  rw [hscan]
  cases hrun : node.scanCandidates expectedAsset unspents with
  | error error =>
    rw [hrun] at hcandidates
    simp only [bind, Except.bind, hrun]
    exact fun h => hcandidates (hread.mpr h)
  | ok candidates =>
    rw [hrun] at hcandidates
    simp only [bind, Except.bind, hrun]
    refine ⟨hread.mp hcandidates.1, ?_⟩
    rw [hcandidates.2]
    exact sorted_candidates hperm

end Order

section Lanes

variable {chain : ConfirmedScan W} {node : ElementsNode W} {script : List UInt8} {spent : W × ℕ → Bool}
  {expectedAsset : Option W}

/-- A numbered lane designates its UTXO whatever the mempool spends, and may use it when the mempool does not. -/
theorem findContractUtxo_numbered (hshown : chain.Shown node script spent)
    (hread : Readable chain.txout expectedAsset chain.unspents) {pool : StormEyePool} (hpool : pool ≠ .anyNetworkLeader) :
    node.findContractUtxo script expectedAsset pool = match chain.designated expectedAsset pool with
      | none => .error "required Storm Eye pool is unavailable"
      | some utxo =>
        if spent utxo.outpoint then .error "Storm Eye lane was already used in this block" else .ok utxo := by
  have hscan := @scanContractUtxos_cases W _ chain node script spent expectedAsset hshown
  unfold ElementsNode.findContractUtxo designated
  cases hrun : node.scanContractUtxos script expectedAsset with
  | error error =>
    rw [hrun] at hscan
    exact absurd hread hscan
  | ok candidates =>
    rw [hrun] at hscan
    obtain ⟨-, rfl⟩ := hscan
    simp only [bind, Except.bind, if_neg hpool, List.length_map]
    cases stormEyePoolIndex (chain.eyes expectedAsset).length pool with
    | none => rfl
    | some index =>
      simp only [Option.bind_some, List.getElem?_map]
      cases (chain.eyes expectedAsset)[index]? with
      | none => rfl
      | some utxo => rfl

theorem findContractUtxo_unreadable (hshown : chain.Shown node script spent)
    (hread : ¬Readable chain.txout expectedAsset chain.unspents) (pool : StormEyePool) :
    ∃ error, node.findContractUtxo script expectedAsset pool = .error error := by
  have hscan := @scanContractUtxos_cases W _ chain node script spent expectedAsset hshown
  unfold ElementsNode.findContractUtxo
  cases hrun : node.scanContractUtxos script expectedAsset with
  | error error => exact ⟨error, rfl⟩
  | ok candidates =>
    rw [hrun] at hscan
    exact absurd hscan.1 hread

/-- Any leader takes a UTXO of the second half. -/
theorem findContractUtxo_anyNetworkLeader (hshown : chain.Shown node script spent) {utxo : Utxo W}
    (h : node.findContractUtxo script expectedAsset .anyNetworkLeader = .ok utxo) :
    ∃ index, (chain.eyes expectedAsset).length / 2 ≤ index ∧ (chain.eyes expectedAsset)[index]? = some utxo := by
  have hscan := @scanContractUtxos_cases W _ chain node script spent expectedAsset hshown
  unfold ElementsNode.findContractUtxo at h
  obtain ⟨candidates, hrun, h⟩ := Db.except_bind_ok.mp h
  rw [hrun] at hscan
  obtain ⟨-, rfl⟩ := hscan
  rw [if_pos rfl, List.length_map] at h
  cases hfind : ((((chain.eyes expectedAsset).map fun utxo => (utxo, spent utxo.outpoint)).drop
      ((chain.eyes expectedAsset).length / 2)).reverse.find? fun candidate => !candidate.2) with
  | none =>
    rw [hfind] at h
    cases h
  | some candidate =>
    rw [hfind] at h
    obtain rfl := Except.ok.inj h
    have hmem := List.mem_reverse.mp (List.mem_of_find?_eq_some hfind)
    rw [← List.map_drop] at hmem
    obtain ⟨found, hfound, hsame⟩ := List.mem_map.mp hmem
    obtain ⟨place, hplace⟩ := List.mem_iff_getElem?.mp hfound
    rw [List.getElem?_drop] at hplace
    exact ⟨_, Nat.le_add_right _ place, hplace.trans (congrArg some (Prod.mk.inj hsame).1)⟩

theorem readable_of_ok (hshown : chain.Shown node script spent) {pool : StormEyePool} {utxo : Utxo W}
    (h : node.findContractUtxo script expectedAsset pool = .ok utxo) :
    Readable chain.txout expectedAsset chain.unspents := by
  by_contra hread
  obtain ⟨error, herror⟩ := findContractUtxo_unreadable hshown hread pool
  rw [herror] at h
  cases h

/-- What a numbered lane selects is at the place of the lane. -/
theorem findContractUtxo_place (hshown : chain.Shown node script spent) {pool : StormEyePool}
    (hpool : pool ≠ .anyNetworkLeader) {utxo : Utxo W} (h : node.findContractUtxo script expectedAsset pool = .ok utxo) :
    ∃ index, stormEyePoolIndex (chain.eyes expectedAsset).length pool = some index ∧
      (chain.eyes expectedAsset)[index]? = some utxo := by
  rw [findContractUtxo_numbered hshown (readable_of_ok hshown h) hpool] at h
  cases hutxo : chain.designated expectedAsset pool with
  | none =>
    rw [hutxo] at h
    cases h
  | some found =>
    rw [hutxo] at h
    dsimp only at h
    split_ifs at h
    obtain rfl := Except.ok.inj h
    exact Option.bind_eq_some_iff.mp hutxo

theorem stormEyePoolIndex_userRequests {count lane i : ℕ} :
    stormEyePoolIndex count (.userRequests lane) = some i ↔ lane < count / 2 ∧ lane = i := by
  unfold stormEyePoolIndex
  dsimp only
  split_ifs with hlane <;> simp [hlane]

theorem stormEyePoolIndex_networkLeader {count lane i : ℕ} :
    stormEyePoolIndex count (.networkLeader lane) = some i ↔ lane < count - count / 2 ∧ count / 2 + lane = i := by
  unfold stormEyePoolIndex
  dsimp only
  split_ifs with hlane <;> simp [hlane]

/-- Different lanes have different places. -/
theorem stormEyePoolIndex_ne {count i j : ℕ} {pool pool' : StormEyePool} (hne : pool ≠ pool')
    (hi : stormEyePoolIndex count pool = some i) (hj : stormEyePoolIndex count pool' = some j) : i ≠ j := by
  rintro rfl
  cases pool with
  | anyNetworkLeader => cases hi
  | userRequests lane =>
    obtain ⟨hlane, rfl⟩ := stormEyePoolIndex_userRequests.mp hi
    cases pool' with
    | anyNetworkLeader => cases hj
    | userRequests lane' =>
      obtain ⟨-, rfl⟩ := stormEyePoolIndex_userRequests.mp hj
      exact hne rfl
    | networkLeader lane' =>
      have hplace := (stormEyePoolIndex_networkLeader.mp hj).2
      omega
  | networkLeader lane =>
    obtain ⟨hlane, hplace⟩ := stormEyePoolIndex_networkLeader.mp hi
    cases pool' with
    | anyNetworkLeader => cases hj
    | userRequests lane' =>
      have hlane' := stormEyePoolIndex_userRequests.mp hj
      omega
    | networkLeader lane' =>
      have hplace' := (stormEyePoolIndex_networkLeader.mp hj).2
      obtain rfl : lane = lane' := by omega
      exact hne rfl

end Lanes

/-- Lanes do not collide, whatever each node's mempool spends and in whatever order each scan comes. What a numbered
lane designates is a matter of the chain, and only its own UTXO's flag decides whether the lane may use it. -/
theorem lanes_do_not_collide (chain : ConfirmedScan W) (script : List UInt8) (expectedAsset : Option W) :
    (∀ node other spent spent', chain.Shown node script spent → chain.Shown other script spent' →
      (∀ pool pool', pool ≠ .anyNetworkLeader → pool' ≠ .anyNetworkLeader → pool ≠ pool' → ∀ utxo utxo',
        node.findContractUtxo script expectedAsset pool = .ok utxo →
        other.findContractUtxo script expectedAsset pool' = .ok utxo' → utxo.outpoint ≠ utxo'.outpoint) ∧
      ∀ lane utxo utxo', node.findContractUtxo script expectedAsset (.userRequests lane) = .ok utxo →
        other.findContractUtxo script expectedAsset .anyNetworkLeader = .ok utxo' → utxo.outpoint ≠ utxo'.outpoint) ∧
    (Readable chain.txout expectedAsset chain.unspents → ∀ node spent, chain.Shown node script spent →
      ∀ pool, pool ≠ .anyNetworkLeader → node.findContractUtxo script expectedAsset pool =
        match chain.designated expectedAsset pool with
        | none => .error "required Storm Eye pool is unavailable"
        | some utxo =>
          if spent utxo.outpoint then .error "Storm Eye lane was already used in this block" else .ok utxo) ∧
    (¬Readable chain.txout expectedAsset chain.unspents → ∀ node spent, chain.Shown node script spent →
      ∀ pool, ∃ error, node.findContractUtxo script expectedAsset pool = .error error) := by
  refine ⟨fun node other spent spent' hnode hother => ⟨?_, ?_⟩, ?_, ?_⟩
  · intro pool pool' hpool hpool' hne utxo utxo' hutxo hutxo'
    obtain ⟨i, hi, hplace⟩ := findContractUtxo_place hnode hpool hutxo
    obtain ⟨j, hj, hplace'⟩ := findContractUtxo_place hother hpool' hutxo'
    exact outpoint_ne (stormEyePoolIndex_ne hne hi hj) hplace hplace'
  · intro lane utxo utxo' hutxo hutxo'
    have hpool : StormEyePool.userRequests lane ≠ .anyNetworkLeader := nofun
    obtain ⟨i, hi, hplace⟩ := findContractUtxo_place hnode hpool hutxo
    obtain ⟨j, hhalf, hplace'⟩ := findContractUtxo_anyNetworkLeader hother hutxo'
    obtain ⟨hlane, rfl⟩ := stormEyePoolIndex_userRequests.mp hi
    exact outpoint_ne (Nat.ne_of_lt (hlane.trans_le hhalf)) hplace hplace'
  · intro hread node spent hshown pool hpool
    exact findContractUtxo_numbered hshown hread hpool
  · intro hread node spent hshown pool
    exact findContractUtxo_unreadable hshown hread pool

/-- Two Storm Eyes and an output of a foreign asset, which the scan lists first. -/
def pairScan : ConfirmedScan ℕ where
  unspents := [⟨some 9, 0, some 8⟩, ⟨some 5, 0, some 7⟩, ⟨some 3, 1, some 7⟩]
  txout outpoint := .ok (some (if outpoint.1 = 9 then 8 else 7, 1, [0x51]))
  distinct := by decide

/-- A node on that chain, with its mempool. -/
def pairNode (spent : ℕ × ℕ → Bool) : ElementsNode ℕ where
  txout includeMempool outpoint := if includeMempool && spent outpoint then .ok none else pairScan.txout outpoint
  scan _ := .ok pairScan.unspents.reverse

theorem pairNode_shown (spent : ℕ × ℕ → Bool) : pairScan.Shown (pairNode spent) [0x51] spent where
  scan := ⟨_, rfl, List.reverse_perm _⟩
  confirmed _ := rfl
  mempool outpoint := by
    cases hspent : spent outpoint <;> simp [pairNode, hspent]

/-- The request lane and the leader lane of the pair, of two nodes that see different mempools. -/
theorem lanes_do_not_collide_pair :
    (pairNode fun outpoint => outpoint = (5, 0)).findContractUtxo [0x51] (some 7) (.userRequests 0) =
      .ok ⟨(3, 1), 7, 1, [0x51]⟩ ∧
    (pairNode fun outpoint => outpoint = (3, 1)).findContractUtxo [0x51] (some 7) (.networkLeader 0) =
      .ok ⟨(5, 0), 7, 1, [0x51]⟩ ∧
    (3, 1) ≠ (5, 0) := by
  have hlane : (pairNode fun outpoint => outpoint = (5, 0)).findContractUtxo [0x51] (some 7) (.userRequests 0) =
      .ok ⟨(3, 1), 7, 1, [0x51]⟩ := by rfl
  have hleader : (pairNode fun outpoint => outpoint = (3, 1)).findContractUtxo [0x51] (some 7) (.networkLeader 0) =
      .ok ⟨(5, 0), 7, 1, [0x51]⟩ := by rfl
  have happart := ((lanes_do_not_collide pairScan [0x51] (some 7)).1 _ _ _ _
    (pairNode_shown fun outpoint => outpoint = (5, 0)) (pairNode_shown fun outpoint => outpoint = (3, 1))).1
    (.userRequests 0) (.networkLeader 0) nofun nofun nofun _ _ hlane hleader
  exact ⟨hlane, hleader, happart⟩

end ConfirmedScan

end PriceOracle
