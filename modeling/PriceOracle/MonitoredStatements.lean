import PriceOracle.MonitoredUtxos

/-!
# What the statements on monitored UTXOs leave behind

The table after each statement of `db/monitored_utxo.rs`, as the row of every outpoint.
-/

namespace PriceOracle

variable {W : Type}

namespace MonitoredUtxo

/-- The row after the two `UPDATE`s of a block. -/
def atBlock (activeBlocks height : ℕ) (row : MonitoredUtxo W) : MonitoredUtxo W :=
  match row.status with
  | .active => if row.blockHeight + activeBlocks ≤ height then row.expiredRow height else row
  | .burning =>
    if row.statusBlockHeight + MonitoredUtxoStore.burningBlocks ≤ height then row.releasedRow height else row
  | .expired | .unburnable => row

theorem holdsReserve_iff (row : MonitoredUtxo W) :
    row.holdsReserve = true ↔ row.status = .active ∨ row.status = .expired ∨ row.status = .burning := by
  unfold holdsReserve
  cases row.status <;> simp

end MonitoredUtxo

namespace MonitoredUtxoStore

/-- The rows that meet a condition, changed. -/
def changeWhere (condition : W × ℕ → MonitoredUtxo W → Bool) (change : MonitoredUtxo W → MonitoredUtxo W)
    (store : MonitoredUtxoStore W) : MonitoredUtxoStore W :=
  { store with
    monitoredUtxos := Table.mapRows (fun k row => if condition k row then change row else row) store.monitoredUtxos }

section Updates

variable {s t : MonitoredUtxoStore W} {n : ℕ}

@[simp]
theorem returns_encodeU64 {S : Type} {s t : S} {value a : ℕ} :
    (encodeU64 value : Db S SqlError ℕ).Returns s a t ↔ value < 2 ^ 63 ∧ a = value ∧ t = s := by
  unfold encodeU64
  simp [Db.returns_ite]

theorem returns_recordCursor {ruleSet : String} {block : IndexedBlock W} {u : Unit} :
    (recordCursor ruleSet block).Returns s u t ↔
      block.height < 2 ^ 63 ∧ t = { s with indexerCursors := s.indexerCursors.insert ruleSet block } := by
  unfold recordCursor
  simp

theorem returns_updateRows {condition : W × ℕ → MonitoredUtxo W → Bool} {change : MonitoredUtxo W → MonitoredUtxo W} :
    (updateRows condition change).Returns s n t ↔
      n = Table.countRows condition s.monitoredUtxos ∧ t = changeWhere condition change s := by
  unfold updateRows changeWhere
  simp [and_comm]

theorem returns_updateOverdue {status : MonitoredStatus} {since : MonitoredUtxo W → ℕ} {blocks height : ℕ}
    {change : MonitoredUtxo W → MonitoredUtxo W} (h : (updateOverdue status since blocks height change).Returns s n t) :
    t = changeWhere (fun _ row => row.status = status && since row + blocks ≤ height) change s := by
  unfold updateOverdue at h
  simp only [Db.returns_bind, returns_encodeU64, Db.returns_get, Db.returns_ite, returns_updateRows] at h
  obtain ⟨_, _, ⟨-, rfl, rfl⟩, _, _, ⟨-, rfl, rfl⟩, _, _, ⟨rfl, rfl⟩, ⟨-, hthrow⟩ | ⟨-, -, rfl⟩⟩ := h
  · exact absurd hthrow Db.returns_throw
  · rfl

end Updates

section Each

variable [DecidableEq W] {s t : MonitoredUtxoStore W} {n : ℕ} {condition : MonitoredUtxo W → Bool}
  {change : MonitoredUtxo W → MonitoredUtxo W}

/-- The rows of `utxos` after `change`. -/
def changeEach (change : MonitoredUtxo W → MonitoredUtxo W) (utxos : List (W × ℕ)) (store : MonitoredUtxoStore W) :
    MonitoredUtxoStore W := changeWhere (fun k _ => decide (k ∈ utxos)) change store

theorem lookup_changeEach (utxos : List (W × ℕ)) (k : W × ℕ) :
    (changeEach change utxos s).monitoredUtxos.lookup k =
      (s.monitoredUtxos.lookup k).map fun row => if k ∈ utxos then change row else row := by
  unfold changeEach changeWhere
  simp

/-- One update that found its row. -/
theorem changeWhere_key {utxo : W × ℕ} {row : MonitoredUtxo W} (hrow : s.monitoredUtxos.lookup utxo = some row)
    (hcondition : condition row = true) :
    changeWhere (fun k row => decide (k = utxo) && condition row) change s = changeEach change [utxo] s := by
  unfold changeEach changeWhere
  congr 1
  apply Table.mapRows_congr
  intro k row' hk
  by_cases hkey : k = utxo
  · subst hkey
    rw [hk] at hrow
    cases hrow
    simp [hcondition]
  · simp [hkey]

theorem changeEach_changeEach (hchange : ∀ row, change (change row) = change row) (utxos utxos' : List (W × ℕ)) :
    changeEach change utxos' (changeEach change utxos s) = changeEach change (utxos ++ utxos') s := by
  unfold changeEach changeWhere
  rw [Table.mapRows_mapRows]
  congr 2
  funext k row
  by_cases hk : k ∈ utxos <;> by_cases hk' : k ∈ utxos' <;> simp [hk, hk', hchange]

theorem changeEach_append_self (utxos : List (W × ℕ)) : changeEach change (utxos ++ utxos) s = changeEach change utxos s := by
  unfold changeEach
  simp

theorem changeEach_nil : changeEach change [] s = s := by
  unfold changeEach changeWhere Table.mapRows
  simp

variable {update : W × ℕ → Db (MonitoredUtxoStore W) SqlError ℕ}

/-- The loop, after the rows of `done` were found and changed. -/
theorem returns_updateEach_loop
    (hupdate : ∀ utxo s n t, (update utxo).Returns s n t →
      n = Table.countRows (fun k row => decide (k = utxo) && condition row) s.monitoredUtxos ∧
      t = changeWhere (fun k row => decide (k = utxo) && condition row) change s)
    (hchange : ∀ row, change (change row) = change row) (utxos done : List (W × ℕ)) {updated : ℕ}
    (hdone : ∀ utxo ∈ done, ∃ row, s.monitoredUtxos.lookup utxo = some row ∧ condition row = true)
    (h : (updateEach.loop update s utxos updated).Returns (changeEach change done s) n t) :
    t = s ∨ (t = changeEach change (done ++ utxos) s ∧
      ∀ utxo ∈ done ++ utxos, ∃ row, s.monitoredUtxos.lookup utxo = some row ∧ condition row = true) := by
  induction utxos generalizing done updated with
  | nil =>
    obtain ⟨-, rfl⟩ := Db.returns_pure.mp h
    right
    rw [List.append_nil]
    exact ⟨rfl, hdone⟩
  | cons utxo utxos ih =>
    obtain ⟨affected, u, hu, hrest⟩ := Db.returns_bind.mp h
    obtain ⟨haffected, rfl⟩ := hupdate _ _ _ _ hu
    obtain ⟨-, hset⟩ | ⟨hone, hloop⟩ := Db.returns_ite.mp hrest
    · left
      obtain ⟨_, _, hs, hpure⟩ := Db.returns_bind.mp hset
      rw [(Db.returns_pure.mp hpure).2]
      exact Db.returns_set.mp hs
    · rw [not_not, haffected, Table.countRows_key, lookup_changeEach] at hone
      have hfound : ∃ row, s.monitoredUtxos.lookup utxo = some row ∧
          condition (if utxo ∈ done then change row else row) = true := by
        cases hrow : s.monitoredUtxos.lookup utxo with
        | none =>
          rw [hrow] at hone
          simp at hone
        | some row =>
          rw [hrow] at hone
          exact ⟨row, rfl, by simpa using hone⟩
      obtain ⟨row, hrow, hcondition⟩ := hfound
      have hnow : (changeEach change done s).monitoredUtxos.lookup utxo =
          some (if utxo ∈ done then change row else row) := by
        rw [lookup_changeEach, hrow]
        rfl
      rw [changeWhere_key hnow hcondition, changeEach_changeEach hchange] at hloop
      have hdone' : ∀ k ∈ done ++ [utxo], ∃ row, s.monitoredUtxos.lookup k = some row ∧ condition row = true := by
        intro k hk
        by_cases hmem : k ∈ done
        · exact hdone k hmem
        · have hkey : k = utxo := by simpa [hmem] using hk
          subst hkey
          rw [if_neg hmem] at hcondition
          exact ⟨row, hrow, hcondition⟩
      have hend := ih (done ++ [utxo]) hdone' hloop
      rw [List.append_assoc] at hend
      exact hend

/-- A transaction over single rows finds every row, or it changes nothing. -/
theorem returns_updateEach
    (hupdate : ∀ utxo s n t, (update utxo).Returns s n t →
      n = Table.countRows (fun k row => decide (k = utxo) && condition row) s.monitoredUtxos ∧
      t = changeWhere (fun k row => decide (k = utxo) && condition row) change s)
    (hchange : ∀ row, change (change row) = change row) {utxos : List (W × ℕ)}
    (h : (updateEach update utxos).Returns s n t) :
    t = s ∨ (t = changeEach change utxos s ∧
      ∀ utxo ∈ utxos, ∃ row, s.monitoredUtxos.lookup utxo = some row ∧ condition row = true) := by
  unfold updateEach at h
  rw [Db.returns_get_bind] at h
  apply returns_updateEach_loop hupdate hchange utxos [] (by simp)
  rw [changeEach_nil]
  exact h

end Each

section Block

variable [DecidableEq W] {s t : MonitoredUtxoStore W} {n : ℕ} {u : Unit}

/-- The row of an outpoint that a block issues. -/
def issuedAt (issued : List (MonitoredUtxo W)) (k : W × ℕ) : Option (MonitoredUtxo W) :=
  (issued.find? fun utxo => utxo.outpoint = k).map MonitoredUtxo.issuedRow

def spentOutpoints (spent : List (W × ℕ × W)) : List (W × ℕ) := spent.map fun outpoint => (outpoint.1, outpoint.2.1)

theorem lookup_insertIssued {utxo : MonitoredUtxo W} (h : (insertIssued utxo).Returns s u t) (k : W × ℕ) :
    t.monitoredUtxos.lookup k = (s.monitoredUtxos.lookup k).or (issuedAt [utxo] k) := by
  unfold insertIssued at h
  simp only [Db.returns_bind, returns_encodeU64, Db.returns_get, Db.returns_ite, Db.returns_pure, Db.returns_set] at h
  obtain ⟨_, _, ⟨-, -, rfl⟩, _, _, ⟨-, -, rfl⟩, _, _, ⟨rfl, rfl⟩, ⟨hmem, -, rfl⟩ | ⟨hmem, rfl⟩⟩ := h
  · by_cases hk : utxo.outpoint = k
    · subst hk
      obtain ⟨row, hrow⟩ := Option.isSome_iff_exists.mp (AList.lookup_isSome.mpr hmem)
      rw [hrow, Option.some_or]
    · simp [issuedAt, hk]
  · rw [Table.lookup_insert_eq]
    by_cases hk : k = utxo.outpoint
    · subst hk
      simp [issuedAt, AList.lookup_eq_none.mpr hmem]
    · simp [issuedAt, hk, Ne.symm hk]

theorem lookup_insertIssued_forM {issued : List (MonitoredUtxo W)} (h : (issued.forM insertIssued).Returns s u t)
    (k : W × ℕ) : t.monitoredUtxos.lookup k = (s.monitoredUtxos.lookup k).or (issuedAt issued k) := by
  induction issued generalizing s with
  | nil =>
    obtain ⟨-, rfl⟩ := Db.returns_pure.mp h
    simp [issuedAt]
  | cons utxo issued ih =>
    obtain ⟨_, s', hutxo, hrest⟩ := Db.returns_bind.mp h
    rw [ih hrest, lookup_insertIssued hutxo, Option.or_assoc]
    congr 1
    unfold issuedAt
    by_cases hk : utxo.outpoint = k <;> simp [hk]

theorem lookup_deleteSpent_forM {spent : List (W × ℕ × W)} (h : (spent.forM deleteSpent).Returns s u t) (k : W × ℕ) :
    t.monitoredUtxos.lookup k =
      if k ∈ spentOutpoints spent then none else s.monitoredUtxos.lookup k := by
  induction spent generalizing s with
  | nil =>
    obtain ⟨-, rfl⟩ := Db.returns_pure.mp h
    rfl
  | cons outpoint spent ih =>
    obtain ⟨_, s', hdelete, hrest⟩ := Db.returns_bind.mp h
    obtain rfl := Db.returns_modify.mp hdelete
    have hcons : spentOutpoints (outpoint :: spent) = (outpoint.1, outpoint.2.1) :: spentOutpoints spent := rfl
    rw [ih hrest, Table.lookup_erase_eq, hcons]
    by_cases hmem : k ∈ spentOutpoints spent <;> by_cases hk : k = (outpoint.1, outpoint.2.1) <;> simp [hmem, hk]

/-- What a block does to the row of each outpoint. -/
theorem lookup_applyBlock {ruleSet : String} {block : IndexedBlock W} {issued : List (MonitoredUtxo W)}
    {spent : List (W × ℕ × W)} {activeBlocks : ℕ}
    (h : (applyBlock ruleSet block issued spent activeBlocks).Returns s u t) (k : W × ℕ) :
    t.monitoredUtxos.lookup k =
      if k ∈ spentOutpoints spent then none
      else ((s.monitoredUtxos.lookup k).or (issuedAt issued k)).map (MonitoredUtxo.atBlock activeBlocks block.height) := by
  unfold applyBlock applyBlockIn recordCursor at h
  simp only [Db.returns_bind, returns_encodeU64, Db.returns_modify] at h
  obtain ⟨_, _, ⟨_, _, hissued, _, _, hspent, _, _, hactive, hburning⟩, _, _, ⟨-, -, rfl⟩, rfl⟩ := h
  obtain rfl := returns_updateOverdue hactive
  obtain rfl := returns_updateOverdue hburning
  unfold changeWhere
  simp only [Table.lookup_mapRows, lookup_deleteSpent_forM hspent, lookup_insertIssued_forM hissued]
  split_ifs
  · rfl
  · rw [Option.map_map]
    congr 1
    funext row
    unfold MonitoredUtxo.atBlock MonitoredUtxo.expiredRow MonitoredUtxo.releasedRow
    cases hstatus : row.status with
    | active =>
      by_cases hend : row.blockHeight + activeBlocks ≤ block.height <;> simp [hstatus, hend]
    | burning =>
      by_cases hend : row.statusBlockHeight + burningBlocks ≤ block.height <;> simp [hstatus, hend]
    | expired => simp [hstatus]
    | unburnable => simp [hstatus]

end Block

section Burning

variable [DecidableEq W] {s t : MonitoredUtxoStore W} {n : ℕ} {utxos : List (W × ℕ)} {burnTxid : W} {height : ℕ}

/-- The transaction that `markBurning` and `quarantineUnburnable` have in common. -/
theorem returns_updateEach_rows {condition : MonitoredUtxo W → Bool} {change : ℕ → MonitoredUtxo W → MonitoredUtxo W}
    (hchange : ∀ row, change height (change height row) = change height row)
    (h : (updateEach (fun utxo => do
      let height ← encodeU64 height
      updateRows (fun k row => decide (k = utxo) && condition row) (change height)) utxos).Returns s n t) :
    t = s ∨ (t = changeEach (change height) utxos s ∧
      ∀ utxo ∈ utxos, ∃ row, s.monitoredUtxos.lookup utxo = some row ∧ condition row = true) := by
  apply returns_updateEach _ hchange h
  intro utxo s n t hupdate
  obtain ⟨_, _, hencode, hrows⟩ := Db.returns_bind.mp hupdate
  obtain ⟨-, rfl, rfl⟩ := returns_encodeU64.mp hencode
  exact returns_updateRows.mp hrows

theorem returns_markBurning (h : (markBurning utxos burnTxid height).Returns s n t) :
    t = s ∨ (t = changeEach (MonitoredUtxo.burningRow burnTxid height) utxos s ∧
      ∀ utxo ∈ utxos, ∃ row, s.monitoredUtxos.lookup utxo = some row ∧
        (row.status = .expired ∨ (row.status = .burning ∧ row.burnTxid = some burnTxid))) := by
  have hend := returns_updateEach_rows (fun _ => rfl) h
  simpa only [Bool.or_eq_true, Bool.and_eq_true, decide_eq_true_eq] using hend

theorem returns_quarantineUnburnable (h : (quarantineUnburnable utxos height).Returns s n t) :
    t = s ∨ (t = changeEach (MonitoredUtxo.unburnableRow height) utxos s ∧
      ∀ utxo ∈ utxos, ∃ row, s.monitoredUtxos.lookup utxo = some row ∧ row.status = .expired) := by
  have hend := returns_updateEach_rows (fun _ => rfl) h
  simpa only [decide_eq_true_eq] using hend

theorem lookup_releaseBurning (h : (releaseBurning burnTxid height).Returns s n t) (k : W × ℕ) :
    t.monitoredUtxos.lookup k = (s.monitoredUtxos.lookup k).map fun row =>
      if row.status = .burning ∧ row.burnTxid = some burnTxid then row.releasedRow height else row := by
  unfold releaseBurning at h
  obtain ⟨_, _, hencode, hrows⟩ := Db.returns_bind.mp h
  obtain ⟨-, rfl, rfl⟩ := returns_encodeU64.mp hencode
  obtain ⟨-, rfl⟩ := returns_updateRows.mp hrows
  unfold changeWhere
  simp

end Burning

section Reserve

variable [DecidableEq W] (store : MonitoredUtxoStore W)

theorem any_entries (p : MonitoredUtxo W → Bool) :
    store.monitoredUtxos.entries.any (fun entry => p entry.2) = true ↔
      ∃ k row, store.monitoredUtxos.lookup k = some row ∧ p row = true := by
  rw [List.any_eq_true]
  constructor
  · rintro ⟨⟨k, row⟩, hentry, hp⟩
    exact ⟨k, row, AList.mem_lookup_iff.mpr hentry, hp⟩
  · rintro ⟨k, row, hrow, hp⟩
    exact ⟨⟨k, row⟩, AList.mem_lookup_iff.mp hrow, hp⟩

theorem isReservedForBurning_iff (txid : W) (outputIndex : ℕ) :
    isReservedForBurning store txid outputIndex = true ↔ ∃ k row, store.monitoredUtxos.lookup k = some row ∧
      row.burningFee = (txid, outputIndex) ∧ (row.status = .active ∨ row.status = .expired ∨ row.status = .burning) := by
  apply (any_entries store fun row =>
    row.burningFeeTxid = txid && row.burningFeeOutputIndex = outputIndex && row.holdsReserve).trans
  simp only [Bool.and_eq_true, decide_eq_true_eq, MonitoredUtxo.holdsReserve_iff, MonitoredUtxo.burningFee, Prod.mk.injEq]

theorem burningReservations_eq (outpoints : List (W × ℕ)) :
    burningReservations store outpoints = outpoints.map fun outpoint => isReservedForBurning store outpoint.1 outpoint.2 := by
  unfold burningReservations isReservedForBurning
  apply List.map_congr_left
  intro outpoint hmem
  rw [Bool.eq_iff_iff, decide_eq_true_iff, List.mem_filter]
  simp only [hmem, true_and]
  unfold MonitoredUtxo.burningFee
  simp only [Prod.ext_iff, Bool.decide_and]

end Reserve

end MonitoredUtxoStore

end PriceOracle
