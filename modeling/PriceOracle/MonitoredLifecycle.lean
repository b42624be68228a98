import PriceOracle.MonitoredStatements
import PriceOracle.Runs

/-!
# The life of a monitored UTXO

Runs of the store of monitored UTXOs, each statement in a transaction of its own. Beside
the tables a run keeps the blocks that were applied, which say what was issued and spent.
-/

namespace PriceOracle

inductive MonitoredAction (W : Type) where
  | applyBlock (ruleSet : String) (block : IndexedBlock W) (issued : List (MonitoredUtxo W)) (spent : List (W × ℕ × W))
  | markBurning (utxos : List (W × ℕ)) (burnTxid : W) (blockHeight : ℕ)
  | releaseBurning (burnTxid : W) (blockHeight : ℕ)
  | quarantineUnburnable (utxos : List (W × ℕ)) (blockHeight : ℕ)

/-- A block that was applied. -/
structure MonitoredBlock (W : Type) where
  block : IndexedBlock W
  issued : List (MonitoredUtxo W)
  spent : List (W × ℕ × W)

structure MonitoredRun (W : Type) where
  store : MonitoredUtxoStore W
  applied : List (MonitoredBlock W)

variable {W : Type}

/-- The columns that no statement changes. -/
def MonitoredUtxo.SameItem (row utxo : MonitoredUtxo W) : Prop :=
  row = { utxo with status := row.status, statusBlockHeight := row.statusBlockHeight, burnTxid := row.burnTxid }

theorem MonitoredUtxo.SameItem.trans {row row' utxo : MonitoredUtxo W} (h : row'.SameItem row) (h' : row.SameItem utxo) :
    row'.SameItem utxo := by
  unfold SameItem at h ⊢
  rw [h'] at h
  exact h

namespace MonitoredRun

open MonitoredUtxoStore

def initial : MonitoredRun W := ⟨.empty, []⟩

/-- An applied block issued the output, and none since then spent it. -/
def UnspentSince (applied : List (MonitoredBlock W)) (utxo : MonitoredUtxo W) : Prop :=
  ∃ earlier entry later, applied = earlier ++ entry :: later ∧ utxo ∈ entry.issued ∧
    ∀ block ∈ entry :: later, utxo.outpoint ∉ spentOutpoints block.spent

theorem unspentSince_snoc (applied : List (MonitoredBlock W)) (block : MonitoredBlock W) (utxo : MonitoredUtxo W) :
    UnspentSince (applied ++ [block]) utxo ↔
      utxo.outpoint ∉ spentOutpoints block.spent ∧ (UnspentSince applied utxo ∨ utxo ∈ block.issued) := by
  constructor
  · rintro ⟨earlier, entry, later, happlied, hissued, hspent⟩
    obtain rfl | ⟨later, last, rfl⟩ := List.eq_nil_or_concat later
    · obtain ⟨-, rfl⟩ := List.append_singleton_inj.mp happlied
      exact ⟨hspent block List.mem_cons_self, Or.inr hissued⟩
    · rw [List.concat_eq_append] at happlied hspent
      rw [← List.cons_append, ← List.append_assoc] at happlied
      obtain ⟨rfl, rfl⟩ := List.append_singleton_inj.mp happlied
      refine ⟨hspent block (by simp), Or.inl ⟨earlier, entry, later, rfl, hissued, fun b hb => ?_⟩⟩
      exact hspent b (by rw [← List.cons_append]; exact List.mem_append_left _ hb)
  · rintro ⟨hlast, ⟨earlier, entry, later, rfl, hissued, hspent⟩ | hissued⟩
    · refine ⟨earlier, entry, later ++ [block], by simp, hissued, fun b hb => ?_⟩
      rw [← List.cons_append, List.mem_append, List.mem_singleton] at hb
      obtain hb | rfl := hb
      · exact hspent b hb
      · exact hlast
    · exact ⟨applied, block, [], rfl, hissued, by simpa using hlast⟩

def blocks : MonitoredAction W → List (MonitoredBlock W)
  | .applyBlock _ block issued spent => [⟨block, issued, spent⟩]
  | _ => []

/-- What a step does to the row of an outpoint that it leaves in the table. -/
inductive Moves (activeBlocks : ℕ) (k : W × ℕ) (row : MonitoredUtxo W) : MonitoredAction W → MonitoredUtxo W → Prop
  | block (ruleSet block issued spent) :
    Moves activeBlocks k row (.applyBlock ruleSet block issued spent) (row.atBlock activeBlocks block.height)
  | unmarked (utxos burnTxid height) : Moves activeBlocks k row (.markBurning utxos burnTxid height) row
  | marked (utxos burnTxid height) (hmem : k ∈ utxos)
    (hrow : row.status = .expired ∨ (row.status = .burning ∧ row.burnTxid = some burnTxid)) :
    Moves activeBlocks k row (.markBurning utxos burnTxid height) (row.burningRow burnTxid height)
  | kept (burnTxid height) : Moves activeBlocks k row (.releaseBurning burnTxid height) row
  | released (burnTxid height) (hstatus : row.status = .burning) (htxid : row.burnTxid = some burnTxid) :
    Moves activeBlocks k row (.releaseBurning burnTxid height) (row.releasedRow height)
  | unquarantined (utxos height) : Moves activeBlocks k row (.quarantineUnburnable utxos height) row
  | quarantined (utxos height) (hstatus : row.status = .expired) :
    Moves activeBlocks k row (.quarantineUnburnable utxos height) (row.unburnableRow height)

section Moves

variable {activeBlocks : ℕ} {action : MonitoredAction W} {k : W × ℕ} {row row' : MonitoredUtxo W}

namespace Moves

theorem sameItem (h : Moves activeBlocks k row action row') : row'.SameItem row := by
  cases h with
  | block ruleSet block issued spent =>
    unfold MonitoredUtxo.atBlock
    split
    · split_ifs <;> rfl
    · split_ifs <;> rfl
    · rfl
    · rfl
  | _ => rfl

theorem active_iff (h : Moves activeBlocks k row action row') : row'.status ≠ .active ↔
    row.status ≠ .active ∨ ∃ entry ∈ blocks action, row.blockHeight + activeBlocks ≤ entry.block.height := by
  cases h with
  | block ruleSet block issued spent =>
    unfold MonitoredUtxo.atBlock blocks
    cases hstatus : row.status with
    | active => by_cases hend : row.blockHeight + activeBlocks ≤ block.height <;> simp [hstatus, hend, MonitoredUtxo.expiredRow]
    | burning =>
      by_cases hend : row.statusBlockHeight + burningBlocks ≤ block.height <;>
        simp [hstatus, hend, MonitoredUtxo.releasedRow]
    | expired => simp [hstatus]
    | unburnable => simp [hstatus]
  | unmarked | kept | unquarantined => simp [blocks]
  | marked utxos burnTxid height hmem hrow =>
    obtain hstatus | ⟨hstatus, -⟩ := hrow <;> simp [blocks, hstatus, MonitoredUtxo.burningRow]
  | released burnTxid height hstatus => simp [blocks, hstatus, MonitoredUtxo.releasedRow]
  | quarantined utxos height hstatus => simp [blocks, hstatus, MonitoredUtxo.unburnableRow]

theorem burnTxid (h : Moves activeBlocks k row action row') (hrow : row.burnTxid.isSome ↔ row.status = .burning) :
    row'.burnTxid.isSome ↔ row'.status = .burning := by
  cases h with
  | block ruleSet block issued spent =>
    unfold MonitoredUtxo.atBlock
    cases hstatus : row.status with
    | active =>
      rw [hstatus] at hrow
      by_cases hend : row.blockHeight + activeBlocks ≤ block.height
      · simpa [hend, MonitoredUtxo.expiredRow] using hrow
      · simpa [hend, hstatus] using hrow
    | burning =>
      by_cases hend : row.statusBlockHeight + burningBlocks ≤ block.height
      · simp [hend, MonitoredUtxo.releasedRow]
      · simpa [hend] using hrow
    | expired => exact hrow
    | unburnable => exact hrow
  | unmarked | kept | unquarantined => exact hrow
  | marked => simp [MonitoredUtxo.burningRow]
  | released => simp [MonitoredUtxo.releasedRow]
  | quarantined => simp [MonitoredUtxo.unburnableRow]

theorem from_active (h : Moves activeBlocks k row action row') (hrow : row.status = .active)
    (hrow' : row'.status ≠ .active) : row'.status = .expired ∧
      ∃ ruleSet block issued spent, action = .applyBlock ruleSet block issued spent ∧
        row'.blockHeight + activeBlocks ≤ block.height := by
  have hheight : row'.blockHeight = row.blockHeight := by rw [h.sameItem]
  rw [hheight]
  cases h with
  | block ruleSet block issued spent =>
    unfold MonitoredUtxo.atBlock at hrow' ⊢
    by_cases hend : row.blockHeight + activeBlocks ≤ block.height
    · simp only [hrow, if_pos hend]
      exact ⟨rfl, ruleSet, block, issued, spent, rfl, hend⟩
    · simp [hrow, hend] at hrow'
  | unmarked | kept | unquarantined => exact absurd hrow hrow'
  | marked utxos burnTxid height hmem hstatus => simp [hrow] at hstatus
  | released burnTxid height hstatus => simp [hrow] at hstatus
  | quarantined utxos height hstatus => simp [hrow] at hstatus

theorem from_burning (h : Moves activeBlocks k row action row') (hrow : row.status = .burning) :
    row'.status = .burning ∨ row'.status = .expired ∧
      ((∃ burnTxid height, action = .releaseBurning burnTxid height ∧ row.burnTxid = some burnTxid) ∨
        ∃ ruleSet block issued spent, action = .applyBlock ruleSet block issued spent ∧
          row.statusBlockHeight + burningBlocks ≤ block.height) := by
  cases h with
  | block ruleSet block issued spent =>
    unfold MonitoredUtxo.atBlock
    by_cases hend : row.statusBlockHeight + burningBlocks ≤ block.height
    · right
      simp only [hrow, if_pos hend]
      exact ⟨rfl, Or.inr ⟨ruleSet, block, issued, spent, rfl, hend⟩⟩
    · left
      simp [hrow, hend]
  | unmarked | kept | unquarantined => exact Or.inl hrow
  | marked => exact Or.inl rfl
  | released burnTxid height hstatus htxid => exact Or.inr ⟨rfl, Or.inl ⟨burnTxid, height, rfl, htxid⟩⟩
  | quarantined utxos height hstatus => simp [hrow] at hstatus

theorem to_burning (h : Moves activeBlocks k row action row') (hrow' : row'.status = .burning) :
    row' = row ∨ ∃ utxos burnTxid height, action = .markBurning utxos burnTxid height ∧ k ∈ utxos ∧
      row'.burnTxid = some burnTxid ∧ row'.statusBlockHeight = height := by
  cases h with
  | block ruleSet block issued spent =>
    left
    unfold MonitoredUtxo.atBlock at hrow' ⊢
    cases hstatus : row.status with
    | active =>
      by_cases hend : row.blockHeight + activeBlocks ≤ block.height
      · simp [hstatus, hend, MonitoredUtxo.expiredRow] at hrow'
      · simp [hend]
    | burning =>
      by_cases hend : row.statusBlockHeight + burningBlocks ≤ block.height
      · simp [hstatus, hend, MonitoredUtxo.releasedRow] at hrow'
      · simp [hend]
    | expired | unburnable => rfl
  | unmarked | kept | unquarantined => exact Or.inl rfl
  | marked utxos burnTxid height hmem => exact Or.inr ⟨utxos, burnTxid, height, rfl, hmem, rfl, rfl⟩
  | released => cases hrow'
  | quarantined => cases hrow'

theorem from_unburnable (h : Moves activeBlocks k row action row') (hrow : row.status = .unburnable) : row' = row := by
  cases h with
  | block ruleSet block issued spent =>
    unfold MonitoredUtxo.atBlock
    rw [hrow]
  | unmarked | kept | unquarantined => rfl
  | marked utxos burnTxid height hmem hstatus => simp [hrow] at hstatus
  | released burnTxid height hstatus => simp [hrow] at hstatus
  | quarantined utxos height hstatus => simp [hrow] at hstatus

end Moves

end Moves

/-- The statement of an action without its value. -/
theorem returns_discard {s t : MonitoredUtxoStore W} {A : Type} {prog : Db (MonitoredUtxoStore W) SqlError A}
    (h : (do let _ ← prog : Db (MonitoredUtxoStore W) SqlError Unit).Returns s () t) : ∃ a, prog.Returns s a t := by
  obtain ⟨a, u, hprog, hpure⟩ := Db.returns_bind.mp h
  obtain ⟨-, rfl⟩ := Db.returns_pure.mp hpure
  exact ⟨a, hprog⟩

variable [DecidableEq W]

def program (activeBlocks : ℕ) : MonitoredAction W → Db (MonitoredUtxoStore W) SqlError Unit
  | .applyBlock ruleSet block issued spent => applyBlock ruleSet block issued spent activeBlocks
  | .markBurning utxos burnTxid blockHeight => do
    let _ ← markBurning utxos burnTxid blockHeight
  | .releaseBurning burnTxid blockHeight => do
    let _ ← releaseBurning burnTxid blockHeight
  | .quarantineUnburnable utxos blockHeight => do
    let _ ← quarantineUnburnable utxos blockHeight

def step (activeBlocks : ℕ) (run : MonitoredRun W) (action : MonitoredAction W) : MonitoredRun W :=
  match (program activeBlocks action).atomic.exec run.store with
  | (.ok _, store) => ⟨store, run.applied ++ blocks action⟩
  | (.error _, store) => ⟨store, run.applied⟩

/-- A block comes after the blocks that were applied. -/
def Increasing (run : MonitoredRun W) : MonitoredAction W → Prop
  | .applyBlock _ block _ _ => ∀ entry ∈ run.applied, entry.block.height < block.height
  | _ => True

instance (run : MonitoredRun W) : (action : MonitoredAction W) → Decidable (Increasing run action)
  | .applyBlock _ block _ _ => inferInstanceAs (Decidable (∀ entry ∈ run.applied, entry.block.height < block.height))
  | .markBurning .. | .releaseBurning .. | .quarantineUnburnable .. => isTrue trivial

/-- A step fails and changes nothing, or its statement succeeds. -/
theorem step_cases (activeBlocks : ℕ) (run : MonitoredRun W) (action : MonitoredAction W) :
    step activeBlocks run action = run ∨ ∃ store, (program activeBlocks action).Returns run.store () store ∧
      step activeBlocks run action = ⟨store, run.applied ++ blocks action⟩ := by
  unfold step
  cases hexec : (program activeBlocks action).atomic.exec run.store with
  | mk r store =>
    cases r with
    | error e =>
      left
      have hstore := Db.exec_atomic_error (congrArg Prod.fst hexec)
      rw [hexec] at hstore
      simp only at hstore
      rw [hstore]
    | ok a =>
      right
      exact ⟨store, Db.returns_atomic.mp hexec, rfl⟩

section Steps

variable {activeBlocks : ℕ} {action : MonitoredAction W} {s t : MonitoredUtxoStore W} {k : W × ℕ}
  {row row' : MonitoredUtxo W}

theorem moves (h : (program activeBlocks action).Returns s () t) (hrow : s.monitoredUtxos.lookup k = some row)
    (hrow' : t.monitoredUtxos.lookup k = some row') : Moves activeBlocks k row action row' := by
  cases action with
  | applyBlock ruleSet block issued spent =>
    rw [lookup_applyBlock h, hrow, Option.some_or] at hrow'
    split_ifs at hrow'
    cases hrow'
    exact Moves.block ruleSet block issued spent
  | markBurning utxos burnTxid height =>
    obtain ⟨n, hmark⟩ := returns_discard h
    obtain rfl | ⟨rfl, hfound⟩ := returns_markBurning hmark
    · rw [hrow] at hrow'
      cases hrow'
      exact Moves.unmarked utxos burnTxid height
    · rw [lookup_changeEach, hrow, Option.map_some] at hrow'
      cases hrow'
      split_ifs with hmem
      · obtain ⟨found, hlookup, hstatus⟩ := hfound k hmem
        rw [hrow] at hlookup
        cases hlookup
        exact Moves.marked utxos burnTxid height hmem hstatus
      · exact Moves.unmarked utxos burnTxid height
  | releaseBurning burnTxid height =>
    obtain ⟨n, hrelease⟩ := returns_discard h
    rw [lookup_releaseBurning hrelease, hrow, Option.map_some] at hrow'
    cases hrow'
    split_ifs with hburning
    · exact Moves.released burnTxid height hburning.1 hburning.2
    · exact Moves.kept burnTxid height
  | quarantineUnburnable utxos height =>
    obtain ⟨n, hquarantine⟩ := returns_discard h
    obtain rfl | ⟨rfl, hfound⟩ := returns_quarantineUnburnable hquarantine
    · rw [hrow] at hrow'
      cases hrow'
      exact Moves.unquarantined utxos height
    · rw [lookup_changeEach, hrow, Option.map_some] at hrow'
      cases hrow'
      split_ifs with hmem
      · obtain ⟨found, hlookup, hstatus⟩ := hfound k hmem
        rw [hrow] at hlookup
        cases hlookup
        exact Moves.quarantined utxos height hstatus
      · exact Moves.unquarantined utxos height

/-- Only a block adds or removes rows. -/
theorem lookup_program (h : (program activeBlocks action).Returns s () t) (hblocks : blocks action = []) (k : W × ℕ) :
    ∃ change : MonitoredUtxo W → MonitoredUtxo W,
      t.monitoredUtxos.lookup k = (s.monitoredUtxos.lookup k).map change := by
  cases action with
  | applyBlock ruleSet block issued spent => cases hblocks
  | markBurning utxos burnTxid height =>
    obtain ⟨n, hmark⟩ := returns_discard h
    obtain rfl | ⟨rfl, -⟩ := returns_markBurning hmark
    · exact ⟨id, (Option.map_id_apply).symm⟩
    · exact ⟨_, lookup_changeEach utxos k⟩
  | releaseBurning burnTxid height =>
    obtain ⟨n, hrelease⟩ := returns_discard h
    exact ⟨_, lookup_releaseBurning hrelease k⟩
  | quarantineUnburnable utxos height =>
    obtain ⟨n, hquarantine⟩ := returns_discard h
    obtain rfl | ⟨rfl, -⟩ := returns_quarantineUnburnable hquarantine
    · exact ⟨id, (Option.map_id_apply).symm⟩
    · exact ⟨_, lookup_changeEach utxos k⟩

theorem appears (h : (program activeBlocks action).Returns s () t) (hrow : s.monitoredUtxos.lookup k = none)
    (hrow' : t.monitoredUtxos.lookup k = some row') :
    ∃ ruleSet block issued spent, action = .applyBlock ruleSet block issued spent ∧ k ∉ spentOutpoints spent ∧
      ∃ utxo ∈ issued, utxo.outpoint = k ∧ row' = utxo.issuedRow.atBlock activeBlocks block.height := by
  by_cases hblocks : blocks action = []
  · obtain ⟨change, hchange⟩ := lookup_program h hblocks k
    rw [hchange, hrow] at hrow'
    cases hrow'
  · cases action with
    | applyBlock ruleSet block issued spent =>
      rw [lookup_applyBlock h, hrow, Option.none_or] at hrow'
      split_ifs at hrow' with hspent
      obtain ⟨issuedRow, hissued, rfl⟩ := Option.map_eq_some_iff.mp hrow'
      obtain ⟨utxo, hfind, rfl⟩ := Option.map_eq_some_iff.mp hissued
      refine ⟨ruleSet, block, issued, spent, rfl, hspent, utxo, List.mem_of_find?_eq_some hfind, ?_, rfl⟩
      simpa using List.find?_some hfind
    | markBurning => exact absurd rfl hblocks
    | releaseBurning => exact absurd rfl hblocks
    | quarantineUnburnable => exact absurd rfl hblocks

theorem mem_applyBlock {ruleSet : String} {block : IndexedBlock W} {issued : List (MonitoredUtxo W)}
    {spent : List (W × ℕ × W)} (h : (applyBlock ruleSet block issued spent activeBlocks).Returns s () t) (k : W × ℕ) :
    k ∈ t.monitoredUtxos ↔
      k ∉ spentOutpoints spent ∧ (k ∈ s.monitoredUtxos ∨ ∃ utxo ∈ issued, utxo.outpoint = k) := by
  rw [← AList.lookup_isSome, ← AList.lookup_isSome, lookup_applyBlock h]
  split_ifs with hspent
  · simp [hspent]
  · simp [hspent, issuedAt]

end Steps

/-- What holds of the tables after every run. -/
structure Lifecycle (activeBlocks : ℕ) (run : MonitoredRun W) : Prop where
  stored : ∀ k, k ∈ run.store.monitoredUtxos ↔ ∃ utxo, utxo.outpoint = k ∧ UnspentSince run.applied utxo
  item : ∀ k row, run.store.monitoredUtxos.lookup k = some row →
    ∃ utxo, utxo.outpoint = k ∧ UnspentSince run.applied utxo ∧ row.SameItem utxo
  ended : ∀ k row, run.store.monitoredUtxos.lookup k = some row →
    (row.status ≠ .active ↔ ∃ entry ∈ run.applied, row.blockHeight + activeBlocks ≤ entry.block.height)
  burnTxid : ∀ k row, run.store.monitoredUtxos.lookup k = some row → (row.burnTxid.isSome ↔ row.status = .burning)
  reserved : ∀ txid outputIndex, isReservedForBurning run.store txid outputIndex = true ↔
    ∃ k row, run.store.monitoredUtxos.lookup k = some row ∧ row.burningFee = (txid, outputIndex) ∧
      (row.status = .active ∨ row.status = .expired ∨ row.status = .burning)
  reservations : ∀ outpoints, burningReservations run.store outpoints =
    outpoints.map fun outpoint => isReservedForBurning run.store outpoint.1 outpoint.2

/-- What holds of every step of a run. -/
structure LifecycleStep (activeBlocks : ℕ) (run : MonitoredRun W) (action : MonitoredAction W) : Prop where
  /-- A row that was active, or was not there, ends at a block that reaches its lifetime. -/
  expires : ∀ k row', (step activeBlocks run action).store.monitoredUtxos.lookup k = some row' →
    (∀ row, run.store.monitoredUtxos.lookup k = some row → row.status = .active) → row'.status ≠ .active →
    row'.status = .expired ∧ ∃ ruleSet block issued spent, action = .applyBlock ruleSet block issued spent ∧
      row'.blockHeight + activeBlocks ≤ block.height
  burning : ∀ k row row', run.store.monitoredUtxos.lookup k = some row →
    (step activeBlocks run action).store.monitoredUtxos.lookup k = some row' → row.status = .burning →
    row'.status = .burning ∨ row'.status = .expired ∧
      ((∃ burnTxid height, action = .releaseBurning burnTxid height ∧ row.burnTxid = some burnTxid) ∨
        ∃ ruleSet block issued spent, action = .applyBlock ruleSet block issued spent ∧
          row.statusBlockHeight + burningBlocks ≤ block.height)
  /-- The height that the timeout counts from is that of the mark. -/
  burningSince : ∀ k row', (step activeBlocks run action).store.monitoredUtxos.lookup k = some row' →
    row'.status = .burning → run.store.monitoredUtxos.lookup k = some row' ∨
      ∃ utxos burnTxid height, action = .markBurning utxos burnTxid height ∧ k ∈ utxos ∧
        row'.burnTxid = some burnTxid ∧ row'.statusBlockHeight = height
  unburnable : ∀ k row row', run.store.monitoredUtxos.lookup k = some row →
    (step activeBlocks run action).store.monitoredUtxos.lookup k = some row' → row.status = .unburnable → row' = row
  markBurning : ∀ utxos burnTxid height, action = .markBurning utxos burnTxid height →
    (step activeBlocks run action = run ∨
      ((∀ k ∈ utxos, ∃ row, run.store.monitoredUtxos.lookup k = some row ∧
        (row.status = .expired ∨ (row.status = .burning ∧ row.burnTxid = some burnTxid)) ∧
        (step activeBlocks run action).store.monitoredUtxos.lookup k = some (row.burningRow burnTxid height)) ∧
      ∀ k, k ∉ utxos → (step activeBlocks run action).store.monitoredUtxos.lookup k =
        run.store.monitoredUtxos.lookup k)) ∧
    step activeBlocks (step activeBlocks run action) action = step activeBlocks run action
  quarantine : ∀ utxos height, action = .quarantineUnburnable utxos height →
    (step activeBlocks run action = run ∨
      ((∀ k ∈ utxos, ∃ row, run.store.monitoredUtxos.lookup k = some row ∧ row.status = .expired ∧
        (step activeBlocks run action).store.monitoredUtxos.lookup k = some (row.unburnableRow height)) ∧
      ∀ k, k ∉ utxos → (step activeBlocks run action).store.monitoredUtxos.lookup k =
        run.store.monitoredUtxos.lookup k)) ∧
    step activeBlocks (step activeBlocks run action) action = step activeBlocks run action

theorem lifecycle_initial (activeBlocks : ℕ) : Lifecycle activeBlocks (initial : MonitoredRun W) where
  stored k := by
    constructor
    · intro hmem
      exact absurd hmem (AList.notMem_empty k)
    · rintro ⟨utxo, -, earlier, entry, later, happlied, -⟩
      exact absurd happlied (by simp [initial])
  item k row hrow := by cases hrow
  ended k row hrow := by cases hrow
  burnTxid k row hrow := by cases hrow
  reserved := isReservedForBurning_iff _
  reservations := burningReservations_eq _

section StepLemmas

variable {activeBlocks : ℕ} {run : MonitoredRun W} {action : MonitoredAction W}

theorem stored_step (h : Lifecycle activeBlocks run) {store : MonitoredUtxoStore W}
    (hprogram : (program activeBlocks action).Returns run.store () store) (k : W × ℕ) :
    k ∈ store.monitoredUtxos ↔ ∃ utxo, utxo.outpoint = k ∧ UnspentSince (run.applied ++ blocks action) utxo := by
  by_cases hblocks : blocks action = []
  · obtain ⟨change, hchange⟩ := lookup_program hprogram hblocks k
    rw [hblocks, List.append_nil, ← h.stored k, ← AList.lookup_isSome, ← AList.lookup_isSome, hchange, Option.isSome_map]
  · cases action with
    | applyBlock ruleSet block issued spent =>
      rw [mem_applyBlock hprogram, h.stored k]
      constructor
      · rintro ⟨hspent, ⟨utxo, rfl, hutxo⟩ | ⟨utxo, hissued, rfl⟩⟩
        · exact ⟨utxo, rfl, (unspentSince_snoc _ _ _).mpr ⟨hspent, Or.inl hutxo⟩⟩
        · exact ⟨utxo, rfl, (unspentSince_snoc _ _ _).mpr ⟨hspent, Or.inr hissued⟩⟩
      · rintro ⟨utxo, rfl, hutxo⟩
        obtain ⟨hspent, hutxo | hissued⟩ := (unspentSince_snoc _ _ _).mp hutxo
        · exact ⟨hspent, Or.inl ⟨utxo, rfl, hutxo⟩⟩
        · exact ⟨hspent, Or.inr ⟨utxo, hissued, rfl⟩⟩
    | markBurning => exact absurd rfl hblocks
    | releaseBurning => exact absurd rfl hblocks
    | quarantineUnburnable => exact absurd rfl hblocks

/-- A row that is still there was issued before and is not spent by this step. -/
theorem unspentSince_step {store : MonitoredUtxoStore W}
    (hprogram : (program activeBlocks action).Returns run.store () store) {utxo row' : MonitoredUtxo W}
    (hutxo : UnspentSince run.applied utxo) (hrow' : store.monitoredUtxos.lookup utxo.outpoint = some row') :
    UnspentSince (run.applied ++ blocks action) utxo := by
  cases action with
  | applyBlock ruleSet block issued spent =>
    rw [lookup_applyBlock hprogram] at hrow'
    split_ifs at hrow' with hspent
    exact (unspentSince_snoc _ _ _).mpr ⟨hspent, Or.inl hutxo⟩
  | markBurning | releaseBurning | quarantineUnburnable =>
    change UnspentSince (run.applied ++ []) utxo
    rw [List.append_nil]
    exact hutxo

theorem item_step (h : Lifecycle activeBlocks run) {store : MonitoredUtxoStore W}
    (hprogram : (program activeBlocks action).Returns run.store () store) {k : W × ℕ} {row' : MonitoredUtxo W}
    (hrow' : store.monitoredUtxos.lookup k = some row') :
    ∃ utxo, utxo.outpoint = k ∧ UnspentSince (run.applied ++ blocks action) utxo ∧ row'.SameItem utxo := by
  cases hrow : run.store.monitoredUtxos.lookup k with
  | some row =>
    obtain ⟨utxo, rfl, hutxo, hsame⟩ := h.item k row hrow
    refine ⟨utxo, rfl, unspentSince_step hprogram hutxo hrow', ?_⟩
    exact (moves hprogram hrow hrow').sameItem.trans hsame
  | none =>
    obtain ⟨ruleSet, block, issued, spent, rfl, hspent, utxo, hissued, rfl, rfl⟩ := appears hprogram hrow hrow'
    refine ⟨utxo, rfl, (unspentSince_snoc _ _ _).mpr ⟨hspent, Or.inr hissued⟩, ?_⟩
    have hmoves : Moves activeBlocks utxo.outpoint utxo.issuedRow (.applyBlock ruleSet block issued spent) _ :=
      Moves.block ruleSet block issued spent
    exact hmoves.sameItem.trans rfl

theorem ended_step (h : Lifecycle activeBlocks run) (hincreasing : Increasing run action) {store : MonitoredUtxoStore W}
    (hprogram : (program activeBlocks action).Returns run.store () store) {k : W × ℕ} {row' : MonitoredUtxo W}
    (hrow' : store.monitoredUtxos.lookup k = some row') : row'.status ≠ .active ↔
      ∃ entry ∈ run.applied ++ blocks action, row'.blockHeight + activeBlocks ≤ entry.block.height := by
  cases hrow : run.store.monitoredUtxos.lookup k with
  | some row =>
    have hmoves := moves hprogram hrow hrow'
    have hheight : row'.blockHeight = row.blockHeight := by rw [hmoves.sameItem]
    rw [hmoves.active_iff, h.ended k row hrow, hheight]
    simp only [List.mem_append, or_and_right, exists_or]
  | none =>
    obtain ⟨ruleSet, block, issued, spent, rfl, hspent, utxo, hissued, rfl, rfl⟩ := appears hprogram hrow hrow'
    have hmoves : Moves activeBlocks utxo.outpoint utxo.issuedRow (.applyBlock ruleSet block issued spent) _ :=
      Moves.block ruleSet block issued spent
    have hheight : (utxo.issuedRow.atBlock activeBlocks block.height).blockHeight = utxo.issuedRow.blockHeight := by
      rw [hmoves.sameItem]
    rw [hmoves.active_iff, hheight]
    constructor
    · rintro (hactive | ⟨entry, hentry, hend⟩)
      · exact absurd rfl hactive
      · exact ⟨entry, List.mem_append_right _ hentry, hend⟩
    · rintro ⟨entry, hentry, hend⟩
      right
      refine ⟨_, List.mem_singleton_self _, ?_⟩
      obtain hentry | hentry := List.mem_append.mp hentry
      · have hlt := hincreasing entry hentry
        change _ ≤ block.height
        omega
      · obtain rfl := List.mem_singleton.mp hentry
        exact hend

theorem lifecycle_step (h : Lifecycle activeBlocks run) (hincreasing : Increasing run action) :
    Lifecycle activeBlocks (step activeBlocks run action) := by
  obtain hsame | ⟨store, hprogram, hstep⟩ := step_cases activeBlocks run action
  · rw [hsame]
    exact h
  rw [hstep]
  refine ⟨stored_step h hprogram, fun k row' => item_step h hprogram, fun k row' => ended_step h hincreasing hprogram, ?_,
    isReservedForBurning_iff _, burningReservations_eq _⟩
  intro k row' hrow'
  cases hrow : run.store.monitoredUtxos.lookup k with
  | some row => exact (moves hprogram hrow hrow').burnTxid (h.burnTxid k row hrow)
  | none =>
    obtain ⟨ruleSet, block, issued, spent, rfl, hspent, utxo, hissued, rfl, rfl⟩ := appears hprogram hrow hrow'
    have hmoves : Moves activeBlocks utxo.outpoint utxo.issuedRow (.applyBlock ruleSet block issued spent) _ :=
      Moves.block ruleSet block issued spent
    exact hmoves.burnTxid (by simp [MonitoredUtxo.issuedRow])

section Each

variable {utxos : List (W × ℕ)} {found : MonitoredUtxo W → Prop} {change : MonitoredUtxo W → MonitoredUtxo W}

/-- A transaction over single rows changes all of them or nothing. -/
theorem step_each (hblocks : blocks action = [])
    (hprogram : ∀ s t, (program activeBlocks action).Returns s () t → t = s ∨ (t = changeEach change utxos s ∧
      ∀ utxo ∈ utxos, ∃ row, s.monitoredUtxos.lookup utxo = some row ∧ found row)) :
    step activeBlocks run action = run ∨
      ((∀ k ∈ utxos, ∃ row, run.store.monitoredUtxos.lookup k = some row ∧ found row ∧
        (step activeBlocks run action).store.monitoredUtxos.lookup k = some (change row)) ∧
      ∀ k, k ∉ utxos → (step activeBlocks run action).store.monitoredUtxos.lookup k =
        run.store.monitoredUtxos.lookup k) := by
  obtain hsame | ⟨store, hreturns, hstep⟩ := step_cases activeBlocks run action
  · exact Or.inl hsame
  rw [hstep, hblocks, List.append_nil]
  obtain rfl | ⟨rfl, hfound⟩ := hprogram _ _ hreturns
  · exact Or.inl rfl
  · right
    constructor
    · intro k hk
      obtain ⟨row, hrow, hcondition⟩ := hfound k hk
      refine ⟨row, hrow, hcondition, ?_⟩
      rw [lookup_changeEach, hrow, Option.map_some, if_pos hk]
    · intro k hk
      rw [lookup_changeEach]
      simp [hk]

/-- The second of two equal steps finds every row as the first one left it. -/
theorem step_each_twice (hblocks : blocks action = [])
    (hprogram : ∀ s t, (program activeBlocks action).Returns s () t → t = s ∨ (t = changeEach change utxos s ∧
      ∀ utxo ∈ utxos, ∃ row, s.monitoredUtxos.lookup utxo = some row ∧ found row))
    (hchange : ∀ row, change (change row) = change row) :
    step activeBlocks (step activeBlocks run action) action = step activeBlocks run action := by
  obtain hsame | ⟨store, hreturns, hstep⟩ := step_cases activeBlocks run action
  · rw [hsame, hsame]
  obtain hsame' | ⟨store', hreturns', hstep'⟩ := step_cases activeBlocks (step activeBlocks run action) action
  · exact hsame'
  rw [hstep', hstep, hblocks, List.append_nil, List.append_nil]
  rw [hstep] at hreturns'
  have hstore : store' = store := by
    obtain rfl | ⟨hagain, -⟩ := hprogram _ _ hreturns'
    · rfl
    · obtain rfl | ⟨rfl, -⟩ := hprogram _ _ hreturns
      · have hexec := hreturns.symm.trans hreturns'
        exact (Prod.mk.inj hexec).2.symm
      · rw [hagain, changeEach_changeEach hchange, changeEach_append_self]
  rw [hstore]

end Each

theorem markBurning_step {utxos : List (W × ℕ)} {burnTxid : W} {height : ℕ} :
    ∀ s t, (program activeBlocks (.markBurning utxos burnTxid height)).Returns s () t →
      t = s ∨ (t = changeEach (MonitoredUtxo.burningRow burnTxid height) utxos s ∧
        ∀ utxo ∈ utxos, ∃ row, s.monitoredUtxos.lookup utxo = some row ∧
          (row.status = .expired ∨ (row.status = .burning ∧ row.burnTxid = some burnTxid))) := by
  intro s t hreturns
  obtain ⟨n, hmark⟩ := returns_discard hreturns
  exact returns_markBurning hmark

theorem quarantine_step {utxos : List (W × ℕ)} {height : ℕ} :
    ∀ s t, (program activeBlocks (.quarantineUnburnable utxos height)).Returns s () t →
      t = s ∨ (t = changeEach (MonitoredUtxo.unburnableRow height) utxos s ∧
        ∀ utxo ∈ utxos, ∃ row, s.monitoredUtxos.lookup utxo = some row ∧ row.status = .expired) := by
  intro s t hreturns
  obtain ⟨n, hquarantine⟩ := returns_discard hreturns
  exact returns_quarantineUnburnable hquarantine

/-- A step leaves a row as it is, or its statement moves it. -/
theorem step_moves {k : W × ℕ} {row row' : MonitoredUtxo W} (hrow : run.store.monitoredUtxos.lookup k = some row)
    (hrow' : (step activeBlocks run action).store.monitoredUtxos.lookup k = some row') :
    row' = row ∨ Moves activeBlocks k row action row' := by
  obtain hsame | ⟨store, hreturns, hstep⟩ := step_cases activeBlocks run action
  · rw [hsame, hrow] at hrow'
    cases hrow'
    exact Or.inl rfl
  · rw [hstep] at hrow'
    exact Or.inr (moves hreturns hrow hrow')

theorem step_appears {k : W × ℕ} {row' : MonitoredUtxo W} (hrow : run.store.monitoredUtxos.lookup k = none)
    (hrow' : (step activeBlocks run action).store.monitoredUtxos.lookup k = some row') :
    ∃ ruleSet block issued spent, action = .applyBlock ruleSet block issued spent ∧ k ∉ spentOutpoints spent ∧
      ∃ utxo ∈ issued, utxo.outpoint = k ∧ row' = utxo.issuedRow.atBlock activeBlocks block.height := by
  obtain hsame | ⟨store, hreturns, hstep⟩ := step_cases activeBlocks run action
  · rw [hsame, hrow] at hrow'
    cases hrow'
  · rw [hstep] at hrow'
    exact appears hreturns hrow hrow'

theorem lifecycleStep (run : MonitoredRun W) (action : MonitoredAction W) : LifecycleStep activeBlocks run action where
  expires k row' hrow' hactive hended := by
    cases hrow : run.store.monitoredUtxos.lookup k with
    | some row =>
      obtain rfl | hmoves := step_moves hrow hrow'
      · exact absurd (hactive row' hrow) hended
      · exact hmoves.from_active (hactive row hrow) hended
    | none =>
      obtain ⟨ruleSet, block, issued, spent, rfl, hspent, utxo, hissued, rfl, rfl⟩ := step_appears hrow hrow'
      have hmoves : Moves activeBlocks utxo.outpoint utxo.issuedRow (.applyBlock ruleSet block issued spent) _ :=
        Moves.block ruleSet block issued spent
      exact hmoves.from_active rfl hended
  burning k row row' hrow hrow' hburning := by
    obtain rfl | hmoves := step_moves hrow hrow'
    · exact Or.inl hburning
    · exact hmoves.from_burning hburning
  burningSince k row' hrow' hburning := by
    cases hrow : run.store.monitoredUtxos.lookup k with
    | some row =>
      obtain rfl | hmoves := step_moves hrow hrow'
      · exact Or.inl rfl
      · obtain rfl | hmarked := hmoves.to_burning hburning
        · exact Or.inl rfl
        · exact Or.inr hmarked
    | none =>
      obtain ⟨ruleSet, block, issued, spent, rfl, hspent, utxo, hissued, rfl, rfl⟩ := step_appears hrow hrow'
      have hmoves : Moves activeBlocks utxo.outpoint utxo.issuedRow (.applyBlock ruleSet block issued spent) _ :=
        Moves.block ruleSet block issued spent
      obtain hsame | ⟨_, _, _, haction, -⟩ := hmoves.to_burning hburning
      · rw [hsame] at hburning
        cases hburning
      · cases haction
  unburnable k row row' hrow hrow' hunburnable := by
    obtain rfl | hmoves := step_moves hrow hrow'
    · rfl
    · exact hmoves.from_unburnable hunburnable
  markBurning utxos burnTxid height haction := by
    subst haction
    exact ⟨step_each rfl markBurning_step, step_each_twice rfl markBurning_step fun _ => rfl⟩
  quarantine utxos height haction := by
    subst haction
    exact ⟨step_each rfl quarantine_step, step_each_twice rfl quarantine_step fun _ => rfl⟩

end StepLemmas

theorem lifecycle (activeBlocks : ℕ) (actions : List (MonitoredAction W))
    (h : Runs.EachStep (step activeBlocks) Increasing initial actions) :
    Lifecycle activeBlocks (actions.foldl (step activeBlocks) initial) ∧
      Runs.EachStep (step activeBlocks) (LifecycleStep activeBlocks) initial actions := by
  apply Runs.EachStep.run _ (lifecycle_initial activeBlocks) h
  intro run action hrun hincreasing
  exact ⟨lifecycle_step hrun hincreasing, lifecycleStep run action⟩

/-- A voucher of block 100, with output 3 of the transaction 1 as its reserve. -/
def tick : MonitoredUtxo ℕ where
  txid := 1
  outputIndex := 2
  assetKind := "tick"
  amount := 1700000000
  scriptPubkey := [0x51]
  authMethod := "signature-auth"
  authData := [2]
  accountOwnerPubkey := 4
  internalKey := none
  burningFeeTxid := 1
  burningFeeOutputIndex := 3
  blockHeight := 100
  status := .active
  statusBlockHeight := 100
  burnTxid := none

/-- The voucher is issued and ends; a burn of it is not confirmed in time, and it is quarantined. -/
def quarantinedTick : List (MonitoredAction ℕ) :=
  [.applyBlock "issued-utxo" ⟨100, 100⟩ [tick] [], .markBurning [(1, 2)] 7 105, .applyBlock "issued-utxo" ⟨110, 110⟩ [] [],
    .markBurning [(1, 2)] 7 111, .applyBlock "issued-utxo" ⟨116, 116⟩ [] [], .quarantineUnburnable [(1, 2)] 117]

theorem lifecycle_quarantinedTick :
    (quarantinedTick.foldl (step 10) initial).store.monitoredUtxos.lookup (1, 2) = some (tick.unburnableRow 117) ∧
      Lifecycle 10 (quarantinedTick.foldl (step 10) initial) ∧
      Runs.EachStep (step 10) (LifecycleStep 10) initial quarantinedTick :=
  ⟨by decide +kernel, lifecycle 10 quarantinedTick (by decide +kernel)⟩

end MonitoredRun

end PriceOracle
