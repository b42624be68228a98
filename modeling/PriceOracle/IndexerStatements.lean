import PriceOracle.Indexer
import PriceOracle.MonitoredStatements

/-!
# What one turn of the indexing loop reads and writes

Each statement of the indexer taken apart: when it succeeds, and the tables it leaves.
-/

namespace PriceOracle

namespace Indexer

variable {W Tx B : Type} {s t : IndexerDb W Tx}

section Statements

@[simp]
theorem returns_encodeU64 {value n : ℕ} : (encodeU64 value).Returns s n t ↔ value < 2 ^ 63 ∧ n = value ∧ t = s := by
  unfold encodeU64
  simp [Db.returns_ite]

/-- The Storm Eye after a renewal or a replayed migration. -/
def setStormEye (row renewed : NetworkAsset W) (db : IndexerDb W Tx) : IndexerDb W Tx :=
  { db with
    networkAssets := db.networkAssets.insert stormEyeKind
      { row with contractScript := renewed.contractScript, contractData := renewed.contractData } }

theorem returns_indexStormEyeRenewalIn {current renewed : NetworkAsset W} {updated : Bool}
    (h : (indexStormEyeRenewalIn current renewed).Returns s updated t) :
    (updated = false ∧ t = s) ∨ (updated = true ∧ ∃ row, s.networkAssets.lookup stormEyeKind = some row ∧
      row.contractScript = current.contractScript ∧ row.contractData = current.contractData ∧
      t = setStormEye row renewed s) := by
  unfold indexStormEyeRenewalIn at h
  rw [Db.returns_get_bind] at h
  cases hrow : s.networkAssets.lookup stormEyeKind with
  | none =>
    rw [hrow] at h
    exact Or.inl (Db.returns_pure.mp h)
  | some row =>
    rw [hrow] at h
    obtain ⟨⟨hscript, hdata⟩, hset⟩ | ⟨-, hpure⟩ := Db.returns_ite.mp h
    · obtain ⟨_, u, hu, hpure⟩ := Db.returns_bind.mp hset
      obtain ⟨rfl, rfl⟩ := Db.returns_pure.mp hpure
      exact Or.inr ⟨rfl, row, rfl, hscript, hdata, Db.returns_set.mp hu⟩
    · exact Or.inl (Db.returns_pure.mp hpure)

theorem returns_recordAssetTransition {block : CanonicalBlock W} {current renewed : NetworkAsset W} {u : Unit}
    (h : (recordAssetTransition block current renewed).Returns s u t) :
    (block.height, current.kind) ∉ s.chainHistory ∧ t = { s with
      chainHistory := s.chainHistory.insert (block.height, current.kind)
        ⟨block.hash, current.contractScript, current.contractData, renewed.contractScript, renewed.contractData⟩ } := by
  unfold recordAssetTransition at h
  obtain ⟨_, _, hencode, hrest⟩ := Db.returns_bind.mp h
  obtain ⟨-, rfl, rfl⟩ := returns_encodeU64.mp hencode
  rw [Db.returns_get_bind] at hrest
  obtain ⟨-, hthrow⟩ | ⟨hkey, hset⟩ := Db.returns_ite.mp hrest
  · exact absurd hthrow Db.returns_throw
  · exact ⟨hkey, Db.returns_set.mp hset⟩

theorem returns_haltLedgerIn {height : ℕ} {reason : String} {u : Unit} (h : (haltLedgerIn height reason).Returns s u t) :
    t = { s with recovery := { s.recovery with dropletsHalt := some (height, reason) } } := by
  unfold haltLedgerIn at h
  obtain ⟨_, _, hencode, hrest⟩ := Db.returns_bind.mp h
  obtain ⟨-, rfl, rfl⟩ := returns_encodeU64.mp hencode
  exact Db.returns_modify.mp hrest

theorem returns_recordBlock [DecidableEq W] {block : CanonicalBlock W} {u : Unit}
    (h : (recordBlock block).Returns s u t) :
    block.height < 2 ^ 63 ∧ block.height ∉ s.canonicalBlocks ∧ t = { s with
      canonicalBlocks := Table.filterRows
        (fun height _ => block.height + 1 - canonicalJournalRetentionBlocks ≤ height)
        (s.canonicalBlocks.insert block.height block) } := by
  unfold recordBlock at h
  obtain ⟨_, _, hencode, hrest⟩ := Db.returns_bind.mp h
  obtain ⟨hheight, rfl, rfl⟩ := returns_encodeU64.mp hencode
  rw [Db.returns_get_bind] at hrest
  obtain ⟨-, hthrow⟩ | ⟨hkey, hset⟩ := Db.returns_ite.mp hrest
  · exact absurd hthrow Db.returns_throw
  · exact ⟨hheight, fun hmem => hkey (Or.inl hmem), Db.returns_set.mp hset⟩

theorem returns_onStore {A : Type} {prog : Db (MonitoredUtxoStore W) SqlError A} {a : A} :
    (onStore prog).Returns s a t ↔ ∃ store, prog.Returns s.store a store ∧ t = { s with store := store } := by
  unfold onStore
  exact Db.returns_zoom

end Statements

section Reading

theorem getBlock_ok {view : ChainView W B} {height : ℕ} {block : ChainBlock W B} :
    getBlock view height = .ok block ↔ view.block height = some block := by
  unfold getBlock
  cases view.block height with
  | none =>
    constructor
    · intro h
      cases h
    · intro h
      cases h
  | some block' =>
    constructor
    · intro h
      cases h
      rfl
    · intro h
      cases h
      rfl

variable [DecidableEq W]

/-- What a turn of the loop has read. -/
structure ReadsBlock (context : Context W B) (loop : Loop W) (height : ℕ) (block : ChainBlock W B)
    (renewal : Option (W × NetworkAsset W)) (reading : Reading W) : Prop where
  onChain : context.view.block height = some block
  parent : requireParentHash loop.previousHash block.parentHash height = .ok ()
  indexed : context.rules.indexedStormEyeRenewal block.txdata loop.stormEye = .ok renewal
  canonical : reading.block = ⟨height, block.hash, block.parentHash⟩
  renewed : reading.renewed = renewal.map Prod.snd
  memberMigration :
    reading.memberMigration = context.memberMigrations.find? fun migration => migration.blockHeight = height
  alone : reading.renewed = none ∨ reading.memberMigration = none
  migrated : reading.memberMigration.mapM (migratedStormEye loop.stormEye) = .ok reading.migrated
  issued : readIssued context height block.txdata (reading.renewed.getD loop.stormEye) = .ok reading.issued
  treasury : readTreasury context loop height block.txdata (reading.renewed.getD loop.stormEye) =
    .ok reading.treasuryTransactions

theorem readBlock_ok {context : Context W B} {loop : Loop W} {height : ℕ} {reading : Reading W} :
    readBlock context loop height = .ok reading ↔
      ∃ block renewal, ReadsBlock context loop height block renewal reading := by
  unfold readBlock
  simp only [Db.except_bind_ok, getBlock_ok]
  constructor
  · rintro ⟨block, hblock, _, hparent, renewal, hrenewal, h⟩
    split_ifs at h with halone
    simp only [Db.except_bind_ok] at h
    obtain ⟨migrated, hmigrated, issued, hissued, treasury, htreasury, h⟩ := h
    cases h
    refine ⟨block, renewal, hblock, hparent, hrenewal, rfl, rfl, rfl, ?_, hmigrated, hissued, htreasury⟩
    simpa only [Option.map_eq_none_iff, Bool.and_eq_true, Option.isSome_iff_ne_none, not_and_or, not_not] using halone
  · rintro ⟨block, renewal, h⟩
    refine ⟨block, h.onChain, (), h.parent, renewal, h.indexed, ?_⟩
    have halone := h.alone
    have hmigrated := h.migrated
    have hissued := h.issued
    have htreasury := h.treasury
    rw [h.renewed, h.memberMigration] at halone
    rw [h.memberMigration] at hmigrated
    rw [h.renewed] at hissued htreasury
    rw [if_neg]
    · simp only [Db.except_bind_ok]
      refine ⟨reading.migrated, hmigrated, reading.issued, hissued, reading.treasuryTransactions, htreasury, ?_⟩
      rw [← h.canonical, ← h.renewed, ← h.memberMigration]
      rfl
    · simpa only [Option.map_eq_none_iff, Bool.and_eq_true, Option.isSome_iff_ne_none, not_and_or, not_not] using halone

end Reading

section Writes

variable {loop : Loop W} {reading : Reading W} {u : Unit}

theorem returns_writeRenewal (h : (writeRenewal loop reading).Returns s u t) :
    (reading.renewed = none ∧ t = s) ∨ ∃ renewed row, reading.renewed = some renewed ∧
      s.networkAssets.lookup stormEyeKind = some row ∧ row.contractScript = loop.stormEye.contractScript ∧
      row.contractData = loop.stormEye.contractData ∧ (reading.block.height, loop.stormEye.kind) ∉ s.chainHistory ∧
      t = { setStormEye row renewed s with
        chainHistory := s.chainHistory.insert (reading.block.height, loop.stormEye.kind)
          ⟨reading.block.hash, loop.stormEye.contractScript, loop.stormEye.contractData, renewed.contractScript,
            renewed.contractData⟩ } := by
  unfold writeRenewal at h
  cases hrenewed : reading.renewed with
  | none =>
    rw [hrenewed] at h
    exact Or.inl ⟨rfl, (Db.returns_pure.mp h).2⟩
  | some renewed =>
    rw [hrenewed] at h
    obtain ⟨updated, v, hupdate, hrest⟩ := Db.returns_bind.mp h
    obtain ⟨rfl, hrecord⟩ | ⟨-, hthrow⟩ := Db.returns_ite.mp hrest
    · obtain ⟨hfalse, -⟩ | ⟨-, row, hrow, hscript, hdata, rfl⟩ := returns_indexStormEyeRenewalIn hupdate
      · cases hfalse
      · obtain ⟨hkey, rfl⟩ := returns_recordAssetTransition hrecord
        exact Or.inr ⟨renewed, row, rfl, hrow, hscript, hdata, hkey, rfl⟩
    · exact absurd hthrow Db.returns_throw

theorem returns_writeMigrated (h : (writeMigrated loop reading).Returns s u t) :
    (reading.migrated = none ∧ t = s) ∨ ∃ migrated row, reading.migrated = some migrated ∧
      s.networkAssets.lookup stormEyeKind = some row ∧ row.contractScript = loop.stormEye.contractScript ∧
      row.contractData = loop.stormEye.contractData ∧ t = setStormEye row migrated s := by
  unfold writeMigrated at h
  cases hmigrated : reading.migrated with
  | none =>
    rw [hmigrated] at h
    exact Or.inl ⟨rfl, (Db.returns_pure.mp h).2⟩
  | some migrated =>
    rw [hmigrated] at h
    obtain ⟨updated, v, hupdate, hrest⟩ := Db.returns_bind.mp h
    obtain ⟨rfl, hpure⟩ | ⟨-, hthrow⟩ := Db.returns_ite.mp hrest
    · obtain ⟨hfalse, -⟩ | ⟨-, row, hrow, hscript, hdata, rfl⟩ := returns_indexStormEyeRenewalIn hupdate
      · cases hfalse
      · exact Or.inr ⟨migrated, row, rfl, hrow, hscript, hdata, (Db.returns_pure.mp hpure).2⟩
    · exact absurd hthrow Db.returns_throw

variable [DecidableEq W]

theorem returns_writeIssued {rules : IndexerRules W B} (h : (writeIssued rules reading).Returns s u t) :
    (reading.issued = none ∧ t = s) ∨ ∃ issued spent store, reading.issued = some (issued, spent) ∧
      (MonitoredUtxoStore.applyBlock issuedUtxoRuleSet reading.indexedBlock issued spent
        rules.tickLifetimeBlocks).Returns s.store () store ∧ t = { s with store := store } := by
  unfold writeIssued at h
  cases hissued : reading.issued with
  | none =>
    rw [hissued] at h
    exact Or.inl ⟨rfl, (Db.returns_pure.mp h).2⟩
  | some entry =>
    obtain ⟨issued, spent⟩ := entry
    rw [hissued] at h
    obtain ⟨store, hstore, rfl⟩ := returns_onStore.mp h
    exact Or.inr ⟨issued, spent, store, rfl, hstore, rfl⟩

end Writes

section Blocks

variable [LinearOrder W] {loop : Loop W} {reading : Reading W}

/-- The ledger accounts the block, has no part in it, or halts at it. -/
theorem returns_writeLedger {halted : Bool} (h : (writeLedger loop reading).Returns s halted t) :
    (reading.treasuryTransactions = none ∧ halted = false ∧ t = s) ∨
    (∃ treasuryTransactions ledger, reading.treasuryTransactions = some treasuryTransactions ∧ halted = false ∧
      (DropletStore.applyBlockIn reading.block.height treasuryTransactions loop.activeMembers).Returns s.ledger ⟨⟩ ledger ∧
      t = { s with
        ledger := ledger
        store := { s.store with
          indexerCursors := s.store.indexerCursors.insert dropletsRuleSet reading.indexedBlock } }) ∨
    ∃ treasuryTransactions reason, reading.treasuryTransactions = some treasuryTransactions ∧ halted = true ∧
      ((DropletStore.applyBlockIn reading.block.height treasuryTransactions loop.activeMembers).exec s.ledger).1 =
        .error (.invalid reason) ∧
      t = { s with recovery := { s.recovery with dropletsHalt := some (reading.block.height, reason) } } := by
  unfold writeLedger at h
  cases htreasury : reading.treasuryTransactions with
  | none =>
    rw [htreasury] at h
    obtain ⟨rfl, rfl⟩ := Db.returns_pure.mp h
    exact Or.inl ⟨rfl, rfl, rfl⟩
  | some treasuryTransactions =>
    rw [htreasury] at h
    right
    obtain ⟨applied, v, hattempt, hrest⟩ := Db.returns_bind.mp h
    have happlied := Db.returns_attempt.mp hattempt
    unfold onLedger at happlied
    rw [Db.exec_atomic, Db.exec_zoom] at happlied
    cases hexec : (DropletStore.applyBlockIn reading.block.height treasuryTransactions loop.activeMembers).exec s.ledger with
    | mk r ledger =>
      rw [hexec] at happlied
      cases r with
      | ok _ =>
        cases happlied
        left
        obtain ⟨_, w, hcursor, hpure⟩ := Db.returns_bind.mp hrest
        obtain ⟨rfl, rfl⟩ := Db.returns_pure.mp hpure
        obtain ⟨store, hstore, rfl⟩ := returns_onStore.mp hcursor
        obtain ⟨-, rfl⟩ := MonitoredUtxoStore.returns_recordCursor.mp hstore
        exact ⟨treasuryTransactions, ledger, rfl, rfl, hexec, rfl⟩
      | error e =>
        cases happlied
        right
        cases e with
        | database => exact absurd hrest Db.returns_throw
        | invalid reason =>
          obtain ⟨_, w, hhalt, hpure⟩ := Db.returns_bind.mp hrest
          obtain ⟨rfl, rfl⟩ := Db.returns_pure.mp hpure
          exact ⟨treasuryTransactions, reason, rfl, rfl, by rw [hexec], returns_haltLedgerIn hhalt⟩

theorem returns_writeAssets {rules : IndexerRules W B} {u : Unit} (h : (writeAssets rules loop reading).Returns s u t) :
    ∃ v w, (writeRenewal loop reading).Returns s () v ∧ (writeMigrated loop reading).Returns v () w ∧
      (writeIssued rules reading).Returns w () t := by
  unfold writeAssets at h
  obtain ⟨_, v, hrenewal, hrest⟩ := Db.returns_bind.mp h
  obtain ⟨_, w, hmigrated, hissued⟩ := Db.returns_bind.mp hrest
  exact ⟨v, w, hrenewal, hmigrated, hissued⟩

theorem returns_writeBlock {rules : IndexerRules W B} {halted : Bool}
    (h : (writeBlock rules loop reading).Returns s halted t) :
    ∃ v w, (writeAssets rules loop reading).Returns s () v ∧ (writeLedger loop reading).Returns v halted w ∧
      (recordBlock reading.block).Returns w () t := by
  unfold writeBlock at h
  obtain ⟨_, v, hassets, hrest⟩ := Db.returns_bind.mp h
  obtain ⟨_, w, hledger, hend⟩ := Db.returns_bind.mp hrest
  obtain ⟨_, x, hrecord, hpure⟩ := Db.returns_bind.mp hend
  obtain ⟨rfl, rfl⟩ := Db.returns_pure.mp hpure
  exact ⟨v, w, hassets, hledger, hrecord⟩

theorem returns_indexBlock {context : Context W B} {height : ℕ} {loop' : Loop W}
    (h : (indexBlock context loop height).Returns s loop' t) :
    ∃ reading halted, readBlock context loop height = .ok reading ∧
      (writeBlock context.rules loop reading).Returns s halted t ∧ loop' = loop.next reading halted := by
  unfold indexBlock at h
  obtain ⟨reading, v, hread, hrest⟩ := Db.returns_bind.mp h
  obtain ⟨hok, rfl⟩ := Db.returns_check.mp hread
  obtain ⟨halted, w, hwrite, hpure⟩ := Db.returns_bind.mp hrest
  obtain ⟨rfl, rfl⟩ := Db.returns_pure.mp hpure
  exact ⟨reading, halted, hok, Db.returns_atomic.mp hwrite, rfl⟩

end Blocks

end Indexer

end PriceOracle
