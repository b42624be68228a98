import PriceOracle.Droplets
import PriceOracle.MonitoredUtxos

/-!
# The indexer

`indexer/mod.rs` with the statements of `db/chain.rs` and `db/network_asset.rs` that it
runs. Blocks are indexed one by one, each in one transaction over the issued outputs, the
Droplets ledger, the Storm Eye and the journal; a reorganisation resets all of them and
indexes again from the start. What the indexer reads in the transactions `B` of a block is
a parameter; hashes and keys are of type `W`, transaction bytes of type `Tx`.
-/

namespace PriceOracle

structure NetworkAsset (W : Type) where
  kind : String
  name : String
  assetId : W
  reissuanceTokenId : Option W
  entropy : Option W
  issuanceTxid : W
  contractScript : List UInt8
  contractData : Option (List UInt8)
  supply : ℕ
  createdAtBlock : ℕ
  deriving DecidableEq

/-- A row of `canonical_blocks`. -/
structure CanonicalBlock (W : Type) where
  height : ℕ
  hash : W
  parentHash : W
  deriving DecidableEq

/-- A row of `network_asset_chain_history`. -/
structure AssetTransition (W : Type) where
  blockHash : W
  previousScript : List UInt8
  previousData : Option (List UInt8)
  nextScript : List UInt8
  nextData : Option (List UInt8)
  deriving DecidableEq

/-- A row of `network_member_migrations`, with the peers of both snapshots. -/
structure FinalizedMemberMigration (W : Type) where
  requestHash : W
  blockHeight : ℕ
  blockHash : W
  assetKind : String
  previousScript : List UInt8
  previousData : Option (List UInt8)
  nextScript : List UInt8
  nextData : Option (List UInt8)
  previousMembers : List W
  nextMembers : List W
  deriving DecidableEq

structure PendingChainLock (W Tx : Type) where
  member : W
  amount : ℕ
  blockHeight : ℕ
  transaction : Tx
  deriving DecidableEq

/-- The row of `chain_recovery_state`. -/
structure RecoveryState where
  recovering : Bool
  forkHeight : Option ℕ
  safeHalted : Bool
  haltReason : Option String
  dropletsHalt : Option (ℕ × String)
  deriving DecidableEq

/-- The tables that the indexer writes; `networkAssets` holds the active assets. -/
structure IndexerDb (W Tx : Type) where
  store : MonitoredUtxoStore W
  ledger : DropletStore W Tx
  networkAssets : Table String (NetworkAsset W)
  chainHistory : Table (ℕ × String) (AssetTransition W)
  memberMigrations : Table W (FinalizedMemberMigration W)
  canonicalBlocks : Table ℕ (CanonicalBlock W)
  recoveryLocks : Table W (PendingChainLock W Tx)
  recovery : RecoveryState

inductive IndexerError where
  | database
  | droplets (error : DropletError)
  | rpc
  | missingAsset (kind : String)
  | invalid (reason : String)
  | reorganization (height : ℕ)
  | safetyHalt (reason : String)
  deriving DecidableEq

/-- What the indexer reads in the transactions of a block, and its configuration. -/
structure IndexerRules (W B : Type) where
  indexedStormEyeRenewal : B → NetworkAsset W → Except IndexerError (Option (W × NetworkAsset W))
  issuedUtxos : B → ℕ → NetworkAsset W → List (NetworkAsset W) → Except IndexerError (List (MonitoredUtxo W))
  spentMonitoredOutpoints : B → List (W × ℕ × W)
  verifyInitialMembers : B → NetworkAsset W → List W → Except IndexerError Unit
  treasuryTransactions : B → W → Except IndexerError (List (TreasuryTransaction W))
  tickLifetimeBlocks : ℕ
  initialMembers : List W
  hex : W → String

structure ChainBlock (W B : Type) where
  hash : W
  parentHash : W
  txdata : B

/-- The chain as the Elements node reports it; a missing block is a call that fails. -/
structure ChainView (W B : Type) where
  tip : ℕ
  block : ℕ → Option (ChainBlock W B)

namespace Indexer

def stormEyeKind : String := "storm-eye"
def tickAssetKind : String := "tick-asset"
def oracleVerifierKind : String := "oracle-verifier"
def issuedUtxoRuleSet : String := "issued-utxo-burning-v1"
def dropletsRuleSet : String := "droplets-v1"
def canonicalJournalRetentionBlocks : ℕ := 144

variable {W Tx B : Type}

section Statements

def onStore {A : Type} (prog : Db (MonitoredUtxoStore W) SqlError A) : Db (IndexerDb W Tx) IndexerError A :=
  Db.zoom IndexerDb.store (fun store db => { db with store := store }) (fun _ => .database) prog

def onLedger {A : Type} (prog : Db (DropletStore W Tx) DropletError A) : Db (IndexerDb W Tx) DropletError A :=
  Db.zoom IndexerDb.ledger (fun ledger db => { db with ledger := ledger }) id prog

def encodeU64 (value : ℕ) : Db (IndexerDb W Tx) IndexerError ℕ :=
  if value < 2 ^ 63 then pure value else throw .database

/-- `index_storm_eye_renewal_in`, of a renewal and of a replayed member migration. -/
def indexStormEyeRenewalIn (current renewed : NetworkAsset W) : Db (IndexerDb W Tx) IndexerError Bool := do
  let db ← get
  match db.networkAssets.lookup stormEyeKind with
  | none => pure false
  | some row =>
    if row.contractScript = current.contractScript ∧ row.contractData = current.contractData then do
      let row := { row with contractScript := renewed.contractScript, contractData := renewed.contractData }
      set { db with networkAssets := db.networkAssets.insert stormEyeKind row }
      pure true
    else pure false

def recordAssetTransition (block : CanonicalBlock W) (current renewed : NetworkAsset W) :
    Db (IndexerDb W Tx) IndexerError Unit := do
  let height ← encodeU64 block.height
  let db ← get
  -- The primary key of `network_asset_chain_history`.
  if (height, current.kind) ∈ db.chainHistory then throw .database
  else set { db with
    chainHistory := db.chainHistory.insert (height, current.kind)
      ⟨block.hash, current.contractScript, current.contractData, renewed.contractScript, renewed.contractData⟩ }

def haltLedgerIn (height : ℕ) (reason : String) : Db (IndexerDb W Tx) IndexerError Unit := do
  let height ← encodeU64 height
  modify fun db => { db with recovery := { db.recovery with dropletsHalt := some (height, reason) } }

def recordBlock [DecidableEq W] (block : CanonicalBlock W) : Db (IndexerDb W Tx) IndexerError Unit := do
  let height ← encodeU64 block.height
  let db ← get
  -- The primary key of `canonical_blocks`, and its unique hashes.
  if height ∈ db.canonicalBlocks ∨ db.canonicalBlocks.entries.any fun entry => entry.2.hash = block.hash then
    throw .database
  else
    let firstRetained := block.height + 1 - canonicalJournalRetentionBlocks
    set { db with
      canonicalBlocks := Table.filterRows (fun height _ => firstRetained ≤ height)
        (db.canonicalBlocks.insert height block) }

end Statements

section Block

/-- The variables of the indexing loop. -/
structure Loop (W : Type) where
  stormEye : NetworkAsset W
  activeMembers : List W
  dropletsHeight : Option ℕ
  previousHash : Option W

/-- What one turn of the loop reads before it writes. -/
structure Reading (W : Type) where
  block : CanonicalBlock W
  renewed : Option (NetworkAsset W)
  memberMigration : Option (FinalizedMemberMigration W)
  migrated : Option (NetworkAsset W)
  issued : Option (List (MonitoredUtxo W) × List (W × ℕ × W))
  treasuryTransactions : Option (List (TreasuryTransaction W))

def Reading.indexedBlock (reading : Reading W) : IndexedBlock W := ⟨reading.block.height, reading.block.hash⟩

def requireParentHash [DecidableEq W] (expectedParent : Option W) (actualParent : W) (height : ℕ) :
    Except IndexerError Unit :=
  if expectedParent.any fun expected => expected ≠ actualParent then throw (.reorganization height) else pure ()

/-- The Storm Eye after a member migration that is replayed on it. -/
def migratedStormEye (stormEye : NetworkAsset W) (migration : FinalizedMemberMigration W) :
    Except IndexerError (NetworkAsset W) :=
  if migration.assetKind ≠ stormEye.kind ∨ migration.previousScript ≠ stormEye.contractScript ∨
      migration.previousData ≠ stormEye.contractData then
    throw (.invalid "member migration does not match replayed Storm Eye state")
  else pure { stormEye with contractScript := migration.nextScript, contractData := migration.nextData }

/-- What a sync knows before it indexes blocks. -/
structure Context (W B : Type) where
  rules : IndexerRules W B
  view : ChainView W B
  memberMigrations : List (FinalizedMemberMigration W)
  issuedAssets : List (NetworkAsset W)
  treasuryAsset : W
  issuedHeight : ℕ

def getBlock (view : ChainView W B) (height : ℕ) : Except IndexerError (ChainBlock W B) :=
  match view.block height with
  | some block => pure block
  | none => throw .rpc

variable [DecidableEq W]

/-- The issued and spent outputs of a block that is not indexed yet. -/
def readIssued (context : Context W B) (height : ℕ) (txdata : B) (blockStormEye : NetworkAsset W) :
    Except IndexerError (Option (List (MonitoredUtxo W) × List (W × ℕ × W))) :=
  if context.issuedHeight ≤ height then do
    let issued ← context.rules.issuedUtxos txdata height blockStormEye context.issuedAssets
    pure (some (issued, context.rules.spentMonitoredOutpoints txdata))
  else pure none

/-- The Treasury transactions of a block that the ledger has not accounted. -/
def readTreasury (context : Context W B) (loop : Loop W) (height : ℕ) (txdata : B) (blockStormEye : NetworkAsset W) :
    Except IndexerError (Option (List (TreasuryTransaction W))) :=
  if loop.dropletsHeight.any fun start => start ≤ height then do
    context.rules.verifyInitialMembers txdata blockStormEye loop.activeMembers
    let treasuryTransactions ← context.rules.treasuryTransactions txdata context.treasuryAsset
    pure (some treasuryTransactions)
  else pure none

def readBlock (context : Context W B) (loop : Loop W) (height : ℕ) : Except IndexerError (Reading W) := do
  let block ← getBlock context.view height
  requireParentHash loop.previousHash block.parentHash height
  let renewal ← context.rules.indexedStormEyeRenewal block.txdata loop.stormEye
  let memberMigration := context.memberMigrations.find? fun migration => migration.blockHeight = height
  if renewal.isSome && memberMigration.isSome then
    throw (.invalid "Storm Eye renewal and member migration share one block")
  else
    let migrated ← memberMigration.mapM (migratedStormEye loop.stormEye)
    let renewed := renewal.map Prod.snd
    let blockStormEye := renewed.getD loop.stormEye
    let issued ← readIssued context height block.txdata blockStormEye
    let treasuryTransactions ← readTreasury context loop height block.txdata blockStormEye
    pure ⟨⟨height, block.hash, block.parentHash⟩, renewed, memberMigration, migrated, issued, treasuryTransactions⟩

/-- A renewal in the transaction of a block. -/
def writeRenewal (loop : Loop W) (reading : Reading W) : Db (IndexerDb W Tx) IndexerError Unit :=
  match reading.renewed with
  | none => pure ()
  | some renewed => do
    let updated ← indexStormEyeRenewalIn loop.stormEye renewed
    if updated then recordAssetTransition reading.block loop.stormEye renewed
    else throw (.invalid "indexed Storm Eye renewal does not match active state")

/-- A member migration in the transaction of a block. -/
def writeMigrated (loop : Loop W) (reading : Reading W) : Db (IndexerDb W Tx) IndexerError Unit :=
  match reading.migrated with
  | none => pure ()
  | some migrated => do
    let updated ← indexStormEyeRenewalIn loop.stormEye migrated
    if updated then pure ()
    else throw (.invalid "replayed member migration does not match active state")

/-- The issued outputs in the transaction of a block. -/
def writeIssued (rules : IndexerRules W B) (reading : Reading W) : Db (IndexerDb W Tx) IndexerError Unit :=
  match reading.issued with
  | none => pure ()
  | some (issued, spent) => onStore do
    let _ ← MonitoredUtxoStore.applyBlockIn reading.indexedBlock issued spent rules.tickLifetimeBlocks
    MonitoredUtxoStore.recordCursor issuedUtxoRuleSet reading.indexedBlock

/-- What a block writes before the ledger. -/
def writeAssets (rules : IndexerRules W B) (loop : Loop W) (reading : Reading W) :
    Db (IndexerDb W Tx) IndexerError Unit := do
  writeRenewal loop reading
  writeMigrated loop reading
  writeIssued rules reading

end Block

section Sync

variable [LinearOrder W]

/-- The ledger in the transaction of a block; the reason when the ledger is halted. -/
def writeLedger (loop : Loop W) (reading : Reading W) : Db (IndexerDb W Tx) IndexerError Bool :=
  match reading.treasuryTransactions with
  | none => pure false
  | some treasuryTransactions => do
    let applied ← Db.attempt (onLedger
      (DropletStore.applyBlockIn reading.block.height treasuryTransactions loop.activeMembers))
    match applied with
    | .ok _ => do
      onStore (MonitoredUtxoStore.recordCursor dropletsRuleSet reading.indexedBlock)
      pure false
    | .error (.invalid reason) => do
      haltLedgerIn reading.block.height reason
      pure true
    | .error .database => throw (.droplets .database)

def writeBlock (rules : IndexerRules W B) (loop : Loop W) (reading : Reading W) :
    Db (IndexerDb W Tx) IndexerError Bool := do
  writeAssets rules loop reading
  let halted ← writeLedger loop reading
  recordBlock reading.block
  pure halted

/-- The variables of the loop after a block. -/
def Loop.next (loop : Loop W) (reading : Reading W) (halted : Bool) : Loop W where
  stormEye := reading.migrated.getD (reading.renewed.getD loop.stormEye)
  activeMembers := (reading.memberMigration.map FinalizedMemberMigration.nextMembers).getD loop.activeMembers
  dropletsHeight := if halted then none else loop.dropletsHeight
  previousHash := some reading.block.hash

/-- One turn of the indexing loop. -/
def indexBlock (context : Context W B) (loop : Loop W) (height : ℕ) : Db (IndexerDb W Tx) IndexerError (Loop W) := do
  let reading ← Db.check (readBlock context loop height)
  let halted ← (writeBlock context.rules loop reading).atomic
  pure (loop.next reading halted)

def indexBlocks (context : Context W B) (loop : Loop W) (heights : List ℕ) :
    Db (IndexerDb W Tx) IndexerError (Loop W) :=
  heights.foldlM (indexBlock context) loop

def blockHash (view : ChainView W B) (height : ℕ) : Except IndexerError W := ChainBlock.hash <$> getBlock view height

def getAsset (kind : String) : Db (IndexerDb W Tx) IndexerError (NetworkAsset W) := do
  let db ← get
  match db.networkAssets.lookup kind with
  | some asset => pure asset
  | none => throw (.missingAsset kind)

/-- `ORDER BY block_height, request_hash`. -/
def finalizedMemberMigrations (db : IndexerDb W Tx) : List (FinalizedMemberMigration W) :=
  (db.memberMigrations.entries.map Sigma.snd).mergeSort fun a b =>
    decide (a.blockHeight < b.blockHeight ∨ (a.blockHeight = b.blockHeight ∧ a.requestHash ≤ b.requestHash))

def blocksDescending (db : IndexerDb W Tx) : List (CanonicalBlock W) :=
  (db.canonicalBlocks.entries.map Sigma.snd).mergeSort fun a b => decide (b.height ≤ a.height)

def cursor (ruleSet : String) (db : IndexerDb W Tx) : Option (IndexedBlock W) := db.store.indexerCursors.lookup ruleSet

def safeHalt (reason : String) : Db (IndexerDb W Tx) IndexerError Unit :=
  modify fun db => { db with recovery := { db.recovery with recovering := true, safeHalted := true, haltReason := some reason } }

/-- A finalized member migration has to be on the chain. -/
def checkMemberMigration (rules : IndexerRules W B) (view : ChainView W B) (migration : FinalizedMemberMigration W) :
    Db (IndexerDb W Tx) IndexerError Unit := do
  if migration.blockHeight > view.tip then throw (.reorganization migration.blockHeight)
  else
    let hash ← Db.check (blockHash view migration.blockHeight)
    if hash ≠ migration.blockHash then do
      let reason := s!"finalized member migration {rules.hex migration.requestHash} at block " ++
        s!"{migration.blockHeight} is no longer canonical"
      safeHalt reason
      throw (.safetyHalt reason)
    else pure ()

def journalMismatch (view : ChainView W B) (journal : List (CanonicalBlock W)) : Except IndexerError Bool :=
  match journal.head? with
  | none => pure false
  | some journalTip =>
    if journalTip.height > view.tip then pure true
    else do
      let hash ← blockHash view journalTip.height
      pure (hash ≠ journalTip.hash)

/-- The loop over the cursors that are set stops at the first mismatch. -/
def cursorMismatch (view : ChainView W B) : List (IndexedBlock W) → Except IndexerError Bool
  | [] => pure false
  | cursor :: cursors =>
    if cursor.height > view.tip then pure true
    else do
      let hash ← blockHash view cursor.height
      if hash ≠ cursor.hash then pure true else cursorMismatch view cursors

def memberMigrationRequiresReplay (stormEye : NetworkAsset W) (migrations : List (FinalizedMemberMigration W))
    (issuedCursor dropletsCursor : Option ℕ) (dropletsHalted : Bool) : Bool :=
  migrations.any fun migration =>
    migration.assetKind = stormEye.kind && migration.nextScript = stormEye.contractScript &&
      migration.nextData = stormEye.contractData &&
      (issuedCursor.all (fun height => height < migration.blockHeight) ||
        (!dropletsHalted && dropletsCursor.all fun height => height < migration.blockHeight))

/-- Whether a sync rebuilds everything from the start. -/
def requiresRecovery (view : ChainView W B) (stormEye : NetworkAsset W) (db : IndexerDb W Tx) : Except IndexerError Bool := do
  let journal := blocksDescending db
  let issuedCursor := cursor issuedUtxoRuleSet db
  let dropletsCursor := cursor dropletsRuleSet db
  let missingJournal := journal.isEmpty && (issuedCursor.isSome || dropletsCursor.isSome)
  let journalMismatch ← journalMismatch view journal
  let cursorMismatch ← cursorMismatch view (issuedCursor.toList ++ dropletsCursor.toList)
  let migrationAheadOfCursor := memberMigrationRequiresReplay stormEye (finalizedMemberMigrations db)
    (issuedCursor.map IndexedBlock.height) (dropletsCursor.map IndexedBlock.height) db.recovery.dropletsHalt.isSome
  pure (db.recovery.recovering || missingJournal || journalMismatch || cursorMismatch || migrationAheadOfCursor)

/-- The highest journaled block that is still on the chain. -/
def commonAncestor (view : ChainView W B) : List (CanonicalBlock W) → Except IndexerError (Option ℕ)
  | [] => pure none
  | block :: journal =>
    if block.height ≤ view.tip then do
      let hash ← blockHash view block.height
      if hash = block.hash then pure (some block.height) else commonAncestor view journal
    else commonAncestor view journal

def setRecovering (forkHeight : ℕ) : Db (IndexerDb W Tx) IndexerError Unit := do
  let forkHeight ← encodeU64 forkHeight
  modify fun db => { db with recovery := { db.recovery with recovering := true, forkHeight := some forkHeight } }

/-- The locks that are held join those of an earlier recovery, which stay as they are. -/
def savedLocks (db : IndexerDb W Tx) : Table W (PendingChainLock W Tx) :=
  db.ledger.droplets.entries.foldl
    (fun locks entry =>
      match entry.2.exchangeLocked, entry.2.lastTx with
      | true, some transaction =>
        if entry.1 ∈ locks then locks
        else locks.insert entry.1 ⟨entry.1, entry.2.exchangeAmount, entry.2.blockHeight, transaction⟩
      | _, _ => locks)
    db.recoveryLocks

/-- Where an asset was before a transition of the chain. -/
structure PreviousState where
  blockHeight : ℕ
  assetKind : String
  previousScript : List UInt8
  previousData : Option (List UInt8)

def AssetTransition.previous (key : ℕ × String) (transition : AssetTransition W) : PreviousState :=
  ⟨key.1, key.2, transition.previousScript, transition.previousData⟩

def FinalizedMemberMigration.previous (migration : FinalizedMemberMigration W) : PreviousState :=
  ⟨migration.blockHeight, migration.assetKind, migration.previousScript, migration.previousData⟩

/-- Renewals and member migrations, `ORDER BY block_height DESC`; the order at one height is open. -/
def transitions (db : IndexerDb W Tx) : List PreviousState :=
  (db.chainHistory.entries.map (fun entry => AssetTransition.previous entry.1 entry.2) ++
    db.memberMigrations.entries.map fun entry => FinalizedMemberMigration.previous entry.2).mergeSort
    fun a b => decide (b.blockHeight ≤ a.blockHeight)

def undoTransition (networkAssets : Table String (NetworkAsset W)) (transition : PreviousState) :
    Table String (NetworkAsset W) :=
  Table.mapRows
    (fun kind row =>
      if kind = transition.assetKind then
        { row with contractScript := transition.previousScript, contractData := transition.previousData }
      else row)
    networkAssets

/-- The pending locks, `ORDER BY xonly_pubkey`. -/
def pendingLocks (locks : Table W (PendingChainLock W Tx)) : List (PendingChainLock W Tx) :=
  (locks.entries.map Sigma.snd).mergeSort fun a b => decide (a.member ≤ b.member)

def resetProjections : Db (IndexerDb W Tx) IndexerError (List (PendingChainLock W Tx)) := do
  let db ← get
  let locks := savedLocks db
  set ({ store := .empty
         ledger := .empty
         networkAssets := (transitions db).foldl undoTransition db.networkAssets
         chainHistory := ∅
         memberMigrations := db.memberMigrations
         canonicalBlocks := ∅
         recoveryLocks := locks
         recovery := { db.recovery with dropletsHalt := none } } : IndexerDb W Tx)
  pure (pendingLocks locks)

/-- The locks of an interrupted or finished rebuild, when a sync rebuilds. -/
def startRecovery (view : ChainView W B) : Db (IndexerDb W Tx) IndexerError (List (PendingChainLock W Tx)) := do
  let db ← get
  let ancestor ← Db.check (commonAncestor view (blocksDescending db))
  setRecovering (match ancestor with
    | none => 0
    | some height => height + 1)
  resetProjections

/-- The members before the block at `height`. -/
def membersBefore (initialMembers : List W) (migrations : List (FinalizedMemberMigration W)) (height : ℕ) : List W :=
  (migrations.filter fun migration => migration.blockHeight < height).foldl
    (fun _ migration => migration.nextMembers)
    ((migrations.head?.map FinalizedMemberMigration.previousMembers).getD initialMembers)

def nextHeight (cursor : Option (IndexedBlock W)) (createdAtBlock : ℕ) : ℕ :=
  (cursor.map fun block => block.height + 1).getD createdAtBlock

/-- Where the indexing of a sync starts. -/
structure Start (W B : Type) where
  context : Context W B
  loop : Loop W
  firstHeight : ℕ

def start (rules : IndexerRules W B) (view : ChainView W B) (stormEye tickAsset verifierAsset : NetworkAsset W)
    (recovering : Bool) (db : IndexerDb W Tx) : Start W B :=
  let migrations := finalizedMemberMigrations db
  let issuedHeight := nextHeight (cursor issuedUtxoRuleSet db) tickAsset.createdAtBlock
  -- A halted ledger stops Droplets accounting only; vouchers keep being indexed.
  let dropletsHeight :=
    if db.recovery.dropletsHalt.isSome then none
    else some (nextHeight (cursor dropletsRuleSet db) stormEye.createdAtBlock)
  let firstHeight := (dropletsHeight.map fun height => min height issuedHeight).getD issuedHeight
  { context := ⟨rules, view, migrations, [tickAsset, verifierAsset], stormEye.assetId, issuedHeight⟩
    loop := ⟨stormEye, membersBefore rules.initialMembers migrations firstHeight, dropletsHeight,
      if recovering then none else (blocksDescending db).head?.map CanonicalBlock.hash⟩
    firstHeight := firstHeight }

variable [DecidableEq Tx]

/-- A lock after the rebuild; one that cannot be restored is only logged. -/
def restoreLock (lock : PendingChainLock W Tx) : Db (IndexerDb W Tx) IndexerError Unit :=
  Db.zoom IndexerDb.ledger (fun ledger db => { db with ledger := ledger }) (fun _ => .database) (do
    let _ ← (DropletStore.lockExchange lock.member lock.amount lock.blockHeight lock.transaction).atomic)

def finishRecovery : Db (IndexerDb W Tx) IndexerError Unit :=
  modify fun db => { db with
    recoveryLocks := ∅
    recovery := { db.recovery with recovering := false, forkHeight := none } }

/-- `Indexer::sync` on the chain of `view`; `current` is the chain when it ends. -/
def sync (rules : IndexerRules W B) (view current : ChainView W B) : Db (IndexerDb W Tx) IndexerError ℕ := do
  let stormEye ← getAsset stormEyeKind
  let tickAsset ← getAsset tickAssetKind
  let verifierAsset ← getAsset oracleVerifierKind
  let targetTipHash ← Db.check (blockHash view view.tip)
  let db ← get
  if db.recovery.safeHalted then
    throw (.safetyHalt (db.recovery.haltReason.getD "persisted chain safety halt"))
  else
    (finalizedMemberMigrations db).forM (checkMemberMigration rules view)
    let recovering ← Db.check (requiresRecovery view stormEye db)
    let recoveredLocks ← if recovering then startRecovery view else pure []
    let stormEye ← if recovering then getAsset stormEyeKind else pure stormEye
    let db ← get
    let start := start rules view stormEye tickAsset verifierAsset recovering db
    let heights := List.range' start.firstHeight (view.tip + 1 - start.firstHeight)
    let _ ← indexBlocks start.context start.loop heights
    let currentTargetHash ← Db.check (blockHash current view.tip)
    if current.tip < view.tip ∨ currentTargetHash ≠ targetTipHash then throw (.reorganization view.tip)
    else
      if recovering then do
        recoveredLocks.forM restoreLock
        finishRecovery
      else pure ()
      pure heights.length

end Sync

end Indexer

end PriceOracle
