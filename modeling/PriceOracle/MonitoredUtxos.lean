import PriceOracle.Database
import PriceOracle.Table
import PriceOracle.MapKeys

/-!
# Monitored UTXOs

`db/monitored_utxo.rs`: the vouchers that were issued and are not spent, each with the
reserve UTXO that pays for its burn. Hashes and keys are of type `W`; a number that does
not fit a `bigint`, and a sum that leaves it, fails its statement.
-/

namespace PriceOracle

inductive SqlError where
  | encode
  | database

structure IndexedBlock (W : Type) where
  height : ℕ
  hash : W
  deriving DecidableEq

inductive MonitoredStatus where
  | active
  | expired
  | burning
  | unburnable
  deriving DecidableEq

/-- A row of `monitored_utxos`. -/
structure MonitoredUtxo (W : Type) where
  txid : W
  outputIndex : ℕ
  assetKind : String
  amount : ℕ
  scriptPubkey : List UInt8
  authMethod : String
  authData : List UInt8
  accountOwnerPubkey : W
  internalKey : Option W
  burningFeeTxid : W
  burningFeeOutputIndex : ℕ
  blockHeight : ℕ
  status : MonitoredStatus
  statusBlockHeight : ℕ
  burnTxid : Option W
  deriving DecidableEq

structure MonitoredUtxoStore (W : Type) where
  monitoredUtxos : Table (W × ℕ) (MonitoredUtxo W)
  indexerCursors : Table String (IndexedBlock W)

namespace MonitoredUtxo

variable {W : Type}

def outpoint (utxo : MonitoredUtxo W) : W × ℕ := (utxo.txid, utxo.outputIndex)

def burningFee (utxo : MonitoredUtxo W) : W × ℕ := (utxo.burningFeeTxid, utxo.burningFeeOutputIndex)

/-- The row that an issued output gets. -/
def issuedRow (utxo : MonitoredUtxo W) : MonitoredUtxo W :=
  { utxo with status := .active, statusBlockHeight := utxo.blockHeight, burnTxid := none }

def expiredRow (height : ℕ) (row : MonitoredUtxo W) : MonitoredUtxo W :=
  { row with status := .expired, statusBlockHeight := height }

def releasedRow (height : ℕ) (row : MonitoredUtxo W) : MonitoredUtxo W :=
  { row with status := .expired, statusBlockHeight := height, burnTxid := none }

def burningRow (burnTxid : W) (height : ℕ) (row : MonitoredUtxo W) : MonitoredUtxo W :=
  { row with status := .burning, statusBlockHeight := height, burnTxid := some burnTxid }

def unburnableRow (height : ℕ) (row : MonitoredUtxo W) : MonitoredUtxo W :=
  { row with status := .unburnable, statusBlockHeight := height, burnTxid := none }

/-- `status IN ('active', 'expired', 'burning')`. -/
def holdsReserve (row : MonitoredUtxo W) : Bool :=
  match row.status with
  | .active | .expired | .burning => true
  | .unburnable => false

end MonitoredUtxo

namespace MonitoredUtxoStore

variable {W : Type}

def empty : MonitoredUtxoStore W := ⟨∅, ∅⟩

def burningBlocks : ℕ := 5

def encodeU64 {S : Type} (value : ℕ) : Db S SqlError ℕ :=
  if value < 2 ^ 63 then pure value else throw .encode

/-- `UPDATE monitored_utxos SET .. WHERE ..`, with the number of rows affected. -/
def updateRows (condition : W × ℕ → MonitoredUtxo W → Bool) (change : MonitoredUtxo W → MonitoredUtxo W) :
    Db (MonitoredUtxoStore W) SqlError ℕ := do
  let store ← get
  set { store with
    monitoredUtxos := Table.mapRows (fun k row => if condition k row then change row else row) store.monitoredUtxos }
  pure (Table.countRows condition store.monitoredUtxos)

/-- The `UPDATE` of the rows of one status whose time is up. -/
def updateOverdue (status : MonitoredStatus) (since : MonitoredUtxo W → ℕ) (blocks height : ℕ)
    (change : MonitoredUtxo W → MonitoredUtxo W) : Db (MonitoredUtxoStore W) SqlError ℕ := do
  let height ← encodeU64 height
  let blocks ← encodeU64 blocks
  let store ← get
  if store.monitoredUtxos.entries.any fun entry => entry.2.status = status && 2 ^ 63 ≤ since entry.2 + blocks then
    throw .database
  else updateRows (fun _ row => row.status = status && since row + blocks ≤ height) change

/-- Updates of single rows in a transaction that is rolled back when one of them affects no row. -/
def updateEach (update : W × ℕ → Db (MonitoredUtxoStore W) SqlError ℕ) (utxos : List (W × ℕ)) :
    Db (MonitoredUtxoStore W) SqlError ℕ := do
  let before ← get
  loop before utxos 0
where
  loop (before : MonitoredUtxoStore W) : List (W × ℕ) → ℕ → Db (MonitoredUtxoStore W) SqlError ℕ
    | [], updated => pure updated
    | utxo :: utxos, updated => do
      let affected ← update utxo
      if affected ≠ 1 then do
        set before
        pure 0
      else loop before utxos (updated + affected)

variable [DecidableEq W]

def insertIssued (utxo : MonitoredUtxo W) : Db (MonitoredUtxoStore W) SqlError Unit := do
  let _ ← encodeU64 utxo.amount
  let _ ← encodeU64 utxo.blockHeight
  let store ← get
  if utxo.outpoint ∈ store.monitoredUtxos then pure ()
  else set { store with monitoredUtxos := store.monitoredUtxos.insert utxo.outpoint utxo.issuedRow }

/-- A spent outpoint, with the transaction that spent it. -/
def deleteSpent (spent : W × ℕ × W) : Db (MonitoredUtxoStore W) SqlError Unit :=
  modify fun store => { store with monitoredUtxos := store.monitoredUtxos.erase (spent.1, spent.2.1) }

def applyBlockIn (block : IndexedBlock W) (issued : List (MonitoredUtxo W)) (spent : List (W × ℕ × W))
    (activeBlocks : ℕ) : Db (MonitoredUtxoStore W) SqlError ℕ := do
  issued.forM insertIssued
  spent.forM deleteSpent
  let _ ← updateOverdue .active MonitoredUtxo.blockHeight activeBlocks block.height
    (MonitoredUtxo.expiredRow block.height)
  updateOverdue .burning MonitoredUtxo.statusBlockHeight burningBlocks block.height
    (MonitoredUtxo.releasedRow block.height)

def recordCursor (ruleSet : String) (block : IndexedBlock W) : Db (MonitoredUtxoStore W) SqlError Unit := do
  let _ ← encodeU64 block.height
  modify fun store => { store with indexerCursors := store.indexerCursors.insert ruleSet block }

def applyBlock (ruleSet : String) (block : IndexedBlock W) (issued : List (MonitoredUtxo W))
    (spent : List (W × ℕ × W)) (activeBlocks : ℕ) : Db (MonitoredUtxoStore W) SqlError Unit := do
  let _ ← applyBlockIn block issued spent activeBlocks
  recordCursor ruleSet block

def markBurning (utxos : List (W × ℕ)) (burnTxid : W) (blockHeight : ℕ) : Db (MonitoredUtxoStore W) SqlError ℕ :=
  updateEach
    (fun utxo => do
      let height ← encodeU64 blockHeight
      updateRows
        (fun k row => decide (k = utxo) &&
          (row.status = .expired || (row.status = .burning && row.burnTxid = some burnTxid)))
        (MonitoredUtxo.burningRow burnTxid height))
    utxos

def releaseBurning (burnTxid : W) (blockHeight : ℕ) : Db (MonitoredUtxoStore W) SqlError ℕ := do
  let height ← encodeU64 blockHeight
  updateRows (fun _ row => row.status = .burning && row.burnTxid = some burnTxid)
    (MonitoredUtxo.releasedRow height)

def quarantineUnburnable (utxos : List (W × ℕ)) (blockHeight : ℕ) : Db (MonitoredUtxoStore W) SqlError ℕ :=
  updateEach
    (fun utxo => do
      let height ← encodeU64 blockHeight
      updateRows (fun k row => decide (k = utxo) && row.status = .expired) (MonitoredUtxo.unburnableRow height))
    utxos

def isReservedForBurning (store : MonitoredUtxoStore W) (txid : W) (outputIndex : ℕ) : Bool :=
  store.monitoredUtxos.entries.any fun entry =>
    entry.2.burningFeeTxid = txid && entry.2.burningFeeOutputIndex = outputIndex && entry.2.holdsReserve

/-- `isReservedForBurning` of several outpoints, in one query. -/
def burningReservations (store : MonitoredUtxoStore W) (outpoints : List (W × ℕ)) : List Bool :=
  let reserved := outpoints.filter fun requested =>
    store.monitoredUtxos.entries.any fun entry => entry.2.burningFee = requested && entry.2.holdsReserve
  outpoints.map fun outpoint => decide (outpoint ∈ reserved)

end MonitoredUtxoStore

end PriceOracle
