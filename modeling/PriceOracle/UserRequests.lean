import Mathlib.Data.List.Sort
import PriceOracle.Database
import PriceOracle.MonitoredUtxos
import PriceOracle.Table

/-!
# Stored user requests

`db/user_request.rs`: the batches that wait to be issued and the fee UTXOs that they
reserve. Hashes are of type `W`.
-/

namespace PriceOracle

inductive UserRequestStatus where
  | pending
  | processing
  | included
  | executed
  | failed
  deriving DecidableEq

/-- A row of `network_user_requests`. -/
structure StoredUserRequest (W : Type) where
  request : List UInt8
  blockHeight : ℕ
  status : UserRequestStatus
  payload : Option (List UInt8)
  executionTx : Option (List UInt8)
  includedAtBlock : Option ℕ
  includedBlockHash : Option W
  deriving DecidableEq

structure FeeUtxo (W : Type) where
  txid : W
  outputIndex : ℕ
  deriving DecidableEq

inductive InsertPendingResult (W : Type) where
  | inserted
  | requestExists
  | feeUtxoReserved (feeUtxo : FeeUtxo W)
  deriving DecidableEq

/-- What rolls the transaction of a new request back. -/
inductive InsertConflict (W : Type) where
  | requestHash
  | feeUtxo (feeUtxo : FeeUtxo W)

def InsertConflict.result {W : Type} : InsertConflict W → InsertPendingResult W
  | .requestHash => .requestExists
  | .feeUtxo utxo => .feeUtxoReserved utxo

structure UserRequestStore (W : Type) where
  requests : Table W (StoredUserRequest W)
  feeUtxos : Table (FeeUtxo W) W

namespace UserRequestStore

variable {W : Type}

def empty : UserRequestStore W := ⟨∅, ∅⟩

def encodeHeight (value : ℕ) : Db (UserRequestStore W) SqlError ℕ :=
  if value < 2 ^ 63 then pure value else throw .encode

variable [DecidableEq W]

/-- `ON CONFLICT (request_hash) DO NOTHING`; whether the row is new. -/
def insertRequest (requestHash : W) (row : StoredUserRequest W) (store : UserRequestStore W) :
    Bool × UserRequestStore W :=
  if requestHash ∈ store.requests then (false, store)
  else (true, { store with requests := store.requests.insert requestHash row })

/-- `ON CONFLICT (txid, output_index) DO NOTHING`; whether the row is new. -/
def insertFeeUtxo (feeUtxo : FeeUtxo W) (requestHash : W) (store : UserRequestStore W) : Bool × UserRequestStore W :=
  if feeUtxo ∈ store.feeUtxos then (false, store)
  else (true, { store with feeUtxos := store.feeUtxos.insert feeUtxo requestHash })

/-- The new row, in a transaction that a conflict rolls back. -/
def insertPendingRow (requestHash : W) (request : List UInt8) (blockHeight : ℕ) :
    Db (UserRequestStore W) (InsertConflict W) Unit := do
  let store ← get
  let (inserted, store) := insertRequest requestHash ⟨request, blockHeight, .pending, none, none, none, none⟩ store
  if inserted then set store else throw .requestHash

def reserveFeeUtxo (requestHash : W) (feeUtxo : FeeUtxo W) :
    Db (UserRequestStore W) (InsertConflict W) Unit := do
  let store ← get
  let (inserted, store) := insertFeeUtxo feeUtxo requestHash store
  if inserted then set store else throw (.feeUtxo feeUtxo)

def insertPending (requestHash : W) (request : List UInt8) (blockHeight : ℕ) (feeUtxos : List (FeeUtxo W)) :
    Db (UserRequestStore W) SqlError (InsertPendingResult W) := do
  let blockHeight ← encodeHeight blockHeight
  let transaction ← Db.attempt (do
    insertPendingRow requestHash request blockHeight
    feeUtxos.forM (reserveFeeUtxo requestHash))
  match transaction with
  | .ok _ => pure .inserted
  | .error conflict => pure conflict.result

def observeProcessing (requestHash : W) (request : List UInt8) (blockHeight : ℕ) (payload : List UInt8) :
    Db (UserRequestStore W) SqlError Unit := do
  let blockHeight ← encodeHeight blockHeight
  modify fun store =>
    (insertRequest requestHash ⟨request, blockHeight, .processing, some payload, none, none, none⟩ store).2

/-- `UPDATE … WHERE request_hash = $1 AND status IN …`; whether there was such a row. -/
def updateRequest (requestHash : W) (statuses : List UserRequestStatus)
    (change : StoredUserRequest W → StoredUserRequest W) : Db (UserRequestStore W) SqlError Bool := do
  let store ← get
  match store.requests.lookup requestHash with
  | some row =>
    if row.status ∈ statuses then do
      set { store with requests := store.requests.insert requestHash (change row) }
      pure true
    else pure false
  | none => pure false

def markProcessing (requestHash : W) (payload executionTx : List UInt8) : Db (UserRequestStore W) SqlError Bool :=
  updateRequest requestHash [.pending] fun row =>
    { row with status := .processing, payload := some payload, executionTx := some executionTx }

def markIncluded (requestHash : W) (blockHeight : ℕ) (blockHash : W) : Db (UserRequestStore W) SqlError Bool := do
  let blockHeight ← encodeHeight blockHeight
  updateRequest requestHash [.processing, .included] fun row =>
    { row with status := .included, includedAtBlock := some blockHeight, includedBlockHash := some blockHash }

def markOrphaned (requestHash : W) : Db (UserRequestStore W) SqlError Bool :=
  updateRequest requestHash [.included] fun row =>
    { row with status := .processing, includedAtBlock := none, includedBlockHash := none }

/-- `DELETE FROM network_user_request_fee_utxos WHERE request_hash = $1`. -/
def releaseFeeUtxos (requestHash : W) (store : UserRequestStore W) : UserRequestStore W :=
  { store with feeUtxos := Table.filterRows (fun _ owner => owner ≠ requestHash) store.feeUtxos }

/-- An update that ends a request, with the reservations that it releases. -/
def endRequest (requestHash : W) (statuses : List UserRequestStatus)
    (change : StoredUserRequest W → StoredUserRequest W) : Db (UserRequestStore W) SqlError Bool := do
  let updated ← updateRequest requestHash statuses change
  if updated then do
    modify (releaseFeeUtxos requestHash)
    pure true
  else pure false

def markExecuted (requestHash : W) : Db (UserRequestStore W) SqlError Bool :=
  endRequest requestHash [.included] fun row => { row with status := .executed }

def markFailed (requestHash : W) (reason : List UInt8) : Db (UserRequestStore W) SqlError Bool :=
  endRequest requestHash [.pending] fun row => { row with status := .failed, payload := some reason }

section Listing

variable [LinearOrder W]

/-- The pending requests past the cursor, by height and hash, and at most `limit` of them. -/
def listPendingAfter (limit : ℕ) (cursor : Option (ℕ × W)) :
    Db (UserRequestStore W) SqlError (List (W × StoredUserRequest W)) := do
  match cursor with
  | some (height, _) => do
    let _ ← encodeHeight height
    pure ()
  | none => pure ()
  let store ← get
  let past (row : W × StoredUserRequest W) : Bool :=
    cursor.all fun (height, hash) => height < row.2.blockHeight ∨ (row.2.blockHeight = height ∧ hash < row.1)
  let pending := (store.requests.entries.map fun row => (row.1, row.2)).filter fun row =>
    row.2.status = .pending ∧ past row
  pure ((pending.insertionSort fun a b =>
    a.2.blockHeight < b.2.blockHeight ∨ (a.2.blockHeight = b.2.blockHeight ∧ a.1 ≤ b.1)).take limit)

end Listing

end UserRequestStore

end PriceOracle
