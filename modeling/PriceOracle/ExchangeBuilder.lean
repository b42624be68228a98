import PriceOracle.Assets
import PriceOracle.ContractUtxos
import PriceOracle.ExchangeAgreement

/-!
# The exchange a member asks for

`droplets.rs` from the amount and the address that a member gives to the exchange in its queue: the Treasury outputs
that pay for it, its transaction, and the checks of a node. How an address is written is a parameter; its script is the
one of its payload.
-/

namespace PriceOracle

/-- `elements::address::Payload` -/
inductive AddressPayload where
  | pubkeyHash (hash : Vector UInt8 20)
  | scriptHash (hash : Vector UInt8 20)
  | witnessProgram (version : Fin 17) (program : List UInt8)
  deriving DecidableEq

inductive AddressParams where
  | liquid
  | liquidTestnet
  | elements
  deriving DecidableEq

structure Address where
  params : AddressParams
  payload : AddressPayload
  isBlinded : Bool
  deriving DecidableEq

/-- `Address::script_pubkey` -/
def Address.scriptPubkey (address : Address) : List UInt8 :=
  match address.payload with
  | .pubkeyHash hash => [0x76, 0xa9, 0x14] ++ hash.toList ++ [0x88, 0xac]
  | .scriptHash hash => [0xa9, 0x14] ++ hash.toList ++ [0x87]
  | .witnessProgram version program =>
    (if version = 0 then 0 else 0x50 + UInt8.ofNat version) :: UInt8.ofNat program.length :: program

inductive ExchangeError where
  | droplets (error : DropletsError)
  | missingAsset (kind : String)
  | rpc (message : String)
  /-- Contract data that does not decode. -/
  | contractData
  deriving DecidableEq

/-- What a node answers about the chain and its own tables. -/
structure ExchangeView (Tx : Type) where
  node : ElementsNode Bytes32
  /-- The outputs of `getrawtransaction`. -/
  rawTransaction : Bytes32 → Except String (List (ChainTxOut Bytes32))
  addressParams : AddressParams
  /-- `Address::from_str` -/
  parseAddress : String → Option Address
  stormEye : Option (NetworkAsset Bytes32)
  ledger : DropletStore Bytes32 Tx
  ledgerHalt : Option (ℕ × String)
  transactionFeeSats : ℕ

namespace ExchangeBuilder

open ExchangeLayout Markers

def droplets {A : Type} (result : Except DropletsError A) : Except ExchangeError A := result.mapError .droplets

def invalid {A : Type} (message : String) : Except ExchangeError A := .error (.droplets (.invalid message))

/-- `DropletStore::treasury_utxos`, `ORDER BY block_height, txid, output_index`. -/
def treasuryUtxos {Tx : Type} (ledger : DropletStore Bytes32 Tx) : List ((Bytes32 × ℕ) × ℕ) :=
  ((ledger.treasuryUtxos.entries.map fun entry => (entry.1, entry.2)).insertionSort fun a b =>
    toLex (a.2.blockHeight, toLex a.1) ≤ toLex (b.2.blockHeight, toLex b.1)).map fun entry => (entry.1, entry.2.amount)

section Builder

variable (programs : ExchangePrograms) {Tx : Type} (view : ExchangeView Tx) (stormEye : NetworkAsset Bytes32)

/-- Indexed Treasury outputs that are still there, until they cover what is required. -/
def selectTreasuryUtxos (required : ℕ) : List ((Bytes32 × ℕ) × ℕ) → List (Utxo Bytes32) → ℕ →
    Except DropletsError (List (Utxo Bytes32) × ℕ)
  | [], selected, total => .ok (selected, total)
  | indexed :: rest, selected, total => do
    match ← helper (view.node.optionalOutpoint true indexed.1) with
    | none => selectTreasuryUtxos required rest selected total
    | some utxo => do
      require (utxo.asset = programs.policyAsset ∧ utxo.amount = indexed.2 ∧
        utxo.scriptPubkey = treasuryScript programs stormEye) (.invalid "indexed Treasury UTXO does not match Elements")
      let total ← addAmount total utxo.amount "Treasury input overflow"
      if required ≤ total then return (selected ++ [utxo], total)
      else selectTreasuryUtxos required rest (selected ++ [utxo]) total

/-- An address the exchange can pay to. -/
def destinationAddress (destination : String) : Except DropletsError Address :=
  match view.parseAddress destination with
  | none => .error (.invalid "invalid destination address")
  | some address => do
    require (address.params = view.addressParams) (.invalid "destination address belongs to a different network")
    require (address.isBlinded = false) (.invalid "destination must be an unconfidential address")
    return address

def contractData : Except ExchangeError StormEyeContractData :=
  match stormEye.contractData with
  | none => invalid "Storm Eye contract data is missing"
  | some bytes =>
    match StormEyeContractData.codec.fromBytes bytes with
    | none => .error .contractData
    | some data => .ok data

def localMember (expectedMember : List UInt8) : Except DropletsError Bytes32 :=
  match programs.xOnlyPublicKey expectedMember with
  | some member => .ok member
  | none => .error (.invalid "invalid local public key")

def changeOutputs (change : ℕ) : List (PsetOutput Bytes32) :=
  if 0 < change then [.new (treasuryScript programs stormEye) change programs.policyAsset] else []

/-- The exchange of an amount: the Storm Eye back, the recipient, the change, the marker and the fee. -/
def exchangePset (stormEyeUtxo : Utxo Bytes32) (selected : List (Utxo Bytes32)) (address : Address) (member : Bytes32)
    (amount change : ℕ) : Pset Bytes32 where
  inputs := (stormEyeUtxo :: selected).map .new
  outputs := [.fromUtxo stormEyeUtxo, .new address.scriptPubkey amount programs.policyAsset] ++
    changeOutputs programs stormEye change ++
      [.new (memberScript member) 0 programs.policyAsset, .new [] view.transactionFeeSats programs.policyAsset]

def prepareExchangeTransaction (amount : ℕ) (destination : String) (expectedMember : List UInt8) (required : ℕ)
    (indexedUtxos : List ((Bytes32 × ℕ) × ℕ)) : Except ExchangeError (Pset Bytes32 × Bytes32) := do
  let address ← droplets (destinationAddress view destination)
  let (selected, selectedAmount) ← droplets (selectTreasuryUtxos programs view stormEye required indexedUtxos [] 0)
  droplets (require (required ≤ selectedAmount) (.invalid "Treasury does not have enough available LBTC"))
  let stormEyeUtxo ← droplets (helper
    (view.node.findContractUtxo stormEye.contractScript (some stormEye.assetId) .anyNetworkLeader))
  let _ ← contractData stormEye
  let member ← droplets (localMember programs expectedMember)
  let pset := exchangePset programs view stormEye stormEyeUtxo selected address member amount (selectedAmount - required)
  let hash ← droplets ((programs.signingHash pset stormEye).mapError .program)
  return (pset, hash)

/-- `previous_output` -/
def previousOutput (outpoint : Bytes32 × ℕ) : Except ExchangeError (ChainTxOut Bytes32) := do
  let outputs ← (view.rawTransaction outpoint.1).mapError .rpc
  match outputs[outpoint.2]? with
  | some output => return output
  | none => invalid "previous transaction output is missing"

/-- An input with its position, which has to be the live output it names. -/
def checkInput (pset : Pset Bytes32) (item : PsetInput Bytes32 × ℕ) : Except ExchangeError Unit := do
  let live ← previousOutput view item.1.outpoint
  let witness ← droplets (helper (pset.witnessUtxo item.2))
  droplets (require (witness = live) (.invalid s!"input {item.2} does not match the live UTXO"))

def validateTransaction (pset : Pset Bytes32) (signingHash : Bytes32) (expectedLeader : List UInt8) :
    Except ExchangeError ValidatedExchange :=
  match view.ledgerHalt with
  | some (height, reason) => invalid s!"Droplets ledger is halted at block {height}: {reason}"
  | none =>
    match view.stormEye with
    | none => .error (.missingAsset Indexer.stormEyeKind)
    | some stormEye => do
      pset.inputs.zipIdx.forM (checkInput view pset)
      let validated ← droplets (validateLayout programs pset signingHash expectedLeader stormEye)
      match view.ledger.droplets.lookup validated.member with
      | none => invalid "network leader has no Droplets"
      | some balance => do
        droplets (require (validated.amount ≤ balance.amount)
          (.invalid "Droplets exchange exceeds the network leader balance"))
        return validated

/-- The checks of `queue_exchange` and `prepare_and_queue_exchange` before the request is written. -/
def checkQueued (pset : Pset Bytes32) (signingHash : Bytes32) (expectedMember : List UInt8) :
    Except ExchangeError ValidatedExchange := do
  let exchange ← validateTransaction programs view pset signingHash expectedMember
  match view.ledger.droplets.lookup exchange.member with
  | none => invalid "network member has no Droplets"
  | some balance => do
    droplets (require (balance.exchangeLocked = false) (.invalid "Droplets exchange is already in progress"))
    return exchange

def prepareAndQueueExchange (amount : ℕ) (destination : String) (expectedMember : List UInt8) :
    Except ExchangeError (Pset Bytes32 × Bytes32 × ValidatedExchange) := do
  droplets (require (amount ≠ 0) (.invalid "exchange amount must be positive"))
  let required ← droplets (addAmount amount view.transactionFeeSats "exchange amount overflow")
  droplets (require ((view.parseAddress destination).isSome = true) (.invalid "invalid destination address"))
  match view.stormEye with
  | none => throw (.missingAsset Indexer.stormEyeKind)
  | some stormEye => do
    let (pset, hash) ← prepareExchangeTransaction programs view stormEye amount destination expectedMember required
      (treasuryUtxos view.ledger)
    let exchange ← checkQueued programs view pset hash expectedMember
    return (pset, hash, exchange)

/-- One output of `exchange_recipient_amount`. -/
def addRecipient (treasuryScript : List UInt8) (total : ℕ) (output : PsetOutput Bytes32) : Except DropletsError ℕ :=
  if output.scriptPubkey = [] ∨ output.scriptPubkey = treasuryScript ∨ (memberFromScript output.scriptPubkey).isSome = true then
    .ok total
  else
    match output.amount with
    | none => .error (.invalid "exchange recipient amount is missing")
    | some amount => addAmount total amount "recipient amount overflow"

/-- What a queued exchange pays out; the script of its second input is the Treasury's. -/
def exchangeRecipientAmount (pset : Pset Bytes32) : Except DropletsError ℕ := do
  let treasury ← helper (pset.witnessUtxo 1)
  let amount ← pset.outputs.tail.foldlM (addRecipient treasury.scriptPubkey) 0
  require (amount ≠ 0) (.invalid "exchange has no recipient amount")
  return amount

end Builder

section Addresses

theorem opReturnData_of_head {script : List UInt8} (h : script.head? ≠ some OpReturn.opReturn) : OpReturn.opReturnData script = none := by
  cases hdata : OpReturn.opReturnData script with
  | none => rfl
  | some data =>
    obtain ⟨rfl, -⟩ := OpReturn.eq_newOpReturn hdata
    exact absurd rfl h

/-- An address pays to no marker, and not to a fee. -/
theorem address_plain (address : Address) : OpReturn.opReturnData address.scriptPubkey = none ∧ address.scriptPubkey ≠ [] := by
  unfold Address.scriptPubkey
  cases address.payload with
  | pubkeyHash hash => exact ⟨opReturnData_of_head (by simp [OpReturn.opReturn]), List.cons_ne_nil _ _⟩
  | scriptHash hash => exact ⟨opReturnData_of_head (by simp [OpReturn.opReturn]), List.cons_ne_nil _ _⟩
  | witnessProgram version program =>
    have hversions : ∀ version : Fin 17, (if version = 0 then 0 else 0x50 + UInt8.ofNat version) ≠ OpReturn.opReturn := by decide
    exact ⟨opReturnData_of_head fun h => hversions version (Option.some.inj h), List.cons_ne_nil _ _⟩

end Addresses

section Selection

variable {programs : ExchangePrograms} {Tx : Type} {view : ExchangeView Tx} {stormEye : NetworkAsset Bytes32}

/-- A UTXO as the node shows it, with the mempool or without. -/
def Shown (node : ElementsNode Bytes32) (utxo : Utxo Bytes32) : Prop :=
  ∃ includeMempool, node.optionalOutpoint includeMempool utxo.outpoint = .ok (some utxo)

theorem optionalOutpoint_shown {node : ElementsNode Bytes32} {includeMempool : Bool} {outpoint : Bytes32 × ℕ} {utxo : Utxo Bytes32}
    (h : node.optionalOutpoint includeMempool outpoint = .ok (some utxo)) : Shown node utxo := by
  have houtpoint := h
  unfold ElementsNode.optionalOutpoint at houtpoint
  obtain ⟨answer, -, houtpoint⟩ := Db.except_bind_ok.mp houtpoint
  obtain ⟨held, -, rfl⟩ := Option.map_eq_some_iff.mp (Except.ok.inj houtpoint)
  exact ⟨includeMempool, h⟩

theorem scanCandidates_shown {node : ElementsNode Bytes32} {expectedAsset : Option Bytes32} {unspents : List (ScannedUtxo Bytes32)} :
    ∀ {candidates : List (Utxo Bytes32 × Bool)}, node.scanCandidates expectedAsset unspents = .ok candidates →
      ∀ candidate ∈ candidates, Shown node candidate.1 := by
  induction unspents with
  | nil =>
    rintro candidates ⟨⟩ candidate hcandidate
    exact absurd hcandidate List.not_mem_nil
  | cons unspent unspents ih =>
    intro candidates h
    rw [ElementsNode.scanCandidates] at h
    by_cases hmatch : ElementsNode.matchesScannedAsset unspent.asset expectedAsset = true
    · rw [if_pos hmatch] at h
      cases htxid : unspent.txid with
      | none =>
        rw [htxid] at h
        cases h
      | some txid =>
        rw [htxid] at h
        obtain ⟨answer, hanswer, h⟩ := Db.except_bind_ok.mp h
        cases answer with
        | none => exact ih h
        | some utxo =>
          dsimp only at h
          split_ifs at h with hasset
          · obtain ⟨live, -, h⟩ := Db.except_bind_ok.mp h
            obtain ⟨rest, hrest, h⟩ := Db.except_bind_ok.mp h
            cases h
            exact List.forall_mem_cons.mpr ⟨optionalOutpoint_shown hanswer, ih hrest⟩
          · exact ih h
    · rw [if_neg hmatch] at h
      exact ih h

theorem findContractUtxo_shown {node : ElementsNode Bytes32} {script : List UInt8} {expectedAsset : Option Bytes32}
    {utxo : Utxo Bytes32} (h : node.findContractUtxo script expectedAsset .anyNetworkLeader = .ok utxo) : Shown node utxo := by
  unfold ElementsNode.findContractUtxo at h
  obtain ⟨sorted, hsorted, h⟩ := Db.except_bind_ok.mp h
  unfold ElementsNode.scanContractUtxos at hsorted
  obtain ⟨unspents, -, hsorted⟩ := Db.except_bind_ok.mp hsorted
  obtain ⟨candidates, hcandidates, hsorted⟩ := Db.except_bind_ok.mp hsorted
  cases hsorted
  rw [if_pos rfl] at h
  split at h
  · rename_i candidate hfind
    cases h
    have hmem := List.mem_of_mem_drop (List.mem_reverse.mp (List.mem_of_find?_eq_some hfind))
    exact scanCandidates_shown hcandidates _ ((List.perm_insertionSort _ _).mem_iff.mp hmem)
  · cases h

/-- What is selected is shown, and the Treasury's. -/
theorem selectTreasuryUtxos_ok {required : ℕ} {indexed : List ((Bytes32 × ℕ) × ℕ)} :
    ∀ {selected chosen : List (Utxo Bytes32)} {total sum : ℕ}, total < 2 ^ 64 →
      selectTreasuryUtxos programs view stormEye required indexed selected total = .ok (chosen, sum) →
        sum < 2 ^ 64 ∧ ∃ more, chosen = selected ++ more ∧ sum = total + (more.map Utxo.amount).sum ∧
          ∀ utxo ∈ more, Shown view.node utxo ∧ utxo.asset = programs.policyAsset ∧
            utxo.scriptPubkey = treasuryScript programs stormEye := by
  induction indexed with
  | nil =>
    rintro selected chosen total sum htotal ⟨⟩
    exact ⟨htotal, [], by simp⟩
  | cons first indexed ih =>
    intro selected chosen total sum htotal h
    rw [selectTreasuryUtxos] at h
    obtain ⟨answer, hanswer, h⟩ := Db.except_bind_ok.mp h
    cases answer with
    | none => exact ih htotal h
    | some utxo =>
      obtain ⟨hheld, h⟩ := then_ok.mp h
      obtain ⟨hasset, -, hscript⟩ := require_ok.mp hheld
      obtain ⟨next, hnext, h⟩ := Db.except_bind_ok.mp h
      obtain ⟨hlt, rfl⟩ := addAmount_ok.mp hnext
      have hshown : Shown view.node utxo := optionalOutpoint_shown (helper_ok.mp hanswer)
      split_ifs at h with hcovers
      · cases h
        refine ⟨hlt, [utxo], rfl, by simp, fun other hother => ?_⟩
        obtain rfl := List.mem_singleton.mp hother
        exact ⟨hshown, hasset, hscript⟩
      · obtain ⟨hsum, more, rfl, rfl, hmore⟩ := ih hlt h
        refine ⟨hsum, utxo :: more, by simp, by simp [Nat.add_assoc], ?_⟩
        exact List.forall_mem_cons.mpr ⟨⟨hshown, hasset, hscript⟩, hmore⟩

end Selection

end ExchangeBuilder

end PriceOracle
