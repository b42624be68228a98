import Mathlib.Data.List.Sort
import Mathlib.Data.Prod.Lex
import PriceOracle.FairDivision
import PriceOracle.Indexer
import PriceOracle.Psets

/-!
# Burning expired vouchers

`burning.rs`: the leader groups expired items by the reserve that pays for their burn, leaves out
what is already spent and builds one transaction; a signer rebuilds the groups from the inputs of
that transaction and checks it output by output. Covenant scripts and the signing hash are
parameters, and so is what the node answers.
-/

namespace PriceOracle

inductive BurningError where
  | reserveShortfall
  | database
  | missingAsset (kind : String)
  | invalid (message : String)
  | transactionHelper (message : String)
  | rpc (message : String)
  | program (message : String)
  deriving DecidableEq

/-- Asset ids a burn can spend. -/
structure BurnAssets (W : Type) where
  tick : Option W
  verifier : Option W

structure BurnGroup (W : Type) where
  reserve : W × ℕ
  owner : W
  ticks : List (MonitoredUtxo W)
  deriving DecidableEq

structure BurnExpiredUtxos (W : Type) where
  tx : Pset W
  signingHash : W
  signingStormTreeBranch : W
  blockHeight : ℕ

/-- The network's policy asset, the scripts of the covenants, and what a burn signs. -/
structure BurnPrograms (W : Type) where
  policyAsset : W
  /-- The Account covenant of an owner, under a Storm Eye asset. -/
  accountScript : W → W → List UInt8
  /-- The voucher covenant of an authorisation, with a Verifier's internal key. -/
  voucherScript : W → ℕ → W → Option W → Except String (List UInt8)
  /-- A slice of 32 bytes. -/
  toWord : List UInt8 → Option W
  /-- The Storm Tree root in the contract data of the Storm Eye. -/
  stormTreeRoot : NetworkAsset W → Except String W
  signingHash : Pset W → NetworkAsset W → Except String W

namespace Burning

/-- `MAX_TICKS_PER_BURN` -/
def maxTicksPerBurn : ℕ := 100

/-- `BURN_FEE_RATE_SAT_PER_KVB` -/
def burnFeeRateSatPerKvb : ℕ := 100

/-- `BURN_BASE_WEIGHT` -/
def burnBaseWeight : ℕ := 3900

/-- `BURN_ITEM_WEIGHT` -/
def burnItemWeight : ℕ := 500

/-- `BURN_RESERVE_WEIGHT` -/
def burnReserveWeight : ℕ := 750

/-- `Script::new_op_return(&[])` -/
def opReturnScript : List UInt8 := [0x6a, 0x00]

section Arithmetic

def checkedAdd (a b : ℕ) : Option ℕ := if a + b < 2 ^ 64 then some (a + b) else none

def checkedMul (a b : ℕ) : Option ℕ := if a * b < 2 ^ 64 then some (a * b) else none

def checkedSub (a b : ℕ) : Option ℕ := if b ≤ a then some (a - b) else none

def divCeil (a b : ℕ) : ℕ := (a + b - 1) / b

/-- The weight a burn is bounded by, and its relay floor. -/
def burnFloor (items reserves : ℕ) : Option ℕ := do
  let items ← checkedMul burnItemWeight items
  let reserves ← checkedMul burnReserveWeight reserves
  let weight ← checkedAdd items reserves
  let weight ← checkedAdd weight burnBaseWeight
  let floor ← checkedMul (divCeil weight 4) burnFeeRateSatPerKvb
  return divCeil floor 1000

/-- At least `minimumSats`, and enough for the relay floor at the burn's bounded weight. -/
def burnFee (minimumSats items reserves : ℕ) : Except BurningError ℕ :=
  match burnFloor items reserves with
  | none => .error (.invalid "burn fee overflow")
  | some floor => .ok (max minimumSats floor)

def feeShare (total groups index : ℕ) : Except BurningError ℕ :=
  if groups = 0 then .error (.invalid "burn transaction has no reserve groups")
  else .ok (FairDivision.share total groups index)

end Arithmetic

variable {W : Type}

section Items

def assetOf (assets : BurnAssets W) (utxo : MonitoredUtxo W) : Except BurningError W :=
  let kind := utxo.assetKind
  let asset :=
    if kind = Indexer.tickAssetKind then assets.tick
    else if kind = Indexer.oracleVerifierKind then assets.verifier
    else none
  match asset with
  | some asset => .ok asset
  | none => .error (.invalid s!"cannot burn an issued UTXO of kind '{kind}'")

/-- Adds an item to the burn of its asset. -/
def addBurn (asset : W) (amount : ℕ) (burn : Option (W × ℕ)) : Except BurningError (Option (W × ℕ)) :=
  let burn := burn.getD (asset, 0)
  match checkedAdd burn.2 amount with
  | some total => .ok (some (burn.1, total))
  | none => .error (.invalid "burn amount overflow")

/-- The burns of Ticks and of Verifiers with one more item. -/
def burnStep (assets : BurnAssets W) (burns : Option (W × ℕ) × Option (W × ℕ)) (utxo : MonitoredUtxo W) :
    Except BurningError (Option (W × ℕ) × Option (W × ℕ)) := do
  let asset ← assetOf assets utxo
  if utxo.assetKind = Indexer.oracleVerifierKind then
    let verifier ← addBurn asset utxo.amount burns.2
    return (burns.1, verifier)
  else
    let tick ← addBurn asset utxo.amount burns.1
    return (tick, burns.2)

/-- One empty OP_RETURN per asset, Ticks first. -/
def burnOutputs (utxos : List (MonitoredUtxo W)) (assets : BurnAssets W) : Except BurningError (List (W × ℕ)) := do
  let burns ← utxos.foldlM (burnStep assets) (none, none)
  return burns.1.toList ++ burns.2.toList

variable (programs : BurnPrograms W)

def decode32 (bytes : List UInt8) : Except BurningError W :=
  match programs.toWord bytes with
  | some word => .ok word
  | none => .error (.invalid "invalid 32-byte covenant argument")

def authKindOf (authMethod : String) : Except BurningError ℕ :=
  if authMethod = "asset-id-auth" then .ok 0
  else if authMethod = "scriptPubKey-auth" then .ok 1
  else if authMethod = "signature-auth" then .ok 2
  else .error (.invalid "unsupported issued UTXO authentication method")

/-- The internal key of a Verifier; a Tick has none. -/
def signerOf (utxo : MonitoredUtxo W) : Except BurningError (Option W) :=
  if utxo.assetKind = Indexer.oracleVerifierKind then
    match utxo.internalKey with
    | some key => .ok (some key)
    | none => .error (.invalid "indexed Oracle Verifier has no internal key")
  else .ok none

/-- The script of the covenant of an issued UTXO. -/
def issuedProgram (stormEyeAssetId : W) (utxo : MonitoredUtxo W) : Except BurningError (List UInt8) := do
  let authKind ← authKindOf utxo.authMethod
  let signer ← signerOf utxo
  let authData ← decode32 programs utxo.authData
  (programs.voucherScript stormEyeAssetId authKind authData signer).mapError .invalid

def issuedNetworkInput (stormEyeAssetId : W) (utxo : MonitoredUtxo W) : Except BurningError Unit := do
  let script ← issuedProgram programs stormEyeAssetId utxo
  require (script = utxo.scriptPubkey) (.invalid "issued UTXO does not match the voucher covenant")

end Items

section Groups

variable [LinearOrder W]

/-- An item joins the group of its reserve. -/
def addTick (tick : MonitoredUtxo W) : List (BurnGroup W) → Except BurningError (List (BurnGroup W))
  | [] => .ok [⟨tick.burningFee, tick.accountOwnerPubkey, [tick]⟩]
  | group :: groups =>
    if group.reserve = tick.burningFee then
      if group.owner ≠ tick.accountOwnerPubkey then
        .error (.invalid "one burn reserve has conflicting Account owners")
      else .ok ({ group with ticks := group.ticks ++ [tick] } :: groups)
    else (addTick tick groups).map (group :: ·)

/-- The height of the oldest item of a group; no group is without items. -/
def oldest (group : BurnGroup W) : ℕ := ((group.ticks.map MonitoredUtxo.blockHeight).min?).getD 0

def groupKey (group : BurnGroup W) : ℕ ×ₗ (W ×ₗ ℕ) := toLex (oldest group, toLex group.reserve)

/-- Whole groups are taken while the items of all fit a burn. -/
def takeGroups (maxGroups : ℕ) : ℕ → ℕ → List (BurnGroup W) → List (BurnGroup W)
  | _, _, [] => []
  | selected, tickCount, group :: groups =>
    if selected = maxGroups then []
    else if maxTicksPerBurn < tickCount + group.ticks.length then takeGroups maxGroups selected tickCount groups
    else group :: takeGroups maxGroups (selected + 1) (tickCount + group.ticks.length) groups

/-- Oldest first, so that no reserve outpoint can starve or jump ahead of older work. A reserve has one
group, so the key decides the order. -/
def selectGroups (expired : List (MonitoredUtxo W)) (maxGroups : ℕ) : Except BurningError (List (BurnGroup W)) := do
  let grouped ← expired.foldlM (fun groups tick => addTick tick groups) []
  return takeGroups maxGroups 0 0 (grouped.insertionSort fun a b => groupKey a ≤ groupKey b)

end Groups

section Layout

variable [LinearOrder W] (programs : BurnPrograms W)

def helper {A : Type} (result : Except String A) : Except BurningError A := result.mapError .transactionHelper

/-- The last of the items of an outpoint, as a map collects them. -/
def expiredAt (expired : List (MonitoredUtxo W)) (outpoint : W × ℕ) : Option (MonitoredUtxo W) :=
  expired.reverse.find? fun tick => tick.outpoint = outpoint

/-- The items that the first inputs spend. -/
def leadingTicks (expired : List (MonitoredUtxo W)) : List (PsetInput W) → List (MonitoredUtxo W)
  | [] => []
  | input :: inputs =>
    match expiredAt expired input.outpoint with
    | none => []
    | some tick => tick :: leadingTicks expired inputs

def signingHash (pset : Pset W) (stormEye : NetworkAsset W) : Except BurningError W :=
  (programs.signingHash pset stormEye).mapError .program

/-- An item and its position among the items. -/
def checkTick (pset : Pset W) (stormEye : NetworkAsset W) (assets : BurnAssets W) (item : MonitoredUtxo W × ℕ) :
    Except BurningError Unit := do
  let input ← helper (pset.witnessUtxo (1 + item.2))
  let asset ← assetOf assets item.1
  helper (requireExplicitUtxo input asset item.1.scriptPubkey "issued UTXO")
  issuedNetworkInput programs stormEye.assetId item.1
  require (input.value.getExplicit = some item.1.amount)
    (.invalid "issued UTXO input does not match indexed state")

def checkBurn (pset : Pset W) (item : (W × ℕ) × ℕ) : Except BurningError Unit :=
  match pset.outputs[1 + item.2]? with
  | none => .error (.invalid "burn output is missing")
  | some output =>
    require (output.asset = some item.1.1 ∧ output.amount = some item.1.2 ∧ output.scriptPubkey = opReturnScript)
      (.invalid "issued UTXOs are not aggregated into one empty OP_RETURN per asset")

/-- What a reserve keeps after its share of the fee. -/
def remainingReserve (amount : Option ℕ) (share : ℕ) : Option ℕ :=
  (amount.bind fun amount => checkedSub amount share).filter fun remaining => 0 < remaining

/-- A group and its position, with the input of its reserve and the output that returns it. The count of
inputs and outputs is checked before, so both are there. -/
def checkReserve (pset : Pset W) (stormEye : NetworkAsset W) (fee groupCount firstInput firstOutput : ℕ)
    (item : BurnGroup W × ℕ) : Except BurningError Unit :=
  match pset.inputs[firstInput + item.2]?, pset.outputs[firstOutput + item.2]? with
  | some inputMap, some output => do
    require (inputMap.outpoint = item.1.reserve) (.invalid "burn reserve input does not match indexed state")
    let accountScript := programs.accountScript stormEye.assetId item.1.owner
    let reserve ← helper (pset.witnessUtxo (firstInput + item.2))
    helper (requireExplicitUtxo reserve programs.policyAsset accountScript "Account reserve")
    let share ← feeShare fee groupCount item.2
    match remainingReserve reserve.value.getExplicit share with
    | none => throw (.invalid "burn reserve cannot cover its fee share")
    | some expectedRemaining =>
      require (output.asset = some programs.policyAsset ∧ output.amount = some expectedRemaining ∧
        output.scriptPubkey = accountScript) (.invalid "remaining burn reserve is not returned to its Account")
  | _, _ => .error (.program "index out of bounds")

def checkMinerFee (pset : Pset W) (fee : ℕ) : Except BurningError Unit :=
  match pset.outputs.getLast? with
  | none => .error (.program "burn transaction has outputs")
  | some minerFee =>
    require (minerFee.asset = some programs.policyAsset ∧ minerFee.amount = some fee ∧ minerFee.scriptPubkey = [])
      (.invalid "invalid burn miner fee output")

def itemCount (groups : List (BurnGroup W)) : ℕ := (groups.map fun group => group.ticks.length).sum

def validateLayout (pset : Pset W) (request : BurnExpiredUtxos W) (expired : List (MonitoredUtxo W))
    (stormEye : NetworkAsset W) (assets : BurnAssets W) (minimumFee : ℕ) : Except BurningError Unit := do
  require (3 ≤ pset.inputs.length ∧ 4 ≤ pset.outputs.length) (.invalid "burn transaction is incomplete")
  let stormEyeInput ← helper (pset.witnessUtxo 0)
  helper (requireExplicitUtxo stormEyeInput stormEye.assetId stormEye.contractScript "Storm Eye")
  helper (requirePreservedOutput pset 0 stormEyeInput "Storm Eye")
  let ticks := leadingTicks expired pset.inputs.tail
  require (ticks ≠ [] ∧ ticks.length ≤ maxTicksPerBurn) (.invalid "burn transaction has an invalid Tick count")
  ticks.zipIdx.forM (checkTick programs pset stormEye assets)
  let burns ← burnOutputs ticks assets
  burns.zipIdx.forM (checkBurn pset)
  let groups ← selectGroups ticks maxTicksPerBurn
  let fee ← burnFee minimumFee (itemCount groups) groups.length
  require (pset.inputs.length = 1 + itemCount groups + groups.length ∧
    pset.outputs.length = 2 + burns.length + groups.length)
    (.invalid "burn transaction has unexpected inputs or outputs")
  groups.zipIdx.forM (checkReserve programs pset stormEye fee groups.length (1 + itemCount groups) (1 + burns.length))
  checkMinerFee programs pset fee
  let signingHash ← signingHash programs pset stormEye
  require (signingHash = request.signingHash) (.invalid "burn signing hash mismatch")

/-- `validate_request`: every input is live as its witness says, and the layout is right. -/
def validateRequest (outpoint : W × ℕ → Except String (Option (Utxo W))) (request : BurnExpiredUtxos W)
    (expired : List (MonitoredUtxo W)) (stormEye : NetworkAsset W) (assets : BurnAssets W) (minimumFee : ℕ) :
    Except BurningError Unit := do
  request.tx.inputs.zipIdx.forM fun item => do
    match ← helper (outpoint item.1.outpoint) with
    | none => throw (.transactionHelper "required UTXO is unavailable")
    | some actual =>
      let index := item.2
      let witness ← helper (request.tx.witnessUtxo item.2)
      require (witness = actual.txout) (.invalid s!"burn input {index} does not match the live UTXO")
  validateLayout programs request.tx request expired stormEye assets minimumFee

end Layout

end Burning

end PriceOracle
