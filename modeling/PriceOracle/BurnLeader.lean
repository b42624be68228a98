import PriceOracle.BurnGroups
import PriceOracle.ContractUtxos

/-!
# The leader's burn

`prepare_round_candidate` and what it calls: groups that cannot be burned leave the queue, items
that are already spent leave their group, and the rest becomes one transaction. What the Elements
node answers while the round is prepared is a parameter.
-/

namespace PriceOracle

/-- The node's answers, and the assets and fee of the configuration. -/
structure BurnView (W : Type) where
  node : ElementsNode W
  /-- The transaction in the mempool that spends an outpoint. -/
  mempoolSpender : W × ℕ → Except String (Option W)
  stormEye : Option (NetworkAsset W)
  assets : BurnAssets W
  burnTransactionFeeSats : ℕ

/-- A burn group with its reserve, its Account covenant and its items' live UTXOs. -/
structure BurnableGroup (W : Type) where
  group : BurnGroup W
  reserve : Utxo W
  accountScript : List UInt8
  tickUtxos : List (Utxo W)

structure BuiltBurn (W : Type) where
  pset : Pset W
  spentUtxos : List (ChainTxOut W)
  selected : List (W × ℕ)
  signingBranch : W

structure PreparedBurn (W : Type) where
  request : BurnExpiredUtxos W
  pset : Pset W
  spentUtxos : List (ChainTxOut W)
  selected : List (W × ℕ)
  groupCount : ℕ
  maxTransactionWeight : ℕ

namespace Burning

variable {W : Type} [LinearOrder W] (programs : BurnPrograms W) (view : BurnView W)

section Queue

def expiredKey (item : MonitoredUtxo W) : ℕ ×ₗ (W ×ₗ ℕ) := toLex (item.blockHeight, toLex item.outpoint)

/-- The expired rows, in the order of `list_expired`. -/
def expiredItems (store : MonitoredUtxoStore W) : List (MonitoredUtxo W) :=
  ((store.monitoredUtxos.entries.map fun entry => entry.2).filter fun row => row.status = .expired).insertionSort
    fun a b => expiredKey a ≤ expiredKey b

def listExpired : Db (MonitoredUtxoStore W) BurningError (List (MonitoredUtxo W)) := do
  let store ← get
  pure (expiredItems store)

def conflicts (expired : List (MonitoredUtxo W)) (item : MonitoredUtxo W) : Bool :=
  expired.any fun other => other.burningFee = item.burningFee && other.accountOwnerPubkey != item.accountOwnerPubkey

/-- Expired items whose reserve all name one owner, and per reserve the items that do not. -/
def splitConflictingReserves (expired : List (MonitoredUtxo W)) :
    List (MonitoredUtxo W) × List ((W × ℕ) × List (MonitoredUtxo W)) :=
  let conflicting := expired.filter (conflicts expired)
  let reserves := (conflicting.map MonitoredUtxo.burningFee).dedup.insertionSort fun a b => toLex a ≤ toLex b
  (expired.filter fun item => !conflicts expired item,
    reserves.map fun reserve => (reserve, conflicting.filter fun item => item.burningFee = reserve))

/-- Takes items that can never be burned out of the queue. -/
def quarantine (items : List (MonitoredUtxo W)) (blockHeight : ℕ) (reason : String) :
    Db (MonitoredUtxoStore W) BurningError Unit := do
  let outpoints := items.map MonitoredUtxo.outpoint
  let quarantined ← Db.statement (fun _ => .database) (MonitoredUtxoStore.quarantineUnburnable outpoints blockHeight)
  Db.check (require (quarantined = outpoints.length) (.invalid reason))

def quarantineGroup (items : List (MonitoredUtxo W)) (blockHeight : ℕ) : Db (MonitoredUtxoStore W) BurningError Unit :=
  quarantine items blockHeight "expired item state changed while quarantining a burn group"

end Queue

section Items

/-- `get_optional_explicit_outpoint` -/
def optionalOutpoint (outpoint : W × ℕ) : Except BurningError (Option (Utxo W)) :=
  helper (view.node.optionalOutpoint true outpoint)

/-- The still unspent items with their UTXOs. Items spent since reconciliation are left out. -/
def availableItems (blockHeight : ℕ) :
    List (MonitoredUtxo W) → Db (MonitoredUtxoStore W) BurningError (List (MonitoredUtxo W × Utxo W))
  | [] => pure []
  | tick :: ticks => do
    match ← Db.check (optionalOutpoint view tick.outpoint) with
    | some utxo => do
      let available ← availableItems blockHeight ticks
      pure ((tick, utxo) :: available)
    | none => do
      match ← Db.check ((view.mempoolSpender tick.outpoint).mapError .rpc) with
      | some spendingTxid => do
        let _ ← Db.statement (fun _ => .database)
          (MonitoredUtxoStore.markBurning [tick.outpoint] spendingTxid blockHeight)
        availableItems blockHeight ticks
      | none => availableItems blockHeight ticks

/-- The group's still unspent items with their UTXOs; `none` if none remain. -/
def availableTicks (group : BurnGroup W) (blockHeight : ℕ) :
    Db (MonitoredUtxoStore W) BurningError (Option (BurnGroup W × List (Utxo W))) := do
  let available ← availableItems view blockHeight group.ticks
  if available = [] then pure none
  else pure (some ({ group with ticks := available.map Prod.fst }, available.map Prod.snd))

/-- The indexed state of an item is still that of its UTXO. -/
def requireUnchanged (assets : BurnAssets W) (tick : MonitoredUtxo W) (tickUtxo : Utxo W) : Except BurningError Unit := do
  let asset ← assetOf assets tick
  require (tickUtxo.asset = asset ∧ tickUtxo.amount = tick.amount ∧ tickUtxo.scriptPubkey = tick.scriptPubkey)
    (.invalid "indexed issued UTXO changed")

/-- Persistent faults in a group's items, checked before the round so one group cannot fail it. -/
def validateGroupItems (stormEyeAssetId : W) (assets : BurnAssets W) (group : BurnGroup W) (tickUtxos : List (Utxo W)) :
    Except BurningError Unit :=
  (group.ticks.zip tickUtxos).forM fun item => do
    requireUnchanged assets item.1 item.2
    let _ ← issuedProgram programs stormEyeAssetId item.1

end Items

section Round

/-- A group with a live reserve in the Account of its owner and with items left to burn. -/
def burnableGroup (stormEye : NetworkAsset W) (blockHeight : ℕ) (group : BurnGroup W) :
    Db (MonitoredUtxoStore W) BurningError (Option (BurnableGroup W)) := do
  match ← Db.check (optionalOutpoint view group.reserve) with
  | none => do
    match ← Db.check ((view.mempoolSpender group.reserve).mapError .rpc) with
    | some _ => pure none
    | none => do
      quarantine group.ticks blockHeight "expired Tick state changed while quarantining a missing reserve"
      pure none
  | some reserve =>
    let accountScript := programs.accountScript stormEye.assetId group.owner
    if reserve.asset ≠ programs.policyAsset ∨ reserve.scriptPubkey ≠ accountScript then do
      quarantineGroup group.ticks blockHeight
      pure none
    else do
      match ← availableTicks view group blockHeight with
      | none => pure none
      | some (group, tickUtxos) =>
        match validateGroupItems programs stormEye.assetId view.assets group tickUtxos with
        | .ok () => pure (some ⟨group, reserve, accountScript, tickUtxos⟩)
        | .error (.invalid _) => do
          quarantineGroup group.ticks blockHeight
          pure none
        | .error error => throw error

def burnableGroups (stormEye : NetworkAsset W) (blockHeight : ℕ) :
    List (BurnGroup W) → Db (MonitoredUtxoStore W) BurningError (List (BurnableGroup W))
  | [] => pure []
  | group :: groups => do
    let burnable ← burnableGroup programs view stormEye blockHeight group
    let rest ← burnableGroups stormEye blockHeight groups
    pure (burnable.toList ++ rest)

/-- The output that returns a reserve after its share of the fee. -/
def reserveReturn (fee groupCount : ℕ) (item : BurnableGroup W × ℕ) : Except BurningError (PsetOutput W) := do
  let share ← feeShare fee groupCount item.2
  match remainingReserve (some item.1.reserve.amount) share with
  | none => throw .reserveShortfall
  | some remaining => return .new item.1.accountScript remaining programs.policyAsset

def buildBurnTransaction (stormEye : NetworkAsset W) (stormEyeUtxo : Utxo W) (groups : List (BurnableGroup W))
    (assets : BurnAssets W) (burnFeeSats : ℕ) : Except BurningError (BuiltBurn W) := do
  let fee ← burnFee burnFeeSats (itemCount (groups.map BurnableGroup.group)) groups.length
  let signingBranch ← (programs.stormTreeRoot stormEye).mapError .program
  let items := groups.flatMap fun burnable => burnable.group.ticks.zip burnable.tickUtxos
  items.forM fun item => do
    requireUnchanged assets item.1 item.2
    issuedNetworkInput programs stormEye.assetId item.1
  let burns ← burnOutputs (groups.flatMap fun burnable => burnable.group.ticks) assets
  let returns ← groups.zipIdx.mapM (reserveReturn programs fee groups.length)
  let spent := stormEyeUtxo :: (items.map Prod.snd ++ groups.map BurnableGroup.reserve)
  let outputs := .fromUtxo stormEyeUtxo ::
    (burns.map (fun burn => .new opReturnScript burn.2 burn.1) ++ returns ++ [.new [] fee programs.policyAsset])
  return ⟨⟨spent.map .new, outputs⟩, spent.map Utxo.txout, items.map fun item => item.1.outpoint, signingBranch⟩

def prepareRoundCandidate (blockHeight stormEyeLane groupLimit maxTransactionWeight : ℕ) :
    Db (MonitoredUtxoStore W) BurningError (Option (PreparedBurn W)) := do
  let expired ← listExpired
  let (expired, conflicting) := splitConflictingReserves expired
  conflicting.forM fun entry => quarantineGroup entry.2 blockHeight
  let groups ← Db.check (selectGroups expired groupLimit)
  if groups = [] then pure none
  else
    match view.stormEye with
    | none => throw (.missingAsset Indexer.stormEyeKind)
    | some stormEye => do
      let burnable ← burnableGroups programs view stormEye blockHeight groups
      match burnable with
      | [] => pure none
      | first :: rest => do
        let burnable := first :: rest
        let stormEyeUtxo ← Db.check
          (helper (view.node.findContractUtxo stormEye.contractScript (some stormEye.assetId)
            (.networkLeader stormEyeLane)))
        let built ← Db.check
          (buildBurnTransaction programs stormEye stormEyeUtxo burnable view.assets view.burnTransactionFeeSats)
        let signingHash ← Db.check (signingHash programs built.pset stormEye)
        pure (some
          { request := ⟨built.pset, signingHash, built.signingBranch, blockHeight⟩
            pset := built.pset
            spentUtxos := built.spentUtxos
            selected := built.selected
            groupCount := burnable.length
            maxTransactionWeight := maxTransactionWeight })

end Round

end Burning

end PriceOracle
