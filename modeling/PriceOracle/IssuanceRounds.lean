import PriceOracle.PriceData
import PriceOracle.UserRequests

/-!
# Issuance rounds

`high_storm/user_requests.rs`: how the coordinator fills a round with pending requests, and
how it broadcasts the transaction and marks the requests of the round. What a round reads
besides the store of requests is a `RoundView`; a transaction is of type `T` and is built
by the rest of that file.
-/

namespace PriceOracle

namespace Issuance

def signingSessionTimeout : ℕ := 60
def maxUnpricedRequestBlocks : ℕ := 10
def pendingScanPage : ℕ := 100
def maxPendingScan : ℕ := 1000
def maxRequestsPerRound : ℕ := 100
def maxIssuedDescriptors : ℕ := 100
def minFeeUtxoConfirmations : ℕ := 1

inductive UserRequestError where
  | requestDatabase (error : SqlError)
  | missingAsset
  | invalid (reason : String)
  | rpc

/-- A batch as `validate_encoded_request` reads it. -/
structure DecodedRequest (W : Type) where
  publicKey : W
  requests : ℕ
  feeUtxos : List (FeeUtxo W)
  namedFeed : Option UInt32

structure FeeOutput (W : Type) where
  asset : W
  scriptPubkey : List UInt8

/-- A request that joins the round, with its fee outputs. -/
structure Accepted (W : Type) where
  requestHash : W
  stored : StoredUserRequest W
  request : DecodedRequest W
  feeOutputs : List (FeeOutput W)

structure PreparedRound (W T : Type) where
  transaction : T
  requestResults : List W

/-- What the node sees while it prepares one candidate for a round. -/
structure RoundView (W T : Type) where
  blockHeight : ℕ
  timestamp : ℕ
  /-- The Storm Eye, the network and the lane's output are found. -/
  contracts : Except UserRequestError Unit
  validateEncodedRequest : List UInt8 → Except String (DecodedRequest W)
  /-- The local price of a feed when a request asks for it. -/
  price : W → UInt32 → Option PriceFeedData
  policyAsset : W
  accountScript : W → List UInt8
  outpointText : FeeUtxo W → String
  isReservedForBurning : FeeUtxo W → Except UserRequestError Bool
  /-- `none` when it is spent, unknown or not confirmed. -/
  confirmedFeeOutpoint : FeeUtxo W → Except UserRequestError (Option (FeeOutput W))
  build : List (Accepted W) → Option PriceFeedData → Except UserRequestError T
  estimatedWeight : T → Except UserRequestError ℕ

section Rates

/-- What a round does with the batch it is looking at. -/
inductive RoundRate where
  | carries (rate : Option PriceFeedData)
  | anotherFeed
  | noLocalPrice

/-- `own` is this node's value for the feed that the batch names. -/
def roundRate (instructed : Option PriceFeedData) (namedFeed : Option UInt32) (own : Option PriceFeedData) :
    RoundRate :=
  match namedFeed with
  | none => .carries instructed
  | some feed =>
    match instructed with
    | some held => if held.feedId ≠ feed then .anotherFeed else .carries (some held)
    | none =>
      match own with
      | some own => .carries (some own)
      | none => .noLocalPrice

def usableForRound (timestamp : ℕ) (rate : PriceFeedData) : Bool :=
  min (timestamp + signingSessionTimeout) (2 ^ 64 - 1) < rate.validUntil.toNat

def waitedTooLong (blockHeight since : ℕ) : Bool := maxUnpricedRequestBlocks < blockHeight - since

end Rates

section Preparation

variable {W T : Type} [DecidableEq W]

/-- The fee outputs, or why one of them cannot be spent. -/
def resolveFeeUtxos (view : RoundView W T) (publicKey : W) :
    List (FeeUtxo W) → Except UserRequestError (Except String (List (FeeOutput W)))
  | [] => .ok (.ok [])
  | feeUtxo :: feeUtxos => do
    let outpoint := view.outpointText feeUtxo
    let reserved ← view.isReservedForBurning feeUtxo
    if reserved then
      pure (.error ("fee UTXO '" ++ outpoint ++ "' is reserved for burning issued UTXOs"))
    else
      match ← view.confirmedFeeOutpoint feeUtxo with
      | none =>
        pure (.error ("fee UTXO '" ++ outpoint ++ "' is unavailable or has fewer than " ++
          toString minFeeUtxoConfirmations ++ " confirmations"))
      | some output =>
        if output.asset ≠ view.policyAsset ∨ output.scriptPubkey ≠ view.accountScript publicKey then
          pure (.error ("fee UTXO '" ++ outpoint ++ "' no longer satisfies the request fee policy"))
        else do
          let rest ← resolveFeeUtxos view publicKey feeUtxos
          pure (rest.map (output :: ·))

/-- The walk over the queue; `filled` once no further request is looked at. -/
structure Scan (W : Type) where
  cursor : Option (ℕ × W)
  scanned : ℕ
  issuedCount : ℕ
  instructed : Option PriceFeedData
  decoded : List (Accepted W)
  filled : Bool

def Scan.start : Scan W := ⟨none, 0, 0, none, [], false⟩

def failRequest (requestHash : W) (reason : String) : Db (UserRequestStore W) UserRequestError Bool :=
  Db.statement .requestDatabase (UserRequestStore.markFailed requestHash reason.toUTF8.toList)

/-- A request that can be paid for joins the round while there is room. -/
def Scan.join (scan : Scan W) (requestLimit : ℕ) (carried : Option PriceFeedData) (accepted : Accepted W) :
    Scan W :=
  if maxIssuedDescriptors < scan.issuedCount + accepted.request.requests then { scan with filled := true }
  else
    { scan with
      issuedCount := scan.issuedCount + accepted.request.requests
      instructed := carried
      decoded := scan.decoded ++ [accepted]
      filled := requestLimit ≤ scan.decoded.length + 1 }

/-- The batch is aged out, waits, fails for a fee UTXO or joins the round. -/
def scanRequest (view : RoundView W T) (requestLimit : ℕ) (scan : Scan W) (requestHash : W)
    (stored : StoredUserRequest W) : Db (UserRequestStore W) UserRequestError (Scan W) := do
  let scan := { scan with cursor := some (stored.blockHeight, requestHash), scanned := scan.scanned + 1 }
  let request ← Db.check ((view.validateEncodedRequest stored.request).mapError .invalid)
  match request.namedFeed.filter fun _ => waitedTooLong view.blockHeight stored.blockHeight with
  | some feed => do
    let waited := view.blockHeight - stored.blockHeight
    let _ ← failRequest requestHash ("feed " ++ toString feed ++ " was not issued in " ++ toString waited ++ " blocks")
    pure scan
  | none =>
    let own := (request.namedFeed.filter fun _ => scan.instructed.isNone).bind fun feed =>
      (view.price requestHash feed).filter (usableForRound view.timestamp)
    match roundRate scan.instructed request.namedFeed own with
    | .anotherFeed => pure scan
    | .noLocalPrice => pure scan
    | .carries carried => do
      let resolved ← Db.check (resolveFeeUtxos view request.publicKey request.feeUtxos)
      match resolved with
      | .error reason => do
        let _ ← failRequest requestHash reason
        pure scan
      | .ok feeOutputs => pure (scan.join requestLimit carried ⟨requestHash, stored, request, feeOutputs⟩)

def scanPage (view : RoundView W T) (requestLimit : ℕ) :
    Scan W → List (W × StoredUserRequest W) → Db (UserRequestStore W) UserRequestError (Scan W)
  | scan, [] => pure scan
  | scan, (requestHash, stored) :: page => do
    let scan ← scanRequest view requestLimit scan requestHash stored
    if scan.filled then pure scan else scanPage view requestLimit scan page

variable [LinearOrder W]

def pendingAfter (cursor : Option (ℕ × W)) :
    Db (UserRequestStore W) UserRequestError (List (W × StoredUserRequest W)) :=
  Db.statement .requestDatabase (UserRequestStore.listPendingAfter pendingScanPage cursor)

/-- Pages are read until the round is filled, the bound is reached or the queue ends. A page that is read
has a request, so that there are never more than `maxPendingScan` of them. -/
def scanPages (view : RoundView W T) (requestLimit : ℕ) : ℕ → Scan W → List (W × StoredUserRequest W) →
    Db (UserRequestStore W) UserRequestError (Scan W)
  | 0, scan, _ => pure scan
  | pages + 1, scan, page => do
    let scan ← scanPage view requestLimit scan page
    if scan.filled then pure scan
    else if maxPendingScan ≤ scan.scanned then pure scan
    else do
      let page ← pendingAfter scan.cursor
      if page = [] then pure scan else scanPages view requestLimit pages scan page

def prepareRoundCandidate (view : RoundView W T) (requestLimit : ℕ) :
    Db (UserRequestStore W) UserRequestError (Option (PreparedRound W T)) := do
  let pending ← pendingAfter none
  if pending = [] then pure none
  else do
    let _ ← Db.check view.contracts
    let scan ← scanPages view requestLimit maxPendingScan Scan.start pending
    if scan.decoded = [] then pure none
    else do
      let transaction ← Db.check (view.build scan.decoded scan.instructed)
      pure (some ⟨transaction, scan.decoded.map Accepted.requestHash⟩)

/-- The search for the largest round of a standard weight. Each turn leaves fewer limits to try; the last
of them may leave the upper limit below the lower one. -/
def searchRound (views : ℕ → RoundView W T) (maxTransactionWeight : ℕ) : ℕ → ℕ → ℕ → ℕ →
    Option (PreparedRound W T) → Db (UserRequestStore W) UserRequestError (Option (PreparedRound W T))
  | 0, _, _, _, best => pure best
  | turns + 1, lowerLimit, upperLimit, requestLimit, best =>
    if upperLimit < lowerLimit then pure best
    else do
      match ← prepareRoundCandidate (views turns) requestLimit with
      | none => pure best
      | some candidate => do
        let requestCount := candidate.requestResults.length
        let weight ← Db.check ((views turns).estimatedWeight candidate.transaction)
        if weight ≤ maxTransactionWeight then
          if requestCount < requestLimit ∨ requestLimit = maxRequestsPerRound then pure (some candidate)
          else
            let lowerLimit := requestCount + 1
            searchRound views maxTransactionWeight turns lowerLimit upperLimit
              (lowerLimit + (upperLimit - lowerLimit) / 2) (some candidate)
        else
          match candidate.requestResults with
          | [requestHash] => do
            let reason := "request transaction weight " ++ toString weight ++ " exceeds round limit " ++
              toString maxTransactionWeight
            let _ ← failRequest requestHash reason
            throw (.invalid reason)
          | _ =>
            let upperLimit := requestCount - 1
            searchRound views maxTransactionWeight turns lowerLimit upperLimit
              (lowerLimit + (upperLimit - lowerLimit) / 2) best

def prepareRound (views : ℕ → RoundView W T) (maxTransactionWeight : ℕ) :
    Db (UserRequestStore W) UserRequestError (Option (PreparedRound W T)) :=
  searchRound views maxTransactionWeight maxRequestsPerRound 1 maxRequestsPerRound maxRequestsPerRound none

end Preparation

section Broadcast

variable {W T : Type} [DecidableEq W]

/-- How far a broadcast gets: the node refuses the transaction or was never asked; it accepts it and the
answer is lost; or the answer arrives, and so many requests are marked before an error or a restart. -/
inductive Broadcast where
  | refused
  | unanswered
  | answered (marked : ℕ)

def Broadcast.accepted : Broadcast → Bool
  | .refused => false
  | .unanswered | .answered _ => true

/-- The requests are marked one by one, each in a statement of its own. -/
def markRound (payload : T → W → List UInt8) (finalBytes : T → List UInt8) (transaction : T)
    (requestHashes : List W) (store : UserRequestStore W) : UserRequestStore W :=
  requestHashes.foldl (fun store requestHash =>
    ((UserRequestStore.markProcessing requestHash (payload transaction requestHash) (finalBytes transaction)).atomic.exec
      store).2) store

def finalizeAndBroadcast (payload : T → W → List UInt8) (finalBytes : T → List UInt8) (prepared : PreparedRound W T)
    (broadcast : Broadcast) (store : UserRequestStore W) : UserRequestStore W :=
  match broadcast with
  | .refused => store
  | .unanswered => store
  | .answered marked => markRound payload finalBytes prepared.transaction (prepared.requestResults.take marked) store

end Broadcast

end Issuance

end PriceOracle
