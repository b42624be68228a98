import PriceOracle.DepositAttribution
import PriceOracle.MarkerCodecs

/-!
# The layout of an exchange

`validate_layout` of `droplets.rs`: what a signer checks of the transaction with which the leader
exchanges Droplets for LBTC of the Treasury. Covenant scripts, the key of the leader and the signing
hash are parameters.
-/

namespace PriceOracle

inductive DropletsError where
  | invalid (message : String)
  | program (message : String)
  | transactionHelper (message : String)
  deriving DecidableEq

structure ValidatedExchange where
  member : Bytes32
  amount : ℕ
  deriving DecidableEq

/-- The network's policy asset, the Treasury covenant, and what an exchange signs. -/
structure ExchangePrograms where
  policyAsset : Bytes32
  /-- The taproot key of the Treasury covenant, under a Storm Eye asset. -/
  treasuryKey : Bytes32 → Bytes32
  /-- The x-only key of a compressed public key, if it is one. -/
  xOnlyPublicKey : List UInt8 → Option Bytes32
  signingHash : Pset Bytes32 → NetworkAsset Bytes32 → Except String Bytes32

/-- What the loop over the outputs counts and sums up. -/
structure ExchangeTally where
  markerCount : ℕ
  treasuryReturn : ℕ
  totalOutputs : ℕ
  recipientAmount : ℕ

namespace ExchangeLayout

open Markers

def helper {A : Type} (result : Except String A) : Except DropletsError A := result.mapError .transactionHelper

def addAmount (total amount : ℕ) (message : String) : Except DropletsError ℕ :=
  if total + amount < 2 ^ 64 then .ok (total + amount) else .error (.invalid message)

section Layout

variable (programs : ExchangePrograms)

def treasuryScript (stormEye : NetworkAsset Bytes32) : List UInt8 := taprootScript (programs.treasuryKey stormEye.assetId)

/-- `txout_secrets` -/
def txoutSecrets (output : ChainTxOut Bytes32) : Except DropletsError (Bytes32 × ℕ) :=
  match output.asset.getExplicit, output.value.getExplicit with
  | none, _ => .error (.invalid "Treasury input asset must be explicit")
  | some _, none => .error (.invalid "Treasury input value must be explicit")
  | some asset, some value => .ok (asset, value)

def addTreasuryInput (pset : Pset Bytes32) (stormEye : NetworkAsset Bytes32) (treasuryInputs index : ℕ) :
    Except DropletsError ℕ := do
  let input ← helper (pset.witnessUtxo index)
  require (input.scriptPubkey = treasuryScript programs stormEye)
    (.invalid "transaction contains a non-Treasury funding input")
  let secrets ← txoutSecrets input
  require (secrets.1 = programs.policyAsset) (.invalid "Treasury input is not LBTC")
  addAmount treasuryInputs secrets.2 "Treasury input overflow"

/-- An output of a known amount, by its script. -/
def tallyScript (stormEye : NetworkAsset Bytes32) (expectedMember : Bytes32) (tally : ExchangeTally) (script : List UInt8)
    (amount : ℕ) : Except DropletsError ExchangeTally :=
  match memberFromScript script with
  | some member => do
    require (member = expectedMember ∧ amount = 0) (.invalid "exchange member marker is invalid")
    return { tally with markerCount := tally.markerCount + 1 }
  | none =>
    if script = treasuryScript programs stormEye then do
      let treasuryReturn ← addAmount tally.treasuryReturn amount "Treasury change overflow"
      return { tally with treasuryReturn := treasuryReturn }
    else if script ≠ [] then do
      let recipientAmount ← addAmount tally.recipientAmount amount "recipient amount overflow"
      return { tally with recipientAmount := recipientAmount }
    else .ok tally

def tallyOutput (stormEye : NetworkAsset Bytes32) (expectedMember : Bytes32) (tally : ExchangeTally)
    (output : PsetOutput Bytes32) : Except DropletsError ExchangeTally := do
  require (output.isFullyExplicit = true) (.invalid "exchange LBTC output must be explicit")
  require (output.asset = some programs.policyAsset) (.invalid "exchange output is not LBTC")
  match output.amount with
  | none => throw (.invalid "exchange output amount is missing")
  | some amount => do
    let totalOutputs ← addAmount tally.totalOutputs amount "exchange output overflow"
    tallyScript programs stormEye expectedMember { tally with totalOutputs := totalOutputs } output.scriptPubkey amount

def leaderMember (expectedLeader : List UInt8) : Except DropletsError Bytes32 :=
  match programs.xOnlyPublicKey expectedLeader with
  | some member => .ok member
  | none => .error (.invalid "invalid leader public key")

/-- What the exchange takes out of the Treasury. -/
def exchangedAmount (treasuryInputs treasuryReturn : ℕ) : Except DropletsError ℕ :=
  if treasuryReturn < treasuryInputs then .ok (treasuryInputs - treasuryReturn)
  else .error (.invalid "exchange removes no Treasury value")

def validateLayout (pset : Pset Bytes32) (requestSigningHash : Bytes32) (expectedLeader : List UInt8)
    (stormEye : NetworkAsset Bytes32) : Except DropletsError ValidatedExchange := do
  require (2 ≤ pset.inputs.length ∧ 3 ≤ pset.outputs.length) (.invalid "transaction is incomplete")
  let stormEyeInput ← helper (pset.witnessUtxo 0)
  helper (requireExplicitUtxo stormEyeInput stormEye.assetId stormEye.contractScript "Storm Eye")
  helper (requirePreservedOutput pset 0 stormEyeInput "Storm Eye")
  let treasuryInputs ← (List.range' 1 (pset.inputs.length - 1)).foldlM (addTreasuryInput programs pset stormEye) 0
  let expectedMember ← leaderMember programs expectedLeader
  let tally ← pset.outputs.tail.foldlM (tallyOutput programs stormEye expectedMember) ⟨0, 0, 0, 0⟩
  require (tally.markerCount = 1 ∧ tally.recipientAmount ≠ 0 ∧ tally.totalOutputs = treasuryInputs)
    (.invalid "exchange outputs do not conserve Treasury value or identify one recipient")
  let amount ← exchangedAmount treasuryInputs tally.treasuryReturn
  let hash ← (programs.signingHash pset stormEye).mapError .program
  require (hash = requestSigningHash) (.invalid "exchange signing hash mismatch")
  return ⟨expectedMember, amount⟩

/-- An output the exchange pays out; its script is the recipient's. -/
def IsRecipient (stormEye : NetworkAsset Bytes32) (output : PsetOutput Bytes32) : Prop :=
  memberFromScript output.scriptPubkey = none ∧ output.scriptPubkey ≠ treasuryScript programs stormEye ∧
    output.scriptPubkey ≠ []

end Layout

end ExchangeLayout

end PriceOracle
