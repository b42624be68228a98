import PriceOracle.Indexer
import PriceOracle.Markers
import PriceOracle.Transactions

/-!
# Treasury transactions of a block

`treasury_transactions` of `indexer/mod.rs`: the Treasury outputs of each transaction, the member
that its markers name and the member that a deposit is tagged for.
-/

namespace PriceOracle

namespace TreasuryScan

open Markers

section Scan

variable (treasuryScript : List UInt8) (policyAsset : Bytes32)

/-- `treasury_output_amount`; none of its branches fails. -/
def treasuryOutputAmount (output : ChainTxOut Bytes32) : Option ℕ :=
  if output.scriptPubkey ≠ treasuryScript then none
  else
    match output.asset.getExplicit, output.value.getExplicit with
    | some asset, some value => if asset = policyAsset then some value else none
    | _, _ => none

/-- A Treasury output and its position. -/
def indexedOutput (entry : ChainTxOut Bytes32 × ℕ) : Option (ℕ × ℕ) :=
  (treasuryOutputAmount treasuryScript policyAsset entry.1).map fun amount => (entry.2, amount)

def requireIndex (output : ℕ × ℕ) : Except IndexerError (ℕ × ℕ) :=
  if output.1 < 2 ^ 32 then .ok output else .error (.invalid "Treasury output index overflow")

def marker (output : ChainTxOut Bytes32) : Option Bytes32 :=
  (memberFromScript output.scriptPubkey).or (migratedMembersProposerFromScript output.scriptPubkey)

/-- The member that all markers of a transaction name, if it has one. -/
def exchangeMember (outputs : List (ChainTxOut Bytes32)) : Option Bytes32 :=
  match (outputs.filterMap marker).dedup with
  | [member] => some member
  | _ => none

/-- The member named right after a Treasury output, from the first that is followed by a marker. -/
def depositMember (outputs : List (ChainTxOut Bytes32)) (treasury : List (ℕ × ℕ)) : Option Bytes32 :=
  treasury.findSome? fun output =>
    outputs[output.1 + 1]?.bind fun next => memberFromScript next.scriptPubkey

def treasuryTransaction (transaction : Transaction) : Except IndexerError (TreasuryTransaction Bytes32) := do
  let outputs ← (transaction.output.zipIdx.filterMap (indexedOutput treasuryScript policyAsset)).mapM requireIndex
  return {
    txid := transaction.txid
    inputs := transaction.outpoints
    outputs
    depositMember := depositMember transaction.output outputs
    exchangeMember := exchangeMember transaction.output }

def treasuryTransactions (transactions : List Transaction) : Except IndexerError (List (TreasuryTransaction Bytes32)) :=
  transactions.mapM (treasuryTransaction treasuryScript policyAsset)

end Scan

end TreasuryScan

end PriceOracle
