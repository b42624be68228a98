import Mathlib.Order.Defs.LinearOrder
import PriceOracle.Psets
import PriceOracle.VotingMessages

/-!
# Transactions of a block

A transaction as the indexer and the verification of announced assets read it: its id, its inputs
with their issuances, its outputs. Keys and hashes are 32 bytes, ordered as their bytes are.
-/

namespace PriceOracle

instance : LinearOrder Bytes32 where
  le := (· ≤ ·)
  lt := (· < ·)
  le_refl a := Vector.le_refl a
  le_trans _ _ _ := Vector.le_trans
  lt_iff_le_not_ge _ _ := Std.LawfulOrderLT.lt_iff _ _
  le_antisymm _ _ := Vector.le_antisymm
  le_total := Vector.le_total
  toDecidableLE a b := inferInstanceAs (Decidable (a.toList ≤ b.toList))
  toDecidableEq := inferInstance
  toDecidableLT a b := inferInstanceAs (Decidable (a.toList < b.toList))
  compare a b := @compareOfLessAndEq _ a b _ (inferInstanceAs (Decidable (a.toList < b.toList))) _
  compare_eq_compareOfLessAndEq _ _ := rfl

/-- `AssetIssuance`; the entropy of a new issuance is a contract hash. -/
structure AssetIssuance where
  assetBlindingNonce : Bytes32
  assetEntropy : Bytes32
  amount : ChainField ℕ
  inflationKeys : ChainField ℕ
  deriving DecidableEq

structure ChainTxIn where
  previousOutput : Bytes32 × ℕ
  isPegin : Bool
  assetIssuance : AssetIssuance
  deriving DecidableEq

structure Transaction where
  txid : Bytes32
  input : List ChainTxIn
  output : List (ChainTxOut Bytes32)
  deriving DecidableEq

def ChainField.isNull {α : Type} : ChainField α → Bool
  | .null => true
  | _ => false

def ChainField.isConfidential {α : Type} : ChainField α → Bool
  | .confidential _ => true
  | _ => false

/-- `AssetIssuance::is_null` -/
def AssetIssuance.isNull (issuance : AssetIssuance) : Bool := issuance.amount.isNull && issuance.inflationKeys.isNull

def zeroTweak : Bytes32 := Vector.replicate 32 0

/-- The input of a transaction without issuance. -/
def AssetIssuance.null : AssetIssuance := ⟨zeroTweak, zeroTweak, .null, .null⟩

/-- The hashes that make the ids of an issuance, of the outpoint it spends and of its entropy. -/
structure IssuanceHashes where
  generateAssetEntropy : Bytes32 × ℕ → Bytes32 → Bytes32
  fromEntropy : Bytes32 → Bytes32
  reissuanceTokenFromEntropy : Bytes32 → Bool → Bytes32

section Issuances

variable (hashes : IssuanceHashes)

/-- The entropy of an issuance: a new one hashes its contract, a reissuance repeats it. -/
def ChainTxIn.entropy (input : ChainTxIn) : Bytes32 :=
  if input.assetIssuance.assetBlindingNonce = zeroTweak then
    hashes.generateAssetEntropy input.previousOutput input.assetIssuance.assetEntropy
  else input.assetIssuance.assetEntropy

/-- `TxIn::issuance_ids`: the asset and its reissuance token. -/
def ChainTxIn.issuanceIds (input : ChainTxIn) : Bytes32 × Bytes32 :=
  (hashes.fromEntropy (input.entropy hashes),
    hashes.reissuanceTokenFromEntropy (input.entropy hashes) input.assetIssuance.amount.isConfidential)

def ChainField.amountOf (openings : Openings Bytes32) (asset : Bytes32) : ChainField ℕ → ℕ
  | .null => 0
  | .explicit value => value
  | .confidential commitment => openings.value asset commitment

/-- What the issuance of an input creates. -/
def ChainTxIn.issued (openings : Openings Bytes32) (input : ChainTxIn) : List (Bytes32 × ℕ) :=
  if input.assetIssuance.isNull then []
  else
    let ids := input.issuanceIds hashes
    [(ids.1, input.assetIssuance.amount.amountOf openings ids.1),
      (ids.2, input.assetIssuance.inflationKeys.amountOf openings ids.2)]

end Issuances

/-- A pay-to-taproot script. -/
def taprootScript (key : Bytes32) : List UInt8 := 0x51 :: 0x20 :: key.toList

def Transaction.outpoints (transaction : Transaction) : List (Bytes32 × ℕ) :=
  transaction.input.map ChainTxIn.previousOutput

/-- The transaction as consensus balances it. -/
def Transaction.chainTx (hashes : IssuanceHashes) (openings : Openings Bytes32) (transaction : Transaction) :
    ChainTx Bytes32 where
  inputs := transaction.outpoints
  issued := transaction.input.flatMap (ChainTxIn.issued hashes openings)
  outputs := transaction.output

end PriceOracle
