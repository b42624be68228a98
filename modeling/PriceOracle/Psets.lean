import Mathlib.Algebra.Order.Ring.Nat
import PriceOracle.Database
import PriceOracle.MapKeys

/-!
# Partially signed transactions

The Elements side of the builders and validators: a PSET, the transaction that is extracted from
it, what an output holds on the chain, and the helpers of `user_requests.rs` that read a PSET.
-/

namespace PriceOracle

/-- The asset or the value of an output on the chain. -/
inductive ChainField (α : Type) where
  | null
  | explicit (value : α)
  | confidential (commitment : List UInt8)
  deriving DecidableEq

namespace ChainField

variable {α : Type}

def getExplicit : ChainField α → Option α
  | .explicit value => some value
  | _ => none

theorem getExplicit_eq_some {field : ChainField α} {value : α} :
    field.getExplicit = some value ↔ field = .explicit value := by
  cases field <;> simp [getExplicit]

end ChainField

structure ChainTxOut (W : Type) where
  asset : ChainField W
  value : ChainField ℕ
  nonce : Option (List UInt8)
  scriptPubkey : List UInt8
  surjectionProof : Option (List UInt8)
  rangeproof : Option (List UInt8)
  deriving DecidableEq

/-- An input, with what its issuance creates. -/
structure PsetInput (W : Type) where
  previousTxid : W
  previousOutputIndex : ℕ
  witnessUtxo : Option (ChainTxOut W)
  issued : List (W × ℕ)
  deriving DecidableEq

structure PsetOutput (W : Type) where
  scriptPubkey : List UInt8
  amount : Option ℕ
  asset : Option W
  amountComm : Option (List UInt8)
  assetComm : Option (List UInt8)
  valueRangeproof : Option (List UInt8)
  assetSurjectionProof : Option (List UInt8)
  blindingKey : Option (List UInt8)
  ecdhPubkey : Option (List UInt8)
  blinderIndex : Option ℕ
  blindValueProof : Option (List UInt8)
  blindAssetProof : Option (List UInt8)
  deriving DecidableEq

structure Pset (W : Type) where
  inputs : List (PsetInput W)
  outputs : List (PsetOutput W)
  deriving DecidableEq

structure ChainTx (W : Type) where
  inputs : List (W × ℕ)
  issued : List (W × ℕ)
  outputs : List (ChainTxOut W)

section Extraction

variable {W : Type}

def PsetInput.outpoint (input : PsetInput W) : W × ℕ := (input.previousTxid, input.previousOutputIndex)

/-- `Output::to_txout`: a commitment comes before the explicit field. -/
def PsetOutput.toTxout (output : PsetOutput W) : ChainTxOut W where
  asset :=
    match output.assetComm, output.asset with
    | some commitment, _ => .confidential commitment
    | none, some asset => .explicit asset
    | none, none => .null
  value :=
    match output.amountComm, output.amount with
    | some commitment, _ => .confidential commitment
    | none, some amount => .explicit amount
    | none, none => .null
  nonce := output.ecdhPubkey
  scriptPubkey := output.scriptPubkey
  surjectionProof := output.assetSurjectionProof
  rangeproof := output.valueRangeproof

theorem PsetOutput.toTxout_asset {output : PsetOutput W} {asset : W} :
    output.toTxout.asset = .explicit asset ↔ output.assetComm = none ∧ output.asset = some asset := by
  unfold PsetOutput.toTxout
  cases output.assetComm <;> cases output.asset <;> simp

theorem PsetOutput.toTxout_value {output : PsetOutput W} {amount : ℕ} :
    output.toTxout.value = .explicit amount ↔ output.amountComm = none ∧ output.amount = some amount := by
  unfold PsetOutput.toTxout
  cases output.amountComm <;> cases output.amount <;> simp

def Pset.extractTx (pset : Pset W) : ChainTx W where
  inputs := pset.inputs.map PsetInput.outpoint
  issued := pset.inputs.flatMap PsetInput.issued
  outputs := pset.outputs.map PsetOutput.toTxout

end Extraction

/-- What commitments hide. A value is committed under the asset beside it. -/
structure Openings (W : Type) where
  asset : List UInt8 → W
  value : W → List UInt8 → ℕ

/-- The unspent outputs, the secrets behind commitments, and the verdict of all scripts. -/
structure ChainLedger (W : Type) where
  utxos : W × ℕ → Option (ChainTxOut W)
  openings : Openings W
  scripts : ChainTx W → Prop

section Chain

variable {W : Type}

def ChainTxOut.heldAsset (openings : Openings W) (output : ChainTxOut W) : Option W :=
  match output.asset with
  | .null => none
  | .explicit asset => some asset
  | .confidential commitment => some (openings.asset commitment)

/-- The asset and the amount an output holds. -/
def ChainTxOut.content (openings : Openings W) (output : ChainTxOut W) : Option (W × ℕ) :=
  (output.heldAsset openings).bind fun asset =>
    match output.value with
    | .null => none
    | .explicit value => some (asset, value)
    | .confidential commitment => some (asset, openings.value asset commitment)

theorem ChainTxOut.content_explicit {openings : Openings W} {output : ChainTxOut W} {asset : W} {value : ℕ}
    (hasset : output.asset = .explicit asset) (hvalue : output.value = .explicit value) :
    output.content openings = some (asset, value) := by
  unfold ChainTxOut.content ChainTxOut.heldAsset
  rw [hasset, hvalue]
  rfl

def contentOf [DecidableEq W] (asset : W) (content : Option (W × ℕ)) : ℕ :=
  match content with
  | some (held, value) => if held = asset then value else 0
  | none => 0

/-- Distinct live inputs, outputs that hold something, every asset balanced, every script satisfied. -/
structure ChainLedger.Valid [DecidableEq W] (chain : ChainLedger W) (tx : ChainTx W) : Prop where
  distinct : tx.inputs.Nodup
  spends : ∀ outpoint ∈ tx.inputs, (chain.utxos outpoint).isSome
  held : ∀ output ∈ tx.outputs, (output.content chain.openings).isSome
  balanced : ∀ asset, (tx.inputs.map fun outpoint =>
      contentOf asset ((chain.utxos outpoint).bind (ChainTxOut.content chain.openings))).sum +
        (tx.issued.map fun issued => contentOf asset (some issued)).sum =
      (tx.outputs.map fun output => contentOf asset (output.content chain.openings)).sum
  scripts : chain.scripts tx

/-- Every witness UTXO is the output its input spends. -/
def ChainLedger.Witnessed (chain : ChainLedger W) (pset : Pset W) : Prop :=
  ∀ input ∈ pset.inputs, chain.utxos input.outpoint = input.witnessUtxo

end Chain

/-- A live UTXO as `explicit_outpoint` reads it from the node. -/
structure Utxo (W : Type) where
  outpoint : W × ℕ
  asset : W
  amount : ℕ
  scriptPubkey : List UInt8
  deriving DecidableEq

section Building

variable {W : Type}

def Utxo.txout (utxo : Utxo W) : ChainTxOut W where
  asset := .explicit utxo.asset
  value := .explicit utxo.amount
  nonce := none
  scriptPubkey := utxo.scriptPubkey
  surjectionProof := none
  rangeproof := none

/-- `PartialInput::new` -/
def PsetInput.new (utxo : Utxo W) : PsetInput W :=
  ⟨utxo.outpoint.1, utxo.outpoint.2, some utxo.txout, []⟩

/-- `PartialOutput::new` -/
def PsetOutput.new (scriptPubkey : List UInt8) (amount : ℕ) (asset : W) : PsetOutput W where
  scriptPubkey := scriptPubkey
  amount := some amount
  asset := some asset
  amountComm := none
  assetComm := none
  valueRangeproof := none
  assetSurjectionProof := none
  blindingKey := none
  ecdhPubkey := none
  blinderIndex := none
  blindValueProof := none
  blindAssetProof := none

/-- `output_from_utxo` -/
def PsetOutput.fromUtxo (utxo : Utxo W) : PsetOutput W := .new utxo.scriptPubkey utxo.amount utxo.asset

@[simp] theorem PsetInput.outpoint_new (utxo : Utxo W) : (PsetInput.new utxo).outpoint = utxo.outpoint := rfl

@[simp] theorem PsetInput.witnessUtxo_new (utxo : Utxo W) : (PsetInput.new utxo).witnessUtxo = some utxo.txout := rfl

theorem PsetOutput.toTxout_new (scriptPubkey : List UInt8) (amount : ℕ) (asset : W) :
    (PsetOutput.new scriptPubkey amount asset).toTxout = (⟨(asset, 0), asset, amount, scriptPubkey⟩ : Utxo W).txout :=
  rfl

end Building

section Helpers

variable {W : Type}

/-- `is_fully_explicit_output` -/
def PsetOutput.isFullyExplicit (output : PsetOutput W) : Bool :=
  output.amount.isSome && output.asset.isSome && output.amountComm.isNone && output.assetComm.isNone &&
    output.valueRangeproof.isNone && output.assetSurjectionProof.isNone && output.blindingKey.isNone &&
    output.ecdhPubkey.isNone && output.blinderIndex.isNone && output.blindValueProof.isNone &&
    output.blindAssetProof.isNone

theorem PsetOutput.isFullyExplicit_new (scriptPubkey : List UInt8) (amount : ℕ) (asset : W) :
    (PsetOutput.new scriptPubkey amount asset).isFullyExplicit = true := rfl

variable {E : Type}

/-- A check that fails with an error. -/
def require (condition : Prop) [Decidable condition] (error : E) : Except E Unit :=
  if condition then .ok () else .error error

theorem require_ok {condition : Prop} [Decidable condition] {error : E} :
    require condition error = .ok () ↔ condition := by
  unfold require
  split_ifs with h <;> simp [h]

theorem then_ok {A : Type} {first : Except E Unit} {next : Except E A} {a : A} :
    (first >>= fun _ => next) = .ok a ↔ first = .ok () ∧ next = .ok a := by
  rw [Db.except_bind_ok]
  constructor
  · rintro ⟨⟨⟩, h⟩
    exact h
  · exact fun h => ⟨(), h⟩

theorem mapError_ok {E' A : Type} {f : E → E'} {result : Except E A} {a : A} :
    result.mapError f = .ok a ↔ result = .ok a := by
  cases result <;> simp [Except.mapError]

theorem exists_of_isOk {A : Type} {result : Except E A} (h : result.isOk = true) : ∃ a, result = .ok a := by
  cases result with
  | ok a => exact ⟨a, rfl⟩
  | error => cases h

theorem forM_ok {A : Type} {check : A → Except E Unit} {items : List A} :
    items.forM check = .ok () ↔ ∀ item ∈ items, check item = .ok () := by
  induction items with
  | nil => exact ⟨fun _ _ h => absurd h List.not_mem_nil, fun _ => rfl⟩
  | cons item items ih =>
    rw [List.forall_mem_cons, ← ih]
    exact then_ok

theorem forM_zipIdx_ok {A : Type} {check : A × ℕ → Except E Unit} {items : List A} :
    items.zipIdx.forM check = .ok () ↔ ∀ (i : ℕ) (item : A), items[i]? = some item → check (item, i) = .ok () := by
  rw [forM_ok]
  constructor
  · exact fun h i item hitem => h (item, i) (List.mem_zipIdx_iff_getElem?.mpr hitem)
  · exact fun h item hitem => h item.2 item.1 (List.mem_zipIdx_iff_getElem?.mp hitem)

theorem mapM_ok {A B : Type} {f : A → Except E B} {as : List A} :
    ∀ {bs : List B}, as.mapM f = .ok bs → bs.length = as.length ∧
      ∀ (i : ℕ) (a : A), as[i]? = some a → ∃ b, bs[i]? = some b ∧ f a = .ok b := by
  induction as with
  | nil =>
    rintro bs ⟨⟩
    exact ⟨rfl, fun i a hi => absurd hi (by simp)⟩
  | cons a as ih =>
    intro bs h
    rw [List.mapM_cons] at h
    obtain ⟨b, hb, h⟩ := Db.except_bind_ok.mp h
    obtain ⟨rest, hrest, h⟩ := Db.except_bind_ok.mp h
    cases h
    obtain ⟨hlength, hall⟩ := ih hrest
    refine ⟨by rw [List.length_cons, List.length_cons, hlength], fun i a' hi => ?_⟩
    cases i with
    | zero =>
      cases hi
      exact ⟨b, rfl, hb⟩
    | succ i => exact hall i a' hi

theorem mapM_ok_of_forall {A B : Type} {f : A → Except E B} {items : List A} (h : ∀ item ∈ items, ∃ b, f item = .ok b) :
    ∃ bs, items.mapM f = .ok bs := by
  induction items with
  | nil => exact ⟨[], rfl⟩
  | cons item items ih =>
    obtain ⟨b, hb⟩ := h item List.mem_cons_self
    obtain ⟨bs, hbs⟩ := ih fun other hother => h other (.tail _ hother)
    exact ⟨b :: bs, by rw [List.mapM_cons, hb, hbs]; rfl⟩

theorem mapM_error {A B : Type} {f : A → Except E B} {error : E} : ∀ {items : List A},
    (∀ item ∈ items, f item = .error error ∨ ∃ b, f item = .ok b) → (∃ item ∈ items, f item = .error error) →
      items.mapM f = .error error := by
  intro items
  induction items with
  | nil =>
    rintro - ⟨item, hitem, -⟩
    exact absurd hitem List.not_mem_nil
  | cons item items ih =>
    intro hall hsome
    rw [List.mapM_cons]
    rcases hall item List.mem_cons_self with herror | ⟨b, hb⟩
    · rw [herror]
      rfl
    · have hrest : ∃ other ∈ items, f other = .error error := by
        obtain ⟨other, hother, herror⟩ := hsome
        rcases List.mem_cons.mp hother with rfl | hother
        · rw [hb] at herror
          cases herror
        · exact ⟨other, hother, herror⟩
      rw [hb, ih (fun other hother => hall other (.tail _ hother)) hrest]
      rfl

/-- `witness_utxo` -/
def Pset.witnessUtxo (pset : Pset W) (index : ℕ) : Except String (ChainTxOut W) :=
  match (pset.inputs[index]?).bind PsetInput.witnessUtxo with
  | some txout => .ok txout
  | none => .error s!"input {index} has no witness UTXO"

theorem Pset.witnessUtxo_ok {pset : Pset W} {index : ℕ} {txout : ChainTxOut W} :
    pset.witnessUtxo index = .ok txout ↔
      ∃ input, pset.inputs[index]? = some input ∧ input.witnessUtxo = some txout := by
  unfold Pset.witnessUtxo
  rw [← Option.bind_eq_some_iff]
  cases (pset.inputs[index]?).bind PsetInput.witnessUtxo <;> simp

variable [DecidableEq W]

/-- `require_explicit_utxo` -/
def requireExplicitUtxo (utxo : ChainTxOut W) (asset : W) (script : List UInt8) (name : String) :
    Except String Unit := do
  require (utxo.asset.getExplicit = some asset ∧ utxo.scriptPubkey = script) s!"invalid {name} input"
  require (utxo.value.getExplicit ≠ none) s!"{name} input must be explicit"

theorem requireExplicitUtxo_ok {utxo : ChainTxOut W} {asset : W} {script : List UInt8} {name : String} :
    requireExplicitUtxo utxo asset script name = .ok () ↔
      utxo.asset = .explicit asset ∧ utxo.scriptPubkey = script ∧ ∃ amount, utxo.value = .explicit amount := by
  unfold requireExplicitUtxo
  rw [then_ok, require_ok, require_ok, ChainField.getExplicit_eq_some, Option.ne_none_iff_exists', and_assoc]
  simp only [ChainField.getExplicit_eq_some]

/-- `require_preserved_output` -/
def requirePreservedOutput (pset : Pset W) (index : ℕ) (input : ChainTxOut W) (name : String) :
    Except String Unit :=
  match pset.outputs[index]? with
  | none => .error s!"missing {name} output"
  | some output =>
    require (output.toTxout.asset = input.asset ∧ output.toTxout.value = input.value ∧
      output.toTxout.scriptPubkey = input.scriptPubkey) s!"{name} is not preserved"

theorem requirePreservedOutput_ok {pset : Pset W} {index : ℕ} {input : ChainTxOut W} {name : String} :
    requirePreservedOutput pset index input name = .ok () ↔ ∃ output, pset.outputs[index]? = some output ∧
      output.toTxout.asset = input.asset ∧ output.toTxout.value = input.value ∧
      output.toTxout.scriptPubkey = input.scriptPubkey := by
  unfold requirePreservedOutput
  cases pset.outputs[index]? with
  | none => simp
  | some output => simp [require_ok]

end Helpers

end PriceOracle
