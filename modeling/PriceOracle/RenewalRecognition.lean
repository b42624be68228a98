import PriceOracle.Renewal

/-!
# What the indexer takes for a renewal

The indexer follows a renewal that a block contains: one transaction that spends the whole supply of the current
covenant and pays the whole supply to the next one. Amounts are read off explicit outputs only.
-/

namespace PriceOracle

namespace Renewal

open Assets (stormEyeContractData renewedStormEye)

section Recognition

/-- The loop of `matches_storm_eye_supply`, from an amount on. -/
def supplyFrom (stormEye : NetworkAsset Bytes32) : List (ChainTxOut Bytes32) → ℕ → Bool → Except IndexerError Bool
  | [], amount, found => .ok (found && amount = stormEye.supply)
  | output :: outputs, amount, found =>
    if output.asset.getExplicit ≠ some stormEye.assetId then supplyFrom stormEye outputs amount found
    else if output.scriptPubkey ≠ stormEye.contractScript then .ok false
    else
      match output.value.getExplicit with
      | none => .ok false
      | some value =>
        if amount + value < 2 ^ 64 then supplyFrom stormEye outputs (amount + value) true
        else .error (.invalid "Storm Eye amount overflow")

def matchesStormEyeSupply (outputs : List (ChainTxOut Bytes32)) (stormEye : NetworkAsset Bytes32) : Except IndexerError Bool :=
  supplyFrom stormEye outputs 0 false

variable (previousOutput : Bytes32 × ℕ → Except IndexerError (ChainTxOut Bytes32))

/-- The outputs a transaction spends on this chain. -/
def spentOutputs (transaction : Transaction) : Except IndexerError (List (ChainTxOut Bytes32)) :=
  (transaction.input.filter fun input => !input.isPegin).mapM fun input => previousOutput input.previousOutput

/-- A transaction of the block, once the next covenant is known. -/
def renewalStep (current renewed : NetworkAsset Bytes32) (matched : Option (Bytes32 × NetworkAsset Bytes32))
    (transaction : Transaction) : Except IndexerError (Option (Bytes32 × NetworkAsset Bytes32)) := do
  let paid ← matchesStormEyeSupply transaction.output renewed
  if paid then
    let spent ← spentOutputs previousOutput transaction
    let moved ← matchesStormEyeSupply spent current
    if moved then
      if matched.isSome then throw (.invalid "block contains multiple Storm Eye renewal transactions")
      else return some (transaction.txid, renewed)
    else return matched
  else return matched

/-- `indexed_storm_eye_renewal` -/
def indexedStormEyeRenewal {Sig E : Type} (rules : AssetRules Sig E) (errorText : AssetError → String)
    (transactions : List Transaction) (current : NetworkAsset Bytes32) :
    Except IndexerError (Option (Bytes32 × NetworkAsset Bytes32)) := do
  let renewed ← (renewedStormEye rules current).mapError fun error => .invalid (errorText error)
  transactions.foldlM (renewalStep previousOutput current renewed) none

end Recognition

section Supplies

/-- What explicit outputs hold of an asset. -/
def explicitTotal (asset : Bytes32) (outputs : List (ChainTxOut Bytes32)) : ℕ :=
  (outputs.map fun output => if output.asset = .explicit asset then output.value.getExplicit.getD 0 else 0).sum

/-- The outputs hold the whole supply, all of it explicit and under the covenant. -/
structure Supplies (stormEye : NetworkAsset Bytes32) (outputs : List (ChainTxOut Bytes32)) : Prop where
  found : ∃ output ∈ outputs, output.asset = .explicit stormEye.assetId
  held : ∀ output ∈ outputs, output.asset = .explicit stormEye.assetId →
    output.scriptPubkey = stormEye.contractScript ∧ output.value.getExplicit.isSome
  total : explicitTotal stormEye.assetId outputs = stormEye.supply

variable {stormEye : NetworkAsset Bytes32}

theorem explicitTotal_cons (asset : Bytes32) (output : ChainTxOut Bytes32) (outputs : List (ChainTxOut Bytes32)) :
    explicitTotal asset (output :: outputs) =
      (if output.asset = .explicit asset then output.value.getExplicit.getD 0 else 0) + explicitTotal asset outputs := by
  rw [explicitTotal, List.map_cons, List.sum_cons]
  rfl

theorem supplyFrom_true (outputs : List (ChainTxOut Bytes32)) :
    ∀ {amount : ℕ} {found : Bool}, supplyFrom stormEye outputs amount found = .ok true →
      (found = true ∨ ∃ output ∈ outputs, output.asset = .explicit stormEye.assetId) ∧
      (∀ output ∈ outputs, output.asset = .explicit stormEye.assetId →
        output.scriptPubkey = stormEye.contractScript ∧ output.value.getExplicit.isSome) ∧
      amount + explicitTotal stormEye.assetId outputs = stormEye.supply := by
  induction outputs with
  | nil =>
    intro amount found h
    have h : (found && decide (amount = stormEye.supply)) = true := Except.ok.inj h
    obtain ⟨hfound, hamount⟩ := Bool.and_eq_true_iff.mp h
    exact ⟨.inl hfound, fun output houtput => absurd houtput List.not_mem_nil, of_decide_eq_true hamount⟩
  | cons output outputs ih =>
    intro amount found h
    rw [supplyFrom] at h
    rw [explicitTotal_cons]
    by_cases hasset : output.asset = .explicit stormEye.assetId
    · rw [if_neg (not_not.mpr (ChainField.getExplicit_eq_some.mpr hasset))] at h
      by_cases hscript : output.scriptPubkey = stormEye.contractScript
      · rw [if_neg (not_not.mpr hscript)] at h
        cases hvalue : output.value.getExplicit with
        | none =>
          rw [hvalue] at h
          cases h
        | some value =>
          rw [hvalue] at h
          dsimp only at h
          split_ifs at h with hfits
          obtain ⟨-, hheld, htotal⟩ := ih h
          refine ⟨.inr ⟨output, List.mem_cons_self, hasset⟩, ?_, ?_⟩
          · intro other hother hexplicit
            rcases List.mem_cons.mp hother with rfl | hother
            · exact ⟨hscript, by rw [hvalue]; rfl⟩
            · exact hheld other hother hexplicit
          · rw [if_pos hasset, Option.getD_some]
            omega
      · rw [if_pos hscript] at h
        cases h
    · rw [if_pos (fun hexplicit => hasset (ChainField.getExplicit_eq_some.mp hexplicit))] at h
      obtain ⟨hfound, hheld, htotal⟩ := ih h
      refine ⟨hfound.imp_right fun ⟨other, hother, hexplicit⟩ => ⟨other, .tail _ hother, hexplicit⟩, ?_, ?_⟩
      · intro other hother hexplicit
        rcases List.mem_cons.mp hother with rfl | hother
        · exact absurd hexplicit hasset
        · exact hheld other hother hexplicit
      · rw [if_neg hasset, Nat.zero_add]
        exact htotal

theorem supplyFrom_of_supplies (hsupply : stormEye.supply < 2 ^ 64) (outputs : List (ChainTxOut Bytes32)) :
    ∀ {amount : ℕ} {found : Bool}, (found = true ∨ ∃ output ∈ outputs, output.asset = .explicit stormEye.assetId) →
      (∀ output ∈ outputs, output.asset = .explicit stormEye.assetId →
        output.scriptPubkey = stormEye.contractScript ∧ output.value.getExplicit.isSome) →
      amount + explicitTotal stormEye.assetId outputs = stormEye.supply →
        supplyFrom stormEye outputs amount found = .ok true := by
  induction outputs with
  | nil =>
    rintro amount found (hfound | ⟨output, houtput, -⟩) - htotal
    · have hamount : amount = stormEye.supply := htotal
      rw [supplyFrom, hfound, hamount]
      simp
    · exact absurd houtput List.not_mem_nil
  | cons output outputs ih =>
    intro amount found hfound hheld htotal
    rw [explicitTotal_cons] at htotal
    rw [supplyFrom]
    by_cases hasset : output.asset = .explicit stormEye.assetId
    · obtain ⟨hscript, hvalue⟩ := hheld output List.mem_cons_self hasset
      obtain ⟨value, hvalue⟩ := Option.isSome_iff_exists.mp hvalue
      rw [if_pos hasset, hvalue, Option.getD_some] at htotal
      rw [if_neg (not_not.mpr (ChainField.getExplicit_eq_some.mpr hasset)), if_neg (not_not.mpr hscript), hvalue]
      dsimp only
      rw [if_pos (by omega)]
      exact ih (.inl rfl) (fun other hother => hheld other (.tail _ hother)) (by omega)
    · rw [if_neg hasset, Nat.zero_add] at htotal
      rw [if_pos (fun hexplicit => hasset (ChainField.getExplicit_eq_some.mp hexplicit))]
      refine ih (hfound.imp_right ?_) (fun other hother => hheld other (.tail _ hother)) htotal
      rintro ⟨other, hother, hexplicit⟩
      rcases List.mem_cons.mp hother with rfl | hother
      · exact absurd hexplicit hasset
      · exact ⟨other, hother, hexplicit⟩

/-- Outputs match exactly if they hold the whole supply. -/
theorem matchesStormEyeSupply_iff (hsupply : stormEye.supply < 2 ^ 64) {outputs : List (ChainTxOut Bytes32)} :
    matchesStormEyeSupply outputs stormEye = .ok true ↔ Supplies stormEye outputs := by
  constructor
  · intro h
    obtain ⟨hfound, hheld, htotal⟩ := supplyFrom_true outputs h
    exact ⟨hfound.resolve_left (by simp), hheld, by rwa [Nat.zero_add] at htotal⟩
  · intro h
    exact supplyFrom_of_supplies hsupply outputs (.inr h.found) h.held (by rw [Nat.zero_add]; exact h.total)

/-- Nothing of the covenant is nothing of its supply. -/
theorem supplyFrom_other (outputs : List (ChainTxOut Bytes32)) (amount : ℕ)
    (h : ∀ output ∈ outputs, output.asset = .explicit stormEye.assetId → output.scriptPubkey ≠ stormEye.contractScript) :
    supplyFrom stormEye outputs amount false = .ok false := by
  induction outputs with
  | nil => rfl
  | cons output outputs ih =>
    rw [supplyFrom]
    by_cases hasset : output.asset = .explicit stormEye.assetId
    · rw [if_neg (not_not.mpr (ChainField.getExplicit_eq_some.mpr hasset)), if_pos (h output List.mem_cons_self hasset)]
    · rw [if_pos (fun hexplicit => hasset (ChainField.getExplicit_eq_some.mp hexplicit))]
      exact ih fun other hother => h other (.tail _ hother)

/-- Amounts that fit 64 bits are added without an error. -/
theorem supplyFrom_ok (outputs : List (ChainTxOut Bytes32)) : ∀ {amount : ℕ} {found : Bool},
    amount + explicitTotal stormEye.assetId outputs < 2 ^ 64 → ∃ matched, supplyFrom stormEye outputs amount found = .ok matched := by
  induction outputs with
  | nil => exact fun _ => ⟨_, rfl⟩
  | cons output outputs ih =>
    intro amount found hfits
    rw [explicitTotal_cons] at hfits
    rw [supplyFrom]
    by_cases hasset : output.asset = .explicit stormEye.assetId
    · rw [if_neg (not_not.mpr (ChainField.getExplicit_eq_some.mpr hasset))]
      rw [if_pos hasset] at hfits
      by_cases hscript : output.scriptPubkey = stormEye.contractScript
      · rw [if_neg (not_not.mpr hscript)]
        cases hvalue : output.value.getExplicit with
        | none => exact ⟨_, rfl⟩
        | some value =>
          rw [hvalue, Option.getD_some] at hfits
          dsimp only
          rw [if_pos (by omega)]
          exact ih (by omega)
      · rw [if_pos hscript]
        exact ⟨_, rfl⟩
    · rw [if_pos (fun hexplicit => hasset (ChainField.getExplicit_eq_some.mp hexplicit))]
      rw [if_neg hasset, Nat.zero_add] at hfits
      exact ih hfits

end Supplies

end Renewal

end PriceOracle
