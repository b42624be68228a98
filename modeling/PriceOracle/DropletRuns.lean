import PriceOracle.DropletConservation

/-!
# When the Droplets statements succeed

The other direction of what the statements do: amounts in range, outputs that are new and a member that
is named are enough for a transaction to go through.
-/

namespace PriceOracle

namespace DropletStore

variable {W Tx : Type} [DecidableEq W] {s : DropletStore W Tx}

open Db

section Inputs

theorem spendInput_run {input : W × ℕ} {amount : ℕ}
    (h : amount + ((s.treasuryUtxos.lookup input).map TreasuryUtxo.amount).getD 0 < 2 ^ 64) :
    (spendInput amount input).Returns s (amount + ((s.treasuryUtxos.lookup input).map TreasuryUtxo.amount).getD 0)
      { s with treasuryUtxos := s.treasuryUtxos.erase input } := by
  unfold spendInput
  rw [returns_get_bind]
  cases hrow : s.treasuryUtxos.lookup input with
  | none =>
    rw [Table.erase_of_lookup_none hrow]
    exact returns_pure.mpr ⟨rfl, rfl⟩
  | some row =>
    rw [hrow, Option.map_some, Option.getD_some] at h
    dsimp only
    rw [if_pos h]
    exact returns_bind.mpr ⟨⟨⟩, _, returns_set.mpr rfl, returns_pure.mpr ⟨rfl, rfl⟩⟩

theorem spendInputs_run {inputs : List (W × ℕ)} {amount : ℕ} (h : amount + spentAmount s.treasuryUtxos inputs < 2 ^ 64) :
    (inputs.foldlM spendInput amount).Returns s (amount + spentAmount s.treasuryUtxos inputs)
      { s with treasuryUtxos := eraseInputs s.treasuryUtxos inputs } := by
  induction inputs generalizing s amount with
  | nil => exact returns_pure.mpr ⟨rfl, rfl⟩
  | cons input inputs ih =>
    rw [spentAmount, ← Nat.add_assoc] at h ⊢
    rw [List.foldlM_cons]
    exact returns_bind.mpr ⟨_, _, spendInput_run (by omega), ih h⟩

/-- Distinct inputs spend what the ledger holds at each of them. -/
theorem spentAmount_eq_sum {treasuryUtxos : Table (W × ℕ) TreasuryUtxo} {inputs : List (W × ℕ)} (h : inputs.Nodup) :
    spentAmount treasuryUtxos inputs =
      (inputs.map fun input => ((treasuryUtxos.lookup input).map TreasuryUtxo.amount).getD 0).sum := by
  induction inputs generalizing treasuryUtxos with
  | nil => rfl
  | cons input inputs ih =>
    obtain ⟨hinput, hrest⟩ := List.nodup_cons.mp h
    rw [spentAmount, ih hrest, List.map_cons, List.sum_cons]
    congr 2
    apply List.map_congr_left
    intro other hother
    have hne : other ≠ input := fun heq => hinput (heq ▸ hother)
    rw [AList.lookup_erase_ne hne]

theorem lookup_eraseInputs_none {treasuryUtxos : Table (W × ℕ) TreasuryUtxo} {inputs : List (W × ℕ)} {key : W × ℕ}
    (h : key ∉ treasuryUtxos) : key ∉ eraseInputs treasuryUtxos inputs := by
  induction inputs generalizing treasuryUtxos with
  | nil => exact h
  | cons input inputs ih =>
    apply ih
    rw [AList.mem_erase]
    exact fun hmem => h hmem.2

end Inputs

section Outputs

theorem outputAmount_of_lt {outputs : List (ℕ × ℕ)} (h : (outputs.map Prod.snd).sum < 2 ^ 64) :
    outputAmount outputs = some (outputs.map Prod.snd).sum := by
  have hfold : ∀ start, start + (outputs.map Prod.snd).sum < 2 ^ 64 → outputs.foldlM (fun total output =>
      if total + output.2 < 2 ^ 64 then some (total + output.2) else none) start =
        some (start + (outputs.map Prod.snd).sum) := by
    clear h
    induction outputs with
    | nil =>
      intro start _
      rfl
    | cons output outputs ih =>
      intro start hlt
      rw [List.map_cons, List.sum_cons, ← Nat.add_assoc] at hlt ⊢
      rw [List.foldlM_cons, if_pos (by omega)]
      exact ih _ hlt
  have hzero := hfold 0 (by omega)
  rw [Nat.zero_add] at hzero
  exact hzero

/-- Outputs at positions of their own, of a transaction that the ledger does not hold yet. -/
theorem insertOutputs_run {txid : W} {height : ℕ} (hheight : height < 2 ^ 63) {outputs : List (ℕ × ℕ)}
    (hnodup : (outputs.map Prod.fst).Nodup) (hamounts : ∀ output ∈ outputs, output.2 < 2 ^ 63)
    (hnew : ∀ output ∈ outputs, (txid, output.1) ∉ s.treasuryUtxos) :
    (outputs.forM (insertOutput txid height)).Returns s ⟨⟩
      { s with treasuryUtxos := outputs.foldl (insertedOutput txid height) s.treasuryUtxos } := by
  induction outputs generalizing s with
  | nil => exact returns_pure.mpr ⟨rfl, rfl⟩
  | cons output outputs ih =>
    obtain ⟨hfirst, hrest⟩ := List.nodup_cons.mp hnodup
    have hinsert : (insertOutput txid height output).Returns s ⟨⟩
        { s with treasuryUtxos := insertedOutput txid height s.treasuryUtxos output } :=
      insertOutput_returns.mpr ⟨hamounts output List.mem_cons_self, hheight, hnew output List.mem_cons_self, rfl⟩
    refine returns_bind.mpr ⟨⟨⟩, _, hinsert, ih hrest (fun other hother => hamounts other (List.mem_cons_of_mem output hother)) ?_⟩
    intro other hother
    have hne : (txid, other.1) ≠ (txid, output.1) := by
      intro heq
      rw [Prod.mk.injEq] at heq
      exact hfirst (List.mem_map.mpr ⟨other, hother, heq.2⟩)
    have hold := hnew other (List.mem_cons_of_mem output hother)
    unfold insertedOutput
    rw [← AList.lookup_eq_none] at hold ⊢
    rw [AList.lookup_insert_ne hne]
    exact hold

end Outputs

section Transactions

variable {height : ℕ} {members : List W} {treasuryTransaction : TreasuryTransaction W}

/-- What a transaction needs before it is a deposit or a spend. -/
structure Insertable (s : DropletStore W Tx) (height : ℕ) (treasuryTransaction : TreasuryTransaction W) : Prop where
  height : height < 2 ^ 63
  spent : spentAmount s.treasuryUtxos treasuryTransaction.inputs < 2 ^ 64
  created : treasuryTransaction.created < 2 ^ 64
  positions : (treasuryTransaction.outputs.map Prod.fst).Nodup
  amounts : ∀ output ∈ treasuryTransaction.outputs, output.2 < 2 ^ 63
  unknown : ∀ output ∈ treasuryTransaction.outputs, (treasuryTransaction.txid, output.1) ∉ s.treasuryUtxos

/-- The Treasury outputs after the transaction. -/
def recorded (s : DropletStore W Tx) (height : ℕ) (treasuryTransaction : TreasuryTransaction W) : DropletStore W Tx :=
  let spent := eraseInputs s.treasuryUtxos treasuryTransaction.inputs
  { s with treasuryUtxos := treasuryTransaction.outputs.foldl (insertedOutput treasuryTransaction.txid height) spent }

/-- Up to the balances of the members. -/
theorem applyTransaction_recorded (h : Insertable s height treasuryTransaction) {u : PUnit} {t : DropletStore W Tx} :
    (applyTransaction height members treasuryTransaction).Returns s u t ↔
      (if spentAmount s.treasuryUtxos treasuryTransaction.inputs = 0 then
        creditDeposit members treasuryTransaction.depositMember treasuryTransaction.created height
      else debit members treasuryTransaction.exchangeMember (spentAmount s.treasuryUtxos treasuryTransaction.inputs)
        treasuryTransaction.created height).Returns (recorded s height treasuryTransaction) u t := by
  have hlt : 0 + spentAmount s.treasuryUtxos treasuryTransaction.inputs < 2 ^ 64 := by
    rw [Nat.zero_add]
    exact h.spent
  have hspend := spendInputs_run (s := s) hlt
  rw [Nat.zero_add] at hspend
  have hinsert := insertOutputs_run (s := { s with treasuryUtxos := eraseInputs s.treasuryUtxos treasuryTransaction.inputs })
    h.height h.positions h.amounts fun output houtput => lookup_eraseInputs_none (h.unknown output houtput)
  unfold applyTransaction
  unfold Returns at hspend hinsert ⊢
  rw [exec_bind, hspend]
  dsimp only
  rw [outputAmount_of_lt h.created]
  dsimp only
  rw [exec_bind, hinsert]
  rfl

end Transactions

end DropletStore

end PriceOracle
