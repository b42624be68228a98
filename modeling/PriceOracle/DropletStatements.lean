import PriceOracle.Droplets

/-!
# What the Droplets statements do when they succeed

Each statement of the ledger is inverted once: from its success follow the guards it
passed and the tables it left.
-/

namespace PriceOracle

namespace DropletStore

variable {W Tx : Type}

open Db

@[simp]
theorem encodeU64_returns {value value' : ℕ} {s t : DropletStore W Tx} :
    (encodeU64 value).Returns s value' t ↔ value < 2 ^ 63 ∧ value' = value ∧ t = s := by
  simp only [encodeU64, returns_ite, returns_pure, returns_throw, and_false, or_false]

variable [DecidableEq W] {s t : DropletStore W Tx} {u : PUnit}

section Credits

def creditRow (droplets : Table W (Droplet Tx)) (height : ℕ) (entry : W × ℕ) : Table W (Droplet Tx) :=
  droplets.insert entry.1 (creditedRow (droplets.lookup entry.1) entry.2 height)

def creditAll (droplets : Table W (Droplet Tx)) (height : ℕ) (entries : List (W × ℕ)) :
    Table W (Droplet Tx) :=
  entries.foldl (fun droplets entry => creditRow droplets height entry) droplets

theorem credit_returns {member : W} {amount height : ℕ} :
    (credit member amount height).Returns s u t ↔ amount < 2 ^ 63 ∧ height < 2 ^ 63 ∧
      (creditedRow (s.droplets.lookup member) amount height).amount < 2 ^ 63 ∧
        t = { s with droplets := creditRow s.droplets height (member, amount) } := by
  simp [credit, creditRow]

/-- What the members get of a deposit. -/
def shares (members : List W) (taggedMember : Option W) (amount : ℕ) : List (W × ℕ) :=
  if amount = 0 then [] else allocations members taggedMember amount

theorem creditDeposit_returns {members : List W} {taggedMember : Option W} {amount height : ℕ}
    (h : (creditDeposit members taggedMember amount height).Returns s u t) :
    t = { s with droplets := creditAll s.droplets height (shares members taggedMember amount) } := by
  unfold creditDeposit at h
  unfold shares
  split_ifs at h ⊢ with hzero
  · exact (returns_pure.mp h).2
  · have hfold := returns_forM_foldl (fun entry s t u h => (credit_returns.mp h).2.2.2) _ h
    rw [hfold]
    clear h hfold
    unfold creditAll
    induction allocations members taggedMember amount generalizing s with
    | nil => rfl
    | cons entry entries ih => exact ih

end Credits

section Outputs

/-- The amounts of the inputs that are unspent Treasury outputs. -/
def spentAmount (treasuryUtxos : Table (W × ℕ) TreasuryUtxo) : List (W × ℕ) → ℕ
  | [] => 0
  | input :: inputs =>
    ((treasuryUtxos.lookup input).map TreasuryUtxo.amount).getD 0 +
      spentAmount (treasuryUtxos.erase input) inputs

def eraseInputs (treasuryUtxos : Table (W × ℕ) TreasuryUtxo) (inputs : List (W × ℕ)) :
    Table (W × ℕ) TreasuryUtxo :=
  inputs.foldl (fun treasuryUtxos input => treasuryUtxos.erase input) treasuryUtxos

theorem spendInput_returns {input : W × ℕ} {amount amount' : ℕ}
    (h : (spendInput amount input).Returns s amount' t) :
    amount' = amount + ((s.treasuryUtxos.lookup input).map TreasuryUtxo.amount).getD 0 ∧
      t = { s with treasuryUtxos := s.treasuryUtxos.erase input } := by
  unfold spendInput at h
  have hrest := returns_get_bind.mp h
  cases hrow : s.treasuryUtxos.lookup input with
  | none =>
    simp only [hrow] at hrest
    rw [Table.erase_of_lookup_none hrow]
    exact returns_pure.mp hrest
  | some row =>
    simp only [hrow] at hrest
    simp at hrest
    exact ⟨hrest.2.2, hrest.2.1⟩

theorem spendInputs_returns {inputs : List (W × ℕ)} {amount amount' : ℕ}
    (h : (inputs.foldlM spendInput amount).Returns s amount' t) :
    amount' = amount + spentAmount s.treasuryUtxos inputs ∧
      t = { s with treasuryUtxos := eraseInputs s.treasuryUtxos inputs } := by
  induction inputs generalizing s amount with
  | nil => exact returns_pure.mp h
  | cons input inputs ih =>
    obtain ⟨amount₁, s₁, hspend, hrest⟩ := returns_bind.mp h
    obtain ⟨rfl, rfl⟩ := spendInput_returns hspend
    obtain ⟨hamount, ht⟩ := ih hrest
    refine ⟨?_, ht⟩
    rw [hamount, spentAmount, Nat.add_assoc]

def insertedOutput (txid : W) (height : ℕ) (treasuryUtxos : Table (W × ℕ) TreasuryUtxo)
    (output : ℕ × ℕ) : Table (W × ℕ) TreasuryUtxo :=
  treasuryUtxos.insert (txid, output.1) ⟨output.2, height⟩

theorem insertOutput_returns {txid : W} {height : ℕ} {output : ℕ × ℕ} :
    (insertOutput txid height output).Returns s u t ↔ output.2 < 2 ^ 63 ∧ height < 2 ^ 63 ∧
      (txid, output.1) ∉ s.treasuryUtxos ∧
        t = { s with treasuryUtxos := insertedOutput txid height s.treasuryUtxos output } := by
  simp [insertOutput, insertedOutput]

def treasuryTotal (store : DropletStore W Tx) : ℤ :=
  store.treasuryUtxos.total fun row => (row.amount : ℤ)

theorem insertOutputs_returns {txid : W} {height : ℕ} {outputs : List (ℕ × ℕ)}
    (h : (outputs.forM (insertOutput txid height)).Returns s u t) :
    t.droplets = s.droplets ∧ t.treasuryTotal = s.treasuryTotal + ((outputs.map Prod.snd).sum : ℕ) := by
  induction outputs generalizing s with
  | nil =>
    obtain ⟨-, rfl⟩ := returns_pure.mp h
    simp
  | cons output outputs ih =>
    obtain ⟨_, s₁, hinsert, hrest⟩ := returns_bind.mp h
    obtain ⟨-, -, hnew, rfl⟩ := insertOutput_returns.mp hinsert
    obtain ⟨hdroplets, htotal⟩ := ih hrest
    refine ⟨hdroplets, ?_⟩
    have hstep := Table.total_insert (fun row : TreasuryUtxo => (row.amount : ℤ)) s.treasuryUtxos
      (txid, output.1) ⟨output.2, height⟩
    rw [AList.lookup_eq_none.mpr hnew] at hstep
    rw [htotal, List.map_cons, List.sum_cons]
    unfold treasuryTotal insertedOutput
    simp only [hstep, Option.map_none, Option.getD_none]
    push_cast
    ring

theorem total_eraseInputs (treasuryUtxos : Table (W × ℕ) TreasuryUtxo) (inputs : List (W × ℕ)) :
    (eraseInputs treasuryUtxos inputs).total (fun row => (row.amount : ℤ)) =
      treasuryUtxos.total (fun row => (row.amount : ℤ)) - spentAmount treasuryUtxos inputs := by
  induction inputs generalizing treasuryUtxos with
  | nil => simp [eraseInputs, spentAmount]
  | cons input inputs ih =>
    have herase := Table.total_erase (fun row : TreasuryUtxo => (row.amount : ℤ)) treasuryUtxos input
    have hamount : ((((treasuryUtxos.lookup input).map TreasuryUtxo.amount).getD 0 : ℕ) : ℤ) =
        ((treasuryUtxos.lookup input).map fun row => (row.amount : ℤ)).getD 0 := by
      cases treasuryUtxos.lookup input <;> rfl
    unfold eraseInputs at ih ⊢
    rw [List.foldl_cons, ih, spentAmount]
    push_cast
    omega

theorem outputAmount_some {outputs : List (ℕ × ℕ)} {total : ℕ} (h : outputAmount outputs = some total) :
    total = (outputs.map Prod.snd).sum := by
  have hsum : ∀ start total, outputs.foldlM (fun total output =>
      if total + output.2 < 2 ^ 64 then some (total + output.2) else none) start = some total →
        total = start + (outputs.map Prod.snd).sum := by
    clear h
    induction outputs with
    | nil =>
      intro start total h
      cases h
      rfl
    | cons output outputs ih =>
      intro start total h
      rw [List.foldlM_cons] at h
      split_ifs at h with hlt
      · have hrest := ih _ _ h
        rw [List.map_cons, List.sum_cons]
        omega
      · cases h
  have hzero := hsum 0 total h
  omega

end Outputs

section Transactions

theorem debit_returns {members : List W} {exchangeMember : Option W} {spent output height : ℕ}
    (h : (debit members exchangeMember spent output height).Returns s u t) :
    ∃ member ∈ members, exchangeMember = some member ∧ output ≤ spent ∧
      t = { s with droplets :=
        s.droplets.insert member (debitedRow (s.droplets.lookup member) (spent - output) height) } := by
  unfold debit at h
  cases exchangeMember with
  | none => exact absurd h returns_throw
  | some member =>
    simp at h
    exact ⟨member, h.1, rfl, h.2.1, h.2.2.2.2.2.2⟩

end Transactions

section Locks

variable {member : W} {amount height : ℕ} {transaction expectedTransaction : Tx} {done : Bool}

theorem unlockExchange_returns (h : (unlockExchange member height).Returns s u t) :
    (s.droplets.lookup member = none ∧ t = s) ∨ ∃ row, s.droplets.lookup member = some row ∧
      t = { s with droplets := s.droplets.insert member (unlockedRow row height) } := by
  unfold unlockExchange at h
  rw [returns_bind] at h
  obtain ⟨_, _, hheight, hrest⟩ := h
  obtain ⟨-, rfl, rfl⟩ := encodeU64_returns.mp hheight
  have hget := returns_get_bind.mp hrest
  cases hrow : AList.lookup member _ with
  | none =>
    rw [hrow] at hget
    exact Or.inl ⟨rfl, (returns_pure.mp hget).2⟩
  | some row =>
    rw [hrow] at hget
    exact Or.inr ⟨row, rfl, returns_set.mp hget⟩

variable [DecidableEq Tx]

theorem lockExchange_returns (h : (lockExchange member amount height transaction).Returns s done t) :
    (done = false ∧ t = s) ∨ (done = true ∧ ∃ row, s.droplets.lookup member = some row ∧
      amount ≤ row.amount ∧
        (row.exchangeLocked = false ∨ (row.lastTx = some transaction ∧ row.exchangeAmount = amount)) ∧
          t = { s with droplets :=
            s.droplets.insert member (lockedRow row amount height transaction) }) := by
  unfold lockExchange at h
  rw [returns_bind] at h
  obtain ⟨_, _, hheight, hrest⟩ := h
  obtain ⟨-, rfl, rfl⟩ := encodeU64_returns.mp hheight
  rw [returns_bind] at hrest
  obtain ⟨_, _, hamount, hrest⟩ := hrest
  obtain ⟨-, rfl, rfl⟩ := encodeU64_returns.mp hamount
  have hget := returns_get_bind.mp hrest
  cases hrow : AList.lookup member _ with
  | none =>
    rw [hrow] at hget
    exact Or.inl (returns_pure.mp hget)
  | some row =>
    rw [hrow] at hget
    rcases returns_ite.mp hget with ⟨⟨hle, hfree⟩, hset⟩ | ⟨-, hpure⟩
    · obtain ⟨_, _, hset, hpure⟩ := returns_bind.mp hset
      obtain ⟨hdone, rfl⟩ := returns_pure.mp hpure
      exact Or.inr ⟨hdone, row, rfl, hle, hfree, returns_set.mp hset⟩
    · exact Or.inl (returns_pure.mp hpure)

theorem updateLockedTransaction_returns
    (h : (updateLockedTransaction member expectedTransaction transaction).Returns s done t) :
    (done = false ∧ t = s) ∨ (done = true ∧ ∃ row, s.droplets.lookup member = some row ∧
      row.exchangeLocked = true ∧ row.lastTx = some expectedTransaction ∧
        t = { s with droplets := s.droplets.insert member { row with lastTx := some transaction } }) := by
  unfold updateLockedTransaction at h
  have hget := returns_get_bind.mp h
  cases hrow : s.droplets.lookup member with
  | none =>
    simp only [hrow] at hget
    exact Or.inl (returns_pure.mp hget)
  | some row =>
    simp only [hrow] at hget
    rcases returns_ite.mp hget with ⟨⟨hlocked, hlast⟩, hset⟩ | ⟨-, hpure⟩
    · obtain ⟨_, _, hset, hpure⟩ := returns_bind.mp hset
      obtain ⟨hdone, rfl⟩ := returns_pure.mp hpure
      exact Or.inr ⟨hdone, row, rfl, hlocked, hlast, returns_set.mp hset⟩
    · exact Or.inl (returns_pure.mp hpure)

end Locks

end DropletStore

/-- The outputs of the transaction in all. -/
def TreasuryTransaction.created {W : Type} (treasuryTransaction : TreasuryTransaction W) : ℕ :=
  (treasuryTransaction.outputs.map Prod.snd).sum

namespace DropletStore

variable {W Tx : Type} [DecidableEq W] {s t : DropletStore W Tx} {u : PUnit}

open Db

/-- A transaction that succeeds is a deposit, or a spend that its member is charged for. -/
inductive TransactionOutcome (height : ℕ) (members : List W) (treasuryTransaction : TreasuryTransaction W)
    (s t : DropletStore W Tx) : Prop where
  | deposit (hspent : spentAmount s.treasuryUtxos treasuryTransaction.inputs = 0)
      (hdroplets : t.droplets = creditAll s.droplets height
        (shares members treasuryTransaction.depositMember treasuryTransaction.created))
  | spend (member : W) (hmem : member ∈ members)
      (hmember : treasuryTransaction.exchangeMember = some member)
      (hspent : spentAmount s.treasuryUtxos treasuryTransaction.inputs ≠ 0)
      (hle : treasuryTransaction.created ≤ spentAmount s.treasuryUtxos treasuryTransaction.inputs)
      (hdroplets : t.droplets = s.droplets.insert member (debitedRow (s.droplets.lookup member)
        (spentAmount s.treasuryUtxos treasuryTransaction.inputs - treasuryTransaction.created) height))

theorem applyTransaction_returns {height : ℕ} {members : List W}
    {treasuryTransaction : TreasuryTransaction W}
    (h : (applyTransaction height members treasuryTransaction).Returns s u t) :
    t.treasuryTotal = s.treasuryTotal - spentAmount s.treasuryUtxos treasuryTransaction.inputs +
      treasuryTransaction.created ∧ TransactionOutcome height members treasuryTransaction s t := by
  unfold applyTransaction at h
  obtain ⟨spent, s₁, hspend, hrest⟩ := returns_bind.mp h
  obtain ⟨hspent, rfl⟩ := spendInputs_returns hspend
  rw [Nat.zero_add] at hspent
  subst hspent
  cases houtput : outputAmount treasuryTransaction.outputs with
  | none =>
    simp only [houtput] at hrest
    exact absurd hrest returns_throw
  | some output =>
    simp only [houtput] at hrest
    obtain rfl : output = treasuryTransaction.created := outputAmount_some houtput
    obtain ⟨_, s₂, hinsert, hlast⟩ := returns_bind.mp hrest
    obtain ⟨hdroplets, htotal⟩ := insertOutputs_returns hinsert
    have hmoved : s₂.treasuryTotal = s.treasuryTotal -
        spentAmount s.treasuryUtxos treasuryTransaction.inputs + treasuryTransaction.created := by
      rw [htotal]
      unfold treasuryTotal
      rw [total_eraseInputs]
      rfl
    rcases returns_ite.mp hlast with ⟨hzero, hcredit⟩ | ⟨hne, hdebit⟩
    · have ht := creditDeposit_returns hcredit
      rw [ht]
      refine ⟨hmoved, .deposit hzero ?_⟩
      rw [hdroplets]
    · obtain ⟨member, hmem, hmember, hle, ht⟩ := debit_returns hdebit
      rw [ht]
      refine ⟨hmoved, .spend member hmem hmember hne hle ?_⟩
      rw [hdroplets]

end DropletStore

end PriceOracle
