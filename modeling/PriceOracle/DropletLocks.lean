import PriceOracle.DropletConservation

/-!
# Exchange locks and the spends signed under them

The ledger together with the spends that were signed under a lock and may still
confirm. A confirmed spend clears the lock column of its member, whatever the lock was
taken for; what this needs to be harmless is that no lock is taken while another
signed spend of the member is outstanding.
-/

namespace PriceOracle

section Columns

variable {W Tx : Type} [DecidableEq W]

/-- The transaction that the row is locked for. -/
def Droplet.lock (row : Droplet Tx) : Option Tx := if row.exchangeLocked then row.lastTx else none

def lockedFor (droplets : Table W (Droplet Tx)) (member : W) : Option Tx :=
  (droplets.lookup member).bind Droplet.lock

def balanceOf (droplets : Table W (Droplet Tx)) (member : W) : ℕ :=
  ((droplets.lookup member).map Droplet.amount).getD 0

def deficitOf (droplets : Table W (Droplet Tx)) (member : W) : ℕ :=
  ((droplets.lookup member).map Droplet.deficit).getD 0

theorem lockedFor_insert (droplets : Table W (Droplet Tx)) (member k : W) (row : Droplet Tx) :
    lockedFor (droplets.insert member row) k =
      if k = member then row.lock else lockedFor droplets k := by
  unfold lockedFor
  rw [Table.lookup_insert_eq]
  split_ifs <;> rfl

theorem balanceOf_insert (droplets : Table W (Droplet Tx)) (member k : W) (row : Droplet Tx) :
    balanceOf (droplets.insert member row) k = if k = member then row.amount else balanceOf droplets k := by
  unfold balanceOf
  rw [Table.lookup_insert_eq]
  split_ifs <;> rfl

theorem deficitOf_insert (droplets : Table W (Droplet Tx)) (member k : W) (row : Droplet Tx) :
    deficitOf (droplets.insert member row) k = if k = member then row.deficit else deficitOf droplets k := by
  unfold deficitOf
  rw [Table.lookup_insert_eq]
  split_ifs <;> rfl

end Columns

namespace DropletStore

variable {W Tx : Type} [DecidableEq W]

section Effects

variable (droplets : Table W (Droplet Tx)) (height : ℕ) (k : W)

theorem lockedFor_creditRow (entry : W × ℕ) :
    lockedFor (creditRow droplets height entry) k = lockedFor droplets k := by
  unfold creditRow
  rw [lockedFor_insert]
  split_ifs with hk
  · rw [hk, lockedFor]
    cases droplets.lookup entry.1 <;> rfl
  · rfl

theorem balanceOf_creditRow_le (entry : W × ℕ) :
    balanceOf droplets k ≤ balanceOf (creditRow droplets height entry) k := by
  unfold creditRow
  rw [balanceOf_insert]
  split_ifs with hk
  · rw [hk, balanceOf]
    cases droplets.lookup entry.1 with
    | none => exact Nat.zero_le _
    | some row => exact Nat.le_add_right _ _
  · exact le_refl _

theorem deficitOf_creditRow (entry : W × ℕ) (h : deficitOf droplets k = 0) :
    deficitOf (creditRow droplets height entry) k = 0 := by
  unfold creditRow
  rw [deficitOf_insert]
  split_ifs with hk
  · rw [hk, deficitOf] at h
    cases hrow : droplets.lookup entry.1 with
    | none => rfl
    | some row =>
      rw [hrow] at h
      simp only [Option.map_some, Option.getD_some] at h
      simp only [creditedRow]
      split_ifs <;> omega
  · exact h

/-- Credits touch no lock, take nothing away and make no deficit. -/
theorem creditAll_columns (entries : List (W × ℕ)) :
    lockedFor (creditAll droplets height entries) k = lockedFor droplets k ∧
      balanceOf droplets k ≤ balanceOf (creditAll droplets height entries) k ∧
        (deficitOf droplets k = 0 → deficitOf (creditAll droplets height entries) k = 0) := by
  unfold creditAll
  induction entries generalizing droplets with
  | nil => exact ⟨rfl, le_refl _, id⟩
  | cons entry entries ih =>
    obtain ⟨hlock, hbalance, hdeficit⟩ := ih (creditRow droplets height entry)
    refine ⟨hlock.trans (lockedFor_creditRow droplets height k entry),
      (balanceOf_creditRow_le droplets height k entry).trans hbalance, fun h => ?_⟩
    exact hdeficit (deficitOf_creditRow droplets height k entry h)

end Effects

/-- Whom a transaction is charged to, and how much. -/
def chargeOf (store : DropletStore W Tx) (treasuryTransaction : TreasuryTransaction W) : Option (W × ℕ) :=
  let spent := spentAmount store.treasuryUtxos treasuryTransaction.inputs
  if spent = 0 then none
  else treasuryTransaction.exchangeMember.map fun member => (member, spent - treasuryTransaction.created)

/-- What a transaction does to the columns of a member: the one it is charged to loses its lock
and the amount, everybody else keeps the lock and is perhaps credited. -/
theorem applyTransaction_columns {s t : DropletStore W Tx} {u : PUnit} {height : ℕ} {members : List W}
    {treasuryTransaction : TreasuryTransaction W}
    (h : (applyTransaction height members treasuryTransaction).Returns s u t) (k : W) :
    (∃ amount, s.chargeOf treasuryTransaction = some (k, amount) ∧ lockedFor t.droplets k = none ∧
      balanceOf t.droplets k = balanceOf s.droplets k - amount ∧
        deficitOf t.droplets k = deficitOf s.droplets k + (amount - balanceOf s.droplets k)) ∨
    ((∀ amount, s.chargeOf treasuryTransaction ≠ some (k, amount)) ∧
      lockedFor t.droplets k = lockedFor s.droplets k ∧ balanceOf s.droplets k ≤ balanceOf t.droplets k ∧
        (deficitOf s.droplets k = 0 → deficitOf t.droplets k = 0)) := by
  obtain ⟨-, hout⟩ := applyTransaction_returns h
  unfold chargeOf
  cases hout with
  | deposit hspent hdroplets =>
    rw [hdroplets, if_pos hspent]
    exact Or.inr ⟨fun _ => nofun, creditAll_columns s.droplets height k _⟩
  | spend member hmem hmember hspent hle hdroplets =>
    simp only [if_neg hspent, hmember, Option.map_some, hdroplets, lockedFor_insert, balanceOf_insert,
      deficitOf_insert]
    by_cases hk : k = member
    · subst hk
      simp only [if_true]
      exact Or.inl ⟨_, rfl, rfl, rfl, rfl⟩
    · simp only [if_neg hk]
      refine Or.inr ⟨fun amount heq => hk ?_, trivial, le_refl _, id⟩
      exact (congrArg Prod.fst (Option.some.inj heq)).symm

/-- A row with the same value in its place moves no balance. -/
theorem value_insert (droplets : Table W (Droplet Tx)) {member : W} {row row' : Droplet Tx}
    (hrow : droplets.lookup member = some row) (hamount : row'.amount = row.amount)
    (hdeficit : row'.deficit = row.deficit) (k : W) :
    balanceOf (droplets.insert member row') k = balanceOf droplets k ∧
      deficitOf (droplets.insert member row') k = deficitOf droplets k := by
  rw [balanceOf_insert, deficitOf_insert]
  split_ifs with hk
  · rw [hk, balanceOf, deficitOf, hrow]
    exact ⟨hamount, hdeficit⟩
  · exact ⟨rfl, rfl⟩

end DropletStore

namespace DropletStore

variable {W Tx : Type} [LinearOrder W] [DecidableEq Tx] (store : DropletStore W Tx) (member : W)

/-- A lock is new, or the member's lock stays as it is; no value moves. -/
theorem lock_columns (amount height : ℕ) (transaction : Tx) (k : W) :
    let droplets' := (store.step (.lockExchange member amount height transaction)).droplets
    (balanceOf droplets' k = balanceOf store.droplets k ∧ deficitOf droplets' k = deficitOf store.droplets k) ∧
      (lockedFor droplets' k = lockedFor store.droplets k ∨ (k = member ∧ amount ≤ balanceOf store.droplets k ∧
        lockedFor store.droplets k = none ∧ lockedFor droplets' k = some transaction)) := by
  intro droplets'
  have hcases := Db.exec_atomic_cases (program (.lockExchange member amount height transaction)) store
  change store.step _ = store ∨ ∃ a, (program _).Returns store a (store.step _) at hcases
  rcases hcases with hsame | ⟨_, hrun⟩
  · have hdroplets : droplets' = store.droplets := congrArg DropletStore.droplets hsame
    rw [hdroplets]
    exact ⟨⟨rfl, rfl⟩, Or.inl rfl⟩
  obtain ⟨_, _, hlock, hpure⟩ := Db.returns_bind.mp hrun
  obtain ⟨-, hstep⟩ := Db.returns_pure.mp hpure
  have hdroplets := congrArg DropletStore.droplets hstep
  change droplets' = _ at hdroplets
  rcases lockExchange_returns hlock with ⟨-, rfl⟩ | ⟨-, row, hrow, hle, hfree, rfl⟩
  · rw [hdroplets]
    exact ⟨⟨rfl, rfl⟩, Or.inl rfl⟩
  have hamount : (lockedRow row amount height transaction).amount = row.amount := rfl
  have hdeficit : (lockedRow row amount height transaction).deficit = row.deficit := rfl
  rw [hdroplets]
  refine ⟨value_insert store.droplets hrow hamount hdeficit k, ?_⟩
  rw [lockedFor_insert]
  split_ifs with hk
  · rw [hk, lockedFor, balanceOf, hrow]
    rcases hfree with hunlocked | ⟨hlast, -⟩
    · exact Or.inr ⟨rfl, hle, by simp [Droplet.lock, hunlocked], rfl⟩
    · cases hlocked : row.exchangeLocked with
      | false => exact Or.inr ⟨rfl, hle, by simp [Droplet.lock, hlocked], rfl⟩
      | true => exact Or.inl (by simp [Droplet.lock, lockedRow, hlocked, hlast])
  · exact Or.inl rfl

/-- Unlocking moves no value and touches nobody else's lock. -/
theorem unlock_columns (height : ℕ) (k : W) :
    let droplets' := (store.step (.unlockExchange member height)).droplets
    (balanceOf droplets' k = balanceOf store.droplets k ∧ deficitOf droplets' k = deficitOf store.droplets k) ∧
      (lockedFor droplets' k = lockedFor store.droplets k ∨ (k = member ∧ lockedFor droplets' k = none)) := by
  intro droplets'
  have hcases := Db.exec_atomic_cases (program (.unlockExchange member height)) store
  change store.step _ = store ∨ ∃ a, (program _).Returns store a (store.step _) at hcases
  rcases hcases with hsame | ⟨_, hrun⟩
  · have hdroplets : droplets' = store.droplets := congrArg DropletStore.droplets hsame
    rw [hdroplets]
    exact ⟨⟨rfl, rfl⟩, Or.inl rfl⟩
  rcases unlockExchange_returns hrun with ⟨-, hstep⟩ | ⟨row, hrow, hstep⟩
  · have hdroplets : droplets' = store.droplets := congrArg DropletStore.droplets hstep
    rw [hdroplets]
    exact ⟨⟨rfl, rfl⟩, Or.inl rfl⟩
  · have hdroplets := congrArg DropletStore.droplets hstep
    change droplets' = _ at hdroplets
    have hamount : (unlockedRow row height).amount = row.amount := rfl
    have hdeficit : (unlockedRow row height).deficit = row.deficit := rfl
    rw [hdroplets]
    refine ⟨value_insert store.droplets hrow hamount hdeficit k, ?_⟩
    rw [lockedFor_insert]
    split_ifs with hk
    · exact Or.inr ⟨hk, rfl⟩
    · exact Or.inl rfl

/-- A locked transaction is replaced by another one, or nothing changes. -/
theorem update_columns (tx finalTx : Tx) (k : W) :
    let droplets' := (store.step (.updateLockedTransaction member tx finalTx)).droplets
    lockedFor droplets' k = lockedFor store.droplets k ∨
      (lockedFor store.droplets k = some tx ∧ lockedFor droplets' k = some finalTx) := by
  intro droplets'
  have hcases := Db.exec_atomic_cases (program (.updateLockedTransaction member tx finalTx)) store
  change store.step _ = store ∨ ∃ a, (program _).Returns store a (store.step _) at hcases
  rcases hcases with hsame | ⟨_, hrun⟩
  · exact Or.inl (congrArg (fun store => lockedFor store.droplets k) hsame)
  obtain ⟨_, _, hupdate, hpure⟩ := Db.returns_bind.mp hrun
  obtain ⟨-, hstep⟩ := Db.returns_pure.mp hpure
  have hdroplets := congrArg DropletStore.droplets hstep
  change droplets' = _ at hdroplets
  rw [hdroplets]
  rcases updateLockedTransaction_returns hupdate with ⟨-, rfl⟩ | ⟨-, row, hrow, hlocked, hlast, rfl⟩
  · exact Or.inl rfl
  · rw [lockedFor_insert]
    split_ifs with hk
    · right
      rw [hk, lockedFor, hrow]
      exact ⟨by simp [Droplet.lock, hlocked, hlast], by simp [Droplet.lock, hlocked]⟩
    · exact Or.inl rfl

end DropletStore

end PriceOracle
