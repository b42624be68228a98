import PriceOracle.DropletStatements

/-!
# The Droplets ledger conserves value

Every successful statement moves the balances less deficits of the members and the
unspent Treasury outputs by the same amount, and no member has a balance and a deficit.
-/

namespace PriceOracle

/-- What the Treasury owes the member, less what the member owes it. -/
def Droplet.net {Tx : Type} (droplet : Droplet Tx) : ℤ := droplet.amount - droplet.deficit

def Droplet.Settled {Tx : Type} (droplet : Droplet Tx) : Prop := droplet.amount = 0 ∨ droplet.deficit = 0

namespace DropletStore

variable {W Tx : Type}

open Db

section Rows

variable (row : Option (Droplet Tx)) (amount height : ℕ)

theorem net_creditedRow : (creditedRow row amount height).net = (row.map Droplet.net).getD 0 + amount := by
  cases row with
  | none => simp [creditedRow, Droplet.net]
  | some row =>
    simp only [creditedRow, surplus, Droplet.net, Option.map_some, Option.getD_some]
    split_ifs <;> omega

theorem settled_creditedRow (h : ∀ old, row = some old → old.Settled) :
    (creditedRow row amount height).Settled := by
  cases row with
  | none => exact Or.inr rfl
  | some row =>
    have hold := h row rfl
    unfold Droplet.Settled at hold ⊢
    simp only [creditedRow, surplus]
    split_ifs <;> omega

theorem net_debitedRow (exchanged : ℕ) :
    (debitedRow row exchanged height).net = (row.map Droplet.net).getD 0 - exchanged := by
  cases row with
  | none =>
    simp only [debitedRow, Droplet.net, Option.map_none, Option.getD_none]
    omega
  | some row =>
    simp only [debitedRow, Droplet.net, Option.map_some, Option.getD_some]
    omega

theorem settled_debitedRow (exchanged : ℕ) (h : ∀ old, row = some old → old.Settled) :
    (debitedRow row exchanged height).Settled := by
  cases row with
  | none => exact Or.inl (Nat.zero_sub _)
  | some row =>
    have hold := h row rfl
    unfold Droplet.Settled at hold ⊢
    simp only [debitedRow, Option.map_some, Option.getD_some]
    omega

end Rows

section Shares

theorem sum_equal_shares (share remainder : ℕ) (members : List W) (start : ℕ) :
    ((members.zipIdx start).map fun entry => share + if entry.2 < remainder then 1 else 0).sum =
      members.length * share + (min remainder (start + members.length) - min remainder start) := by
  induction members generalizing start with
  | nil => simp
  | cons member members ih =>
    rw [List.zipIdx_cons, List.map_cons, List.sum_cons, ih, List.length_cons, Nat.succ_mul]
    split_ifs <;> omega

theorem sum_allocations [DecidableEq W] {members : List W} (hmembers : members ≠ []) (taggedMember : Option W)
    (amount : ℕ) : ((allocations members taggedMember amount).map Prod.snd).sum = amount := by
  have hpos : 0 < members.length := List.length_pos_iff.mpr hmembers
  unfold allocations
  cases taggedMember.filter fun member => decide (member ∈ members) with
  | some member => simp
  | none =>
    have hsum := sum_equal_shares (amount / members.length) (amount % members.length) members 0
    have hlt := Nat.mod_lt amount hpos
    have hdiv := Nat.div_add_mod amount members.length
    simp only [List.map_map]
    change ((members.zipIdx 0).map fun entry => amount / members.length +
      if entry.2 < amount % members.length then 1 else 0).sum = amount
    rw [hsum, Nat.zero_add, Nat.min_eq_left hlt.le, Nat.min_zero, Nat.sub_zero]
    exact hdiv

theorem sum_shares [DecidableEq W] {members : List W} (hmembers : members ≠ []) (taggedMember : Option W)
    (amount : ℕ) : ((shares members taggedMember amount).map Prod.snd).sum = amount := by
  unfold shares
  split_ifs with hzero
  · exact hzero.symm
  · exact sum_allocations hmembers taggedMember amount

end Shares

section Ledger

variable [DecidableEq W] {s t : DropletStore W Tx} {u : PUnit}

def memberTotal (store : DropletStore W Tx) : ℤ := store.droplets.total Droplet.net

structure Conserved (store : DropletStore W Tx) : Prop where
  total : store.memberTotal = store.treasuryTotal
  settled : ∀ member row, store.droplets.lookup member = some row → row.Settled

theorem conserved_empty : Conserved (empty : DropletStore W Tx) := by
  constructor
  · rfl
  · intro member row h
    cases h

/-- A row that changes no value leaves the ledger conserved. -/
theorem Conserved.updateRow (h : Conserved s) {member : W} {row row' : Droplet Tx}
    (hrow : s.droplets.lookup member = some row) (hamount : row'.amount = row.amount)
    (hdeficit : row'.deficit = row.deficit) :
    Conserved { s with droplets := s.droplets.insert member row' } := by
  have hsettled := h.settled member row hrow
  constructor
  · change Table.total Droplet.net (s.droplets.insert member row') = s.treasuryTotal
    rw [Table.total_insert, hrow, ← h.total]
    simp only [Option.map_some, Option.getD_some, Droplet.net, hamount, hdeficit, memberTotal]
    ring
  · intro member' row'' hlookup
    simp only [Table.lookup_insert_eq] at hlookup
    split_ifs at hlookup
    · obtain rfl := Option.some.inj hlookup
      unfold Droplet.Settled at hsettled ⊢
      rwa [hamount, hdeficit]
    · exact h.settled member' row'' hlookup

theorem settled_insert {droplets : Table W (Droplet Tx)}
    (h : ∀ member row, droplets.lookup member = some row → row.Settled) (member : W) {row : Droplet Tx}
    (hrow : row.Settled) :
    ∀ member' row', (droplets.insert member row).lookup member' = some row' → row'.Settled := by
  intro member' row' hlookup
  rw [Table.lookup_insert_eq] at hlookup
  split_ifs at hlookup
  · exact Option.some.inj hlookup ▸ hrow
  · exact h member' row' hlookup

/-- Crediting everyone's share adds the shares, and keeps members settled. -/
theorem creditAll_spec (height : ℕ) (entries : List (W × ℕ)) (droplets : Table W (Droplet Tx))
    (h : ∀ member row, droplets.lookup member = some row → row.Settled) :
    (creditAll droplets height entries).total Droplet.net =
        droplets.total Droplet.net + ((entries.map Prod.snd).sum : ℕ) ∧
      ∀ member row, (creditAll droplets height entries).lookup member = some row → row.Settled := by
  unfold creditAll
  induction entries generalizing droplets with
  | nil => exact ⟨by simp, h⟩
  | cons entry entries ih =>
    have hsettled : ∀ member row, (creditRow droplets height entry).lookup member = some row →
        row.Settled := settled_insert h entry.1 (settled_creditedRow _ _ _ (h entry.1))
    obtain ⟨htotal, hrest⟩ := ih (creditRow droplets height entry) hsettled
    refine ⟨?_, hrest⟩
    rw [List.foldl_cons, htotal, creditRow, Table.total_insert, net_creditedRow, List.map_cons,
      List.sum_cons]
    push_cast
    ring

theorem Conserved.applyTransaction (h : Conserved s) {height : ℕ} {members : List W} (hmembers : members ≠ [])
    {treasuryTransaction : TreasuryTransaction W}
    (hrun : (applyTransaction height members treasuryTransaction).Returns s u t) : Conserved t := by
  obtain ⟨htreasury, hout⟩ := applyTransaction_returns hrun
  cases hout with
  | deposit hspent hdroplets =>
    obtain ⟨htotal, hsettled⟩ := creditAll_spec height
      (shares members treasuryTransaction.depositMember treasuryTransaction.created) s.droplets h.settled
    rw [sum_shares hmembers] at htotal
    rw [← hdroplets] at htotal hsettled
    refine ⟨?_, hsettled⟩
    have hold := h.total
    unfold memberTotal at hold ⊢
    rw [htotal, htreasury, hspent, hold]
    simp
  | spend member hmem hmember hspent hle hdroplets =>
    have hsettled := settled_insert h.settled member (settled_debitedRow _ height
      (spentAmount s.treasuryUtxos treasuryTransaction.inputs - treasuryTransaction.created)
        (h.settled member))
    rw [← hdroplets] at hsettled
    refine ⟨?_, hsettled⟩
    have hold := h.total
    unfold memberTotal at hold ⊢
    rw [hdroplets, Table.total_insert, net_debitedRow, htreasury, hold]
    push_cast [Nat.cast_sub hle]
    ring

end Ledger

variable [LinearOrder W] [DecidableEq Tx] {store : DropletStore W Tx}

theorem sortedMembers_ne_nil {members : List W} (h : members ≠ []) : sortedMembers members ≠ [] := by
  unfold sortedMembers
  intro hnil
  have hsorted := (List.dedup_eq_nil _).mp hnil
  have hlength := List.length_insertionSort (· ≤ ·) members
  rw [hsorted] at hlength
  exact h (List.length_eq_zero_iff.mp hlength.symm)

theorem Conserved.step (h : Conserved store) (action : DropletAction W Tx) : Conserved (store.step action) := by
  unfold DropletStore.step
  rcases exec_atomic_cases (program action) store with hsame | ⟨_, hrun⟩
  · rw [hsame]
    exact h
  generalize ((program action).atomic.exec store).2 = store' at hrun ⊢
  cases action with
  | applyBlock height treasuryTransactions members =>
    unfold program applyBlockIn at hrun
    rcases returns_ite.mp hrun with ⟨-, hthrow⟩ | ⟨hmembers, hloop⟩
    · exact absurd hthrow returns_throw
    · exact returns_forM (fun _ _ _ _ _ hs hstep =>
        hs.applyTransaction (sortedMembers_ne_nil hmembers) hstep) h hloop
  | lockExchange member amount height transaction =>
    obtain ⟨_, _, hlock, hpure⟩ := returns_bind.mp hrun
    obtain ⟨-, rfl⟩ := returns_pure.mp hpure
    rcases lockExchange_returns hlock with ⟨-, rfl⟩ | ⟨-, row, hrow, -, -, rfl⟩
    · exact h
    · exact h.updateRow hrow rfl rfl
  | unlockExchange member height =>
    rcases unlockExchange_returns hrun with ⟨-, rfl⟩ | ⟨row, hrow, rfl⟩
    · exact h
    · exact h.updateRow hrow rfl rfl
  | updateLockedTransaction member expectedTransaction transaction =>
    obtain ⟨_, _, hupdate, hpure⟩ := returns_bind.mp hrun
    obtain ⟨-, rfl⟩ := returns_pure.mp hpure
    rcases updateLockedTransaction_returns hupdate with ⟨-, rfl⟩ | ⟨-, row, hrow, -, -, rfl⟩
    · exact h
    · exact h.updateRow hrow rfl rfl

theorem Conserved.run (h : Conserved store) (actions : List (DropletAction W Tx)) :
    Conserved (store.run actions) := by
  unfold DropletStore.run
  induction actions generalizing store with
  | nil => exact h
  | cons action actions ih => exact ih (h.step action)

/-- Every run of the ledger, whatever blocks it is given, conserves value, leaves no member with a
balance and a deficit, and hands out deposits exactly. -/
theorem ledger_conserves (actions : List (DropletAction W Tx)) :
    let store : DropletStore W Tx := (empty : DropletStore W Tx).run actions
    store.memberTotal = store.treasuryTotal ∧
      (∀ member row, store.droplets.lookup member = some row → row.amount = 0 ∨ row.deficit = 0) ∧
        ∀ (members : List W) taggedMember amount, members ≠ [] →
          ((allocations members taggedMember amount).map Prod.snd).sum = amount := by
  intro store
  have h : Conserved store := conserved_empty.run actions
  exact ⟨h.total, h.settled, fun members taggedMember amount hmembers =>
    sum_allocations hmembers taggedMember amount⟩

end DropletStore

end PriceOracle
