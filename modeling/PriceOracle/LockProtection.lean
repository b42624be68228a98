import PriceOracle.DropletLocks

/-!
# Spends signed under a lock

The ledger with the spends that the node signed under a lock and that may still confirm.
When no lock is taken while another signed spend of its member is outstanding, a
confirmed spend releases its own lock only, and signed spends make no deficit.
-/

namespace PriceOracle

/-- A spend that was signed under a lock and has neither confirmed nor been abandoned. -/
structure SignedSpend (W : Type) where
  member : W
  txid : W
  amount : ℕ
  deriving DecidableEq

structure SpendState (W Tx : Type) where
  store : DropletStore W Tx
  signed : List (SignedSpend W)

inductive SpendAction (W Tx : Type) where
  | lockExchange (member : W) (amount height : ℕ) (transaction : Tx)
  | unlockExchange (member : W) (height : ℕ)
  | sign (member : W)
  | abandon (txid : W)
  | applyBlock (height : ℕ) (treasuryTransactions : List (TreasuryTransaction W)) (members : List W)

namespace SpendState

variable {W Tx : Type} [LinearOrder W] [DecidableEq Tx] (txidOf : Tx → W)

def new : SpendState W Tx := ⟨DropletStore.empty, []⟩

def forget (signed : List (SignedSpend W)) (txid : W) : List (SignedSpend W) :=
  signed.filter fun spend => decide (spend.txid ≠ txid)

/-- The member's spend is signed if its lock is held and its balance covers the amount. -/
def signSpend (state : SpendState W Tx) (member : W) : SpendState W Tx :=
  match state.store.droplets.lookup member with
  | none => state
  | some row =>
    match row.lock with
    | none => state
    | some transaction =>
      if row.exchangeAmount ≤ row.amount then
        { state with signed :=
          ⟨member, txidOf transaction, row.exchangeAmount⟩ :: forget state.signed (txidOf transaction) }
      else state

/-- One turn of the loop of `apply_block_in`. -/
def confirm (height : ℕ) (members : List W) (state : SpendState W Tx)
    (treasuryTransaction : TreasuryTransaction W) : SpendState W Tx :=
  ⟨((DropletStore.applyTransaction height members treasuryTransaction).atomic.exec state.store).2,
    forget state.signed treasuryTransaction.txid⟩

def confirmAll (height : ℕ) (members : List W) (state : SpendState W Tx)
    (treasuryTransactions : List (TreasuryTransaction W)) : SpendState W Tx :=
  treasuryTransactions.foldl (confirm height members) state

def step (state : SpendState W Tx) : SpendAction W Tx → SpendState W Tx
  | .lockExchange member amount height transaction =>
    { state with store := state.store.step (.lockExchange member amount height transaction) }
  | .unlockExchange member height => { state with store := state.store.step (.unlockExchange member height) }
  | .sign member => state.signSpend txidOf member
  | .abandon txid => { state with signed := forget state.signed txid }
  | .applyBlock height treasuryTransactions members =>
    match (DropletStore.applyBlockIn height treasuryTransactions members).exec state.store with
    | (.ok _, store) => ⟨store, (treasuryTransactions.map TreasuryTransaction.txid).foldl forget state.signed⟩
    | (.error _, _) => state

def run (state : SpendState W Tx) (actions : List (SpendAction W Tx)) : SpendState W Tx :=
  actions.foldl (step txidOf) state

section Conditions

/-- A charge to the member was signed under its lock. -/
def ChargeSigned (member : W) (state : SpendState W Tx) (treasuryTransaction : TreasuryTransaction W) : Prop :=
  ∀ amount, state.store.chargeOf treasuryTransaction = some (member, amount) →
    ⟨member, treasuryTransaction.txid, amount⟩ ∈ state.signed

/-- A charge was signed under its member's lock, or finds no other transaction locked. -/
def ChargeClear (state : SpendState W Tx) (treasuryTransaction : TreasuryTransaction W) : Prop :=
  ∀ member amount, state.store.chargeOf treasuryTransaction = some (member, amount) →
    ⟨member, treasuryTransaction.txid, amount⟩ ∈ state.signed ∨
      ∀ transaction, lockedFor state.store.droplets member = some transaction →
        txidOf transaction = treasuryTransaction.txid

/-- `P` holds of every transaction of a block as its turn comes. -/
def EachConfirm (P : SpendState W Tx → TreasuryTransaction W → Prop) (height : ℕ) (members : List W) :
    SpendState W Tx → List (TreasuryTransaction W) → Prop
  | _, [] => True
  | state, treasuryTransaction :: rest =>
    P state treasuryTransaction ∧
      EachConfirm P height members (state.confirm height members treasuryTransaction) rest

/-- No lock is taken while another signed spend of the member is outstanding, and no spend that
was not signed here confirms while its member is locked for another. -/
def Clear (state : SpendState W Tx) : SpendAction W Tx → Prop
  | .lockExchange member _ _ transaction => (lockedFor state.store.droplets member).isSome ∨
      ∀ spend ∈ state.signed, spend.member = member → spend.txid = txidOf transaction
  | .applyBlock height treasuryTransactions members =>
    EachConfirm (ChargeClear txidOf) height (DropletStore.sortedMembers members) state treasuryTransactions
  | _ => True

/-- Every charge of the step to the member was signed under its lock. -/
def Signed (member : W) (state : SpendState W Tx) : SpendAction W Tx → Prop
  | .applyBlock height treasuryTransactions members =>
    EachConfirm (ChargeSigned member) height (DropletStore.sortedMembers members) state treasuryTransactions
  | _ => True

/-- `P` holds of every step of a run. -/
def EachStep (P : SpendState W Tx → SpendAction W Tx → Prop) :
    SpendState W Tx → List (SpendAction W Tx) → Prop
  | _, [] => True
  | state, action :: actions => P state action ∧ EachStep P (state.step txidOf action) actions

/-- The transaction releases no lock but its own. -/
def ReleasesOwn (height : ℕ) (members : List W) (state : SpendState W Tx)
    (treasuryTransaction : TreasuryTransaction W) : Prop :=
  ∀ member transaction, lockedFor state.store.droplets member = some transaction →
    lockedFor (state.confirm height members treasuryTransaction).store.droplets member = some transaction ∨
      txidOf transaction = treasuryTransaction.txid

/-- No transaction of the step releases a lock but its own. -/
def ReleasesOwnLocks (state : SpendState W Tx) : SpendAction W Tx → Prop
  | .applyBlock height treasuryTransactions members =>
    EachConfirm (ReleasesOwn txidOf height (DropletStore.sortedMembers members)) height
      (DropletStore.sortedMembers members) state treasuryTransactions
  | _ => True

end Conditions

section Runs

variable {txidOf} {P Q : SpendState W Tx → SpendAction W Tx → Prop} {I : SpendState W Tx → Prop}
  {state : SpendState W Tx}

theorem run_of_eachStep (hstep : ∀ state action, I state → P state action → I (state.step txidOf action))
    (hs : I state) {actions : List (SpendAction W Tx)} (h : EachStep txidOf P state actions) :
    I (state.run txidOf actions) := by
  induction actions generalizing state with
  | nil => exact hs
  | cons action actions ih => exact ih (hstep state action hs h.1) h.2

theorem eachStep_of_invariant
    (hstep : ∀ state action, I state → P state action → I (state.step txidOf action))
    (hpost : ∀ state action, I state → P state action → Q state action) (hs : I state)
    {actions : List (SpendAction W Tx)} (h : EachStep txidOf P state actions) :
    EachStep txidOf Q state actions := by
  induction actions generalizing state with
  | nil => trivial
  | cons action actions ih => exact ⟨hpost state action hs h.1, ih (hstep state action hs h.1) h.2⟩

theorem eachStep_and {actions : List (SpendAction W Tx)} (hp : EachStep txidOf P state actions)
    (hq : EachStep txidOf Q state actions) :
    EachStep txidOf (fun state action => P state action ∧ Q state action) state actions := by
  induction actions generalizing state with
  | nil => trivial
  | cons action actions ih => exact ⟨⟨hp.1, hq.1⟩, ih hp.2 hq.2⟩

end Runs

section Confirm

variable {height : ℕ} {members : List W} {state : SpendState W Tx}
  {P Q : SpendState W Tx → TreasuryTransaction W → Prop} {I : SpendState W Tx → Prop}

omit [DecidableEq Tx] in
theorem confirmAll_of_each
    (hstep : ∀ state t, I state → P state t → I (state.confirm height members t))
    (hs : I state) {ts : List (TreasuryTransaction W)} (h : EachConfirm P height members state ts) :
    I (state.confirmAll height members ts) := by
  unfold confirmAll
  induction ts generalizing state with
  | nil => exact hs
  | cons t ts ih => exact ih (hstep state t hs h.1) h.2

omit [DecidableEq Tx] in
theorem eachConfirm_of_invariant
    (hstep : ∀ state t, I state → P state t → I (state.confirm height members t))
    (hpost : ∀ state t, I state → P state t → Q state t) (hs : I state)
    {ts : List (TreasuryTransaction W)} (h : EachConfirm P height members state ts) :
    EachConfirm Q height members state ts := by
  induction ts generalizing state with
  | nil => trivial
  | cons t ts ih => exact ⟨hpost state t hs h.1, ih (hstep state t hs h.1) h.2⟩

omit [DecidableEq Tx] in
/-- A block that is applied confirms its transactions one by one. -/
theorem confirmAll_of_returns {store : DropletStore W Tx} {ts : List (TreasuryTransaction W)} {u : PUnit}
    (h : (DropletStore.applyBlockIn height ts members).Returns state.store u store) :
    state.confirmAll height (DropletStore.sortedMembers members) ts =
      ⟨store, (ts.map TreasuryTransaction.txid).foldl forget state.signed⟩ := by
  unfold DropletStore.applyBlockIn at h
  rcases Db.returns_ite.mp h with ⟨-, hthrow⟩ | ⟨-, hloop⟩
  · exact absurd hthrow Db.returns_throw
  clear h
  unfold confirmAll
  induction ts generalizing state with
  | nil =>
    obtain ⟨-, rfl⟩ := Db.returns_pure.mp hloop
    rfl
  | cons t ts ih =>
    obtain ⟨_, store₁, ht, hrest⟩ := Db.returns_bind.mp hloop
    have hconfirm : state.confirm height (DropletStore.sortedMembers members) t =
        ⟨store₁, forget state.signed t.txid⟩ := by
      have hatomic := Db.returns_atomic.mpr ht
      unfold confirm
      rw [hatomic]
    rw [List.foldl_cons, hconfirm]
    exact ih hrest

omit [DecidableEq Tx] in
theorem mem_forget {signed : List (SignedSpend W)} {txid : W} {spend : SignedSpend W} :
    spend ∈ forget signed txid ↔ spend ∈ signed ∧ spend.txid ≠ txid := by
  unfold forget
  rw [List.mem_filter, decide_eq_true_eq]

omit [DecidableEq Tx] in
/-- `applyTransaction_columns` for a confirmation, which may also fail and change nothing. -/
theorem confirm_columns (height : ℕ) (members : List W) (state : SpendState W Tx) (t : TreasuryTransaction W) (k : W) :
    (∃ amount, state.store.chargeOf t = some (k, amount) ∧
      lockedFor (state.confirm height members t).store.droplets k = none ∧
      balanceOf (state.confirm height members t).store.droplets k =
        balanceOf state.store.droplets k - amount ∧
      deficitOf (state.confirm height members t).store.droplets k =
        deficitOf state.store.droplets k + (amount - balanceOf state.store.droplets k)) ∨
    (lockedFor (state.confirm height members t).store.droplets k = lockedFor state.store.droplets k ∧
      balanceOf state.store.droplets k ≤ balanceOf (state.confirm height members t).store.droplets k ∧
      (deficitOf state.store.droplets k = 0 →
        deficitOf (state.confirm height members t).store.droplets k = 0)) := by
  unfold confirm
  rcases Db.exec_atomic_cases (DropletStore.applyTransaction height members t) state.store with
    hsame | ⟨_, hreturns⟩
  · rw [hsame]
    exact Or.inr ⟨rfl, le_refl _, id⟩
  · rcases DropletStore.applyTransaction_columns hreturns k with hcharged | ⟨-, hrest⟩
    · exact Or.inl hcharged
    · exact Or.inr hrest

end Confirm

section Protection

variable {state : SpendState W Tx}

/-- A locked member has no outstanding spend but that of its lock. -/
def Exclusive (state : SpendState W Tx) : Prop :=
  ∀ member transaction, lockedFor state.store.droplets member = some transaction →
    ∀ spend ∈ state.signed, spend.member = member → spend.txid = txidOf transaction

/-- `Exclusive`, and the spends of one member are covered and have made no deficit. -/
structure Covered (member : W) (state : SpendState W Tx) : Prop where
  exclusive : Exclusive txidOf state
  unique : ∀ spend ∈ state.signed, ∀ spend' ∈ state.signed, spend.member = member →
    spend'.member = member → spend = spend'
  covered : ∀ spend ∈ state.signed, spend.member = member → spend.amount ≤ balanceOf state.store.droplets member
  solvent : deficitOf state.store.droplets member = 0

variable {txidOf}

omit [DecidableEq Tx] in
theorem Exclusive.confirm (h : Exclusive txidOf state) (height : ℕ) (members : List W)
    (t : TreasuryTransaction W) : Exclusive txidOf (state.confirm height members t) := by
  intro member transaction hlock spend hspend
  apply h member transaction _ spend (mem_forget.mp hspend).1
  rcases confirm_columns height members state t member with
    ⟨_, -, hnone, -⟩ | ⟨hsame, -⟩
  · rw [hnone] at hlock
    cases hlock
  · exact hsame.symm.trans hlock

omit [DecidableEq Tx] in
/-- A charge that is clear releases its own lock only. -/
theorem Exclusive.releasesOwn (h : Exclusive txidOf state) {t : TreasuryTransaction W}
    (hclear : ChargeClear txidOf state t) (height : ℕ) (members : List W) :
    ReleasesOwn txidOf height members state t := by
  intro member transaction hlock
  rcases confirm_columns height members state t member with
    ⟨amount, hcharge, -⟩ | ⟨hsame, -⟩
  · right
    rcases hclear member amount hcharge with hsigned | hown
    · exact (h member transaction hlock _ hsigned rfl).symm
    · exact hown transaction hlock
  · exact Or.inl (hsame.trans hlock)

/-- A block is a sequence of confirmations, or fails and leaves everything alone. -/
theorem applyBlock_cases (txidOf : Tx → W) (state : SpendState W Tx) (height : ℕ) (ts : List (TreasuryTransaction W))
    (members : List W) : state.step txidOf (.applyBlock height ts members) = state ∨
      state.step txidOf (.applyBlock height ts members) =
        state.confirmAll height (DropletStore.sortedMembers members) ts := by
  rw [step]
  cases hrun : (DropletStore.applyBlockIn height ts members).exec state.store with
  | mk r store =>
    cases r with
    | error e => exact Or.inl rfl
    | ok u => exact Or.inr (confirmAll_of_returns hrun).symm

omit [DecidableEq Tx] in
/-- A spend is signed under the lock of its member, within its balance. -/
theorem signSpend_cases (txidOf : Tx → W) (state : SpendState W Tx) (member : W) :
    state.signSpend txidOf member = state ∨ ∃ transaction amount,
      lockedFor state.store.droplets member = some transaction ∧
        amount ≤ balanceOf state.store.droplets member ∧
          state.signSpend txidOf member = { state with signed :=
            ⟨member, txidOf transaction, amount⟩ :: forget state.signed (txidOf transaction) } := by
  unfold signSpend
  cases hrow : state.store.droplets.lookup member with
  | none => exact Or.inl rfl
  | some row =>
    cases hlock : row.lock with
    | none => exact Or.inl (by simp [hlock])
    | some transaction =>
      simp only [hlock]
      split_ifs with hle
      · refine Or.inr ⟨transaction, row.exchangeAmount, ?_, ?_, rfl⟩
        · rw [lockedFor, hrow]
          exact hlock
        · rw [balanceOf, hrow]
          exact hle
      · exact Or.inl rfl

theorem Exclusive.step (h : Exclusive txidOf state) (action : SpendAction W Tx)
    (hclear : Clear txidOf state action) : Exclusive txidOf (state.step txidOf action) := by
  cases action with
  | lockExchange member amount height transaction =>
    intro k transaction' hlock spend hspend hmember
    rcases (state.store.lock_columns member amount height transaction k).2 with
      hsame | ⟨rfl, -, hnone, hnew⟩
    · exact h k transaction' (hsame.symm.trans hlock) spend hspend hmember
    · obtain rfl := Option.some.inj (hnew.symm.trans hlock)
      rcases hclear with hlocked | hfree
      · rw [hnone] at hlocked
        cases hlocked
      · exact hfree spend hspend hmember
  | unlockExchange member height =>
    intro k transaction' hlock spend hspend hmember
    rcases (state.store.unlock_columns member height k).2 with hsame | ⟨-, hnone⟩
    · exact h k transaction' (hsame.symm.trans hlock) spend hspend hmember
    · cases hnone.symm.trans hlock
  | sign member =>
    rcases signSpend_cases txidOf state member with hsame | ⟨transaction, amount, hlocked, -, hnew⟩
    · change Exclusive txidOf (state.signSpend txidOf member)
      rw [hsame]
      exact h
    · change Exclusive txidOf (state.signSpend txidOf member)
      rw [hnew]
      intro k transaction' hlock spend hspend hmember
      rcases List.mem_cons.mp hspend with rfl | hold
      · subst hmember
        obtain rfl := Option.some.inj (hlocked.symm.trans hlock)
        rfl
      · exact h k transaction' hlock spend (mem_forget.mp hold).1 hmember
  | abandon txid =>
    intro k transaction' hlock spend hspend hmember
    exact h k transaction' hlock spend (mem_forget.mp hspend).1 hmember
  | applyBlock height ts members =>
    rcases applyBlock_cases txidOf state height ts members with hsame | hconfirm
    · rw [hsame]
      exact h
    · rw [hconfirm]
      exact confirmAll_of_each (fun _ t hs _ => hs.confirm height _ t) h hclear

omit [DecidableEq Tx] in
theorem Covered.confirm {member : W} (h : Covered txidOf member state) {t : TreasuryTransaction W}
    (hsigned : ChargeSigned member state t) (height : ℕ) (members : List W) :
    Covered txidOf member (state.confirm height members t) where
  exclusive := h.exclusive.confirm height members t
  unique spend hspend spend' hspend' hm hm' :=
    h.unique spend (mem_forget.mp hspend).1 spend' (mem_forget.mp hspend').1 hm hm'
  covered spend hspend hm := by
    obtain ⟨hold, hne⟩ := mem_forget.mp hspend
    rcases confirm_columns height members state t member with
      ⟨amount, hcharge, -⟩ | ⟨-, hle, -⟩
    · exact absurd (congrArg SignedSpend.txid (h.unique spend hold _ (hsigned amount hcharge) hm rfl)) hne
    · exact (h.covered spend hold hm).trans hle
  solvent := by
    rcases confirm_columns height members state t member with
      ⟨amount, hcharge, -, -, hdeficit⟩ | ⟨-, -, hdeficit⟩
    · have hle := h.covered _ (hsigned amount hcharge) rfl
      have hsolvent := h.solvent
      simp only at hle
      omega
    · exact hdeficit h.solvent

theorem Covered.step {member : W} (h : Covered txidOf member state) (action : SpendAction W Tx)
    (hclear : Clear txidOf state action) (hsigned : Signed member state action) :
    Covered txidOf member (state.step txidOf action) := by
  have hexclusive := h.exclusive.step action hclear
  cases action with
  | lockExchange member' amount height transaction =>
    obtain ⟨hbalance, hdeficit⟩ := (state.store.lock_columns member' amount height transaction member).1
    exact ⟨hexclusive, h.unique, fun spend hspend hm => (h.covered spend hspend hm).trans_eq hbalance.symm,
      hdeficit.trans h.solvent⟩
  | unlockExchange member' height =>
    obtain ⟨hbalance, hdeficit⟩ := (state.store.unlock_columns member' height member).1
    exact ⟨hexclusive, h.unique, fun spend hspend hm => (h.covered spend hspend hm).trans_eq hbalance.symm,
      hdeficit.trans h.solvent⟩
  | sign member' =>
    rcases signSpend_cases txidOf state member' with
      hsame | ⟨transaction, amount, hlocked, hle, hnew⟩
    · change Covered txidOf member (state.signSpend txidOf member')
      rw [hsame]
      exact h
    · change Exclusive txidOf (state.signSpend txidOf member') at hexclusive
      change Covered txidOf member (state.signSpend txidOf member')
      rw [hnew] at hexclusive ⊢
      -- An older spend of the member would be that of the lock, which is signed anew.
      have hnone : ∀ spend ∈ forget state.signed (txidOf transaction), spend.member ≠ member' := by
        intro spend hspend hm
        obtain ⟨hold, hne⟩ := mem_forget.mp hspend
        exact hne (h.exclusive member' transaction hlocked spend hold hm)
      refine ⟨hexclusive, fun spend hspend spend' hspend' hm hm' => ?_, fun spend hspend hm => ?_, h.solvent⟩
      · rcases List.mem_cons.mp hspend with rfl | hold <;> rcases List.mem_cons.mp hspend' with rfl | hold'
        · rfl
        · exact absurd (hm'.trans hm.symm) (hnone spend' hold')
        · exact absurd (hm.trans hm'.symm) (hnone spend hold)
        · exact h.unique spend (mem_forget.mp hold).1 spend' (mem_forget.mp hold').1 hm hm'
      · rcases List.mem_cons.mp hspend with rfl | hold
        · subst hm
          exact hle
        · exact h.covered spend (mem_forget.mp hold).1 hm
  | abandon txid =>
    exact ⟨hexclusive, fun spend hspend spend' hspend' =>
      h.unique spend (mem_forget.mp hspend).1 spend' (mem_forget.mp hspend').1,
        fun spend hspend => h.covered spend (mem_forget.mp hspend).1, h.solvent⟩
  | applyBlock height ts members =>
    rcases applyBlock_cases txidOf state height ts members with hsame | hconfirm
    · rw [hsame]
      exact h
    · rw [hconfirm]
      exact confirmAll_of_each (fun _ t hs ht => hs.confirm ht height _) h hsigned

omit [DecidableEq Tx] in
theorem exclusive_new : Exclusive txidOf (new : SpendState W Tx) := by
  intro member transaction hlock
  cases hlock

omit [DecidableEq Tx] in
theorem covered_new (member : W) : Covered txidOf member (new : SpendState W Tx) :=
  ⟨exclusive_new, by simp [new], by simp [new], rfl⟩

/-- In a run that takes no lock while another signed spend of its member is outstanding, confirmed
transactions release their own locks only, and a member whose spends were all signed under its
lock never has a deficit. -/
theorem locks_protect_balances (txidOf : Tx → W) (actions : List (SpendAction W Tx))
    (hclear : EachStep txidOf (Clear txidOf) new actions) :
    EachStep txidOf (ReleasesOwnLocks txidOf) new actions ∧
      ∀ member, EachStep txidOf (Signed member) new actions →
        deficitOf ((new : SpendState W Tx).run txidOf actions).store.droplets member = 0 := by
  constructor
  · apply eachStep_of_invariant (I := Exclusive txidOf) (fun _ action hs hc => hs.step action hc) _
      exclusive_new hclear
    intro state action hs hc
    cases action with
    | applyBlock height ts members =>
      exact eachConfirm_of_invariant (fun _ t hs _ => hs.confirm height _ t)
        (fun _ t hs ht => hs.releasesOwn ht height _) hs hc
    | _ => trivial
  · intro member hsigned
    have hcovered := run_of_eachStep (I := Covered txidOf member)
      (fun state action hs hboth => hs.step action hboth.1 hboth.2) (covered_new member)
      (eachStep_and hclear hsigned)
    exact hcovered.solvent

end Protection

section Example

/-- Two members share a deposit of 1000. -/
def sharedDeposit : SpendAction ℕ ℕ := .applyBlock 1 [⟨100, [], [(0, 500), (1, 500)], none, none⟩] [1, 2]

/-- Transaction `txid` takes output `index` of the deposit for member 1. -/
def memberSpend (txid index : ℕ) : TreasuryTransaction ℕ := ⟨txid, [(100, index)], [], none, some 1⟩

/-- A spend of member 1 is locked, signed and confirmed. -/
theorem locks_protect_balances_one_spend :
    let actions : List (SpendAction ℕ ℕ) :=
      [sharedDeposit, .lockExchange 1 500 1 201, .sign 1, .applyBlock 2 [memberSpend 201 0] [1, 2]]
    EachStep id (ReleasesOwnLocks id) new actions ∧
      ∀ member, EachStep id (Signed member) new actions →
        deficitOf ((new : SpendState ℕ ℕ).run id actions).store.droplets member = 0 := by
  intro actions
  apply locks_protect_balances id actions
  refine ⟨⟨?_, trivial⟩, Or.inr ?_, trivial, ⟨?_, trivial⟩, trivial⟩
  · intro member amount hcharge
    cases hcharge
  · intro spend hspend
    cases hspend
  · intro member amount hcharge
    left
    have hone : (member, amount) = (1, 500) := by
      apply Option.some.inj
      rw [← hcharge]
      decide +kernel
    cases hone
    decide +kernel

/-- Unlocked after it was signed, the first spend confirms under the lock of the second, and
member 1 is overdrawn although both were signed under its lock and within its balance. -/
theorem released_lock_overdraws :
    ¬∀ actions : List (SpendAction ℕ ℕ), EachStep id (ReleasesOwnLocks id) new actions ∧
      ∀ member, EachStep id (Signed member) new actions →
        deficitOf ((new : SpendState ℕ ℕ).run id actions).store.droplets member = 0 := by
  intro hclaim
  have hdeficit := (hclaim [sharedDeposit, .lockExchange 1 500 1 201, .sign 1, .unlockExchange 1 1,
    .lockExchange 1 500 1 202, .sign 1, .applyBlock 2 [memberSpend 201 0] [1, 2],
      .applyBlock 3 [memberSpend 202 1] [1, 2]]).2 1 ?_
  · have hoverdrawn : deficitOf ((new : SpendState ℕ ℕ).run id [sharedDeposit, .lockExchange 1 500 1 201,
        .sign 1, .unlockExchange 1 1, .lockExchange 1 500 1 202, .sign 1,
          .applyBlock 2 [memberSpend 201 0] [1, 2],
            .applyBlock 3 [memberSpend 202 1] [1, 2]]).store.droplets 1 = 500 := by
      decide +kernel
    omega
  · refine ⟨⟨?_, trivial⟩, trivial, trivial, trivial, trivial, trivial, ⟨?_, trivial⟩, ⟨?_, trivial⟩, trivial⟩
    · intro amount hcharge
      cases hcharge
    all_goals
      intro amount hcharge
      have hamount : amount = 500 := by
        apply (Prod.mk.inj (Option.some.inj (hcharge.symm.trans _))).2
        · exact 1
        · decide +kernel
      subst hamount
      decide +kernel

end Example

end SpendState

end PriceOracle
