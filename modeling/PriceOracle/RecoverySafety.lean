import PriceOracle.DropletStatements
import PriceOracle.ExchangeRecovery

/-!
# When the recovery of exchanges is safe

A pass releases the locks whose transaction it finds conflicted, and no others. It always finds a transaction that
another one has conflicted, and sometimes one that can still confirm.
-/

namespace PriceOracle

namespace Indexer

variable {W T Tx : Type} {rules : TxRules W T}

section Calls

variable [DecidableEq W] {calls : RpcCalls rules}

theorem missingInput_iff {k : ℕ} {inputs : List (W × ℕ)} {conflicted missing : Bool} :
    missingInput calls k inputs conflicted = some missing ↔ (∀ i < inputs.length, calls.answered (k + i) = true) ∧
      (missing = true ↔ conflicted = true ∨
        ∃ i outpoint, inputs[i]? = some outpoint ∧ (calls.state (k + i)).unspent outpoint = false) := by
  induction inputs generalizing k conflicted with
  | nil =>
    unfold missingInput
    constructor
    · rintro ⟨⟩
      exact ⟨fun i hi => absurd hi (Nat.not_lt_zero i), by simp⟩
    · rintro ⟨-, hsame⟩
      have hsame : missing = true ↔ conflicted = true := by simpa using hsame
      rw [Bool.eq_iff_iff.mpr hsame]
  | cons outpoint inputs ih =>
    have hanswers : (∀ i < (outpoint :: inputs).length, calls.answered (k + i) = true) ↔
        calls.answered k = true ∧ ∀ i < inputs.length, calls.answered (k + 1 + i) = true := by
      constructor
      · intro h
        refine ⟨h 0 (by simp), fun i hi => ?_⟩
        rw [Nat.add_assoc, Nat.add_comm 1]
        exact h (i + 1) (by simpa using hi)
      · rintro ⟨hfirst, hrest⟩ i hi
        cases i with
        | zero => exact hfirst
        | succ i =>
          rw [Nat.add_comm i 1, ← Nat.add_assoc]
          exact hrest i (by simpa using hi)
    have hmissing : (∃ i outpoint', (outpoint :: inputs)[i]? = some outpoint' ∧
        (calls.state (k + i)).unspent outpoint' = false) ↔ (calls.state k).unspent outpoint = false ∨
          ∃ i outpoint', inputs[i]? = some outpoint' ∧ (calls.state (k + 1 + i)).unspent outpoint' = false := by
      constructor
      · rintro ⟨i, outpoint', hinput, hspent⟩
        cases i with
        | zero =>
          cases hinput
          exact Or.inl hspent
        | succ i =>
          rw [Nat.add_comm i 1, ← Nat.add_assoc] at hspent
          exact Or.inr ⟨i, outpoint', hinput, hspent⟩
      · rintro (hspent | ⟨i, outpoint', hinput, hspent⟩)
        · exact ⟨0, outpoint, rfl, hspent⟩
        · rw [Nat.add_assoc, Nat.add_comm 1] at hspent
          exact ⟨i + 1, outpoint', hinput, hspent⟩
    unfold missingInput
    rw [hanswers, hmissing]
    by_cases hanswered : calls.answered k = true
    · rw [if_pos hanswered, ih, Bool.or_eq_true, Bool.not_eq_true', or_assoc]
      simp only [hanswered, true_and]
    · rw [if_neg hanswered]
      simp only [reduceCtorEq, false_iff]
      exact fun h => hanswered h.1.1

/-- A transaction is found conflicted when it is found nowhere and one of its inputs was not unspent. -/
theorem exchangeChainState_conflicted_iff {transaction : T} {mempool : List W} :
    exchangeChainState calls transaction mempool = some .conflicted ↔
      rules.txid transaction ∉ mempool ∧ (∀ i ≤ (rules.inputs transaction).length, calls.answered i = true) ∧
        (calls.state (rules.inputs transaction).length).isConfirmed transaction = false ∧
        ∃ i outpoint, (rules.inputs transaction)[i]? = some outpoint ∧ (calls.state i).unspent outpoint = false := by
  unfold exchangeChainState
  simp only [Option.bind_eq_bind, Option.bind_eq_some_iff, missingInput_iff, Nat.zero_add, Bool.false_eq_true, false_or]
  constructor
  · rintro ⟨conflicted, ⟨hinputs, hmissing⟩, h⟩
    split_ifs at h with hmempool hlast hconfirmed hconflicted
    · cases h
    · cases h
    · refine ⟨hmempool, ?_, Bool.eq_false_of_not_eq_true hconfirmed, hmissing.mp hconflicted⟩
      intro i hi
      rcases Nat.lt_or_eq_of_le hi with hlt | rfl
      · exact hinputs i hlt
      · exact Bool.eq_true_of_not_eq_false hlast
    · cases h
  · rintro ⟨hmempool, hanswered, hconfirmed, hmissing⟩
    refine ⟨true, ⟨fun i hi => hanswered i hi.le, ⟨fun _ => hmissing, fun _ => rfl⟩⟩, ?_⟩
    rw [if_neg hmempool, if_neg (by simp [hanswered _ le_rfl]), if_neg (by simp [hconfirmed]), if_pos rfl]
    rfl

end Calls

section Pass

variable [LinearOrder W] {lockedExchange : Tx → Option (T × Bool)} {calls : RecoveryCalls rules}
  {blockHeight : ℕ} {isLeader : Bool}

/-- A lock on a readable transaction is released when the transaction is found conflicted. -/
theorem recovery_unlock_iff {member : W} {balance : Droplet Tx} {bytes : Tx} {transaction : T} {isFinal : Bool}
    (hbytes : balance.lastTx = some bytes) (hexchange : lockedExchange bytes = some (transaction, isFinal)) :
    recovery lockedExchange calls blockHeight isLeader member balance = some .unlock ↔
      exchangeChainState (calls.about member) transaction (calls.mempoolState.mempool.map rules.txid) =
        some .conflicted := by
  unfold recovery exchangeRecovery
  rw [hbytes, Option.bind_some, hexchange]
  dsimp only
  cases exchangeChainState (calls.about member) transaction (calls.mempoolState.mempool.map rules.txid) with
  | none => simp
  | some chain =>
    cases chain with
    | known => simp
    | conflicted => simp
    | pending =>
      simp only [Option.bind_eq_bind, Option.bind_some, Option.pure_def, Option.some.injEq]
      split_ifs <;> simp

open DropletStore

theorem unlockExchange_exec (hheight : blockHeight < 2 ^ 63) (member : W) (store : DropletStore W Tx) :
    ∃ store', (unlockExchange member blockHeight).atomic.exec store = (.ok ⟨⟩, store') ∧ ∀ k,
      lockedFor store'.droplets k = if k = member then none else lockedFor store.droplets k := by
  cases hrow : store.droplets.lookup member with
  | none =>
    refine ⟨store, ?_, fun k => ?_⟩
    · refine Db.returns_atomic.mpr ?_
      unfold unlockExchange
      refine Db.returns_bind.mpr ⟨blockHeight, store, encodeU64_returns.mpr ⟨hheight, rfl, rfl⟩, ?_⟩
      rw [Db.returns_get_bind, hrow]
      exact Db.returns_pure.mpr ⟨rfl, rfl⟩
    · split_ifs with hk
      · rw [hk, lockedFor, hrow, Option.bind_none]
      · rfl
  | some row =>
    refine ⟨{ store with droplets := store.droplets.insert member (unlockedRow row blockHeight) }, ?_, fun k => ?_⟩
    · refine Db.returns_atomic.mpr ?_
      unfold unlockExchange
      refine Db.returns_bind.mpr ⟨blockHeight, store, encodeU64_returns.mpr ⟨hheight, rfl, rfl⟩, ?_⟩
      rw [Db.returns_get_bind, hrow]
      exact Db.returns_set.mpr rfl
    · rw [lockedFor_insert]
      rfl

variable [DecidableEq Tx]

/-- The pass decides every lock by its own row, and leaves the others alone. -/
theorem recoverRows_lockedFor (hheight : blockHeight < 2 ^ 63) {rows : List (Sigma fun _ : W => Droplet Tx)}
    (hnodup : rows.NodupKeys) (store : DropletStore W Tx) (member : W) :
    (member ∉ rows.keys →
      lockedFor (recoverRows lockedExchange calls blockHeight isLeader rows store).store.droplets member =
        lockedFor store.droplets member) ∧
    ∀ balance, ⟨member, balance⟩ ∈ rows →
      lockedFor (recoverRows lockedExchange calls blockHeight isLeader rows store).store.droplets member =
        if recovery lockedExchange calls blockHeight isLeader member balance = some .unlock then none
        else lockedFor store.droplets member := by
  induction rows generalizing store with
  | nil => exact ⟨fun _ => rfl, fun _ h => absurd h List.not_mem_nil⟩
  | cons row rows ih =>
    obtain ⟨first, firstBalance⟩ := row
    obtain ⟨hfirst, hnodup⟩ := List.nodupKeys_cons.mp hnodup
    -- What the first row does to the store, before the rest of the loop.
    have hstep : ∃ store', (recoverRows lockedExchange calls blockHeight isLeader (⟨first, firstBalance⟩ :: rows) store).store =
        (recoverRows lockedExchange calls blockHeight isLeader rows store').store ∧ ∀ k,
          lockedFor store'.droplets k =
            if k = first ∧ recovery lockedExchange calls blockHeight isLeader first firstBalance = some .unlock then none
            else lockedFor store.droplets k := by
      rw [recoverRows]
      cases hrecovery : recovery lockedExchange calls blockHeight isLeader first firstBalance with
      | none => exact ⟨store, rfl, fun k => by simp⟩
      | some decision =>
        cases decision with
        | keep => exact ⟨store, rfl, fun k => by simp⟩
        | rebroadcast transaction txid => exact ⟨store, rfl, fun k => by simp⟩
        | unlock =>
          obtain ⟨store', hexec, hlocks⟩ := unlockExchange_exec hheight first store
          dsimp only
          rw [hexec]
          exact ⟨store', rfl, fun k => by rw [hlocks]; simp⟩
    obtain ⟨store', hstore, hlocks⟩ := hstep
    obtain ⟨habsent, hpresent⟩ := ih hnodup store'
    rw [hstore]
    constructor
    · intro hmember
      rw [List.keys_cons, List.mem_cons, not_or] at hmember
      rw [habsent hmember.2, hlocks, if_neg (fun h => hmember.1 h.1)]
    · intro balance hbalance
      rcases List.mem_cons.mp hbalance with heq | hrest
      · cases heq
        rw [habsent hfirst, hlocks]
        simp
      · have hne : member ≠ first := by
          rintro rfl
          have hkey : (⟨member, balance⟩ : Sigma fun _ : W => Droplet Tx).1 ∈ rows.keys := List.mem_keys_of_mem hrest
          exact hfirst hkey
        have hlock : lockedFor store'.droplets member = lockedFor store.droplets member := by
          rw [hlocks, if_neg (fun h => hne h.1)]
        rw [hpresent balance hrest, hlock]

theorem recoverDropletExchanges_lockedFor (hheight : blockHeight < 2 ^ 63) {store : DropletStore W Tx} {member : W}
    {balance : Droplet Tx} (hrow : store.droplets.lookup member = some balance) (hlocked : balance.exchangeLocked = true) :
    lockedFor (recoverDropletExchanges lockedExchange calls blockHeight isLeader store).store.droplets member =
      if calls.mempoolAnswered = true ∧
        recovery lockedExchange calls blockHeight isLeader member balance = some .unlock then none
      else lockedFor store.droplets member := by
  unfold recoverDropletExchanges
  by_cases hanswered : calls.mempoolAnswered = false
  · rw [if_pos hanswered, if_neg (by simp [hanswered])]
  · have hperm := List.perm_insertionSort (fun row row' : Sigma fun _ : W => Droplet Tx => row.1 ≤ row'.1)
      (store.droplets.entries.filter fun row => row.2.exchangeLocked)
    have hnodup : (lockedRows store).NodupKeys :=
      (List.perm_nodupKeys hperm).mpr (store.droplets.nodupKeys.sublist List.filter_sublist)
    have hmem : ⟨member, balance⟩ ∈ lockedRows store :=
      hperm.mem_iff.mpr (List.mem_filter.mpr ⟨AList.mem_lookup_iff.mp hrow, hlocked⟩)
    rw [if_neg hanswered, (recoverRows_lockedFor hheight hnodup store member).2 balance hmem]
    simp only [Bool.not_eq_false] at hanswered
    simp only [hanswered, true_and]

end Pass

section Safety

open ChainState

variable [LinearOrder W] {lockedExchange : Tx → Option (T × Bool)} {calls : RecoveryCalls rules} {blockHeight : ℕ}
  {isLeader : Bool}

/-- The chain at the last call about a transaction. -/
def lastState (calls : RpcCalls rules) (transaction : T) : ChainState rules :=
  calls.state (rules.inputs transaction).length

/-- Another transaction has spent one and the same input at every call. -/
structure ConflictsThroughout (calls : RecoveryCalls rules) (member : W) (transaction : T) (outpoint : W × ℕ) : Prop where
  mem : outpoint ∈ rules.inputs transaction
  mempoolAnswered : calls.mempoolAnswered = true
  answered : ∀ i ≤ (rules.inputs transaction).length, (calls.about member).answered i = true
  mempool : calls.mempoolState.Conflicts transaction outpoint
  about : ∀ i ≤ (rules.inputs transaction).length, ((calls.about member).state i).Conflicts transaction outpoint

/-- The pass keeps a lock whose transaction can still confirm, and releases one whose transaction cannot because another
one has confirmed. -/
structure RecoversSafely (lockedExchange : Tx → Option (T × Bool)) (calls : RecoveryCalls rules) (blockHeight : ℕ)
    (isLeader : Bool) (store : DropletStore W Tx) (member : W) (transaction : T) : Prop where
  keeps : lockedFor (recoverDropletExchanges lockedExchange calls blockHeight isLeader store).store.droplets member =
    none → ¬(lastState (calls.about member) transaction).Live transaction
  releases : ∀ outpoint, ConflictsThroughout calls member transaction outpoint →
    lockedFor (recoverDropletExchanges lockedExchange calls blockHeight isLeader store).store.droplets member = none

/-- Every input was an unspent output when it was asked for. -/
def InputsUnspent (calls : RpcCalls rules) (transaction : T) : Prop :=
  ∀ i outpoint, (rules.inputs transaction)[i]? = some outpoint → (calls.state i).unspent outpoint = true

/-- A call of the pass was not answered, so that it does nothing. -/
def Unanswered (calls : RecoveryCalls rules) (member : W) (transaction : T) : Prop :=
  calls.mempoolAnswered = false ∨ ∃ i ≤ (rules.inputs transaction).length, (calls.about member).answered i = false

section Conflicts

variable {state : ChainState rules} {transaction : T} {outpoint : W × ℕ}

theorem Conflicts.unspent (h : state.Conflicts transaction outpoint) : state.unspent outpoint = false := by
  obtain ⟨other, hother, -, hspent⟩ := h
  have hany : (state.confirmed.any fun tx => decide (outpoint ∈ rules.inputs tx)) = true :=
    List.any_eq_true.mpr ⟨other, hother, decide_eq_true hspent⟩
  rw [ChainState.unspent, hany, Bool.not_true, Bool.and_false]

theorem Conflicts.isConfirmed (h : state.Conflicts transaction outpoint) (hmem : outpoint ∈ rules.inputs transaction) :
    state.isConfirmed transaction = false := by
  obtain ⟨other, hother, hne, hspent⟩ := h
  by_contra hconfirmed
  obtain ⟨same, hsame, htxid⟩ := List.any_eq_true.mp (Bool.eq_true_of_not_eq_false hconfirmed)
  have htxid : rules.txid same = rules.txid transaction := of_decide_eq_true htxid
  have hmem : outpoint ∈ rules.inputs same := by rwa [rules.inputs_of_txid htxid]
  exact hne ((state.spentOnce other hother same hsame outpoint hspent hmem).trans htxid)

theorem Conflicts.inMempool (h : state.Conflicts transaction outpoint) (hmem : outpoint ∈ rules.inputs transaction) :
    state.inMempool transaction = false := by
  obtain ⟨other, hother, -, hspent⟩ := h
  by_contra hpending
  obtain ⟨same, hsame, htxid⟩ := List.any_eq_true.mp (Bool.eq_true_of_not_eq_false hpending)
  have hmem : outpoint ∈ rules.inputs same := by rwa [rules.inputs_of_txid (of_decide_eq_true htxid)]
  exact state.mempoolUnspent same hsame other hother outpoint hmem hspent

theorem inMempool_iff : state.inMempool transaction = true ↔ rules.txid transaction ∈ state.mempool.map rules.txid := by
  unfold ChainState.inMempool
  simp only [List.any_eq_true, decide_eq_true_eq, List.mem_map]

end Conflicts

/-- The lock is released when the pass is answered and finds its transaction conflicted. -/
theorem released_iff (hheight : blockHeight < 2 ^ 63) {store : DropletStore W Tx} {member : W} {balance : Droplet Tx}
    {bytes : Tx} {transaction : T} {isFinal : Bool} (hrow : store.droplets.lookup member = some balance)
    (hlocked : balance.exchangeLocked = true) (hbytes : balance.lastTx = some bytes)
    (hexchange : lockedExchange bytes = some (transaction, isFinal)) :
    lockedFor (recoverDropletExchanges lockedExchange calls blockHeight isLeader store).store.droplets member = none ↔
      calls.mempoolAnswered = true ∧ calls.mempoolState.inMempool transaction = false ∧
        (∀ i ≤ (rules.inputs transaction).length, (calls.about member).answered i = true) ∧
        (lastState (calls.about member) transaction).isConfirmed transaction = false ∧
        ¬InputsUnspent (calls.about member) transaction := by
  classical
  have hlock : lockedFor store.droplets member ≠ none := by
    unfold lockedFor Droplet.lock
    rw [hrow, Option.bind_some, if_pos hlocked, hbytes]
    exact Option.some_ne_none _
  have hmissing : ¬InputsUnspent (calls.about member) transaction ↔ ∃ i outpoint,
      (rules.inputs transaction)[i]? = some outpoint ∧ ((calls.about member).state i).unspent outpoint = false := by
    unfold InputsUnspent
    simp only [not_forall, Bool.not_eq_true, exists_prop]
  have hunlock := @recovery_unlock_iff _ _ _ _ _ lockedExchange calls blockHeight isLeader member _ _ _ _ hbytes hexchange
  rw [exchangeChainState_conflicted_iff, ← inMempool_iff, Bool.not_eq_true] at hunlock
  rw [recoverDropletExchanges_lockedFor hheight hrow hlocked, hmissing]
  constructor
  · intro h
    by_cases hreleased : calls.mempoolAnswered = true ∧
        recovery lockedExchange calls blockHeight isLeader member balance = some .unlock
    · exact ⟨hreleased.1, hunlock.mp hreleased.2⟩
    · rw [if_neg hreleased] at h
      exact absurd h hlock
  · rintro ⟨hanswered, hfound⟩
    rw [if_pos ⟨hanswered, hunlock.mpr hfound⟩]

/-- A pass treats a lock right exactly when it does not mistake an input that is not there yet, or not any more, for one
that somebody else has spent. -/
theorem exchange_recovery_safe_iff (hheight : blockHeight < 2 ^ 63) {store : DropletStore W Tx} {member : W}
    {balance : Droplet Tx} {bytes : Tx} {transaction : T} {isFinal : Bool}
    (hrow : store.droplets.lookup member = some balance) (hlocked : balance.exchangeLocked = true)
    (hbytes : balance.lastTx = some bytes) (hexchange : lockedExchange bytes = some (transaction, isFinal)) :
    RecoversSafely lockedExchange calls blockHeight isLeader store member transaction ↔
      ((lastState (calls.about member) transaction).Live transaction →
        Unanswered calls member transaction ∨ calls.mempoolState.inMempool transaction = true ∨
          (lastState (calls.about member) transaction).isConfirmed transaction = true ∨
          InputsUnspent (calls.about member) transaction) := by
  have hreleased := @released_iff _ _ _ _ _ lockedExchange calls _ isLeader hheight store _ _ _ _ _ hrow hlocked hbytes
    hexchange
  constructor
  · intro hsafe hlive
    by_contra hfound
    simp only [Unanswered, not_or, not_exists, not_and, Bool.not_eq_false, Bool.not_eq_true] at hfound
    obtain ⟨⟨hmempool, hanswered⟩, hpending, hconfirmed, hinputs⟩ := hfound
    exact hsafe.keeps (hreleased.mpr ⟨hmempool, hpending, hanswered, hconfirmed, hinputs⟩) hlive
  · intro hcondition
    refine ⟨fun hnone hlive => ?_, fun outpoint h => ?_⟩
    · obtain ⟨hmempool, hpending, hanswered, hconfirmed, hinputs⟩ := hreleased.mp hnone
      rcases hcondition hlive with (hunanswered | ⟨i, hi, hunanswered⟩) | hfound | hfound | hfound
      · simp [hmempool] at hunanswered
      · simp [hanswered i hi] at hunanswered
      · simp [hpending] at hfound
      · simp [hconfirmed] at hfound
      · exact hinputs hfound
    · obtain ⟨i, hi⟩ := List.mem_iff_getElem?.mp h.mem
      have hlt : i < (rules.inputs transaction).length := (List.getElem?_eq_some_iff.mp hi).1
      refine hreleased.mpr ⟨h.mempoolAnswered, Conflicts.inMempool h.mempool h.mem, h.answered,
        Conflicts.isConfirmed (h.about _ le_rfl) h.mem, fun hinputs => ?_⟩
      have hunspent := hinputs i outpoint hi
      rw [Conflicts.unspent (h.about i hlt.le)] at hunspent
      cases hunspent

section Example

/-- A transaction that funds the Treasury, the exchange that spends it, and another one that does. -/
def exampleInputs : ℕ → List (ℕ × ℕ)
  | 1 => [(0, 0)]
  | 2 => [(1, 0)]
  | 3 => [(1, 0)]
  | _ => []

def exampleTransactions : TxRules ℕ ℕ where
  txid := id
  inputs := exampleInputs
  outputs _ := 2
  inputs_of_txid h := congrArg exampleInputs h

/-- The exchange's input is on the chain. -/
def fundedState : ChainState exampleTransactions where
  confirmed := [0, 1]
  mempool := []
  disconnected := []
  spentOnce := by decide
  mempoolUnspent := by decide

/-- A reorganisation put the transaction that creates the input back into the mempool. -/
def reorganisedState : ChainState exampleTransactions where
  confirmed := [0]
  mempool := [1]
  disconnected := []
  spentOnce := by decide
  mempoolUnspent := by decide

def exampleCalls (state : ChainState exampleTransactions) : RecoveryCalls exampleTransactions where
  mempoolState := state
  mempoolAnswered := true
  about _ := ⟨fun _ => state, fun _ => true⟩

/-- The unsigned exchange of member 5, locked at height 10. -/
def exampleBalance : Droplet ℕ := ⟨100, 0, 10, true, some 2, 40⟩

def exampleLedger : DropletStore ℕ ℕ := ⟨(∅ : Table ℕ (Droplet ℕ)).insert 5 exampleBalance, ∅⟩

/-- With its input confirmed, the lock of an exchange that nobody announced stays. -/
theorem exchange_recovery_safe_iff_funded :
    RecoversSafely (fun bytes => some (bytes, false)) (exampleCalls fundedState) 11 true exampleLedger 5 2 := by
  refine (@exchange_recovery_safe_iff _ _ _ _ _ (fun bytes => some (bytes, false)) (exampleCalls fundedState) 11 true
    (by decide) exampleLedger 5 exampleBalance 2 2 false rfl rfl rfl rfl).mpr fun _ => ?_
  refine Or.inr (Or.inr (Or.inr fun i outpoint hinput => ?_))
  have hinput : [((1, 0) : ℕ × ℕ)][i]? = some outpoint := hinput
  obtain ⟨hlt, rfl⟩ := List.getElem?_eq_some_iff.mp hinput
  have hi : i = 0 := Nat.lt_one_iff.mp hlt
  subst hi
  exact (by decide : fundedState.unspent (1, 0) = true)

/-- After the reorganisation the lock is released, and both transactions can still confirm. -/
theorem exchange_recovery_unsafe :
    ¬RecoversSafely (fun bytes => some (bytes, false)) (exampleCalls reorganisedState) 11 true exampleLedger 5 2 := by
  intro hsafe
  refine hsafe.keeps ?_ (Or.inr ⟨1, ?_⟩)
  · refine (@released_iff _ _ _ _ _ (fun bytes => some (bytes, false)) (exampleCalls reorganisedState) 11 true
      (by decide) exampleLedger 5 exampleBalance 2 2 false rfl rfl rfl rfl).mpr ⟨rfl, by decide, fun _ _ => rfl, by decide, ?_⟩
    intro hinputs
    have hunspent : reorganisedState.unspent (1, 0) = true := hinputs 0 (1, 0) rfl
    revert hunspent
    decide
  · intro outpoint houtpoint
    have houtpoint : outpoint = (1, 0) := List.mem_singleton.mp houtpoint
    subst houtpoint
    refine Or.inr ⟨1, by decide, by decide, by decide, ?_⟩
    intro outpoint houtpoint
    have houtpoint : outpoint = (0, 0) := List.mem_singleton.mp houtpoint
    subst houtpoint
    decide

end Example

end Safety

end Indexer

end PriceOracle
