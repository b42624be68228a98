import PriceOracle.VotingExecution
import PriceOracle.VotingExecutions

/-!
# Fee locks of voting executions

Who relies on the Droplets lock of a proposer: its executions that are started and have
taken their lock, those that are recorded as broadcast, and a cancel between its two
statements. As long as no lock is given up that somebody relies on, a cancel releases
the lock of the execution it cancels only, and recorded executions stay locked.
-/

namespace PriceOracle

namespace ExecutionNode

variable {W B : Type} [LinearOrder W] [DecidableEq B] (R : ExecutionRules W B) (node : ExecutionNode W B)

section Conditions

/-- Between `start_execution` and the lock, or when the lock was refused. -/
def InWindow : ExecutionStage B → Prop
  | .lock started => started = true
  | .undo | .stuck => True
  | _ => False

/-- An execution of the vote was started and has not taken its lock. -/
def Window (requestHash : W) (transaction : B) : Prop :=
  ∃ task ∈ node.tasks, task.requestHash = requestHash ∧ task.request.tx = transaction ∧ InWindow task.stage

def RowReliesAt (requestHash : W) (row : StoredVotingRequest W B) (member txid : W) : Prop :=
  row.proposerPublicKey = some member ∧ row.executionConfirmed = false ∧ (row.executionTxid = some txid ∨
    (row.executionTxid = none ∧ row.executionStarted = true ∧ ∃ transaction,
      row.executionTransaction = some transaction ∧ R.txid transaction = txid ∧
        ¬node.Window requestHash transaction))

def RowRelies (member txid : W) : Prop :=
  ∃ requestHash row, node.votes.requests.lookup requestHash = some row ∧
    node.RowReliesAt R requestHash row member txid

def TaskRelies (member txid : W) : Prop :=
  ∃ task ∈ node.tasks, task.request.proposerPublicKey = member ∧ ∃ updated transaction,
    task.stage = .cancelLock updated (some transaction) ∧ R.txid transaction = txid

/-- Somebody relies on the member's lock for a transaction that can still confirm. -/
def Relied (member txid : W) : Prop :=
  txid ∉ node.settled ∧ (node.RowRelies R member txid ∨ node.TaskRelies R member txid)

/-- The member's row is locked for the transaction, unsigned or final. -/
def LockedFor (member txid : W) : Prop :=
  ∃ last, lockedFor node.store.droplets member = some last ∧ R.txid last = txid

/-- A cancel that unlocks finds no lock but that of the execution it cancelled. -/
def ReleasesOwn : ExecutionAction W B → Prop
  | .advance index _ => ∀ task updated cancelled, node.tasks[index]? = some task →
      task.stage = .cancelLock updated cancelled → ∀ last,
        lockedFor node.store.droplets task.request.proposerPublicKey = some last →
          ∃ transaction, cancelled = some transaction ∧ R.txid last = R.txid transaction
  | _ => True

/-- What a task finds before its next statement: the execution it cancels has its lock, is still
unconfirmed when the lock is released, and is the only one to rely on it; the execution it records was
started here and not cancelled since. -/
def TaskClear (index : ℕ) (task : ExecutionTask W B) : Prop :=
  match task.stage with
  | .cancelVote => ∀ row transaction, node.votes.requests.lookup task.requestHash = some row →
      row.executionTransaction = some transaction → ¬node.Window task.requestHash transaction
  | .cancelLock _ cancelled => (∃ transaction, cancelled = some transaction ∧ R.txid transaction ∉ node.settled) ∧
      ∀ txid, ¬(node.setStage index .done).Relied R task.request.proposerPublicKey txid
  | .record => R.txid task.request.tx ∈ node.settled ∨
      ∀ row, node.votes.requests.lookup task.requestHash = some row → row.executionTxid = none →
        row.executionStarted = true ∧ row.executionTransaction = some task.request.tx ∧
          ¬node.Window task.requestHash task.request.tx
  | _ => True

/-- A lock is given up by its own execution only. -/
def Clear : ExecutionAction W B → Prop
  | .advance index _ => ∀ task, node.tasks[index]? = some task → node.TaskClear R index task
  | .unlockExchange member _ => ∀ txid, ¬node.Relied R member txid
  | .applyBlock height treasuryTransactions members =>
    SpendState.EachConfirm (fun state treasuryTransaction => ∀ member amount,
      state.store.chargeOf treasuryTransaction = some (member, amount) →
        ∀ txid, node.Relied R member txid → txid ∈ treasuryTransactions.map TreasuryTransaction.txid)
      height (DropletStore.sortedMembers members) ⟨node.store, []⟩ treasuryTransactions
  | _ => True

/-- `P` holds of every step of a run. -/
def EachStep (P : ExecutionNode W B → ExecutionAction W B → Prop) :
    ExecutionNode W B → List (ExecutionAction W B) → Prop
  | _, [] => True
  | node, action :: actions => P node action ∧ EachStep P (node.step R action) actions

end Conditions

section Tasks

variable {node} {index : ℕ} {stage : ExecutionStage B} {task : ExecutionTask W B}

theorem mem_modify_cases {A : Type} {xs : List A} {i : ℕ} {f : A → A} {x : A} (h : x ∈ xs.modify i f) :
    x ∈ xs ∨ ∃ y, xs[i]? = some y ∧ x = f y := by
  obtain ⟨j, hj⟩ := List.mem_iff_getElem?.mp h
  rw [List.getElem?_modify] at hj
  cases hy : xs[j]? with
  | none => simp [hy] at hj
  | some y =>
    rw [hy] at hj
    by_cases heq : i = j
    · subst heq
      refine Or.inr ⟨y, hy, ?_⟩
      simpa using hj.symm
    · refine Or.inl (List.mem_of_getElem? (i := j) ?_)
      simpa [heq, hy] using hj

theorem mem_modify_of_getElem? {A : Type} {xs : List A} {i : ℕ} {f : A → A} {y : A} (h : xs[i]? = some y) :
    f y ∈ xs.modify i f := by
  apply List.mem_of_getElem? (i := i)
  simp [h]

theorem mem_modify_of_ne {A : Type} {xs : List A} {i : ℕ} {f : A → A} {x y : A} (h : x ∈ xs)
    (hi : xs[i]? = some y) (hne : x ≠ y) : x ∈ xs.modify i f := by
  obtain ⟨j, hj⟩ := List.mem_iff_getElem?.mp h
  have hij : i ≠ j := by
    rintro rfl
    exact hne (Option.some.inj (hj.symm.trans hi))
  apply List.mem_of_getElem? (i := j)
  simp [hij, hj]

omit [LinearOrder W] [DecidableEq B] in
/-- A window stays open while its task stays. -/
theorem Window.setStage {requestHash : W} {transaction : B} (h : node.Window requestHash transaction)
    (hindex : node.tasks[index]? = some task)
    (hstage : InWindow task.stage → InWindow stage) : (node.setStage index stage).Window requestHash transaction := by
  obtain ⟨task', hmem, hhash, htx, hwindow⟩ := h
  by_cases heq : task' = task
  · subst heq
    exact ⟨{ task' with stage := stage }, mem_modify_of_getElem? hindex, hhash, htx, hstage hwindow⟩
  · exact ⟨task', mem_modify_of_ne hmem hindex heq, hhash, htx, hwindow⟩

end Tasks

section Invariant

/-- What every statement keeps of a vote. -/
structure RowInv (row : StoredVotingRequest W B) : Prop where
  started : row.executionTxid = none → row.executionTransaction ≠ none → row.executionStarted = true
  proposer : row.executionStarted = true ∨ row.executionTxid ≠ none → row.proposerPublicKey ≠ none
  confirmed : row.executionConfirmed = true → row.executionTxid ≠ none

/-- The proposer that a task has checked stays that of the vote. -/
def TaskInv (votes : VotingStore W B) (task : ExecutionTask W B) : Prop :=
  match task.stage with
  | .start | .lock _ => task.kind ≠ .notice ∧ ∃ row, votes.requests.lookup task.requestHash = some row ∧
      row.proposerPublicKey = some task.request.proposerPublicKey
  | .cancelVote | .cancelLock _ _ => ∃ row, votes.requests.lookup task.requestHash = some row ∧
      (row.proposerPublicKey = some task.request.proposerPublicKey ∨
        (task.kind = .notice ∧ (row.proposerPublicKey = none ∨ row.executionTxid ≠ none)))
  | _ => True

/-- What every clear step keeps. -/
structure FeeInv (R : ExecutionRules W B) (node : ExecutionNode W B) : Prop where
  rows : ∀ requestHash row, node.votes.requests.lookup requestHash = some row → RowInv row
  tasks : ∀ task ∈ node.tasks, TaskInv node.votes task
  held : ∀ member txid, node.Relied R member txid → node.LockedFor R member txid

/-- Votes stay, with their proposer and their broadcast. -/
def Persists (votes votes' : VotingStore W B) : Prop :=
  ∀ requestHash row, votes.requests.lookup requestHash = some row →
    ∃ row', votes'.requests.lookup requestHash = some row' ∧
      (∀ member, row.proposerPublicKey = some member → row'.proposerPublicKey = some member) ∧
        (row.executionTxid ≠ none → row'.executionTxid ≠ none) ∧
          (row.proposerPublicKey = none → row'.proposerPublicKey = none ∨ row'.executionTxid ≠ none)

/-- The columns that the locks depend on are the same. -/
def SameExecution (row row' : StoredVotingRequest W B) : Prop :=
  row'.proposerPublicKey = row.proposerPublicKey ∧ row'.executionStarted = row.executionStarted ∧
    row'.executionTransaction = row.executionTransaction ∧ row'.executionTxid = row.executionTxid ∧
      (row'.executionConfirmed = false → row.executionConfirmed = false)

/-- The vote relies on no lock. -/
def RowIdle (node : ExecutionNode W B) (requestHash : W) (row : StoredVotingRequest W B) : Prop :=
  row.executionConfirmed = true ∨ (row.executionTxid = none ∧ (row.executionStarted = true →
    ∀ transaction, row.executionTransaction = some transaction → node.Window requestHash transaction))

variable {R} {node} {node' : ExecutionNode W B} {votes votes' : VotingStore W B} {index : ℕ}
  {task : ExecutionTask W B} {stage : ExecutionStage B} {member txid : W}

omit [DecidableEq B] in
theorem Persists.refl (votes : VotingStore W B) : Persists votes votes :=
  fun _ row hrow => ⟨row, hrow, fun _ => id, id, Or.inl⟩

omit [DecidableEq B] in
theorem TaskInv.persists (h : TaskInv votes task) (hvotes : Persists votes votes') : TaskInv votes' task := by
  unfold TaskInv at h ⊢
  cases hstage : task.stage with
  | start | lock _ =>
    simp only [hstage] at h
    obtain ⟨hkind, row, hrow, hproposer⟩ := h
    obtain ⟨row', hrow', hsame, -, -⟩ := hvotes _ row hrow
    exact ⟨hkind, row', hrow', hsame _ hproposer⟩
  | cancelVote | cancelLock _ _ =>
    simp only [hstage] at h
    obtain ⟨row, hrow, hcases⟩ := h
    obtain ⟨row', hrow', hsame, htxid, hnone⟩ := hvotes _ row hrow
    refine ⟨row', hrow', ?_⟩
    rcases hcases with hproposer | ⟨hkind, hproposer | hbroadcast⟩
    · exact Or.inl (hsame _ hproposer)
    · exact Or.inr ⟨hkind, hnone hproposer⟩
    · exact Or.inr ⟨hkind, Or.inr (htxid hbroadcast)⟩
  | _ => trivial

omit [DecidableEq B] in
theorem rowRelies_of (h : node'.RowRelies R member txid)
    (hrows : ∀ requestHash row', node'.votes.requests.lookup requestHash = some row' →
      (∃ row, node.votes.requests.lookup requestHash = some row ∧ SameExecution row row') ∨
        RowIdle node' requestHash row')
    (hwindow : ∀ requestHash transaction, node.Window requestHash transaction →
      node'.Window requestHash transaction ∨ ∀ row', node'.votes.requests.lookup requestHash = some row' →
        RowIdle node' requestHash row') : node.RowRelies R member txid := by
  obtain ⟨requestHash, row', hrow', hproposer, hopen, hcases⟩ := h
  -- A vote that relies on a lock is not idle.
  have hbusy : ¬RowIdle node' requestHash row' := by
    rintro (hconfirmed | ⟨hnone, hidle⟩)
    · rw [hopen] at hconfirmed
      cases hconfirmed
    · rcases hcases with hsome | ⟨-, hstarted, transaction, htx, -, hclosed⟩
      · rw [hnone] at hsome
        cases hsome
      · exact hclosed (hidle hstarted transaction htx)
  rcases hrows requestHash row' hrow' with ⟨row, hrow, hp, hs, ht, hid, hc⟩ | hidle
  · refine ⟨requestHash, row, hrow, hp ▸ hproposer, hc hopen, ?_⟩
    rcases hcases with hsome | ⟨hnone, hstarted, transaction, htx, heq, hclosed⟩
    · exact Or.inl (hid ▸ hsome)
    · refine Or.inr ⟨hid ▸ hnone, hs ▸ hstarted, transaction, ht ▸ htx, heq, fun hw => ?_⟩
      rcases hwindow requestHash transaction hw with hw' | hidle
      · exact hclosed hw'
      · exact hbusy (hidle row' hrow')
  · exact absurd hidle hbusy

omit [LinearOrder W] [DecidableEq B] in
theorem taskRelies_of (h : node'.TaskRelies R member txid) (htasks : ∀ task' ∈ node'.tasks, ∀ updated transaction,
      task'.stage = .cancelLock updated (some transaction) → ∃ task ∈ node.tasks,
        task.request.proposerPublicKey = task'.request.proposerPublicKey ∧ task.stage = task'.stage) :
    node.TaskRelies R member txid := by
  obtain ⟨task', hmem', hmember, updated, transaction, hstage', heq⟩ := h
  obtain ⟨task, hmem, hproposer, hstage⟩ := htasks task' hmem' updated transaction hstage'
  exact ⟨task, hmem, hproposer.trans hmember, updated, transaction, hstage.trans hstage', heq⟩

omit [DecidableEq B] in
/-- The ledger changes, but keeps the locks that are still relied on. -/
theorem FeeInv.of_store (h : FeeInv R node) (store : DropletStore W B) (confirmed : List W)
    (hlocks : ∀ member txid, node.Relied R member txid → txid ∉ confirmed → node.LockedFor R member txid →
      { node with store := store }.LockedFor R member txid) :
    FeeInv R { node with store := store, settled := node.settled ++ confirmed } where
  rows := h.rows
  tasks := h.tasks
  held member txid hrelied := by
    obtain ⟨hlive, hrelies⟩ := hrelied
    rw [List.mem_append, not_or] at hlive
    have hold : node.Relied R member txid := ⟨hlive.1, hrelies⟩
    exact hlocks member txid hold hlive.2 (h.held member txid hold)

omit [DecidableEq B] in
theorem FeeInv.of_same_settled (h : FeeInv R node) (store : DropletStore W B)
    (hlocks : ∀ member txid, node.Relied R member txid → node.LockedFor R member txid →
      { node with store := store }.LockedFor R member txid) : FeeInv R { node with store := store } := by
  have hnext := h.of_store store [] fun member txid hrelied _ => hlocks member txid hrelied
  rwa [List.append_nil] at hnext

omit [DecidableEq B] in
/-- A task that moves on relies on nothing new. -/
theorem relied_modifyTask {f : ExecutionTask W B → ExecutionTask W B} (hindex : node.tasks[index]? = some task)
    (hhash : (f task).requestHash = task.requestHash) (htx : (f task).request.tx = task.request.tx)
    (hwindow : InWindow task.stage → InWindow (f task).stage)
    (hstage : ∀ updated transaction, (f task).stage ≠ .cancelLock updated (some transaction))
    (h : { node with tasks := node.tasks.modify index f }.Relied R member txid) : node.Relied R member txid := by
  obtain ⟨hlive, hrows | htasks⟩ := h
  · refine ⟨hlive, Or.inl (rowRelies_of hrows (fun _ row hrow => Or.inl ⟨row, hrow, rfl, rfl, rfl, rfl, id⟩) ?_)⟩
    rintro requestHash transaction ⟨task', hmem, hh, ht, hw⟩
    left
    by_cases heq : task' = task
    · subst heq
      exact ⟨f task', mem_modify_of_getElem? hindex, hhash.trans hh, htx.trans ht, hwindow hw⟩
    · exact ⟨task', mem_modify_of_ne hmem hindex heq, hh, ht, hw⟩
  · refine ⟨hlive, Or.inr (taskRelies_of htasks ?_)⟩
    intro task' hmem updated transaction hcancel
    rcases mem_modify_cases hmem with hold | ⟨task₀, hindex₀, rfl⟩
    · exact ⟨task', hold, rfl, rfl⟩
    · obtain rfl := Option.some.inj (hindex.symm.trans hindex₀)
      exact absurd hcancel (hstage updated transaction)

omit [DecidableEq B] in
/-- A task moves on and nothing else changes. -/
theorem FeeInv.modifyTask (h : FeeInv R node) (f : ExecutionTask W B → ExecutionTask W B)
    (hindex : node.tasks[index]? = some task) (hhash : (f task).requestHash = task.requestHash)
    (htx : (f task).request.tx = task.request.tx) (hwindow : InWindow task.stage → InWindow (f task).stage)
    (hstage : ∀ updated transaction, (f task).stage ≠ .cancelLock updated (some transaction))
    (htask : TaskInv node.votes (f task)) : FeeInv R { node with tasks := node.tasks.modify index f } where
  rows := h.rows
  tasks task' hmem := by
    rcases mem_modify_cases hmem with hold | ⟨task₀, hindex₀, rfl⟩
    · exact h.tasks task' hold
    · obtain rfl := Option.some.inj (hindex.symm.trans hindex₀)
      exact htask
  held member txid hrelied := h.held member txid (relied_modifyTask hindex hhash htx hwindow hstage hrelied)

omit [DecidableEq B] in
theorem FeeInv.setStage (h : FeeInv R node) (hindex : node.tasks[index]? = some task)
    (hwindow : InWindow task.stage → InWindow stage)
    (hstage : ∀ updated transaction, stage ≠ .cancelLock updated (some transaction))
    (htask : TaskInv node.votes { task with stage := stage }) : FeeInv R (node.setStage index stage) :=
  h.modifyTask (fun task => { task with stage := stage }) hindex rfl rfl hwindow hstage htask

omit [DecidableEq B] in
theorem FeeInv.done (h : FeeInv R node) (hindex : node.tasks[index]? = some task)
    (hwindow : ¬InWindow task.stage) : FeeInv R (node.setStage index .done) :=
  h.setStage hindex (fun hw => absurd hw hwindow) (fun _ _ => nofun) trivial

omit [DecidableEq B] in
theorem FeeInv.accept (h : FeeInv R node) (kind : ExecutionKind) (requestHash : W)
    (request : ExecuteVotingRequest W B) (blockHeight : ℕ) :
    FeeInv R (node.accept R kind requestHash request blockHeight) := by
  unfold ExecutionNode.accept
  cases node.votes.requests.lookup requestHash with
  | none => exact h
  | some stored =>
    simp only
    split_ifs
    · refine ⟨h.rows, fun task htask => ?_, fun member txid hrelied => ?_⟩
      · rcases List.mem_append.mp htask with hold | hnew
        · exact h.tasks task hold
        · obtain rfl := List.mem_singleton.mp hnew
          trivial
      · apply h.held member txid
        obtain ⟨hlive, hrows | htasks⟩ := hrelied
        · refine ⟨hlive, Or.inl (rowRelies_of hrows (fun _ row hrow => Or.inl ⟨row, hrow, rfl, rfl, rfl, rfl, id⟩) ?_)⟩
          rintro hash transaction ⟨task, hmem, hrest⟩
          exact Or.inl ⟨task, List.mem_append_left _ hmem, hrest⟩
        · refine ⟨hlive, Or.inr (taskRelies_of htasks ?_)⟩
          intro task htask updated transaction hstage
          rcases List.mem_append.mp htask with hold | hnew
          · exact ⟨task, hold, rfl, rfl⟩
          · obtain rfl := List.mem_singleton.mp hnew
            cases hstage
    · exact h

theorem FeeInv.validate (h : FeeInv R node) (hindex : node.tasks[index]? = some task)
    (hstage : task.stage = .validate) (valid : Bool) : FeeInv R (node.validate index task valid) := by
  have hclosed : ¬InWindow task.stage := by
    rw [hstage]
    exact id
  unfold ExecutionNode.validate
  cases hrow : node.votes.requests.lookup task.requestHash with
  | none => exact h.done hindex hclosed
  | some stored =>
    simp only
    split_ifs with hvalid hreplaces hnotice
    · simp only [Bool.and_eq_true, Bool.or_eq_true, decide_eq_true_eq, Option.isNone_iff_eq_none] at hvalid
      refine h.setStage hindex (fun hw => absurd hw hclosed) (by nofun) ?_
      exact ⟨stored, hrow, hvalid.2.imp_right fun hn => ⟨hn.1, Or.inl hn.2⟩⟩
    · exact h.setStage hindex (fun hw => absurd hw hclosed) (by nofun) trivial
    · simp only [Bool.and_eq_true, Bool.or_eq_true, decide_eq_true_eq, Option.isNone_iff_eq_none] at hvalid
      refine h.setStage hindex (fun hw => absurd hw hclosed) (by nofun) ?_
      exact ⟨hnotice, stored, hrow, hvalid.2.resolve_right fun hn => hnotice hn.1⟩
    · exact h.done hindex hclosed

theorem FeeInv.finalize (h : FeeInv R node) (hindex : node.tasks[index]? = some task)
    (hstage : task.stage = .finalize) (finalTx : Option B) : FeeInv R (node.finalize R index task finalTx) := by
  have hclosed : ¬InWindow task.stage := by
    rw [hstage]
    exact id
  unfold ExecutionNode.finalize
  split
  · split_ifs
    · exact h.modifyTask _ hindex rfl rfl (fun hw => absurd hw hclosed) (by nofun) trivial
    · exact h.done hindex hclosed
  · exact h.done hindex hclosed

omit [DecidableEq B] in
/-- A task moves on after a statement that touched its own vote at most. -/
theorem FeeInv.next (h : FeeInv R node) (hindex : node.tasks[index]? = some task)
    (hothers : ∀ k, k ≠ task.requestHash → votes'.requests.lookup k = node.votes.requests.lookup k)
    (hpersists : Persists node.votes votes')
    (hinv : ∀ row', votes'.requests.lookup task.requestHash = some row' → RowInv row')
    (htask : TaskInv votes' { task with stage := stage })
    (hheld : ∀ row', votes'.requests.lookup task.requestHash = some row' → ∀ member txid, txid ∉ node.settled →
      ({ node with votes := votes' }.setStage index stage).RowReliesAt R task.requestHash row' member txid →
        node.LockedFor R member txid)
    (hcancel : ∀ updated transaction, stage = .cancelLock updated (some transaction) →
      R.txid transaction ∉ node.settled →
        node.LockedFor R task.request.proposerPublicKey (R.txid transaction)) :
    FeeInv R ({ node with votes := votes' }.setStage index stage) where
  rows k row' hrow' := by
    by_cases hk : k = task.requestHash
    · subst hk
      exact hinv row' hrow'
    · exact h.rows k row' ((hothers k hk).symm.trans hrow')
  tasks task' hmem := by
    rcases mem_modify_cases hmem with hold | ⟨task₀, hindex₀, rfl⟩
    · exact (h.tasks task' hold).persists hpersists
    · obtain rfl := Option.some.inj (hindex.symm.trans hindex₀)
      exact htask
  held member txid hrelied := by
    obtain ⟨hlive, ⟨k, row', hrow', hrelies⟩ | ⟨task', hmem, hmember, updated, transaction, hstage, htx⟩⟩ := hrelied
    · by_cases hk : k = task.requestHash
      · subst hk
        exact hheld row' hrow' member txid hlive hrelies
      · apply h.held member txid
        refine ⟨hlive, Or.inl ⟨k, row', (hothers k hk).symm.trans hrow', hrelies.1, hrelies.2.1,
          hrelies.2.2.imp id ?_⟩⟩
        rintro ⟨hnone, hstarted, transaction, htx, heq, hclosed⟩
        refine ⟨hnone, hstarted, transaction, htx, heq, fun hw => hclosed ?_⟩
        obtain ⟨task', hmem, hhash, hrest⟩ := hw
        refine ⟨task', mem_modify_of_ne hmem hindex ?_, hhash, hrest⟩
        rintro rfl
        exact hk hhash.symm
    · rcases mem_modify_cases hmem with hold | ⟨task₀, hindex₀, rfl⟩
      · exact h.held member txid ⟨hlive, Or.inr ⟨task', hold, hmember, updated, transaction, hstage, htx⟩⟩
      · obtain rfl := Option.some.inj (hindex.symm.trans hindex₀)
        obtain rfl := htx
        obtain rfl := hmember
        exact hcancel updated transaction hstage hlive

omit [DecidableEq B] in
/-- An update of one vote. -/
theorem lookup_of_insert {row' : StoredVotingRequest W B} (hvotes : votes'.requests =
    votes.requests.insert task.requestHash row') : ∀ k, k ≠ task.requestHash →
      votes'.requests.lookup k = votes.requests.lookup k := by
  intro k hk
  rw [hvotes, Table.lookup_insert_eq, if_neg hk]

omit [DecidableEq B] in
theorem Persists.insert {requestHash : W} {row row' : StoredVotingRequest W B}
    (hrow : votes.requests.lookup requestHash = some row)
    (hvotes : votes'.requests = votes.requests.insert requestHash row')
    (hproposer : ∀ member, row.proposerPublicKey = some member → row'.proposerPublicKey = some member)
    (htxid : row.executionTxid ≠ none → row'.executionTxid ≠ none)
    (hnone : row.proposerPublicKey = none → row'.proposerPublicKey = none ∨ row'.executionTxid ≠ none) :
    Persists votes votes' := by
  intro k other hother
  rw [hvotes, Table.lookup_insert_eq]
  split_ifs with hk
  · subst hk
    obtain rfl := Option.some.inj (hrow.symm.trans hother)
    exact ⟨row', rfl, hproposer, htxid, hnone⟩
  · exact ⟨other, hother, fun _ => id, id, Or.inl⟩

omit [DecidableEq B] in
theorem FeeInv.cancelVote (h : FeeInv R node) (hindex : node.tasks[index]? = some task)
    (hstage : task.stage = .cancelVote) (hclear : node.TaskClear R index task) :
    FeeInv R (node.cancelVote index task) := by
  have htaskInv := h.tasks task (List.mem_of_getElem? hindex)
  unfold TaskInv at htaskInv
  unfold TaskClear at hclear
  simp only [hstage] at htaskInv hclear
  unfold ExecutionNode.cancelVote
  cases hrun : (VotingStore.cancelExecution task.requestHash).atomic.exec node.votes with
  | mk r votes' =>
    cases r with
    | error e =>
      obtain rfl : votes' = node.votes := by
        have hsame := Db.exec_atomic_error (congrArg Prod.fst hrun)
        rwa [hrun] at hsame
      refine h.setStage hindex (fun hw => ?_) (by nofun) htaskInv
      rw [hstage] at hw
      exact hw
    | ok u =>
      obtain ⟨row, hrow, hnone, hvotes⟩ := VotingStore.updateExecution_returns (Db.returns_atomic.mp hrun)
      have htxid := Option.isNone_iff_eq_none.mp hnone
      have hrequests := congrArg VotingStore.requests hvotes
      obtain ⟨row₀, hrow₀, hproposer⟩ := htaskInv
      obtain rfl := Option.some.inj (hrow.symm.trans hrow₀)
      have hpersists : Persists node.votes votes' :=
        Persists.insert hrow hrequests (fun _ => id) id Or.inl
      have hrow' : ∀ row', votes'.requests.lookup task.requestHash = some row' →
          row' = { row with executionStarted := false, executionTransaction := none } := by
        intro row' hlookup
        rw [hrequests, Table.lookup_insert_eq, if_pos rfl] at hlookup
        exact (Option.some.inj hlookup).symm
      apply h.next hindex (lookup_of_insert hrequests) hpersists
      · intro row' hlookup
        obtain rfl := hrow' row' hlookup
        refine ⟨fun _ htx => absurd rfl htx, ?_, (h.rows _ row hrow).confirmed⟩
        rintro (hstarted | hsome)
        · cases hstarted
        · exact absurd htxid hsome
      · obtain ⟨row', hlookup, hkeep, htx, hmissing⟩ := hpersists _ row hrow
        refine ⟨row', hlookup, ?_⟩
        rcases hproposer with hsome | ⟨hkind, hp | htx'⟩
        · exact Or.inl (hkeep _ hsome)
        · exact Or.inr ⟨hkind, hmissing hp⟩
        · exact absurd htxid htx'
      · intro row' hlookup member txid _ hrelies
        obtain rfl := hrow' row' hlookup
        obtain ⟨-, -, hsome | ⟨-, hstarted, -⟩⟩ := hrelies
        · rw [htxid] at hsome
          cases hsome
        · cases hstarted
      · intro updated transaction heq hlive
        -- The execution that is cancelled was started and has its lock.
        rw [hrow] at heq
        obtain ⟨-, htx⟩ := ExecutionStage.cancelLock.inj heq
        have hinv := h.rows _ row hrow
        have hstarted : row.executionStarted = true := by
          apply hinv.started htxid
          intro hmissing
          rw [Option.bind_some, hmissing] at htx
          cases htx
        have hp : row.proposerPublicKey = some task.request.proposerPublicKey := by
          rcases hproposer with hsome | ⟨-, hmissing | hsome⟩
          · exact hsome
          · exact absurd hmissing (hinv.proposer (Or.inl hstarted))
          · exact absurd htxid hsome
        have hopen : row.executionConfirmed = false := by
          cases hconfirmed : row.executionConfirmed with
          | false => rfl
          | true => exact absurd htxid (hinv.confirmed hconfirmed)
        apply h.held
        exact ⟨hlive, Or.inl ⟨_, row, hrow, hp, hopen, Or.inr ⟨htxid, hstarted, transaction, htx, rfl,
          hclear row transaction hrow htx⟩⟩⟩

/-- The member's lock is released when nothing else relies on it. -/
theorem FeeInv.cancelLock (h : FeeInv R node) (hindex : node.tasks[index]? = some task) {updated : Bool}
    {cancelled : Option B} (hstage : task.stage = .cancelLock updated cancelled)
    (hclear : node.TaskClear R index task) : FeeInv R (node.cancelLock index task updated) := by
  have htaskInv := h.tasks task (List.mem_of_getElem? hindex)
  unfold TaskInv at htaskInv
  unfold TaskClear at hclear
  simp only [hstage] at htaskInv hclear
  have hclosed : ¬InWindow task.stage := by
    rw [hstage]
    exact id
  have hunlocked : ∀ stage, ¬InWindow stage →
      (∀ updated transaction, stage ≠ .cancelLock updated (some transaction)) →
        TaskInv node.votes { task with stage := stage } → ∀ store,
          store = node.store.step (.unlockExchange task.request.proposerPublicKey task.blockHeight) →
            FeeInv R ({ node with store := store }.setStage index stage) := by
    rintro stage hwindow hnot htask store rfl
    have hmoved := h.setStage hindex (fun hw => absurd hw hclosed) hnot htask
    apply hmoved.of_same_settled
    intro member txid hrelied hold
    obtain ⟨last, hlast, htxid⟩ := hold
    refine ⟨last, ?_, htxid⟩
    rcases (node.store.unlock_columns task.request.proposerPublicKey task.blockHeight member).2 with
      hsame | ⟨rfl, -⟩
    · exact hsame.trans hlast
    · refine absurd ?_ (hclear.2 txid)
      -- Whatever the task does next, it relies on nothing any more.
      have hdone : (node.setStage index .done).tasks[index]? = some { task with stage := .done } := by
        unfold ExecutionNode.setStage
        simp [hindex]
      apply relied_modifyTask (f := fun task => { task with stage := stage }) hdone rfl rfl
        (fun hw => absurd hw id) hnot
      have htwice : ({ node.setStage index .done with
          tasks := (node.setStage index .done).tasks.modify index fun task => { task with stage := stage } } :
            ExecutionNode W B) = node.setStage index stage := by
        unfold ExecutionNode.setStage
        simp [List.modify_modify_eq, Function.comp_def]
      rw [htwice]
      exact hrelied
  unfold ExecutionNode.cancelLock
  have hstore : ((DropletStore.unlockExchange task.request.proposerPublicKey task.blockHeight).atomic.exec
      node.store).2 = node.store.step (.unlockExchange task.request.proposerPublicKey task.blockHeight) := rfl
  cases hrun : (DropletStore.unlockExchange task.request.proposerPublicKey task.blockHeight).atomic.exec
      node.store with
  | mk r store =>
    rw [hrun] at hstore
    cases r with
    | error e => exact hunlocked .done id (by nofun) trivial store hstore
    | ok u =>
      simp only
      split_ifs with hupdated hnotice
      · exact hunlocked .record id (by nofun) trivial store hstore
      · refine hunlocked .start id (by nofun) ?_ store hstore
        obtain ⟨row, hrow, hproposer⟩ := htaskInv
        exact ⟨hnotice, row, hrow, hproposer.resolve_right fun hn => hnotice hn.1⟩
      · exact hunlocked .done id (by nofun) trivial store hstore

theorem FeeInv.startExecution (h : FeeInv R node) (hindex : node.tasks[index]? = some task)
    (hstage : task.stage = .start) : FeeInv R (node.startExecution index task) := by
  have htaskInv := h.tasks task (List.mem_of_getElem? hindex)
  unfold TaskInv at htaskInv
  simp only [hstage] at htaskInv
  obtain ⟨hkind, row₀, hrow₀, hproposer⟩ := htaskInv
  have hclosed : ¬InWindow task.stage := by
    rw [hstage]
    exact id
  unfold ExecutionNode.startExecution
  cases hrun : (VotingStore.startExecution task.requestHash task.request.tx).atomic.exec node.votes with
  | mk r votes' =>
    cases r with
    | error e =>
      obtain rfl : votes' = node.votes := by
        have hsame := Db.exec_atomic_error (congrArg Prod.fst hrun)
        rwa [hrun] at hsame
      exact h.done hindex hclosed
    | ok started =>
      rcases VotingStore.updateRequest_returns (Db.returns_atomic.mp hrun) with
        ⟨rfl, rfl, -⟩ | ⟨rfl, row, hrow, hp, hvotes⟩
      · simp only [Bool.false_or]
        split_ifs
        · exact h.setStage hindex (fun hw => absurd hw hclosed) (by nofun) ⟨hkind, row₀, hrow₀, hproposer⟩
        · exact h.done hindex hclosed
      simp only [Bool.true_or, if_true]
      obtain rfl := Option.some.inj (hrow.symm.trans hrow₀)
      simp only [Bool.and_eq_true, Option.isNone_iff_eq_none] at hp
      have hrequests := congrArg VotingStore.requests hvotes
      have hrow' : ∀ row', votes'.requests.lookup task.requestHash = some row' →
          row' = { row with executionStarted := true, executionTransaction := some task.request.tx } := by
        intro row' hlookup
        rw [hrequests, Table.lookup_insert_eq, if_pos rfl] at hlookup
        exact (Option.some.inj hlookup).symm
      have hpersists : Persists node.votes votes' := Persists.insert hrow hrequests (fun _ => id) id Or.inl
      apply h.next hindex (lookup_of_insert hrequests) hpersists
      · intro row' hlookup
        obtain rfl := hrow' row' hlookup
        refine ⟨fun _ _ => rfl, fun _ hmissing => ?_, (h.rows _ row hrow).confirmed⟩
        cases hproposer.symm.trans hmissing
      · obtain ⟨row', hlookup, hkeep, -⟩ := hpersists _ row hrow
        exact ⟨hkind, row', hlookup, hkeep _ hproposer⟩
      · intro row' hlookup member txid _ hrelies
        obtain rfl := hrow' row' hlookup
        obtain ⟨-, -, hsome | ⟨-, -, transaction, htx, -, hwindow⟩⟩ := hrelies
        · cases hp.2.symm.trans hsome
        · obtain rfl := Option.some.inj htx
          -- The lock is taken next.
          exact absurd ⟨_, mem_modify_of_getElem? hindex, rfl, rfl, rfl⟩ hwindow
      · intro updated transaction heq
        cases heq

/-- The execution whose lock was refused is taken back. -/
theorem FeeInv.undo (h : FeeInv R node) (hindex : node.tasks[index]? = some task) :
    FeeInv R ({ node with votes := node.votes.step (.cancelExecution task.requestHash) }.setStage index .done) := by
  have hcases := Db.exec_atomic_cases (VotingStore.program (.cancelExecution task.requestHash : VotingAction W B))
    node.votes
  change node.votes.step _ = node.votes ∨ ∃ u, (VotingStore.program _).Returns node.votes u (node.votes.step _)
    at hcases
  generalize hvotes' : node.votes.step (.cancelExecution task.requestHash) = votes' at hcases ⊢
  rcases hcases with rfl | ⟨_, hcancel⟩
  · refine h.next hindex (fun _ _ => rfl) (Persists.refl _) (fun row hrow => h.rows _ row hrow) (by trivial) ?_
      (by nofun)
    intro row hrow member txid hlive hrelies
    apply h.held member txid
    refine ⟨hlive, Or.inl ⟨_, row, hrow, hrelies.1, hrelies.2.1, ?_⟩⟩
    rcases hrelies.2.2 with hsome | ⟨hnone, hstarted, -⟩
    · exact Or.inl hsome
    · have hinsert := VotingStore.cancelExecution_step node.votes hrow hnone
      rw [hvotes'] at hinsert
      rw [hinsert, Table.lookup_insert_eq, if_pos rfl] at hrow
      cases (congrArg StoredVotingRequest.executionStarted (Option.some.inj hrow)).trans hstarted
  · obtain ⟨row, hrow, hnone, hvotes⟩ := VotingStore.updateExecution_returns hcancel
    have htxid := Option.isNone_iff_eq_none.mp hnone
    have hrequests := congrArg VotingStore.requests hvotes
    have hrow' : ∀ row', votes'.requests.lookup task.requestHash = some row' →
        row' = { row with executionStarted := false, executionTransaction := none } := by
      intro row' hlookup
      rw [hrequests, Table.lookup_insert_eq, if_pos rfl] at hlookup
      exact (Option.some.inj hlookup).symm
    refine h.next hindex (lookup_of_insert hrequests) (Persists.insert hrow hrequests (fun _ => id) id Or.inl) ?_
      (by trivial) ?_ (by nofun)
    · intro row' hlookup
      obtain rfl := hrow' row' hlookup
      refine ⟨fun _ htx => absurd rfl htx, ?_, (h.rows _ row hrow).confirmed⟩
      rintro (hstarted | hsome)
      · cases hstarted
      · exact absurd htxid hsome
    · intro row' hlookup member txid _ hrelies
      obtain rfl := hrow' row' hlookup
      obtain ⟨-, -, hsome | ⟨-, hstarted, -⟩⟩ := hrelies
      · cases htxid.symm.trans hsome
      · cases hstarted

/-- The execution that is recorded has its lock already. -/
theorem FeeInv.record (h : FeeInv R node) (hindex : node.tasks[index]? = some task)
    (hstage : task.stage = .record) (hclear : node.TaskClear R index task) : FeeInv R (node.record R index task) := by
  unfold TaskClear at hclear
  simp only [hstage] at hclear
  have hclosed : ¬InWindow task.stage := by
    rw [hstage]
    exact id
  unfold ExecutionNode.record
  have hcases := Db.exec_atomic_cases (VotingStore.program (.recordBroadcast task.requestHash
    task.request.proposerPublicKey task.request.tx (R.encode task.request) (R.txid task.request.tx)))
    node.votes
  change node.votes.step _ = node.votes ∨ ∃ u, (VotingStore.program _).Returns node.votes u (node.votes.step _)
    at hcases
  generalize node.votes.step (.recordBroadcast task.requestHash task.request.proposerPublicKey task.request.tx
    (R.encode task.request) (R.txid task.request.tx)) = votes' at hcases ⊢
  rcases hcases with rfl | ⟨_, hrecord⟩
  · exact h.done hindex hclosed
  obtain ⟨row, hrow, hp, hvotes⟩ := VotingStore.updateExecution_returns hrecord
  simp only [Bool.and_eq_true, decide_eq_true_eq, Bool.not_eq_true', VotingStore.getD_eq_iff] at hp
  obtain ⟨⟨⟨⟨-, hopen⟩, -⟩, hproposer⟩, htxid⟩ := hp
  have hrequests := congrArg VotingStore.requests hvotes
  have hrow' : ∀ row', votes'.requests.lookup task.requestHash = some row' →
      row'.executionTxid = some (R.txid task.request.tx) ∧ row'.executionConfirmed = false ∧
        row'.proposerPublicKey = some task.request.proposerPublicKey := by
    intro row' hlookup
    rw [hrequests, Table.lookup_insert_eq, if_pos rfl] at hlookup
    obtain rfl := Option.some.inj hlookup
    exact ⟨rfl, hopen, congrArg some (VotingStore.getD_eq_iff.mpr hproposer)⟩
  have hpersists : Persists node.votes votes' := by
    refine Persists.insert hrow hrequests (fun member hmember => ?_) (fun _ => nofun) fun _ => Or.inr nofun
    change some (row.proposerPublicKey.getD _) = some member
    rw [hmember]
    rfl
  refine h.next hindex (lookup_of_insert hrequests) hpersists ?_ (by trivial) ?_ (by nofun)
  · intro row' hlookup
    obtain ⟨htxid', hopen', hproposer'⟩ := hrow' row' hlookup
    refine ⟨fun hnone => ?_, fun _ hnone => ?_, fun hconfirmed => ?_⟩
    · cases htxid'.symm.trans hnone
    · cases hproposer'.symm.trans hnone
    · cases hopen'.symm.trans hconfirmed
  · intro row' hlookup member txid hlive hrelies
    obtain ⟨htxid', -, hproposer'⟩ := hrow' row' hlookup
    obtain rfl := Option.some.inj (hproposer'.symm.trans hrelies.1)
    have htx : txid = R.txid task.request.tx := by
      rcases hrelies.2.2 with hsome | ⟨hnone, -⟩
      · exact Option.some.inj (hsome.symm.trans htxid')
      · cases htxid'.symm.trans hnone
    subst htx
    have hstarted := (hclear.resolve_left hlive) row hrow
    -- The vote relied on this lock before.
    have hbusy : row.executionStarted = true ∨ row.executionTxid ≠ none := by
      cases hnone : row.executionTxid with
      | none => exact Or.inl (hstarted hnone).1
      | some _ => exact Or.inr nofun
    have hp := hproposer.resolve_left ((h.rows _ row hrow).proposer hbusy)
    apply h.held
    refine ⟨hlive, Or.inl ⟨_, row, hrow, hp, hopen, ?_⟩⟩
    rcases htxid with hnone | hsome
    · obtain ⟨hs, ht, hw⟩ := hstarted hnone
      exact Or.inr ⟨hnone, hs, task.request.tx, ht, rfl, hw⟩
    · exact Or.inl hsome

theorem lockExchange_exec (store : DropletStore W B) (member : W) (amount height : ℕ) (transaction : B) :
    ((DropletStore.lockExchange member amount height transaction).atomic.exec store).2 =
      store.step (.lockExchange member amount height transaction) :=
  (Db.exec_atomic_discard _ store).symm

/-- A lock that is taken releases none. -/
theorem FeeInv.lockExchange (h : FeeInv R node) (member : W) (amount height : ℕ) (transaction : B) :
    FeeInv R { node with store := node.store.step (.lockExchange member amount height transaction) } := by
  apply h.of_same_settled
  intro k txid _ hold
  obtain ⟨last, hlast, htxid⟩ := hold
  refine ⟨last, ?_, htxid⟩
  rcases (node.store.lock_columns member amount height transaction k).2 with hsame | ⟨-, -, hnone, -⟩
  · exact hsame.trans hlast
  · cases hnone.symm.trans hlast

theorem FeeInv.lockFee (h : FeeInv R node) (hindex : node.tasks[index]? = some task) {started : Bool}
    (hstage : task.stage = .lock started) : FeeInv R (node.lockFee R index task started) := by
  have htaskInv := h.tasks task (List.mem_of_getElem? hindex)
  unfold TaskInv at htaskInv
  simp only [hstage] at htaskInv
  obtain ⟨-, row₀, hrow₀, hproposer⟩ := htaskInv
  have hlocked := h.lockExchange task.request.proposerPublicKey R.transactionFeeSats task.blockHeight task.request.tx
  have hstore := lockExchange_exec node.store task.request.proposerPublicKey R.transactionFeeSats task.blockHeight
    task.request.tx
  rw [← hstore] at hlocked
  unfold ExecutionNode.lockFee
  cases hrun : (DropletStore.lockExchange task.request.proposerPublicKey R.transactionFeeSats task.blockHeight
      task.request.tx).atomic.exec node.store with
  | mk r store =>
    rw [hrun] at hlocked
    simp only at hlocked
    have hindexed : { node with store := store }.tasks[index]? = some task := hindex
    rcases r with e | ⟨_ | _⟩
    · exact hlocked.setStage hindexed (fun _ => trivial) (fun _ _ h => by cases h) trivial
    · simp only
      split_ifs with hstarted
      · exact hlocked.setStage hindexed (fun _ => trivial) (fun _ _ h => by cases h) trivial
      · refine hlocked.setStage hindexed (fun hw => ?_) (fun _ _ h => by cases h) trivial
        rw [hstage] at hw
        exact absurd hw hstarted
    · have htaken : { node with store := store }.LockedFor R task.request.proposerPublicKey
          (R.txid task.request.tx) := by
        rcases DropletStore.lockExchange_returns (Db.returns_atomic.mp hrun) with
          ⟨hfalse, -⟩ | ⟨-, row, hrow, -, -, rfl⟩
        · cases hfalse
        · refine ⟨task.request.tx, ?_, rfl⟩
          simp only [lockedFor_insert, if_true]
          rfl
      -- The vote relies on the lock from here on.
      have hnext : ∀ stage, (∀ updated transaction, stage ≠ .cancelLock updated (some transaction)) →
          TaskInv node.votes { task with stage := stage } →
            FeeInv R ({ node with store := store }.setStage index stage) := by
        intro stage hnot htask
        apply hlocked.next hindexed (fun _ _ => rfl) (Persists.refl node.votes)
          (fun row hrow => h.rows _ row hrow) htask _ fun updated transaction heq => absurd heq (hnot updated transaction)
        intro row hrow member txid hlive hrelies
        obtain rfl := Option.some.inj (hrow₀.symm.trans hrow)
        obtain rfl := Option.some.inj (hproposer.symm.trans hrelies.1)
        obtain ⟨-, hopen, hsome | ⟨hnone, hs, transaction, htx, rfl, hclosed⟩⟩ := hrelies
        · exact hlocked.held _ _ ⟨hlive, Or.inl ⟨_, row₀, hrow₀, hproposer, hopen, Or.inl hsome⟩⟩
        by_cases heq : transaction = task.request.tx
        · rw [heq]
          exact htaken
        · apply hlocked.held
          refine ⟨hlive, Or.inl ⟨_, row₀, hrow₀, hproposer, hopen, Or.inr ⟨hnone, hs, transaction, htx, rfl, ?_⟩⟩⟩
          rintro ⟨task', hmem, hhash, htx', hw⟩
          refine hclosed ⟨task', mem_modify_of_ne hmem hindex ?_, hhash, htx', hw⟩
          rintro rfl
          exact heq htx'.symm
      simp only
      split_ifs
      · exact hnext .finalize (fun _ _ h => by cases h) trivial
      · exact hnext .done (fun _ _ h => by cases h) trivial

omit [LinearOrder W] [DecidableEq B] in
/-- A statement from outside keeps the columns, confirms, or inserts a vote. -/
theorem outside_row {action : VotingAction W B} (haction : isOutside action = true) {requestHash : W}
    {before after : Option (StoredVotingRequest W B)} (h : VotingStore.RowStep requestHash action before after) :
    (∃ row row', before = some row ∧ after = some row' ∧ row'.proposerPublicKey = row.proposerPublicKey ∧
      row'.executionTransaction = row.executionTransaction ∧ row'.executionTxid = row.executionTxid ∧
        ((row'.executionStarted = row.executionStarted ∧ row'.executionConfirmed = row.executionConfirmed) ∨
          (row'.executionConfirmed = true ∧ row.executionTxid ≠ none))) ∨
    (before = none ∧ ∀ row', after = some row' → row'.executionTxid = none ∧ row'.executionStarted = false ∧
      row'.executionTransaction = none ∧ row'.executionConfirmed = false) := by
  cases h with
  | keep =>
    cases before with
    | none => exact Or.inr ⟨rfl, nofun⟩
    | some row => exact Or.inl ⟨row, row, rfl, rfl, rfl, rfl, rfl, Or.inl ⟨rfl, rfl⟩⟩
  | insert message proposer blockHeight =>
    refine Or.inr ⟨rfl, fun row' hrow' => ?_⟩
    obtain rfl := Option.some.inj hrow'
    exact ⟨rfl, rfl, rfl, rfl⟩
  | approve _ _ _ _ row hnew => exact Or.inl ⟨row, _, rfl, rfl, rfl, rfl, rfl, Or.inl ⟨rfl, rfl⟩⟩
  | «include» _ _ _ row hopen => exact Or.inl ⟨row, _, rfl, rfl, rfl, rfl, rfl, Or.inl ⟨rfl, rfl⟩⟩
  | orphan _ row hopen _ => exact Or.inl ⟨row, _, rfl, rfl, rfl, rfl, rfl, Or.inl ⟨rfl, rfl⟩⟩
  | confirm _ row txid _ htxid hopen =>
    refine Or.inl ⟨row, _, rfl, rfl, rfl, rfl, rfl, Or.inr ⟨rfl, ?_⟩⟩
    rw [htxid]
    nofun
  | _ => cases haction

theorem FeeInv.outside (h : FeeInv R node) (action : VotingAction W B) (haction : isOutside action = true) :
    FeeInv R { node with votes := node.votes.step action } := by
  have hrow := fun requestHash => outside_row haction (VotingStore.step_row node.votes action requestHash)
  have hpersists : Persists node.votes (node.votes.step action) := by
    intro requestHash row hlookup
    rcases hrow requestHash with ⟨row₀, row', hbefore, hafter, hp, -, ht, -⟩ | ⟨hnone, -⟩
    · obtain rfl := Option.some.inj (hlookup.symm.trans hbefore)
      refine ⟨row', hafter, fun member hmember => hp.trans hmember, fun hne => ?_, fun hnone => Or.inl (hp.trans hnone)⟩
      rwa [ht]
    · cases hnone.symm.trans hlookup
  refine ⟨fun requestHash row' hlookup => ?_, fun task htask => (h.tasks task htask).persists hpersists,
    fun member txid hrelied => ?_⟩
  · rcases hrow requestHash with ⟨row, row₀, hbefore, hafter, hp, htx, ht, hsame⟩ | ⟨-, hnew⟩
    · obtain rfl := Option.some.inj (hafter.symm.trans hlookup)
      have hold := h.rows requestHash row hbefore
      refine ⟨fun hnone htransaction => ?_, fun hbusy => ?_, fun hconfirmed => ?_⟩
      · rw [ht] at hnone
        rw [htx] at htransaction
        rcases hsame with ⟨hs, -⟩ | ⟨-, hne⟩
        · rw [hs]
          exact hold.started hnone htransaction
        · exact absurd hnone hne
      · rw [hp]
        apply hold.proposer
        rcases hsame with ⟨hs, -⟩ | ⟨-, hne⟩
        · rwa [hs, ht] at hbusy
        · exact Or.inr hne
      · rw [ht]
        rcases hsame with ⟨-, hc⟩ | ⟨-, hne⟩
        · exact hold.confirmed (hc.symm.trans hconfirmed)
        · exact hne
    · obtain ⟨hnone, hs, htx, hc⟩ := hnew row' hlookup
      refine ⟨fun _ htransaction => absurd htx htransaction, fun hbusy => ?_, fun hconfirmed => ?_⟩
      · rcases hbusy with hstarted | hne
        · cases hs.symm.trans hstarted
        · exact absurd hnone hne
      · cases hc.symm.trans hconfirmed
  · apply h.held member txid
    obtain ⟨hlive, hrows | htasks⟩ := hrelied
    · refine ⟨hlive, Or.inl (rowRelies_of hrows (fun requestHash row' hlookup => ?_) fun _ _ hw => Or.inl hw)⟩
      rcases hrow requestHash with ⟨row, row₀, hbefore, hafter, hp, htx, ht, hsame⟩ | ⟨-, hnew⟩
      · obtain rfl := Option.some.inj (hafter.symm.trans hlookup)
        rcases hsame with ⟨hs, hc⟩ | ⟨hconfirmed, -⟩
        · exact Or.inl ⟨row, hbefore, hp, hs, htx, ht, fun hopen => hc.symm.trans hopen⟩
        · exact Or.inr (Or.inl hconfirmed)
      · obtain ⟨hnone, hs, -, -⟩ := hnew row' hlookup
        exact Or.inr (Or.inr ⟨hnone, fun hstarted => absurd (hs.symm.trans hstarted) nofun⟩)
    · exact ⟨hlive, Or.inr htasks⟩

/-- The lock of a member is released when nothing relies on it. -/
theorem FeeInv.release (h : FeeInv R node) (member : W) (height : ℕ) (confirmed : List W)
    (hfree : ∀ txid, node.Relied R member txid → txid ∈ confirmed) :
    FeeInv R { node with
      store := node.store.step (.unlockExchange member height)
      settled := node.settled ++ confirmed } := by
  apply h.of_store
  intro k txid hrelied hlive hold
  obtain ⟨last, hlast, htxid⟩ := hold
  refine ⟨last, ?_, htxid⟩
  rcases (node.store.unlock_columns member height k).2 with hsame | ⟨rfl, -⟩
  · exact hsame.trans hlast
  · exact absurd (hfree txid hrelied) hlive

theorem FeeInv.observeExchange (h : FeeInv R node) (member : W) {tx finalTx : B} (htxid : R.txid finalTx = R.txid tx) :
    FeeInv R { node with store := node.store.step (.updateLockedTransaction member tx finalTx) } := by
  apply h.of_same_settled
  intro k txid _ hold
  obtain ⟨last, hlast, heq⟩ := hold
  unfold LockedFor
  rcases node.store.update_columns member tx finalTx k with hsame | ⟨hwas, hnow⟩
  · rw [hsame]
    exact ⟨last, hlast, heq⟩
  · obtain rfl := Option.some.inj (hwas.symm.trans hlast)
    exact ⟨finalTx, hnow, htxid.trans heq⟩

omit [DecidableEq B] in
theorem FeeInv.applyBlock (h : FeeInv R node) (height : ℕ) (ts : List (TreasuryTransaction W))
    (members : List W) (hclear : node.Clear R (.applyBlock height ts members)) {store : DropletStore W B}
    {u : PUnit} (hrun : (DropletStore.applyBlockIn height ts members).Returns node.store u store) :
    FeeInv R { node with
      store := store
      settled := node.settled ++ ts.map TreasuryTransaction.txid } := by
  apply h.of_store
  intro member txid hrelied hlive hold
  obtain ⟨last, hlast, heq⟩ := hold
  let start : SpendState W B := ⟨node.store, []⟩
  -- No transaction of the block is charged to the member.
  have hkept : lockedFor (start.confirmAll height (DropletStore.sortedMembers members) ts).store.droplets
      member = some last := by
    apply SpendState.confirmAll_of_each (I := fun state => lockedFor state.store.droplets member = some last)
      _ hlast hclear
    intro state t hlocked hcharges
    rcases SpendState.confirm_columns height (DropletStore.sortedMembers members) state t member with
      ⟨amount, hcharge, -⟩ | ⟨hsame, -⟩
    · exact absurd (hcharges member amount hcharge txid hrelied) hlive
    · exact hsame.trans hlocked
  rw [SpendState.confirmAll_of_returns hrun] at hkept
  exact ⟨last, hkept, heq⟩

theorem FeeInv.advance (h : FeeInv R node) (hindex : node.tasks[index]? = some task) (valid : Bool)
    (hclear : node.TaskClear R index task) : FeeInv R (node.advance R index task valid) := by
  unfold ExecutionNode.advance
  cases hstage : task.stage with
  | validate => exact h.validate hindex hstage valid
  | cancelVote => exact h.cancelVote hindex hstage hclear
  | cancelLock updated cancelled => exact h.cancelLock hindex hstage hclear
  | start => exact h.startExecution hindex hstage
  | lock started => exact h.lockFee hindex hstage
  | undo => exact h.undo hindex
  | record => exact h.record hindex hstage hclear
  | finalize => exact h
  | stuck => exact h
  | done => exact h

/-- Every clear step keeps the locks that are relied on. -/
theorem FeeInv.step (h : FeeInv R node) (action : ExecutionAction W B) (hclear : node.Clear R action) :
    FeeInv R (node.step R action) := by
  cases action with
  | begin kind requestHash request blockHeight => exact h.accept kind requestHash request blockHeight
  | advance index valid =>
    rw [ExecutionNode.step]
    cases hindex : node.tasks[index]? with
    | none => exact h
    | some task => exact h.advance hindex valid (hclear task hindex)
  | finalize index finalTx =>
    rw [ExecutionNode.step]
    cases hindex : node.tasks[index]? with
    | none => exact h
    | some task =>
      simp only
      split
      · next hstage => exact h.finalize hindex hstage finalTx
      · exact h
  | voting action =>
    rw [ExecutionNode.step]
    split_ifs with haction
    · exact h.outside action haction
    · exact h
  | lockExchange member amount height transaction => exact h.lockExchange member amount height transaction
  | unlockExchange member height =>
    have hreleased := h.release member height [] fun txid hrelied => absurd hrelied (hclear txid)
    rwa [List.append_nil] at hreleased
  | observeExchange member tx finalTx =>
    rw [ExecutionNode.step]
    split_ifs with htxid
    · exact h.observeExchange member htxid
    · exact h
  | applyBlock height ts members =>
    rw [ExecutionNode.step]
    split
    · next u store hrun => exact h.applyBlock height ts members hclear hrun
    · exact h
  | conflicted member height =>
    apply h.release
    -- The member's lock is for what was found conflicted.
    intro txid hrelied
    obtain ⟨last, hlast, htxid⟩ := h.held member txid hrelied
    rw [hlast, ← htxid]
    exact List.mem_singleton_self _

omit [DecidableEq B] in
theorem FeeInv.releasesOwn (h : FeeInv R node) (action : ExecutionAction W B) (hclear : node.Clear R action) :
    node.ReleasesOwn R action := by
  cases action with
  | advance index valid =>
    intro task updated cancelled hindex hstage last hlast
    have htask := hclear task hindex
    unfold TaskClear at htask
    simp only [hstage] at htask
    obtain ⟨⟨transaction, rfl, hlive⟩, -⟩ := htask
    refine ⟨transaction, rfl, ?_⟩
    obtain ⟨last', hlast', htxid⟩ := h.held task.request.proposerPublicKey (R.txid transaction)
      ⟨hlive, Or.inr ⟨task, List.mem_of_getElem? hindex, rfl, updated, transaction, hstage, rfl⟩⟩
    obtain rfl := Option.some.inj (hlast.symm.trans hlast')
    exact htxid
  | _ => trivial

omit [DecidableEq B] in
theorem new_feeInv (R : ExecutionRules W B) : FeeInv R (new : ExecutionNode W B) where
  rows _ _ hrow := nomatch hrow
  tasks _ htask := nomatch htask
  held member txid hrelied := by
    obtain ⟨-, ⟨k, row, hrow, -⟩ | ⟨task, htask, -⟩⟩ := hrelied
    · cases hrow
    · cases htask

theorem FeeInv.run (h : FeeInv R node) {actions : List (ExecutionAction W B)}
    (hclear : EachStep R (Clear R) node actions) :
    FeeInv R (node.run R actions) ∧ EachStep R (ReleasesOwn R) node actions := by
  unfold ExecutionNode.run
  induction actions generalizing node with
  | nil => exact ⟨h, trivial⟩
  | cons action actions ih =>
    obtain ⟨hrun, hsteps⟩ := ih (h.step action hclear.1) hclear.2
    exact ⟨hrun, h.releasesOwn action hclear.1, hsteps⟩

end Invariant

/-- Along a clear run a cancel releases the lock of the execution it cancels only, and an execution that
is recorded as broadcast keeps its proposer locked until it confirms or can no longer confirm. -/
theorem fee_locks_in_step (R : ExecutionRules W B) (actions : List (ExecutionAction W B))
    (hclear : EachStep R (Clear R) new actions) :
    EachStep R (ReleasesOwn R) new actions ∧ ∀ requestHash row txid,
      (new.run R actions).votes.requests.lookup requestHash = some row → row.executionTxid = some txid →
        row.executionConfirmed = false → txid ∉ (new.run R actions).settled →
          ∃ member, row.proposerPublicKey = some member ∧ (new.run R actions).LockedFor R member txid := by
  obtain ⟨hinv, hreleases⟩ := (new_feeInv R).run hclear
  refine ⟨hreleases, fun requestHash row txid hrow htxid hopen hlive => ?_⟩
  have hbusy : row.executionTxid ≠ none := by
    rw [htxid]
    nofun
  obtain ⟨member, hmember⟩ := Option.ne_none_iff_exists'.mp ((hinv.rows requestHash row hrow).proposer (Or.inr hbusy))
  refine ⟨member, hmember, ?_⟩
  exact hinv.held member txid ⟨hlive, Or.inl ⟨requestHash, row, hrow, hmember, hopen, Or.inl htxid⟩⟩

section Example

/-- A transaction is its identifier times ten; its last digit says whether it is signed. -/
def decimalRules : ExecutionRules ℕ ℕ where
  transactionFeeSats := 300
  txid tx := tx / 10
  encode request := request.tx

/-- Member 1 has a deposit and a vote that is approved. -/
def approvedVote : List (ExecutionAction ℕ ℕ) :=
  [.applyBlock 1 [⟨100, [], [(0, 1000)], some 1, none⟩] [1, 2], .voting (.insertRequest 7 70 (some 1) 1),
    .voting (.insertApproval 7 1 71 1 1)]

/-- The node executes the vote itself. -/
def ownExecution : List (ExecutionAction ℕ ℕ) :=
  approvedVote ++ [.begin .attempt 7 ⟨200, none, 1⟩ 1, .advance 0 true, .advance 0 true, .advance 0 true,
    .finalize 0 (some 201), .advance 0 true]

/-- The node hears of the broadcast only. -/
def noticedExecution : List (ExecutionAction ℕ ℕ) :=
  approvedVote ++ [.begin .notice 7 ⟨200, some 201, 1⟩ 1, .advance 0 true, .advance 0 true]

theorem ownExecution_clear : EachStep decimalRules (Clear decimalRules) new ownExecution := by
  refine ⟨⟨fun member amount hcharge => ?_, trivial⟩, trivial, trivial, trivial, fun task htask => ?_, fun task htask => ?_,
    fun task htask => ?_, trivial, fun task htask => ?_, trivial⟩
  · cases hcharge
  · cases htask
    trivial
  · cases htask
    trivial
  · cases htask
    trivial
  · cases htask
    right
    intro row hrow _
    cases hrow
    refine ⟨rfl, rfl, ?_⟩
    rintro ⟨task, hmem, -, -, hwindow⟩
    obtain rfl := List.mem_singleton.mp hmem
    exact hwindow

theorem fee_locks_in_step_own_execution :
    EachStep decimalRules (ReleasesOwn decimalRules) new ownExecution ∧ ∀ requestHash row txid,
      (new.run decimalRules ownExecution).votes.requests.lookup requestHash = some row →
        row.executionTxid = some txid → row.executionConfirmed = false →
          txid ∉ (new.run decimalRules ownExecution).settled → ∃ member, row.proposerPublicKey = some member ∧
            (new.run decimalRules ownExecution).LockedFor decimalRules member txid :=
  fee_locks_in_step decimalRules ownExecution ownExecution_clear

theorem noticed_execution_not_locked : ¬∀ actions : List (ExecutionAction ℕ ℕ),
    EachStep decimalRules (ReleasesOwn decimalRules) new actions ∧ ∀ requestHash row txid,
      (new.run decimalRules actions).votes.requests.lookup requestHash = some row →
        row.executionTxid = some txid → row.executionConfirmed = false →
          txid ∉ (new.run decimalRules actions).settled → ∃ member, row.proposerPublicKey = some member ∧
            (new.run decimalRules actions).LockedFor decimalRules member txid := by
  intro hclaim
  obtain ⟨member, hmember, last, hlast, -⟩ := (hclaim noticedExecution).2 7 _ 20 rfl rfl rfl (by decide +kernel)
  cases hmember
  cases hlast

end Example
end ExecutionNode

end PriceOracle
