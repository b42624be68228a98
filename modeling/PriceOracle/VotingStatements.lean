import PriceOracle.VotingStore

/-!
# What the voting statements do

An inversion lemma for each statement: what it found when it succeeded, and the tables it left.
-/

namespace PriceOracle

namespace VotingStore

variable {W B : Type} [DecidableEq W]

open Db

section Statements

variable {s t : VotingStore W B} {messageHash : W} {done : Bool} {u : PUnit}
  {p : StoredVotingRequest W B → Bool} {f : StoredVotingRequest W B → StoredVotingRequest W B}

omit [DecidableEq W] in
theorem heightToI64_bind {A : Type} {height : ℕ} {a : A} {prog : ℕ → Db (VotingStore W B) VotingStoreError A}
    (h : (heightToI64 height >>= prog).Returns s a t) : (prog height).Returns s a t := by
  obtain ⟨height', s', hheight, hrest⟩ := returns_bind.mp h
  unfold heightToI64 at hheight
  rcases returns_ite.mp hheight with ⟨-, hpure⟩ | ⟨-, hthrow⟩
  · obtain ⟨hvalue, hstate⟩ := returns_pure.mp hpure
    rwa [hvalue, hstate] at hrest
  · exact absurd hthrow returns_throw

theorem updateRequest_returns (h : (updateRequest messageHash p f).Returns s done t) :
    (done = false ∧ t = s ∧ ∀ row, s.requests.lookup messageHash = some row → p row = false) ∨
      (done = true ∧ ∃ row, s.requests.lookup messageHash = some row ∧ p row = true ∧
        t = { s with requests := s.requests.insert messageHash (f row) }) := by
  unfold updateRequest at h
  have hget := returns_get_bind.mp h
  cases hrow : s.requests.lookup messageHash with
  | none =>
    simp only [hrow] at hget
    obtain ⟨rfl, rfl⟩ := returns_pure.mp hget
    exact Or.inl ⟨rfl, rfl, nofun⟩
  | some row =>
    simp only [hrow] at hget
    rcases returns_ite.mp hget with ⟨hp, hset⟩ | ⟨hp, hpure⟩
    · obtain ⟨_, _, hset, hpure⟩ := returns_bind.mp hset
      obtain ⟨rfl, rfl⟩ := returns_pure.mp hpure
      exact Or.inr ⟨rfl, row, rfl, hp, returns_set.mp hset⟩
    · obtain ⟨rfl, rfl⟩ := returns_pure.mp hpure
      refine Or.inl ⟨rfl, rfl, fun row' hrow' => ?_⟩
      obtain rfl := Option.some.inj hrow'
      simpa using hp

theorem updateExecution_returns (h : (updateExecution messageHash p f).Returns s u t) :
    ∃ row, s.requests.lookup messageHash = some row ∧ p row = true ∧
      t = { s with requests := s.requests.insert messageHash (f row) } := by
  unfold updateExecution at h
  obtain ⟨updated, s', hupdate, hrest⟩ := returns_bind.mp h
  rcases updateRequest_returns hupdate with ⟨rfl, -, -⟩ | ⟨rfl, hrow⟩
  · exact absurd hrest returns_throw
  · obtain ⟨-, rfl⟩ := returns_pure.mp hrest
    exact hrow

theorem insertSynchronizedRequest_returns {message : B} {proposer : Option W} {blockHeight : ℕ}
    (h : (insertSynchronizedRequest messageHash message proposer blockHeight).Returns s done t) :
    (done = false ∧ messageHash ∈ s.requests ∧ t = s) ∨ (done = true ∧ messageHash ∉ s.requests ∧
      t = { s with requests := s.requests.insert messageHash (newRequest message proposer blockHeight) }) := by
  unfold insertSynchronizedRequest at h
  have hget := returns_get_bind.mp (heightToI64_bind h)
  rcases returns_ite.mp hget with ⟨hmem, hpure⟩ | ⟨hmem, hset⟩
  · obtain ⟨rfl, rfl⟩ := returns_pure.mp hpure
    exact Or.inl ⟨rfl, hmem, rfl⟩
  · obtain ⟨_, _, hset, hpure⟩ := returns_bind.mp hset
    obtain ⟨rfl, rfl⟩ := returns_pure.mp hpure
    exact Or.inr ⟨rfl, hmem, returns_set.mp hset⟩

/-- An approval is new or changes nothing; the one that completes the quorum approves the request. -/
theorem insertApproval_returns {publicKey : W} {message : B} {blockHeight requiredApprovals : ℕ}
    (h : (insertApproval messageHash publicKey message blockHeight requiredApprovals).Returns s done t) :
    (done = false ∧ (messageHash, publicKey) ∈ s.approvals ∧ t = s) ∨
    (done = true ∧ (messageHash, publicKey) ∉ s.approvals ∧ messageHash ∈ s.requests ∧
      t.approvals = s.approvals.insert (messageHash, publicKey) ⟨message, blockHeight⟩ ∧
        (t.requests = s.requests ∨ (requiredApprovals ≤ approvalCount t.approvals messageHash ∧
          ∃ row, s.requests.lookup messageHash = some row ∧ row.approvedAtBlockHeight = none ∧
            t.requests = s.requests.insert messageHash { row with approvedAtBlockHeight := some blockHeight }))) := by
  unfold insertApproval at h
  have hget := returns_get_bind.mp (heightToI64_bind h)
  rcases returns_ite.mp hget with ⟨-, hthrow⟩ | ⟨hmem, hrest⟩
  · exact absurd hthrow returns_throw
  rcases returns_ite.mp hrest with ⟨hknown, hpure⟩ | ⟨hnew, hrest⟩
  · obtain ⟨rfl, rfl⟩ := returns_pure.mp hpure
    exact Or.inl ⟨rfl, hknown, rfl⟩
  obtain ⟨_, s', hset, hrest⟩ := returns_bind.mp hrest
  obtain rfl := returns_set.mp hset
  refine Or.inr ?_
  rcases returns_ite.mp hrest with ⟨hquorum, hupdate⟩ | ⟨-, hpure⟩
  · obtain ⟨_, _, hupdate, hpure⟩ := returns_bind.mp hupdate
    obtain ⟨rfl, rfl⟩ := returns_pure.mp hpure
    rcases updateRequest_returns hupdate with ⟨-, rfl, -⟩ | ⟨-, row, hrow, hp, rfl⟩
    · exact ⟨rfl, hnew, not_not.mp hmem, rfl, Or.inl rfl⟩
    · exact ⟨rfl, hnew, not_not.mp hmem, rfl, Or.inr ⟨hquorum, row, hrow, Option.isNone_iff_eq_none.mp hp, rfl⟩⟩
  · obtain ⟨rfl, rfl⟩ := returns_pure.mp hpure
    exact ⟨rfl, hnew, not_not.mp hmem, rfl, Or.inl rfl⟩

theorem deleteExpired_returns {current timeout deleted : ℕ}
    (h : (deleteExpired current timeout).Returns s deleted t) :
    t.requests = Table.filterRows (fun _ row => !isExpired current timeout row) s.requests ∧
      t.approvals = Table.filterRows (fun key _ => decide (key.1 ∈ t.requests)) s.approvals := by
  unfold deleteExpired at h
  have hget := returns_get_bind.mp (heightToI64_bind (heightToI64_bind h))
  obtain ⟨_, _, hset, hpure⟩ := returns_bind.mp hget
  obtain ⟨-, rfl⟩ := returns_pure.mp hpure
  obtain rfl := returns_set.mp hset
  exact ⟨rfl, rfl⟩

theorem applyMemberMigration_returns {txid : W} (h : (applyMemberMigration messageHash txid).Returns s u t) :
    ∃ row, s.requests.lookup messageHash = some row ∧ row.executionTxid = some txid ∧
      row.executionConfirmed = false ∧
        t.requests = Table.filterRows (fun _ row => row.executionConfirmed) (s.requests.insert messageHash
          { row with executionStarted := false, executionConfirmed := true }) ∧
          t.approvals = Table.filterRows (fun key _ => decide (key.1 ∈ t.requests)) s.approvals := by
  unfold applyMemberMigration at h
  obtain ⟨_, s', hupdate, hmodify⟩ := returns_bind.mp h
  obtain ⟨row, hrow, hp, rfl⟩ := updateExecution_returns hupdate
  obtain rfl := returns_modify.mp hmodify
  simp only [Bool.and_eq_true, decide_eq_true_eq, Bool.not_eq_true'] at hp
  exact ⟨row, hrow, hp.1.1, hp.2, rfl, rfl⟩

end Statements

/-- A request that is not broadcast is cancelled. -/
theorem cancelExecution_step [DecidableEq B] (votes : VotingStore W B) {messageHash : W}
    {row : StoredVotingRequest W B} (hrow : votes.requests.lookup messageHash = some row)
    (htxid : row.executionTxid = none) : (votes.step (.cancelExecution messageHash)).requests =
      votes.requests.insert messageHash { row with executionStarted := false, executionTransaction := none } := by
  have hreturns : (cancelExecution messageHash).Returns votes ⟨⟩ ⟨votes.requests.insert messageHash
      { row with executionStarted := false, executionTransaction := none }, votes.approvals⟩ := by
    unfold cancelExecution updateExecution updateRequest
    simp [hrow, htxid]
  have hatomic := returns_atomic.mpr hreturns
  unfold step program
  rw [hatomic]

end VotingStore

end PriceOracle
