import Mathlib.Data.List.Induction
import PriceOracle.VotingStatements

/-!
# The life of a voting request

What one statement does to one request (`RowStep`), and from it the laws of executions
over every run: approval comes first, the recorded transaction stays, a confirmed request
is final, and expiry leaves executions in flight alone.
-/

namespace PriceOracle

namespace VotingStore

variable {W B : Type} [DecidableEq W] [DecidableEq B]

open Db

/-- The ways in which a statement can change the request with the given hash. -/
inductive RowStep (messageHash : W) : VotingAction W B → Option (StoredVotingRequest W B) →
    Option (StoredVotingRequest W B) → Prop
  | keep (action : VotingAction W B) (row : Option (StoredVotingRequest W B)) :
    RowStep messageHash action row row
  | insert (message : B) (proposer : Option W) (blockHeight : ℕ) :
    RowStep messageHash (.insertRequest messageHash message proposer blockHeight) none
      (some (newRequest message proposer blockHeight))
  | approve (publicKey : W) (message : B) (blockHeight requiredApprovals : ℕ) (row : StoredVotingRequest W B)
    (hnew : row.approvedAtBlockHeight = none) :
    RowStep messageHash (.insertApproval messageHash publicKey message blockHeight requiredApprovals) (some row)
      (some { row with approvedAtBlockHeight := some blockHeight })
  | start (transaction : B) (row : StoredVotingRequest W B) (happroved : row.approvedAtBlockHeight ≠ none)
    (htxid : row.executionTxid = none) : RowStep messageHash (.startExecution messageHash transaction) (some row)
      (some { row with executionStarted := true, executionTransaction := some transaction })
  | cancel (row : StoredVotingRequest W B) (htxid : row.executionTxid = none) :
    RowStep messageHash (.cancelExecution messageHash) (some row)
      (some { row with executionStarted := false, executionTransaction := none })
  | record (proposer : W) (transaction executionRequest : B) (txid : W) (row row' : StoredVotingRequest W B)
    (happroved : row.approvedAtBlockHeight ≠ none) (hopen : row.executionConfirmed = false)
    (htxid : row.executionTxid = none ∨ row.executionTxid = some txid)
    (hrow' : row'.approvedAtBlockHeight = row.approvedAtBlockHeight ∧ row'.executionTxid = some txid ∧
      row'.executionConfirmed = false) :
    RowStep messageHash (.recordBroadcast messageHash proposer transaction executionRequest txid) (some row)
      (some row')
  | include (txid : W) (blockHeight : ℕ) (blockHash : W) (row : StoredVotingRequest W B)
    (hopen : row.executionConfirmed = false) :
    RowStep messageHash (.markExecutionIncluded messageHash txid blockHeight blockHash) (some row)
      (some { row with
        executionIncludedAtBlock := some blockHeight
        executionIncludedBlockHash := some blockHash })
  | orphan (action : VotingAction W B) (row : StoredVotingRequest W B) (hopen : row.executionConfirmed = false)
    (haction : action = .resetExecutions ∨ ∃ txid, action = .markExecutionOrphaned messageHash txid) :
    RowStep messageHash action (some row) (some (orphanedRow row))
  | confirm (action : VotingAction W B) (row : StoredVotingRequest W B) (txid : W)
    (haction : action = .confirmExecution messageHash txid ∨ action = .applyMemberMigration messageHash txid)
    (htxid : row.executionTxid = some txid) (hopen : row.executionConfirmed = false) :
    RowStep messageHash action (some row)
      (some { row with executionStarted := false, executionConfirmed := true })
  | expire (current timeout : ℕ) (row : StoredVotingRequest W B)
    (hexpired : isExpired current timeout row = true) :
    RowStep messageHash (.deleteExpired current timeout) (some row) none
  | migrate (requestHash txid : W) (row : StoredVotingRequest W B) (hopen : row.executionConfirmed = false) :
    RowStep messageHash (.applyMemberMigration requestHash txid) (some row) none

section Step

variable {store store' : VotingStore W B} {action : VotingAction W B} {messageHash requestHash : W}

omit [DecidableEq B] in
/-- An update of one request leaves the others alone. -/
theorem RowStep.of_insert {row row' : StoredVotingRequest W B}
    (hrow : store.requests.lookup requestHash = some row) (hrequests : store'.requests =
      store.requests.insert requestHash row') (h : RowStep requestHash action (some row) (some row')) :
    RowStep messageHash action (store.requests.lookup messageHash) (store'.requests.lookup messageHash) := by
  rw [hrequests, Table.lookup_insert_eq]
  split_ifs with heq
  · rw [heq, hrow]
    exact h
  · exact RowStep.keep action _

omit [DecidableEq B] in
theorem updateRequest_row {done : Bool} {p : StoredVotingRequest W B → Bool}
    {f : StoredVotingRequest W B → StoredVotingRequest W B}
    (h : (updateRequest requestHash p f).Returns store done store')
    (hstep : ∀ row, p row = true → RowStep requestHash action (some row) (some (f row))) :
    RowStep messageHash action (store.requests.lookup messageHash) (store'.requests.lookup messageHash) := by
  rcases updateRequest_returns h with ⟨-, rfl, -⟩ | ⟨-, row, hrow, hp, rfl⟩
  · exact RowStep.keep action _
  · exact RowStep.of_insert hrow rfl (hstep row hp)

omit [DecidableEq B] in
theorem updateExecution_row {u : PUnit} {p : StoredVotingRequest W B → Bool}
    {f : StoredVotingRequest W B → StoredVotingRequest W B}
    (h : (updateExecution requestHash p f).Returns store u store')
    (hstep : ∀ row, p row = true → RowStep requestHash action (some row) (some (f row))) :
    RowStep messageHash action (store.requests.lookup messageHash) (store'.requests.lookup messageHash) := by
  obtain ⟨row, hrow, hp, rfl⟩ := updateExecution_returns h
  exact RowStep.of_insert hrow rfl (hstep row hp)

theorem getD_eq_iff {α : Type} {o : Option α} {a : α} : o.getD a = a ↔ o = none ∨ o = some a := by
  cases o <;> simp

theorem program_row {u : PUnit} (h : (program action).Returns store u store') :
    RowStep messageHash action (store.requests.lookup messageHash) (store'.requests.lookup messageHash) := by
  cases action with
  | insertRequest hash message proposer blockHeight =>
    obtain ⟨_, _, hinsert, hpure⟩ := returns_bind.mp h
    obtain ⟨-, rfl⟩ := returns_pure.mp hpure
    rcases insertSynchronizedRequest_returns hinsert with ⟨-, -, rfl⟩ | ⟨-, hnew, rfl⟩
    · exact RowStep.keep _ _
    · rw [Table.lookup_insert_eq]
      split_ifs with heq
      · rw [heq, AList.lookup_eq_none.mpr hnew]
        exact RowStep.insert message proposer blockHeight
      · exact RowStep.keep _ _
  | insertApproval hash publicKey message blockHeight requiredApprovals =>
    obtain ⟨_, _, hinsert, hpure⟩ := returns_bind.mp h
    obtain ⟨-, rfl⟩ := returns_pure.mp hpure
    rcases insertApproval_returns hinsert with ⟨-, -, rfl⟩ | ⟨-, -, -, -, hsame | ⟨-, row, hrow, hnone, hnew⟩⟩
    · exact RowStep.keep _ _
    · rw [hsame]
      exact RowStep.keep _ _
    · exact RowStep.of_insert hrow hnew (RowStep.approve publicKey message blockHeight requiredApprovals row hnone)
  | startExecution hash transaction =>
    obtain ⟨_, _, hstart, hpure⟩ := returns_bind.mp h
    obtain ⟨-, rfl⟩ := returns_pure.mp hpure
    apply updateRequest_row hstart
    intro row hp
    simp only [Bool.and_eq_true, Option.isSome_iff_ne_none, Option.isNone_iff_eq_none] at hp
    exact RowStep.start transaction row hp.1.1 hp.2
  | cancelExecution hash =>
    apply updateExecution_row h
    intro row hp
    exact RowStep.cancel row (Option.isNone_iff_eq_none.mp hp)
  | recordBroadcast hash proposer transaction executionRequest txid =>
    apply updateExecution_row h
    intro row hp
    simp only [Bool.and_eq_true, Option.isSome_iff_ne_none, decide_eq_true_eq, Bool.not_eq_true',
      getD_eq_iff] at hp
    exact RowStep.record proposer transaction executionRequest txid row _ hp.1.1.1.1 hp.1.1.1.2 hp.2
      ⟨rfl, rfl, hp.1.1.1.2⟩
  | confirmExecution hash txid =>
    apply updateExecution_row h
    intro row hp
    simp only [Bool.and_eq_true, decide_eq_true_eq, Bool.not_eq_true'] at hp
    exact RowStep.confirm _ row txid (Or.inl rfl) hp.1.1.2 hp.2
  | markExecutionIncluded hash txid blockHeight blockHash =>
    apply updateExecution_row (heightToI64_bind h)
    intro row hp
    simp only [Bool.and_eq_true, Bool.not_eq_true'] at hp
    exact RowStep.include txid blockHeight blockHash row hp.2
  | markExecutionOrphaned hash txid =>
    obtain ⟨_, _, hupdate, hpure⟩ := returns_bind.mp h
    obtain ⟨-, rfl⟩ := returns_pure.mp hpure
    apply updateRequest_row hupdate
    intro row hp
    simp only [Bool.and_eq_true, Bool.not_eq_true'] at hp
    exact RowStep.orphan _ row hp.2 (Or.inr ⟨txid, rfl⟩)
  | resetExecutions =>
    obtain rfl := returns_modify.mp h
    rw [Table.lookup_mapRows]
    cases store.requests.lookup messageHash with
    | none => exact RowStep.keep _ _
    | some row =>
      rw [Option.map_some]
      split_ifs with hconfirmed
      · exact RowStep.keep _ _
      · exact RowStep.orphan _ row (Bool.eq_false_iff.mpr hconfirmed) (Or.inl rfl)
  | deleteExpired current timeout =>
    obtain ⟨_, _, hdelete, hpure⟩ := returns_bind.mp h
    obtain ⟨-, rfl⟩ := returns_pure.mp hpure
    rw [(deleteExpired_returns hdelete).1, Table.lookup_filterRows]
    cases store.requests.lookup messageHash with
    | none => exact RowStep.keep _ _
    | some row =>
      rw [Option.filter_some]
      split_ifs with hkept
      · exact RowStep.keep _ _
      · exact RowStep.expire current timeout row (by simpa using hkept)
  | applyMemberMigration hash txid =>
    obtain ⟨row, hrow, htxid, hopen, hrequests, -⟩ := applyMemberMigration_returns h
    rw [hrequests, Table.lookup_filterRows, Table.lookup_insert_eq]
    split_ifs with heq
    · rw [heq, hrow, Option.filter_some, if_pos rfl]
      exact RowStep.confirm _ row txid (Or.inr rfl) htxid hopen
    · cases store.requests.lookup messageHash with
      | none => exact RowStep.keep _ _
      | some other =>
        rw [Option.filter_some]
        split_ifs with hconfirmed
        · exact RowStep.keep _ _
        · exact RowStep.migrate hash txid other (Bool.eq_false_iff.mpr hconfirmed)

/-- A step moves a request in one of these ways. -/
theorem step_row (store : VotingStore W B) (action : VotingAction W B) (messageHash : W) :
    RowStep messageHash action (store.requests.lookup messageHash)
      ((store.step action).requests.lookup messageHash) := by
  rcases exec_atomic_cases (program action) store with hsame | ⟨u, hreturns⟩
  · unfold VotingStore.step
    rw [hsame]
    exact RowStep.keep _ _
  · exact program_row hreturns

end Step

section Laws

/-- Part of an execution has happened. -/
def Executed (row : StoredVotingRequest W B) : Prop :=
  row.executionStarted = true ∨ row.executionTxid ≠ none ∨ row.executionConfirmed = true

/-- The statement may create the request. -/
def Inserts (messageHash : W) : VotingAction W B → Prop
  | .insertRequest hash _ _ _ => hash = messageHash
  | _ => False

/-- What holds of the tables at any time, and of whatever statement comes next. -/
structure ExecutionLaws (store : VotingStore W B) : Prop where
  approved : ∀ messageHash row, store.requests.lookup messageHash = some row → Executed row →
    row.approvedAtBlockHeight ≠ none
  sameTxid : ∀ messageHash row, store.requests.lookup messageHash = some row →
    ∀ txid, row.executionTxid = some txid → ∀ action row',
      (store.step action).requests.lookup messageHash = some row' → row'.executionTxid = some txid
  confirms : ∀ messageHash row, store.requests.lookup messageHash = some row → row.executionConfirmed = false →
    ∀ action row', (store.step action).requests.lookup messageHash = some row' → row'.executionConfirmed = true →
      ∃ txid, row.executionTxid = some txid ∧
        (action = .confirmExecution messageHash txid ∨ action = .applyMemberMigration messageHash txid)
  final : ∀ messageHash row, store.requests.lookup messageHash = some row → row.executionConfirmed = true →
    ∀ more : List (VotingAction W B), (∀ action ∈ more, ¬Inserts messageHash action) →
      (store.run more).requests.lookup messageHash = some row ∨ (store.run more).requests.lookup messageHash = none
  inFlight : ∀ messageHash row, store.requests.lookup messageHash = some row → inFlight row = true →
    ∀ current timeout, (store.step (.deleteExpired current timeout)).requests.lookup messageHash = some row

/-- What every statement keeps of a request. -/
structure Sound (row : StoredVotingRequest W B) : Prop where
  approved : Executed row → row.approvedAtBlockHeight ≠ none
  txid : row.executionConfirmed = true → row.executionTxid ≠ none

variable {action : VotingAction W B} {messageHash : W} {row row' : StoredVotingRequest W B}

omit [DecidableEq W] [DecidableEq B] in
theorem sound_newRequest (message : B) (proposer : Option W) (blockHeight : ℕ) :
    Sound (newRequest message proposer blockHeight) := by
  refine ⟨?_, nofun⟩
  rintro (hstarted | htxid | hconfirmed)
  · cases hstarted
  · exact absurd rfl htxid
  · cases hconfirmed

omit [DecidableEq W] [DecidableEq B] in
theorem RowStep.sound (h : RowStep messageHash action (some row) (some row')) (hrow : Sound row) : Sound row' := by
  cases h with
  | keep => exact hrow
  | approve _ _ blockHeight _ _ hnew => exact ⟨fun _ => nofun, hrow.txid⟩
  | start transaction _ happroved htxid => exact ⟨fun _ => happroved, hrow.txid⟩
  | cancel _ htxid =>
    refine ⟨?_, hrow.txid⟩
    rintro (hstarted | htx | hconfirmed)
    · cases hstarted
    · exact absurd htxid htx
    · exact hrow.approved (Or.inr (Or.inr hconfirmed))
  | record _ _ _ txid _ _ happroved hopen htxid hrow' =>
    obtain ⟨happroved', htxid', -⟩ := hrow'
    refine ⟨fun _ => ?_, fun _ => ?_⟩
    · rwa [happroved']
    · rw [htxid']
      nofun
  | «include» _ _ _ _ hopen => exact ⟨hrow.approved, hrow.txid⟩
  | orphan _ _ hopen haction => exact ⟨hrow.approved, hrow.txid⟩
  | confirm _ _ txid haction htxid hopen =>
    have hsome : row.executionTxid ≠ none := by
      rw [htxid]
      nofun
    exact ⟨fun _ => hrow.approved (Or.inr (Or.inl hsome)), fun _ => hsome⟩

omit [DecidableEq W] [DecidableEq B] in
theorem RowStep.sameTxid (h : RowStep messageHash action (some row) (some row')) {txid : W}
    (htxid : row.executionTxid = some txid) : row'.executionTxid = some txid := by
  cases h with
  | record _ _ _ txid' _ _ happroved hopen hsame hrow' =>
    rw [hrow'.2.1, ← htxid]
    rcases hsame with hnone | hsome
    · rw [hnone] at htxid
      cases htxid
    · exact hsome.symm
  | _ => exact htxid

omit [DecidableEq W] [DecidableEq B] in
theorem RowStep.confirms (h : RowStep messageHash action (some row) (some row'))
    (hopen : row.executionConfirmed = false) (hconfirmed : row'.executionConfirmed = true) :
    ∃ txid, row.executionTxid = some txid ∧
      (action = .confirmExecution messageHash txid ∨ action = .applyMemberMigration messageHash txid) := by
  cases h with
  | confirm _ _ txid haction htxid _ => exact ⟨txid, htxid, haction⟩
  | record _ _ _ _ _ _ _ _ _ hrow' =>
    rw [hrow'.2.2] at hconfirmed
    cases hconfirmed
  | _ => cases hopen.symm.trans hconfirmed

omit [DecidableEq W] [DecidableEq B] in
/-- A confirmed request stays as it is until it is deleted. -/
theorem RowStep.final (hrow : Sound row) (hconfirmed : row.executionConfirmed = true)
    {after : Option (StoredVotingRequest W B)} (h : RowStep messageHash action (some row) after) :
    after = some row ∨ after = none := by
  have hsome := hrow.txid hconfirmed
  have hclosed : row.executionConfirmed ≠ false := by
    rw [hconfirmed]
    nofun
  cases h with
  | keep => exact Or.inl rfl
  | approve _ _ blockHeight _ _ hnew => exact absurd hnew (hrow.approved (Or.inr (Or.inr hconfirmed)))
  | start transaction _ happroved htxid => exact absurd htxid hsome
  | cancel _ htxid => exact absurd htxid hsome
  | record _ _ _ txid _ _ _ hopen => exact absurd hopen hclosed
  | «include» _ _ _ _ hopen => exact absurd hopen hclosed
  | orphan _ _ hopen haction => exact absurd hopen hclosed
  | confirm _ _ txid haction htxid hopen => exact absurd hopen hclosed
  | expire current timeout _ hexpired => exact Or.inr rfl
  | migrate requestHash txid _ hopen => exact Or.inr rfl

omit [DecidableEq W] [DecidableEq B] in
/-- Nothing but an insertion brings a request back. -/
theorem RowStep.absent (hinsert : ¬Inserts messageHash action) {after : Option (StoredVotingRequest W B)}
    (h : RowStep messageHash action none after) : after = none := by
  cases h with
  | keep => rfl
  | insert message proposer blockHeight => exact absurd rfl hinsert

omit [DecidableEq W] [DecidableEq B] in
theorem not_isExpired (h : inFlight row = true) (current timeout : ℕ) : isExpired current timeout row = false := by
  unfold inFlight at h
  unfold isExpired
  cases hstarted : row.executionStarted <;> cases htxid : row.executionTxid <;>
    cases hconfirmed : row.executionConfirmed <;> simp_all

theorem sound_run (past : List (VotingAction W B)) :
    ∀ messageHash row, (empty.run past : VotingStore W B).requests.lookup messageHash = some row → Sound row := by
  unfold run
  induction past using List.reverseRecOn with
  | nil => exact fun _ _ h => nomatch h
  | append_singleton past action ih =>
    intro messageHash row' hrow'
    rw [List.foldl_concat] at hrow'
    have hstep := step_row (past.foldl step empty) action messageHash
    rw [hrow'] at hstep
    cases hrow : (past.foldl step empty).requests.lookup messageHash with
    | some row =>
      rw [hrow] at hstep
      exact hstep.sound (ih messageHash row hrow)
    | none =>
      rw [hrow] at hstep
      cases hstep with
      | insert message proposer blockHeight => exact sound_newRequest message proposer blockHeight

theorem run_final (hrow : Sound row) (hconfirmed : row.executionConfirmed = true) (store : VotingStore W B)
    (more : List (VotingAction W B)) (hmore : ∀ action ∈ more, ¬Inserts messageHash action)
    (h : store.requests.lookup messageHash = some row ∨ store.requests.lookup messageHash = none) :
    (store.run more).requests.lookup messageHash = some row ∨ (store.run more).requests.lookup messageHash = none := by
  unfold run
  induction more generalizing store with
  | nil => exact h
  | cons action more ih =>
    apply ih (store.step action) fun action' hmem => hmore action' (List.mem_cons_of_mem action hmem)
    have hstep := step_row store action messageHash
    rcases h with hsome | hnone
    · rw [hsome] at hstep
      exact hstep.final hrow hconfirmed
    · rw [hnone] at hstep
      exact Or.inr (hstep.absent (hmore action List.mem_cons_self))

/-- The laws hold after every run of statements, in whatever order they come. -/
theorem executions_follow_laws (past : List (VotingAction W B)) : ExecutionLaws (empty.run past : VotingStore W B) where
  approved messageHash row hrow := (sound_run past messageHash row hrow).approved
  sameTxid messageHash row hrow txid htxid action row' hrow' := by
    have hstep := step_row (empty.run past) action messageHash
    rw [hrow, hrow'] at hstep
    exact hstep.sameTxid htxid
  confirms messageHash row hrow hopen action row' hrow' hconfirmed := by
    have hstep := step_row (empty.run past) action messageHash
    rw [hrow, hrow'] at hstep
    exact hstep.confirms hopen hconfirmed
  final messageHash row hrow hconfirmed more hmore :=
    run_final (sound_run past messageHash row hrow) hconfirmed (empty.run past) more hmore (Or.inl hrow)
  inFlight messageHash row hrow hflight current timeout := by
    have hstep := step_row (empty.run past) (.deleteExpired current timeout) messageHash
    rw [hrow] at hstep
    generalize ((empty.run past).step (.deleteExpired current timeout)).requests.lookup messageHash = after
      at hstep
    cases hstep with
    | keep => rfl
    | expire _ _ _ hexpired =>
      rw [not_isExpired hflight] at hexpired
      cases hexpired
    | orphan _ _ _ haction => rcases haction with h | ⟨txid, h⟩ <;> cases h
    | confirm _ _ _ haction => rcases haction with h | h <;> cases h

end Laws

end VotingStore

end PriceOracle
