import PriceOracle.VotingExecutions
import PriceOracle.VotingHandlers
import PriceOracle.VotingNode

/-!
# The quorum of a vote

Which approvals are stored for the requests that are still open, and what is stored when a
request is approved: approvals of distinct current members, enough of them, each with
a signature that was made under the current membership.
-/

namespace PriceOracle

open Db

namespace VotingStore

variable {W B : Type} [DecidableEq W] [DecidableEq B]

def Approved (store : VotingStore W B) (requestHash : W) : Prop :=
  ∃ row, store.requests.lookup requestHash = some row ∧ row.approvedAtBlockHeight ≠ none

/-- Every approval of an open request counts. -/
structure ApprovalsInv (Counts : B → W → W → Prop) (store : VotingStore W B) : Prop where
  known : ∀ key, key ∈ store.approvals → key.1 ∈ store.requests
  sound : ∀ requestHash row, store.requests.lookup requestHash = some row → Sound row
  counted : ∀ requestHash publicKey approval row, store.approvals.lookup (requestHash, publicKey) = some approval →
    store.requests.lookup requestHash = some row → row.executionConfirmed = false →
      Counts approval.message requestHash publicKey

/-- Distinct keys whose stored approvals count, as many as required. -/
def Voters (Counts : B → W → W → Prop) (required : ℕ) (store : VotingStore W B) (requestHash : W) : Prop :=
  ∃ voters : List W, voters.Nodup ∧ required ≤ voters.length ∧
    approvalCount store.approvals requestHash = voters.length ∧ ∀ publicKey ∈ voters, ∃ approval,
      store.approvals.lookup (requestHash, publicKey) = some approval ∧ Counts approval.message requestHash publicKey

section Steps

variable {Counts Counts' : B → W → W → Prop} {store store' : VotingStore W B} {action : VotingAction W B}
  {requestHash publicKey : W}

omit [DecidableEq W] [DecidableEq B] in
theorem mem_iff {K V : Type} [DecidableEq K] {t : Table K V} {k : K} : k ∈ t ↔ ∃ v, t.lookup k = some v := by
  rw [← AList.lookup_isSome, Option.isSome_iff_exists]

omit [DecidableEq B] in
theorem updateRequest_approvals {done : Bool} {p : StoredVotingRequest W B → Bool}
    {f : StoredVotingRequest W B → StoredVotingRequest W B}
    (h : (updateRequest requestHash p f).Returns store done store') :
    store'.approvals = store.approvals ∧ ∀ k ∈ store.requests, k ∈ store'.requests := by
  rcases updateRequest_returns h with ⟨-, rfl, -⟩ | ⟨-, row, -, -, rfl⟩
  · exact ⟨rfl, fun _ => id⟩
  · exact ⟨rfl, fun k hk => (AList.mem_insert _).mpr (Or.inr hk)⟩

omit [DecidableEq B] in
theorem updateExecution_approvals {u : PUnit} {p : StoredVotingRequest W B → Bool}
    {f : StoredVotingRequest W B → StoredVotingRequest W B}
    (h : (updateExecution requestHash p f).Returns store u store') :
    store'.approvals = store.approvals ∧ ∀ k ∈ store.requests, k ∈ store'.requests := by
  obtain ⟨row, -, -, rfl⟩ := updateExecution_returns h
  exact ⟨rfl, fun k hk => (AList.mem_insert _).mpr (Or.inr hk)⟩

/-- The approvals stay with their requests, or those that have lost their request go. -/
theorem step_approvals (store : VotingStore W B) (action : VotingAction W B) (haction : ∀ requestHash publicKey message blockHeight required,
      action ≠ .insertApproval requestHash publicKey message blockHeight required) :
    ((store.step action).approvals = store.approvals ∧ ∀ k ∈ store.requests, k ∈ (store.step action).requests) ∨
      (store.step action).approvals =
        Table.filterRows (fun key _ => decide (key.1 ∈ (store.step action).requests)) store.approvals := by
  rcases exec_atomic_cases (program action) store with hsame | ⟨u, hreturns⟩
  · left
    unfold VotingStore.step
    rw [hsame]
    exact ⟨rfl, fun _ => id⟩
  change (program action).Returns store u (store.step action) at hreturns
  generalize store.step action = t at hreturns
  cases action with
  | insertRequest hash message proposer blockHeight =>
    obtain ⟨_, _, hinsert, hpure⟩ := returns_bind.mp hreturns
    obtain ⟨-, rfl⟩ := returns_pure.mp hpure
    rcases insertSynchronizedRequest_returns hinsert with ⟨-, -, rfl⟩ | ⟨-, -, rfl⟩
    · exact Or.inl ⟨rfl, fun _ => id⟩
    · exact Or.inl ⟨rfl, fun k hk => (AList.mem_insert _).mpr (Or.inr hk)⟩
  | insertApproval hash key message blockHeight required => exact absurd rfl (haction _ _ _ _ _)
  | startExecution hash transaction =>
    obtain ⟨_, _, hstart, hpure⟩ := returns_bind.mp hreturns
    obtain ⟨-, rfl⟩ := returns_pure.mp hpure
    exact Or.inl (updateRequest_approvals hstart)
  | cancelExecution hash => exact Or.inl (updateExecution_approvals hreturns)
  | recordBroadcast hash proposer transaction executionRequest txid =>
    exact Or.inl (updateExecution_approvals hreturns)
  | confirmExecution hash txid => exact Or.inl (updateExecution_approvals hreturns)
  | markExecutionIncluded hash txid blockHeight blockHash =>
    exact Or.inl (updateExecution_approvals (heightToI64_bind hreturns))
  | markExecutionOrphaned hash txid =>
    obtain ⟨_, _, hupdate, hpure⟩ := returns_bind.mp hreturns
    obtain ⟨-, rfl⟩ := returns_pure.mp hpure
    exact Or.inl (updateRequest_approvals hupdate)
  | resetExecutions =>
    obtain rfl := returns_modify.mp hreturns
    refine Or.inl ⟨rfl, fun k hk => ?_⟩
    obtain ⟨row, hrow⟩ := mem_iff.mp hk
    rw [mem_iff, Table.lookup_mapRows, hrow]
    exact ⟨_, rfl⟩
  | deleteExpired current timeout =>
    obtain ⟨_, _, hdelete, hpure⟩ := returns_bind.mp hreturns
    obtain ⟨-, rfl⟩ := returns_pure.mp hpure
    exact Or.inr (deleteExpired_returns hdelete).2
  | applyMemberMigration hash txid =>
    obtain ⟨row, -, -, -, -, happrovals⟩ := applyMemberMigration_returns hreturns
    exact Or.inr happrovals

omit [DecidableEq W] [DecidableEq B] in
/-- A request that is approved now was approved before, unless this was its approval. -/
theorem RowStep.approved {row' : StoredVotingRequest W B} {before : Option (StoredVotingRequest W B)}
    (haction : ∀ requestHash publicKey message blockHeight required,
      action ≠ .insertApproval requestHash publicKey message blockHeight required)
    (h : RowStep requestHash action before (some row')) (happroved : row'.approvedAtBlockHeight ≠ none) :
    ∃ row, before = some row ∧ row.approvedAtBlockHeight ≠ none := by
  cases h with
  | keep => exact ⟨row', rfl, happroved⟩
  | insert => exact absurd rfl happroved
  | approve => exact absurd rfl (haction _ _ _ _ _)
  | start _ row hold => exact ⟨row, rfl, hold⟩
  | cancel row => exact ⟨row, rfl, happroved⟩
  | record _ _ _ _ row _ hold => exact ⟨row, rfl, hold⟩
  | «include» _ _ _ row => exact ⟨row, rfl, happroved⟩
  | orphan _ row => exact ⟨row, rfl, happroved⟩
  | confirm _ row => exact ⟨row, rfl, happroved⟩

omit [DecidableEq W] [DecidableEq B] in
/-- An open request was open before, or is new. -/
theorem RowStep.open {row' : StoredVotingRequest W B} {before : Option (StoredVotingRequest W B)}
    (hsound : ∀ row, before = some row → Sound row) (h : RowStep requestHash action before (some row'))
    (hopen : row'.executionConfirmed = false) :
    before = none ∨ ∃ row, before = some row ∧ row.executionConfirmed = false := by
  cases hbefore : before with
  | none => exact Or.inl rfl
  | some row =>
    right
    refine ⟨row, rfl, ?_⟩
    subst hbefore
    cases hconfirmed : row.executionConfirmed with
    | false => rfl
    | true =>
      rcases h.final (hsound row rfl) hconfirmed with hsame | hnone
      · obtain rfl := Option.some.inj hsame
        rw [hconfirmed] at hopen
        cases hopen
      · cases hnone

omit [DecidableEq W] [DecidableEq B] in
theorem RowStep.sound_of {row' : StoredVotingRequest W B} {before : Option (StoredVotingRequest W B)}
    (hsound : ∀ row, before = some row → Sound row) (h : RowStep requestHash action before (some row')) :
    Sound row' := by
  cases hbefore : before with
  | none =>
    subst hbefore
    cases h with
    | insert message proposer blockHeight => exact sound_newRequest message proposer blockHeight
  | some row =>
    subst hbefore
    exact h.sound (hsound row rfl)

/-- Every statement but an approval keeps the approvals that count. -/
theorem ApprovalsInv.step (h : ApprovalsInv Counts store) (action : VotingAction W B)
    (haction : ∀ requestHash publicKey message blockHeight required,
      action ≠ .insertApproval requestHash publicKey message blockHeight required) :
    ApprovalsInv Counts (store.step action) ∧ ∀ k, Approved (store.step action) k → Approved store k := by
  have hrow : ∀ k row', (store.step action).requests.lookup k = some row' →
      RowStep k action (store.requests.lookup k) (some row') := by
    intro k row' hlookup
    have hstep := step_row store action k
    rwa [hlookup] at hstep
  have hold : ∀ key approval, (store.step action).approvals.lookup key = some approval →
      store.approvals.lookup key = some approval ∧ key.1 ∈ (store.step action).requests := by
    intro key approval hlookup
    rcases step_approvals store action haction with ⟨hsame, hkept⟩ | hfiltered
    · rw [hsame] at hlookup
      exact ⟨hlookup, hkept key.1 (h.known key (mem_iff.mpr ⟨approval, hlookup⟩))⟩
    · rw [hfiltered, Table.lookup_filterRows] at hlookup
      obtain ⟨hbefore, hmem⟩ := Option.filter_eq_some_iff.mp hlookup
      exact ⟨hbefore, of_decide_eq_true hmem⟩
  refine ⟨⟨fun key hmem => ?_, fun k row' hlookup => (hrow k row' hlookup).sound_of (h.sound k),
    fun k publicKey approval row' happroval hlookup hopen => ?_⟩, fun k happroved => ?_⟩
  · obtain ⟨approval, hlookup⟩ := mem_iff.mp hmem
    exact (hold key approval hlookup).2
  · have hbefore := (hold (k, publicKey) approval happroval).1
    rcases (hrow k row' hlookup).open (h.sound k) hopen with hnone | ⟨row, hsome, hopen'⟩
    · -- The approvals of a new request would be approvals of no request.
      obtain ⟨row, hsome⟩ := mem_iff.mp (h.known (k, publicKey) (mem_iff.mpr ⟨approval, hbefore⟩))
      rw [hnone] at hsome
      cases hsome
    · exact h.counted k publicKey approval row hbefore hsome hopen'
  · obtain ⟨row', hlookup, happroved'⟩ := happroved
    exact (hrow k row' hlookup).approved haction happroved'

omit [DecidableEq B] in
/-- A member migration leaves no open request. -/
theorem ApprovalsInv.of_closed (h : ApprovalsInv Counts store) (hclosed : ∀ requestHash row,
      store.requests.lookup requestHash = some row → row.executionConfirmed = true) :
    ApprovalsInv Counts' store where
  known := h.known
  sound := h.sound
  counted requestHash publicKey approval row _ hrow hopen := by
    rw [hclosed requestHash row hrow] at hopen
    cases hopen

omit [DecidableEq B] in
theorem ApprovalsInv.mono (h : ApprovalsInv Counts store)
    (hcounts : ∀ message requestHash publicKey, Counts message requestHash publicKey →
      Counts' message requestHash publicKey) : ApprovalsInv Counts' store where
  known := h.known
  sound := h.sound
  counted requestHash publicKey approval row happroval hrow hopen :=
    hcounts _ _ _ (h.counted requestHash publicKey approval row happroval hrow hopen)

omit [DecidableEq B] in
/-- The keys of the approvals of one request. -/
theorem exists_voters (store : VotingStore W B) (requestHash : W) : ∃ voters : List W, voters.Nodup ∧
    approvalCount store.approvals requestHash = voters.length ∧
      ∀ publicKey ∈ voters, (requestHash, publicKey) ∈ store.approvals := by
  refine ⟨(store.approvals.keys.filter fun key => decide (key.1 = requestHash)).map Prod.snd, ?_, ?_, ?_⟩
  · apply List.Nodup.map_on _ (store.approvals.nodupKeys.filter _)
    intro key hkey key' hkey' heq
    have hfst := of_decide_eq_true (List.mem_filter.mp hkey).2
    have hfst' := of_decide_eq_true (List.mem_filter.mp hkey').2
    exact Prod.ext (hfst.trans hfst'.symm) heq
  · unfold approvalCount
    rw [List.length_map, List.countP_eq_length_filter]
  · intro publicKey hmem
    obtain ⟨key, hkey, rfl⟩ := List.mem_map.mp hmem
    obtain ⟨hmem, hfst⟩ := List.mem_filter.mp hkey
    rw [← of_decide_eq_true hfst]
    exact AList.mem_keys.mp hmem

omit [DecidableEq B] in
/-- An approval that counts; the one that approves its request completes a quorum. -/
theorem ApprovalsInv.insertApproval (h : ApprovalsInv Counts store) {message : B} {blockHeight required : ℕ}
    {inserted : Bool} (hcounts : Counts message requestHash publicKey)
    (hreturns : (VotingStore.insertApproval requestHash publicKey message blockHeight required).Returns store inserted
      store') :
    ApprovalsInv Counts store' ∧
      ∀ k, Approved store' k → Approved store k ∨ Voters Counts required store' k := by
  rcases insertApproval_returns hreturns with ⟨-, -, rfl⟩ | ⟨-, -, hmem, happrovals, hcases⟩
  · exact ⟨h, fun _ => Or.inl⟩
  have hrequests : ∀ k row', store'.requests.lookup k = some row' → ∃ row, store.requests.lookup k = some row ∧
      row'.executionConfirmed = row.executionConfirmed ∧ Sound row' := by
    intro k row' hrow'
    rcases hcases with hsame | ⟨-, row, hrow, hnone, hinsert⟩
    · rw [hsame] at hrow'
      exact ⟨row', hrow', rfl, h.sound k row' hrow'⟩
    · rw [hinsert, Table.lookup_insert_eq] at hrow'
      split_ifs at hrow' with hk
      · obtain rfl := Option.some.inj hrow'
        exact ⟨row, hk ▸ hrow, rfl, ⟨fun _ => nofun, (h.sound _ row hrow).txid⟩⟩
      · exact ⟨row', hrow', rfl, h.sound k row' hrow'⟩
  have hkept : ∀ k, k ∈ store.requests → k ∈ store'.requests := by
    intro k hk
    rcases hcases with hsame | ⟨-, row, hrow, hnone, hinsert⟩
    · rwa [hsame]
    · rw [hinsert]
      exact (AList.mem_insert _).mpr (Or.inr hk)
  have hinv : ApprovalsInv Counts store' := by
    refine ⟨fun key hkey => ?_, fun k row' hrow' => ?_, fun k key approval row' happroval hrow' hopen => ?_⟩
    · rw [happrovals] at hkey
      rcases (AList.mem_insert _).mp hkey with rfl | hold
      · exact hkept _ hmem
      · exact hkept _ (h.known key hold)
    · obtain ⟨-, -, -, hsound⟩ := hrequests k row' hrow'
      exact hsound
    · obtain ⟨row, hrow, hconfirmed, -⟩ := hrequests k row' hrow'
      rw [happrovals, Table.lookup_insert_eq] at happroval
      split_ifs at happroval with hkey
      · obtain ⟨rfl, rfl⟩ := Prod.mk.inj hkey
        obtain rfl := Option.some.inj happroval
        exact hcounts
      · exact h.counted k key approval row happroval hrow (hconfirmed.symm.trans hopen)
  refine ⟨hinv, fun k happroved => ?_⟩
  obtain ⟨row', hrow', happroved'⟩ := happroved
  rcases hcases with hsame | ⟨hquorum, row, hrow, hnone, hinsert⟩
  · rw [hsame] at hrow'
    exact Or.inl ⟨row', hrow', happroved'⟩
  have hlookup := hrow'
  rw [hinsert, Table.lookup_insert_eq] at hlookup
  split_ifs at hlookup with hk
  · right
    subst hk
    obtain rfl := Option.some.inj hlookup
    -- A request without approval is still open.
    have hopen : row.executionConfirmed = false := by
      cases hconfirmed : row.executionConfirmed with
      | false => rfl
      | true => exact absurd hnone ((h.sound _ row hrow).approved (Or.inr (Or.inr hconfirmed)))
    obtain ⟨voters, hnodup, hcount, hvoters⟩ := exists_voters store' k
    refine ⟨voters, hnodup, hcount ▸ hquorum, hcount, fun voter hvoter => ?_⟩
    obtain ⟨approval, happroval⟩ := mem_iff.mp (hvoters voter hvoter)
    exact ⟨approval, happroval, hinv.counted k voter approval _ happroval hrow' hopen⟩
  · exact Or.inl ⟨row', hlookup, happroved'⟩

end Steps

/-- The outcome of a statement as a step. -/
theorem step_of_returns {A : Type} {store store' : VotingStore W B} {prog : Db (VotingStore W B) VotingStoreError A}
    {a : A} (action : VotingAction W B) (haction : program action = do let _ ← prog)
    (h : prog.Returns store a store') : store.step action = store' := by
  unfold VotingStore.step
  rw [haction, exec_atomic_discard, returns_atomic.mpr h]

end VotingStore

namespace VotingNode

open Voting VotingStore

section Conditions

variable (C : VotingCrypto) (V : Voting) (madeUnder : Bytes → ℕ) (node : VotingNode)

/-- The approval is read from the message, or was written into it. -/
def Carries (message : NodeMessage) (approval : ApproveVotingRequest) : Prop :=
  message.payload = ApproveVotingRequest.codec.encode approval ∨
    message.decodePayload ApproveVotingRequest.codec = some approval

/-- The stored message carries a signature of a current member over the hash, made under the current
membership. -/
def Counts (bytes : Bytes) (requestHash publicKey : Bytes32) : Prop :=
  publicKey ∈ node.peers ∧ ∃ message approval, bytes = NodeMessage.codec.encode message ∧
    Carries message approval ∧ approval.publicKey = publicKey ∧ approval.signature.length = 64 ∧
      C.verify approval.signature requestHash publicKey = true ∧ madeUnder approval.signature = node.epoch

/-- A request that a step approves has its quorum. -/
def QuorumReached (action : VotingNodeAction) : Prop :=
  ∀ requestHash, Approved (node.step C V action).store requestHash → Approved node.store requestHash ∨
    Voters ((node.step C V action).Counts C madeUnder)
      ((node.step C V action).peers.length - (node.step C V action).peers.length / 3)
      (node.step C V action).store requestHash

/-- An approval comes while no migration is half done, and was signed under the current membership. -/
def Clear : VotingNodeAction → Prop
  | .approve _ signature _ => node.pending = none ∧ madeUnder signature = node.epoch
  | .handleApproval message _ => node.pending = none ∧ ∀ approval,
      message.decodePayload ApproveVotingRequest.codec = some approval → madeUnder approval.signature = node.epoch
  | .acceptSynchronizedApproval _ bytes _ => node.pending = none ∧ ∀ message approval,
      NodeMessage.codec.fromBytes bytes = some message →
        message.decodePayload ApproveVotingRequest.codec = some approval → madeUnder approval.signature = node.epoch
  | _ => True

/-- While a migration is half done no approval of an open request is stored. -/
def QuorumInv : Prop :=
  ApprovalsInv (fun bytes requestHash publicKey => node.pending = none ∧
    node.Counts C madeUnder bytes requestHash publicKey) node.store

end Conditions

section Steps

variable {C : VotingCrypto} {V : Voting} {madeUnder : Bytes → ℕ} {node : VotingNode}
  {Counted : Bytes → Bytes32 → Bytes32 → Prop}

theorem requiredApprovals_eq (memberCount : ℕ) : requiredApprovals memberCount = memberCount - memberCount / 3 := by
  unfold requiredApprovals
  omega

/-- No statement of a proposal approves anything. -/
theorem keeps_approvals (C : VotingCrypto) (Counted : Bytes → Bytes32 → Bytes32 → Prop) (before : Store) :
    Keeps C (fun _ => True) fun store =>
      ApprovalsInv Counted store ∧ ∀ k, Approved store k → Approved before k where
  delete blockHeight deleted s t hs hdelete := by
    have hstep := step_of_returns (.deleteExpired blockHeight votingTimeoutBlocks) rfl hdelete
    obtain ⟨hinv, hkept⟩ := hs.1.step (.deleteExpired blockHeight votingTimeoutBlocks) (by nofun)
    rw [hstep] at hinv hkept
    exact ⟨hinv, fun k hk => hs.2 k (hkept k hk)⟩
  insert messageHash bytes request proposer blockHeight done s t hs _ _ _ hinsert := by
    have hstep := step_of_returns (.insertRequest messageHash bytes proposer blockHeight) rfl hinsert
    obtain ⟨hinv, hkept⟩ := hs.1.step (.insertRequest messageHash bytes proposer blockHeight) (by nofun)
    rw [hstep] at hinv hkept
    exact ⟨hinv, fun k hk => hs.2 k (hkept k hk)⟩

theorem acceptApproval_quorum (h : node.QuorumInv C madeUnder) {message : NodeMessage}
    {approval : ApproveVotingRequest} {requestHash : Bytes32} {blockHeight : ℕ} (hcarries : Carries message approval)
    (hpending : node.pending = none) (hmade : madeUnder approval.signature = node.epoch) :
    Triple (fun store => store = node.store)
      (acceptApproval C node.peers message approval requestHash blockHeight)
      (fun _ store => (node.withStore store).QuorumInv C madeUnder ∧ ∀ k, Approved store k → Approved node.store k ∨
        Voters (node.Counts C madeUnder) (node.peers.length - node.peers.length / 3) store k)
      (fun store => (node.withStore store).QuorumInv C madeUnder ∧ ∀ k, Approved store k → Approved node.store k ∨
        Voters (node.Counts C madeUnder) (node.peers.length - node.peers.length / 3) store k) := by
  apply acceptApproval_triple
  · rintro store rfl
    exact ⟨h, fun _ => Or.inl⟩
  rintro store inserted store' rfl hchecked hinsert
  have hcounts : node.pending = none ∧ node.Counts C madeUnder (NodeMessage.codec.encode message) requestHash
      approval.publicKey :=
    ⟨hpending, hchecked.member, message, approval, rfl, hcarries, rfl, hchecked.length, hchecked.verified, hmade⟩
  obtain ⟨hinv, hreached⟩ := h.insertApproval hcounts hinsert
  refine ⟨hinv, fun k hk => (hreached k hk).imp_right ?_⟩
  rintro ⟨voters, hnodup, hlength, hcount, hvoters⟩
  rw [requiredApprovals_eq] at hlength
  refine ⟨voters, hnodup, hlength, hcount, fun voter hvoter => ?_⟩
  obtain ⟨stored, hstored, -, hcounted⟩ := hvoters voter hvoter
  exact ⟨stored, hstored, hcounted⟩

theorem activateMemberMigration_quorum (h : node.QuorumInv C madeUnder) (requestHash txid : Bytes32)
    (peers : List Bytes32) (finished : Bool) :
    (node.activateMemberMigration requestHash txid peers finished).QuorumInv C madeUnder ∧
      ∀ k, Approved (node.activateMemberMigration requestHash txid peers finished).store k → Approved node.store k := by
  unfold VotingNode.activateMemberMigration
  by_cases hpeers : peers.Nodup
  · rw [if_pos hpeers]
    cases hrun : (VotingStore.applyMemberMigration requestHash txid).atomic.exec node.store with
    | mk r store =>
      cases r with
      | error e => exact ⟨h, fun _ => id⟩
      | ok u =>
        have hreturns := returns_atomic.mp hrun
        obtain ⟨row, -, -, -, hrequests, -⟩ := applyMemberMigration_returns hreturns
        have hstep : node.store.step (.applyMemberMigration requestHash txid) = store := congrArg Prod.snd hrun
        obtain ⟨hinv, hkept⟩ := ApprovalsInv.step h (.applyMemberMigration requestHash txid) (by nofun)
        rw [hstep] at hinv hkept
        have hclosed : ∀ k row, store.requests.lookup k = some row → row.executionConfirmed = true := by
          intro k row hrow
          rw [hrequests, Table.lookup_filterRows] at hrow
          exact (Option.filter_eq_some_iff.mp hrow).2
        cases finished with
        | true => exact ⟨hinv.of_closed hclosed, hkept⟩
        | false => exact ⟨hinv.of_closed hclosed, hkept⟩
  · rw [if_neg hpeers]
    exact ⟨h, fun _ => id⟩

theorem finishMemberMigration_quorum (h : node.QuorumInv C madeUnder) :
    node.finishMemberMigration.QuorumInv C madeUnder ∧ node.finishMemberMigration.store = node.store := by
  unfold VotingNode.finishMemberMigration
  cases hpending : node.pending with
  | none => exact ⟨h, rfl⟩
  | some peers =>
    refine ⟨ApprovalsInv.mono h fun bytes requestHash publicKey hcounts => ?_, rfl⟩
    rw [hpending] at hcounts
    cases hcounts.1

/-- One step: the approvals that are stored go on counting, and what it approves has its quorum. -/
theorem step_quorum (h : node.QuorumInv C madeUnder) {action : VotingNodeAction}
    (hclear : node.Clear madeUnder action) :
    (node.step C V action).QuorumInv C madeUnder ∧ node.QuorumReached C V madeUnder action := by
  have hproposal : ∀ {A : Type} {prog : Db Store VotingError A} {I : Store → Prop},
      (I = fun store => ApprovalsInv (fun bytes requestHash publicKey => node.pending = none ∧
        node.Counts C madeUnder bytes requestHash publicKey) store ∧ ∀ k, Approved store k → Approved node.store k) →
          Triple I prog (fun _ => I) I → node.step C V action = node.withStore (prog.exec node.store).2 →
            (node.step C V action).QuorumInv C madeUnder ∧ node.QuorumReached C V madeUnder action := by
    rintro A prog I rfl htriple hstep
    have hend := htriple.exec (fun _ _ => id) (fun _ => id) (s := node.store) ⟨h, fun _ => id⟩
    unfold QuorumReached
    rw [hstep]
    exact ⟨hend.1, fun k hk => Or.inl (hend.2 k hk)⟩
  have happroval : ∀ {A : Type} (prog : Db Store VotingError A) {J : Store → Prop},
      (J = fun store => (node.withStore store).QuorumInv C madeUnder ∧ ∀ k, Approved store k →
        Approved node.store k ∨
          Voters (node.Counts C madeUnder) (node.peers.length - node.peers.length / 3) store k) →
        Triple (fun store => store = node.store) prog (fun _ => J) J →
          node.step C V action = node.withStore (prog.exec node.store).2 →
            (node.step C V action).QuorumInv C madeUnder ∧ node.QuorumReached C V madeUnder action := by
    rintro A prog J rfl htriple hstep
    have hend := htriple.exec (fun _ _ => id) (fun _ => id) rfl
    unfold QuorumReached
    rw [hstep]
    exact hend
  cases action with
  | create request signature blockHeight =>
    exact hproposal rfl (create_triple (keeps_approvals C _ node.store) trivial signature) rfl
  | handleRequest message sender blockHeight =>
    exact hproposal rfl (handleRequest_triple (keeps_approvals C _ node.store) (fun _ _ => trivial) sender) rfl
  | acceptSynchronizedRequest messageHash bytes sender blockHeight =>
    exact hproposal rfl (acceptSynchronizedRequest_triple (keeps_approvals C _ node.store) (fun _ _ => trivial)
      messageHash sender) rfl
  | approve requestHash signature blockHeight =>
    exact happroval _ rfl (acceptApproval_quorum h (Or.inl rfl) hclear.1 hclear.2) rfl
  | handleApproval message blockHeight =>
    apply happroval (handleApproval C node.peers message blockHeight) rfl _ rfl
    unfold handleApproval
    cases message.linkedTo with
    | none =>
      apply triple_throw
      rintro store rfl
      exact ⟨h, fun _ => Or.inl⟩
    | some requestHash =>
      apply triple_bind (R := fun approval store =>
        message.decodePayload ApproveVotingRequest.codec = some approval ∧ store = node.store)
      · apply triple_check (fun approval hok store hstore => ⟨decoded_ok hok, hstore⟩)
        rintro store rfl
        exact ⟨h, fun _ => Or.inl⟩
      intro approval
      apply triple_of_imp
      intro hdecode
      exact acceptApproval_quorum h (Or.inr hdecode) hclear.1 (hclear.2 approval hdecode)
  | acceptSynchronizedApproval messageHash bytes blockHeight =>
    apply happroval (acceptSynchronizedApproval C node.peers messageHash bytes blockHeight) rfl _ rfl
    have hsame : ∀ store, store = node.store → (node.withStore store).QuorumInv C madeUnder ∧
        ∀ k, Approved store k → Approved node.store k ∨
          Voters (node.Counts C madeUnder) (node.peers.length - node.peers.length / 3) store k := by
      rintro store rfl
      exact ⟨h, fun _ => Or.inl⟩
    unfold acceptSynchronizedApproval
    apply triple_bind (R := fun message store => NodeMessage.codec.fromBytes bytes = some message ∧ store = node.store)
    · exact triple_check (fun message hok store hstore => ⟨decoded_ok hok, hstore⟩) hsame
    intro message
    apply triple_of_imp
    intro hmessage
    split_ifs
    · exact triple_throw hsame
    · apply triple_bind (R := fun approval store =>
        message.decodePayload ApproveVotingRequest.codec = some approval ∧ store = node.store)
      · exact triple_check (fun approval hok store hstore => ⟨decoded_ok hok, hstore⟩) hsame
      intro approval
      apply triple_of_imp
      intro hdecode
      exact acceptApproval_quorum h (Or.inr hdecode) hclear.1 (hclear.2 message approval hmessage hdecode)
  | removeExpired blockHeight =>
    obtain ⟨hinv, hkept⟩ := ApprovalsInv.step h (.deleteExpired blockHeight votingTimeoutBlocks) (by nofun)
    exact ⟨hinv, fun k hk => Or.inl (hkept k hk)⟩
  | execution action =>
    unfold QuorumReached
    rw [VotingNode.step]
    split_ifs with haction
    · have hother : ∀ requestHash publicKey message blockHeight required,
          action ≠ .insertApproval requestHash publicKey message blockHeight required := by
        rintro _ _ _ _ _ rfl
        cases haction
      obtain ⟨hinv, hkept⟩ := ApprovalsInv.step h action hother
      exact ⟨hinv, fun k hk => Or.inl (hkept k hk)⟩
    · exact ⟨h, fun _ => Or.inl⟩
  | activateMemberMigration requestHash txid peers finished =>
    obtain ⟨hinv, hkept⟩ := activateMemberMigration_quorum h requestHash txid peers finished
    exact ⟨hinv, fun k hk => Or.inl (hkept k hk)⟩
  | finishMemberMigration =>
    obtain ⟨hinv, hsame⟩ := finishMemberMigration_quorum h
    refine ⟨hinv, fun k hk => Or.inl ?_⟩
    rw [← hsame]
    exact hk

theorem new_quorumInv (C : VotingCrypto) (madeUnder : Bytes → ℕ) (peers : List Bytes32) :
    (new peers).QuorumInv C madeUnder where
  known _ hkey := nomatch hkey
  sound _ _ hrow := nomatch hrow
  counted _ _ _ _ happroval := nomatch happroval

end Steps

/-- A request is approved only with enough stored approvals of distinct current members, each signed
over its hash under the current membership. -/
theorem approved_by_current_quorum (C : VotingCrypto) (V : Voting) (madeUnder : Bytes → ℕ) (peers : List Bytes32)
    (actions : List VotingNodeAction) (hclear : Runs.EachStep (fun node action => node.step C V action)
      (fun node action => node.Clear madeUnder action) (new peers) actions) :
    Runs.EachStep (fun node action => node.step C V action)
      (fun node action => node.QuorumReached C V madeUnder action) (new peers) actions := by
  have hrun := hclear.run (I := QuorumInv C madeUnder) (fun node action h hc => step_quorum h hc)
    (new_quorumInv C madeUnder peers)
  exact hrun.2

section Example

/-- Members 2 and 3 leave and members 4 and 5 join. -/
def memberUpdate : NodeMessage := NodeMessage.newVotingRequest
  (VotingInstruction.updateNetworkMembers ⟨[key 4, key 5], [key 2, key 3]⟩).request 100

def eyeSplit : NodeMessage := NodeMessage.newVotingRequest
  (VotingInstruction.splitStormEye ⟨⟨key 9, 0⟩, 2⟩).request 100

def requestHash (message : NodeMessage) : Bytes32 := message.hash plainCrypto.digest

def approval (voter : UInt8) (message : NodeMessage) : NodeMessage :=
  NodeMessage.new ApproveVotingRequest.codec .approveVotingRequest (some (requestHash message))
    ⟨key voter, List.replicate 64 0⟩

def approveUpdate : List VotingNodeAction :=
  [.handleRequest memberUpdate (key 2) 100, .handleApproval (approval 1 memberUpdate) 101,
    .handleApproval (approval 2 memberUpdate) 101]

theorem approved_by_current_quorum_update :
    Runs.EachStep (fun node action => node.step plainCrypto firstNode action)
      (fun node action => node.QuorumReached plainCrypto firstNode (fun _ => 0) action)
        (new [key 1, key 2, key 3]) approveUpdate := by
  apply approved_by_current_quorum
  exact ⟨trivial, ⟨rfl, fun _ _ => rfl⟩, ⟨rfl, fun _ _ => rfl⟩, trivial⟩

/-- The update is final; the tables are migrated, and activating the peers fails at first. Meanwhile
member 2, which leaves, proposes a split and approves it. -/
def halfMigrated : List VotingNodeAction :=
  approveUpdate ++ [.execution (.recordBroadcast (requestHash memberUpdate) (key 2) [1] [2] (key 8)),
    .activateMemberMigration (requestHash memberUpdate) (key 8) [key 1, key 4, key 5] false,
    .handleRequest eyeSplit (key 2) 102, .handleApproval (approval 2 eyeSplit) 102, .finishMemberMigration]

def migrated : VotingNode := (new [key 1, key 2, key 3]).run plainCrypto firstNode halfMigrated

def splitApproval : VotingNodeAction := .handleApproval (approval 4 eyeSplit) 103

/-- With the approval of one member the split is approved. -/
theorem removed_member_counted : ¬∀ (V : Voting) (madeUnder : Bytes → ℕ) (peers : List Bytes32)
    (actions : List VotingNodeAction), Runs.EachStep (fun node action => node.step plainCrypto V action)
      (fun node action => node.QuorumReached plainCrypto V madeUnder action) (new peers) actions := by
  intro hclaim
  have hlast : migrated.QuorumReached plainCrypto firstNode (fun _ => 0) splitApproval :=
    (hclaim firstNode (fun _ => 0) [key 1, key 2, key 3] (halfMigrated ++ [splitApproval])).last
  unfold QuorumReached at hlast
  have hfacts : (migrated.store.requests.lookup (requestHash eyeSplit)).map
        (fun row => row.approvedAtBlockHeight) = some none ∧
      ((migrated.step plainCrypto firstNode splitApproval).store.requests.lookup (requestHash eyeSplit)).map
        (fun row => row.approvedAtBlockHeight) = some (some 103) ∧
      (migrated.step plainCrypto firstNode splitApproval).peers = [key 1, key 4, key 5] ∧
      (migrated.step plainCrypto firstNode splitApproval).store.approvals.keys.filter
        (fun key => decide (key.1 = requestHash eyeSplit)) =
          [(requestHash eyeSplit, key 4), (requestHash eyeSplit, key 2)] := by decide +kernel
  obtain ⟨hbefore, hafter, hpeers, hkeys⟩ := hfacts
  generalize migrated.step plainCrypto firstNode splitApproval = after at *
  obtain ⟨row, hrow, happroved⟩ := Option.map_eq_some_iff.mp hafter
  rcases hlast (requestHash eyeSplit) ⟨row, hrow, by rw [happroved]; nofun⟩ with
    ⟨old, hold, hnew⟩ | ⟨voters, hnodup, hlength, -, hvoters⟩
  · rw [hold] at hbefore
    exact hnew (Option.some.inj hbefore)
  -- Of the two that have approved only member 4 is left.
  have hfour : ∀ voter ∈ voters, voter = key 4 := by
    intro voter hvoter
    obtain ⟨stored, hstored, hmember, -⟩ := hvoters voter hvoter
    have hmem : (requestHash eyeSplit, voter) ∈ after.store.approvals.keys.filter
        (fun key => decide (key.1 = requestHash eyeSplit)) := by
      rw [List.mem_filter]
      exact ⟨AList.mem_keys.mp (mem_iff.mpr ⟨stored, hstored⟩), decide_eq_true rfl⟩
    rw [hkeys] at hmem
    rcases List.mem_pair.mp hmem with heq | heq
    · exact (Prod.mk.inj heq).2
    · obtain ⟨-, rfl⟩ := Prod.mk.inj heq
      rw [hpeers] at hmember
      exact absurd hmember (by decide +kernel)
  rw [hpeers] at hlength
  match voters, hnodup, hlength, hfour with
  | first :: second :: _, hnodup, _, hfour =>
    have hfirst := hfour first List.mem_cons_self
    have hsecond := hfour second (List.mem_cons_of_mem _ List.mem_cons_self)
    rw [hfirst, hsecond] at hnodup
    exact (List.nodup_cons.mp hnodup).1 List.mem_cons_self

end Example

end VotingNode

end PriceOracle
