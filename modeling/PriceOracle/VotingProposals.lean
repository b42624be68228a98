import PriceOracle.VotingHandlers
import PriceOracle.VotingNode

/-!
# Active proposals

How many requests of one proposer are stored at a time, and that no two of them ask for the
same thing. The duplicate check compares the bytes of requests, so it finds the duplicates
among requests that are written as the node itself writes them.
-/

namespace PriceOracle

namespace Voting

open Db

/-- The instruction in a stored message. -/
def storedInstruction (message : Bytes) : Option VotingInstruction :=
  (storedRequest message).bind NetworkVoteRequest.instruction

/-- The request is written as the node writes the instruction that it is read as. -/
def Canonical (request : NetworkVoteRequest) : Prop :=
  ∀ instruction, request.instruction = some instruction → request = instruction.request

/-- The stored requests while no execution has begun. -/
structure ProposalInv (C : VotingCrypto) (store : Store) : Prop where
  idle : ∀ messageHash row, store.requests.lookup messageHash = some row →
    row.executionConfirmed = false ∧ row.executionStarted = false ∧ row.executionTxid = none
  canonical : ∀ messageHash row request, store.requests.lookup messageHash = some row →
    storedRequest row.message = some request → Canonical request
  distinct : ∀ h h' row row' request request', store.requests.lookup h = some row →
    store.requests.lookup h' = some row' → storedRequest row.message = some request →
      storedRequest row'.message = some request' →
        request.canonicalHash C.digest = request'.canonicalHash C.digest → h = h'
  quota : ∀ proposer, activeRequestCountForProposer store proposer ≤ maxActiveVotingsPerProposer

section Counts

/-- A count of rows as the total of a column. -/
theorem countP_eq_total {K V : Type} (p : V → Bool) (t : Table K V) :
    (t.entries.countP (fun row => p row.2) : ℤ) = Table.total (fun v => if p v then 1 else 0) t := by
  unfold Table.total
  induction t.entries with
  | nil => rfl
  | cons row rows ih =>
    rw [List.countP_cons, List.map_cons, List.sum_cons, ← ih]
    by_cases hp : p row.2 = true
    · simp only [hp, if_true]
      push_cast
      ring
    · simp [hp]

variable {store store' : Store} {messageHash : Bytes32} {row row' : StoredVotingRequest Bytes32 Bytes}

theorem activeRequestCount_insert (hrequests : store'.requests = store.requests.insert messageHash row')
    (hrow : store.requests.lookup messageHash = some row) (hconfirmed : row'.executionConfirmed = row.executionConfirmed)
    (hproposer : row'.proposerPublicKey = row.proposerPublicKey) (proposer : Option Bytes32) :
    activeRequestCountForProposer store' proposer = activeRequestCountForProposer store proposer := by
  unfold activeRequestCountForProposer
  have hcount := countP_eq_total (K := Bytes32) (fun row : StoredVotingRequest Bytes32 Bytes =>
    !row.executionConfirmed && decide (row.proposerPublicKey = proposer))
  have hafter := hcount store'.requests
  have hbefore := hcount store.requests
  rw [hrequests, Table.total_insert, hrow, Option.map_some, Option.getD_some, hconfirmed, hproposer,
    Int.add_sub_cancel, ← hbefore] at hafter
  rw [hrequests]
  exact_mod_cast hafter

theorem activeRequestCount_insert_new (hrequests : store'.requests = store.requests.insert messageHash row')
    (hnew : messageHash ∉ store.requests) (proposer : Option Bytes32) :
    activeRequestCountForProposer store' proposer ≤ activeRequestCountForProposer store proposer +
      if row'.proposerPublicKey = proposer then 1 else 0 := by
  unfold activeRequestCountForProposer
  rw [hrequests, AList.entries_insert_of_notMem hnew, List.countP_cons]
  apply Nat.add_le_add_left
  split_ifs with hcounts hsame hsame
  · exact le_rfl
  · simp [hsame] at hcounts
  · exact Nat.zero_le 1
  · exact le_rfl

end Counts

section Invariant

variable {C : VotingCrypto} {s t : Store} {blockHeight : ℕ} {row : StoredVotingRequest Bytes32 Bytes}

/-- The turn of the loop for a row that has not expired. -/
theorem ensureOther_ok {canonicalHash : Bytes32} (hheight : blockHeight < 2 ^ 63)
    (hidle : row.executionConfirmed = false ∧ row.executionStarted = false ∧ row.executionTxid = none)
    (hfresh : VotingStore.isExpired blockHeight votingTimeoutBlocks row = false)
    (h : ensureOther C canonicalHash blockHeight row = .ok ⟨⟩) :
    ∀ request, storedRequest row.message = some request → request.canonicalHash C.digest ≠ canonicalHash := by
  intro request hrequest heq
  have hlive : ¬saturatingAdd (row.approvedAtBlockHeight.getD row.blockHeight) votingTimeoutBlocks ≤ blockHeight := by
    intro hle
    have hsum : row.approvedAtBlockHeight.getD row.blockHeight + votingTimeoutBlocks ≤ blockHeight := by
      unfold saturatingAdd at hle
      omega
    obtain ⟨-, hstarted, htxid⟩ := hidle
    unfold VotingStore.isExpired at hfresh
    rw [hstarted, htxid] at hfresh
    cases happroved : row.approvedAtBlockHeight with
    | none =>
      rw [happroved] at hsum hfresh
      simp only [Option.getD_none] at hsum
      simp [hsum] at hfresh
    | some approvedAt =>
      rw [happroved] at hsum hfresh
      simp only [Option.getD_some] at hsum
      simp [hsum] at hfresh
  unfold ensureOther at h
  rw [if_neg hlive, hrequest] at h
  simp only [if_pos heq] at h
  cases h

theorem ProposalInv.delete (h : ProposalInv C s) {timeout deleted : ℕ}
    (hdelete : (VotingStore.deleteExpired blockHeight timeout).Returns s deleted t) : ProposalInv C t := by
  have hrequests := (VotingStore.deleteExpired_returns hdelete).1
  have hold : ∀ k row, t.requests.lookup k = some row → s.requests.lookup k = some row := by
    intro k row hrow
    rw [hrequests, Table.lookup_filterRows] at hrow
    exact (Option.filter_eq_some_iff.mp hrow).1
  refine ⟨fun k row hrow => h.idle k row (hold k row hrow),
    fun k row request hrow => h.canonical k row request (hold k row hrow),
    fun k k' row row' request request' hrow hrow' =>
      h.distinct k k' row row' request request' (hold k row hrow) (hold k' row' hrow'), fun proposer => ?_⟩
  refine le_trans ?_ (h.quota proposer)
  unfold activeRequestCountForProposer
  rw [hrequests]
  exact List.Sublist.countP_le List.filter_sublist

/-- A new request that has passed the checks. -/
theorem ProposalInv.insert (h : ProposalInv C s) {messageHash : Bytes32} {bytes : Bytes}
    {request : NetworkVoteRequest} {proposer : Option Bytes32} {inserted : Bool} (hcanonical : Canonical request)
    (hread : ∀ request', storedRequest bytes = some request' → request' = request)
    (hchecked : Checked C request proposer blockHeight s)
    (hinsert : (VotingStore.insertSynchronizedRequest messageHash bytes proposer blockHeight).Returns s inserted t) :
    ProposalInv C t := by
  rcases VotingStore.insertSynchronizedRequest_returns hinsert with ⟨-, -, rfl⟩ | ⟨-, hnew, rfl⟩
  · exact h
  have hlookup : ∀ k row, (s.requests.insert messageHash
      (VotingStore.newRequest bytes proposer blockHeight)).lookup k = some row →
        (k = messageHash ∧ row = VotingStore.newRequest bytes proposer blockHeight) ∨ s.requests.lookup k = some row := by
    intro k row hrow
    rw [Table.lookup_insert_eq] at hrow
    split_ifs at hrow with hk
    · exact Or.inl ⟨hk, (Option.some.inj hrow).symm⟩
    · exact Or.inr hrow
  -- No other row is read as a request with these bytes.
  have hother : ∀ k row request', s.requests.lookup k = some row → storedRequest row.message = some request' →
      request'.canonicalHash C.digest ≠ request.canonicalHash C.digest := by
    intro k row request' hrow hrequest'
    have hidle := h.idle k row hrow
    exact ensureOther_ok hchecked.height hidle (hchecked.fresh k row hrow) (hchecked.others k row hrow hidle.1)
      request' hrequest'
  refine ⟨fun k row hrow => ?_, fun k row request' hrow hrequest' => ?_,
    fun k k' row row' q q' hrow hrow' hq hq' heq => ?_, fun proposer' => ?_⟩
  · rcases hlookup k row hrow with ⟨-, rfl⟩ | hold
    · exact ⟨rfl, rfl, rfl⟩
    · exact h.idle k row hold
  · rcases hlookup k row hrow with ⟨-, rfl⟩ | hold
    · rw [hread request' hrequest']
      exact hcanonical
    · exact h.canonical k row request' hold hrequest'
  · rcases hlookup k row hrow with ⟨rfl, rfl⟩ | hold <;> rcases hlookup k' row' hrow' with ⟨rfl, rfl⟩ | hold'
    · rfl
    · rw [hread q hq] at heq
      exact absurd heq.symm (hother k' row' q' hold' hq')
    · rw [hread q' hq'] at heq
      exact absurd heq (hother k row q hold hq)
    · exact h.distinct k k' row row' q q' hold hold' hq hq' heq
  · refine le_trans (activeRequestCount_insert_new rfl hnew proposer') ?_
    split_ifs with hsame
    · have hroom := hchecked.quota
      have hproposer : proposer = proposer' := hsame
      rwa [hproposer] at hroom
    · exact h.quota proposer'

theorem ProposalInv.approve (h : ProposalInv C s) {requestHash publicKey : Bytes32} {message : Bytes}
    {required : ℕ} {inserted : Bool}
    (hinsert : (VotingStore.insertApproval requestHash publicKey message blockHeight required).Returns s inserted t) :
    ProposalInv C t := by
  rcases VotingStore.insertApproval_returns hinsert with ⟨-, -, rfl⟩ | ⟨-, -, -, -, hsame | ⟨-, row₀, hrow₀, -, hrequests⟩⟩
  · exact h
  · refine ⟨?_, ?_, ?_, fun proposer => ?_⟩
    · rw [hsame]
      exact h.idle
    · rw [hsame]
      exact h.canonical
    · rw [hsame]
      exact h.distinct
    · unfold activeRequestCountForProposer
      rw [hsame]
      exact h.quota proposer
  -- The row keeps its message, its proposer and its execution.
  have hold : ∀ k row, t.requests.lookup k = some row → ∃ row', s.requests.lookup k = some row' ∧
      row'.message = row.message ∧ row'.executionConfirmed = row.executionConfirmed ∧
        row'.executionStarted = row.executionStarted ∧ row'.executionTxid = row.executionTxid := by
    intro k row hrow
    rw [hrequests, Table.lookup_insert_eq] at hrow
    split_ifs at hrow with hk
    · obtain rfl := Option.some.inj hrow
      exact ⟨row₀, hk ▸ hrow₀, rfl, rfl, rfl, rfl⟩
    · exact ⟨row, hrow, rfl, rfl, rfl, rfl⟩
  refine ⟨fun k row hrow => ?_, fun k row request hrow hrequest => ?_,
    fun k k' row row' q q' hrow hrow' hq hq' heq => ?_, fun proposer => ?_⟩
  · obtain ⟨row', hrow', -, hconfirmed, hstarted, htxid⟩ := hold k row hrow
    rw [← hconfirmed, ← hstarted, ← htxid]
    exact h.idle k row' hrow'
  · obtain ⟨row', hrow', hmessage, -⟩ := hold k row hrow
    exact h.canonical k row' request hrow' (hmessage ▸ hrequest)
  · obtain ⟨row₁, hrow₁, hmessage₁, -⟩ := hold k row hrow
    obtain ⟨row₂, hrow₂, hmessage₂, -⟩ := hold k' row' hrow'
    exact h.distinct k k' row₁ row₂ q q' hrow₁ hrow₂ (hmessage₁ ▸ hq) (hmessage₂ ▸ hq') heq
  · rw [activeRequestCount_insert hrequests hrow₀ rfl rfl proposer]
    exact h.quota proposer

theorem proposalInv_keeps (C : VotingCrypto) : Keeps C Canonical (ProposalInv C) where
  delete _ _ _ _ hs hdelete := hs.delete hdelete
  insert _ _ _ _ _ _ _ _ hs hcanonical hread hchecked hinsert := hs.insert hcanonical hread hchecked hinsert

theorem acceptApproval_proposalInv {peers : List Bytes32} {message : NodeMessage} {approval : ApproveVotingRequest}
    {requestHash : Bytes32} :
    Triple (ProposalInv C) (acceptApproval C peers message approval requestHash blockHeight)
      (fun _ => ProposalInv C) (ProposalInv C) :=
  acceptApproval_triple (fun _ => id) fun _ _ _ hs _ hinsert => hs.approve hinsert

end Invariant

end Voting

namespace VotingNode

open Voting Db

/-- Proposals and approvals on every path, and their expiry. -/
def IsProposal : VotingNodeAction → Prop
  | .execution _ | .activateMemberMigration _ _ _ _ | .finishMemberMigration => False
  | _ => True

/-- A proposal is written as the node writes it. -/
def CanonicalAction : VotingNodeAction → Prop
  | .create request _ _ => Canonical request
  | .handleRequest message _ _ => ∀ request, message.decodeVotingRequest = some request → Canonical request
  | .acceptSynchronizedRequest _ bytes _ _ => ∀ request, storedRequest bytes = some request → Canonical request
  | _ => True

theorem step_proposalInv (C : VotingCrypto) (V : Voting) {node : VotingNode} {action : VotingNodeAction}
    (h : ProposalInv C node.store) (hproposal : IsProposal action) (hcanonical : CanonicalAction action) :
    ProposalInv C (node.step C V action).store := by
  cases action with
  | create request signature blockHeight =>
    exact (create_triple (proposalInv_keeps C) hcanonical signature).exec (fun _ _ => id) (fun _ => id) h
  | handleRequest message sender blockHeight =>
    exact (handleRequest_triple (proposalInv_keeps C) hcanonical sender).exec (fun _ _ => id) (fun _ => id) h
  | acceptSynchronizedRequest messageHash bytes sender blockHeight =>
    exact (acceptSynchronizedRequest_triple (proposalInv_keeps C) hcanonical messageHash sender).exec (fun _ _ => id)
      (fun _ => id) h
  | approve requestHash signature blockHeight =>
    exact acceptApproval_proposalInv.exec (fun _ _ => id) (fun _ => id) h
  | handleApproval message blockHeight =>
    have htriple : Triple (ProposalInv C) (handleApproval C node.peers message blockHeight)
        (fun _ => ProposalInv C) (ProposalInv C) := by
      unfold handleApproval
      cases message.linkedTo with
      | none => exact triple_throw fun _ => id
      | some requestHash =>
        apply triple_bind (R := fun _ => ProposalInv C)
        · exact triple_check (fun _ _ _ => id) fun _ => id
        · exact fun _ => acceptApproval_proposalInv
    exact htriple.exec (fun _ _ => id) (fun _ => id) h
  | acceptSynchronizedApproval messageHash bytes blockHeight =>
    have htriple : Triple (ProposalInv C) (acceptSynchronizedApproval C node.peers messageHash bytes blockHeight)
        (fun _ => ProposalInv C) (ProposalInv C) := by
      unfold acceptSynchronizedApproval
      apply triple_bind (R := fun _ => ProposalInv C)
      · exact triple_check (fun _ _ _ => id) fun _ => id
      intro message
      split_ifs
      · exact triple_throw fun _ => id
      · apply triple_bind (R := fun _ => ProposalInv C)
        · exact triple_check (fun _ _ _ => id) fun _ => id
        · exact fun _ => acceptApproval_proposalInv
    exact htriple.exec (fun _ _ => id) (fun _ => id) h
  | removeExpired blockHeight =>
    rcases exec_atomic_cases (VotingStore.program (.deleteExpired blockHeight votingTimeoutBlocks)) node.store with
      hsame | ⟨u, hreturns⟩
    · change ProposalInv C ((VotingStore.program (.deleteExpired blockHeight votingTimeoutBlocks)).atomic.exec
        node.store).2
      rw [hsame]
      exact h
    · obtain ⟨deleted, t, hdelete, hpure⟩ := returns_bind.mp hreturns
      have hend := (returns_pure.mp hpure).2
      change ProposalInv C ((VotingStore.program (.deleteExpired blockHeight votingTimeoutBlocks)).atomic.exec
        node.store).2
      rw [hend]
      exact h.delete hdelete
  | execution action => exact hproposal.elim
  | activateMemberMigration requestHash txid peers finished => exact hproposal.elim
  | finishMemberMigration => exact hproposal.elim

theorem new_proposalInv (C : VotingCrypto) (peers : List Bytes32) : ProposalInv C (new peers).store where
  idle _ _ hrow := nomatch hrow
  canonical _ _ _ hrow := nomatch hrow
  distinct _ _ _ _ _ _ hrow := nomatch hrow
  quota _ := Nat.zero_le _

/-- With proposals that are written as the node writes them, no proposer has more than its share, and no
two stored requests ask for the same thing. -/
theorem active_proposals_unique (C : VotingCrypto) (V : Voting) (peers : List Bytes32)
    (actions : List VotingNodeAction) (hproposals : ∀ action ∈ actions, IsProposal action)
    (hcanonical : ∀ action ∈ actions, CanonicalAction action) :
    let store := ((new peers).run C V actions).store
    (∀ proposer, activeRequestCountForProposer store proposer ≤ maxActiveVotingsPerProposer) ∧
      ∀ h h' row row' instruction, store.requests.lookup h = some row → store.requests.lookup h' = some row' →
        row.executionConfirmed = false → row'.executionConfirmed = false →
          storedInstruction row.message = some instruction → storedInstruction row'.message = some instruction →
            h = h' := by
  have hinv : ProposalInv C ((new peers).run C V actions).store := by
    have hactions : Runs.EachStep (fun node action => node.step C V action)
        (fun _ action => IsProposal action ∧ CanonicalAction action) (new peers) actions :=
      Runs.EachStep.of_forall fun action hmem => ⟨hproposals action hmem, hcanonical action hmem⟩
    have hrun := Runs.EachStep.run (I := fun node => ProposalInv C node.store) (P := fun _ _ => True)
      (fun node action h hc => ⟨step_proposalInv C V h hc.1 hc.2, trivial⟩) (new_proposalInv C peers) hactions
    exact hrun.1
  refine ⟨hinv.quota, fun h h' row row' instruction hrow hrow' _ _ hi hi' => ?_⟩
  obtain ⟨request, hrequest, hinstruction⟩ := Option.bind_eq_some_iff.mp hi
  obtain ⟨request', hrequest', hinstruction'⟩ := Option.bind_eq_some_iff.mp hi'
  apply hinv.distinct h h' row row' request request' hrow hrow' hrequest hrequest'
  rw [hinv.canonical h row request hrow hrequest instruction hinstruction,
    hinv.canonical h' row' request' hrow' hrequest' instruction hinstruction']

section Example

def splitInTwo : VotingInstruction := .splitStormEye ⟨⟨key 9, 0⟩, 2⟩

/-- The same split, with one more byte after it. -/
def paddedSplit : NetworkVoteRequest := { splitInTwo.request with payload := splitInTwo.request.payload ++ [0] }

example : paddedSplit.instruction = some splitInTwo := by decide +kernel

theorem splitInTwo_canonical : Canonical splitInTwo.request := by
  intro instruction hinstruction
  have hread : splitInTwo.request.instruction = some splitInTwo := by decide +kernel
  rw [hread] at hinstruction
  rw [← Option.some.inj hinstruction]

def createOnce : List VotingNodeAction := [.create splitInTwo.request [] 100]

theorem active_proposals_unique_create :
    let store := ((new [key 1, key 2, key 3]).run plainCrypto firstNode createOnce).store
    (∀ proposer, activeRequestCountForProposer store proposer ≤ maxActiveVotingsPerProposer) ∧
      ∀ h h' row row' instruction, store.requests.lookup h = some row → store.requests.lookup h' = some row' →
        row.executionConfirmed = false → row'.executionConfirmed = false →
          storedInstruction row.message = some instruction → storedInstruction row'.message = some instruction →
            h = h' := by
  apply active_proposals_unique
  · intro action hmem
    rw [List.mem_singleton.mp hmem]
    trivial
  · intro action hmem
    rw [List.mem_singleton.mp hmem]
    exact splitInTwo_canonical

def proposeSplit (request : NetworkVoteRequest) : NodeMessage := NodeMessage.newVotingRequest request 100

def twoForms : List VotingNodeAction :=
  [.handleRequest (proposeSplit splitInTwo.request) (key 2) 100, .handleRequest (proposeSplit paddedSplit) (key 2) 100]

def twoFormsStore : Store := ((new [key 1, key 2, key 3]).run plainCrypto firstNode twoForms).store

def proposalHash (request : NetworkVoteRequest) : Bytes32 := (proposeSplit request).hash plainCrypto.digest

theorem stored_row (store : Store) (h : Bytes32) (message : Bytes)
    (hrow : (store.requests.lookup h).map (fun row => (row.message, row.executionConfirmed)) = some (message, false)) :
    ∃ row, store.requests.lookup h = some row ∧ row.message = message ∧ row.executionConfirmed = false := by
  obtain ⟨row, hlookup, hcolumns⟩ := Option.map_eq_some_iff.mp hrow
  exact ⟨row, hlookup, congrArg Prod.fst hcolumns, congrArg Prod.snd hcolumns⟩

/-- A member proposes one split in two encodings. -/
theorem padded_duplicate_stored : ¬∀ (V : Voting) (peers : List Bytes32) (actions : List VotingNodeAction),
    (∀ action ∈ actions, IsProposal action) →
      let store := ((new peers).run plainCrypto V actions).store
      (∀ proposer, activeRequestCountForProposer store proposer ≤ maxActiveVotingsPerProposer) ∧
        ∀ h h' row row' instruction, store.requests.lookup h = some row → store.requests.lookup h' = some row' →
          row.executionConfirmed = false → row'.executionConfirmed = false →
            storedInstruction row.message = some instruction → storedInstruction row'.message = some instruction →
              h = h' := by
  intro hclaim
  have hproposals : ∀ action ∈ twoForms, IsProposal action := by
    intro action hmem
    rcases List.mem_pair.mp hmem with rfl | rfl
    · trivial
    · trivial
  have hunique := (hclaim firstNode [key 1, key 2, key 3] twoForms hproposals).2
  have hfirst : (twoFormsStore.requests.lookup (proposalHash splitInTwo.request)).map
      (fun row => (row.message, row.executionConfirmed)) =
        some (NodeMessage.codec.encode (proposeSplit splitInTwo.request), false) := by decide +kernel
  have hsecond : (twoFormsStore.requests.lookup (proposalHash paddedSplit)).map
      (fun row => (row.message, row.executionConfirmed)) =
        some (NodeMessage.codec.encode (proposeSplit paddedSplit), false) := by decide +kernel
  obtain ⟨row, hrow, hmessage, hopen⟩ := stored_row twoFormsStore (proposalHash splitInTwo.request)
    (NodeMessage.codec.encode (proposeSplit splitInTwo.request)) hfirst
  obtain ⟨row', hrow', hmessage', hopen'⟩ := stored_row twoFormsStore (proposalHash paddedSplit)
    (NodeMessage.codec.encode (proposeSplit paddedSplit)) hsecond
  unfold twoFormsStore at hrow hrow'
  have hsame := hunique _ _ row row' splitInTwo hrow hrow' hopen hopen' (by rw [hmessage]; decide +kernel)
    (by rw [hmessage']; decide +kernel)
  exact absurd hsame (by decide +kernel)

end Example
end VotingNode

end PriceOracle
