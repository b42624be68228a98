import PriceOracle.Voting
import PriceOracle.VotingStatements

/-!
# What the voting handlers do

Each handler as the statements that it runs and what its checks say before them: an invariant
of the tables that these statements keep is kept by the handler, whether it succeeds
or fails.
-/

namespace PriceOracle

namespace Voting

open Db

variable {C : VotingCrypto} {V : Voting}

section Messages

/-- What is read from a stored proposal is what was written. -/
theorem storedRequest_encode {message : NodeMessage} {request : NetworkVoteRequest}
    (h : storedRequest (NodeMessage.codec.encode message) = some request) :
    message.decodeVotingRequest = some request := by
  unfold storedRequest at h
  obtain ⟨message', hmessage, hrequest⟩ := Option.bind_eq_some_iff.mp h
  rwa [Codec.fromBytes_encode hmessage] at hrequest

theorem decodeVotingRequest_of_proposal {message : NodeMessage} {request : NetworkVoteRequest} {createdAt : Option ℕ}
    (h : message.decodeVotingProposal = some (request, createdAt)) : message.decodeVotingRequest = some request := by
  unfold NodeMessage.decodeVotingRequest
  rw [h]
  rfl

/-- Whatever form the payload is read in, it begins with the request. -/
theorem decodeVotingRequest_eq {message : NodeMessage} {request request' : NetworkVoteRequest} {rest : Bytes}
    (hpayload : message.payload = NetworkVoteRequest.codec.encode request ++ rest)
    (h : message.decodeVotingRequest = some request') : request' = request := by
  have hfirst : ∀ p, NetworkVoteRequest.codec.decode message.payload = some p → p.1 = request := by
    intro p hp
    rw [hpayload] at hp
    rcases NetworkVoteRequest.codec.decode_encode request rest with hsome | hnone
    · rw [hsome] at hp
      obtain rfl := Option.some.inj hp
      rfl
    · rw [hnone] at hp
      cases hp
  have hpair : ∀ {A B : Type} (c : Codec A) (fields : B → NetworkVoteRequest × A) (mk : NetworkVoteRequest × A → B)
      (hmk : ∀ b, mk (fields b) = b) (b : B), message.decodePayload
        (Codec.struct (NetworkVoteRequest.codec.pair c) fields mk hmk) = some b →
          ∃ a, b = mk (request, a) := by
    intro A B c fields mk hmk b hb
    simp only [NodeMessage.decodePayload, Codec.fromBytes, Codec.struct, Codec.pair] at hb
    cases hp : NetworkVoteRequest.codec.decode message.payload with
    | none =>
      rw [hp] at hb
      cases hb
    | some p =>
      rw [hp] at hb
      simp only at hb
      cases ha : c.decode p.2 with
      | none =>
        rw [ha] at hb
        cases hb
      | some a =>
        rw [ha, hfirst p hp] at hb
        exact ⟨a.1, (Option.some.inj hb).symm⟩
  unfold NodeMessage.decodeVotingRequest NodeMessage.decodeVotingProposal at h
  cases hsigned : message.decodePayload SignedVotingProposal.codec with
  | some proposal =>
    rw [hsigned] at h
    obtain ⟨a, rfl⟩ := hpair _ _ _ _ proposal hsigned
    exact (Option.some.inj h).symm
  | none =>
    rw [hsigned] at h
    simp only at h
    cases hunsigned : message.decodePayload VotingProposal.codec with
    | some proposal =>
      rw [hunsigned] at h
      obtain ⟨a, rfl⟩ := hpair _ _ _ _ proposal hunsigned
      exact (Option.some.inj h).symm
    | none =>
      rw [hunsigned] at h
      simp only [Option.map_map, Option.map_eq_some_iff, Function.comp_apply] at h
      obtain ⟨q, hq, rfl⟩ := h
      unfold NodeMessage.decodePayload Codec.fromBytes at hq
      obtain ⟨p, hp, rfl⟩ := Option.map_eq_some_iff.mp hq
      exact hfirst p hp

end Messages

section Checks

/-- What `ensure_unique_active_request` has found in the tables it leaves. -/
structure Checked (C : VotingCrypto) (request : NetworkVoteRequest) (proposer : Option Bytes32) (blockHeight : ℕ)
    (store : Store) : Prop where
  height : blockHeight < 2 ^ 63
  fresh : ∀ messageHash row, store.requests.lookup messageHash = some row →
    VotingStore.isExpired blockHeight votingTimeoutBlocks row = false
  others : ∀ messageHash row, store.requests.lookup messageHash = some row → row.executionConfirmed = false →
    ensureOther C (request.canonicalHash C.digest) blockHeight row = .ok ⟨⟩
  quota : activeRequestCountForProposer store proposer < maxActiveVotingsPerProposer

/-- The statements of a proposal keep `I`; its request meets `K`. -/
structure Keeps (C : VotingCrypto) (K : NetworkVoteRequest → Prop) (I : Store → Prop) : Prop where
  delete : ∀ blockHeight deleted s t, I s →
    (VotingStore.deleteExpired blockHeight votingTimeoutBlocks).Returns s deleted t → I t
  insert : ∀ messageHash bytes request proposer blockHeight done s t, I s → K request →
    (∀ request', storedRequest bytes = some request' → request' = request) →
      Checked C request proposer blockHeight s →
        (VotingStore.insertSynchronizedRequest messageHash bytes proposer blockHeight).Returns s done t → I t

theorem decoded_ok {A : Type} {o : Option A} {a : A} (h : decoded o = .ok a) : o = some a := by
  cases o with
  | none => cases h
  | some a' =>
    obtain rfl := Except.ok.inj h
    rfl

theorem forM_except_ok {X : Type} {f : X → Except VotingError Unit} {xs : List X} (h : xs.forM f = .ok ⟨⟩) :
    ∀ x ∈ xs, f x = .ok ⟨⟩ := by
  induction xs with
  | nil => exact fun _ hx => nomatch hx
  | cons x xs ih =>
    cases hx : f x with
    | error e =>
      simp only [List.forM_eq_forM, List.forM_cons, hx] at h
      cases h
    | ok u =>
      simp only [List.forM_eq_forM, List.forM_cons, hx] at h
      intro y hy
      rcases List.mem_cons.mp hy with rfl | hmem
      · exact hx
      · exact ih h y hmem

variable {K : NetworkVoteRequest → Prop} {I : Store → Prop}

theorem mem_entries_of_lookup {K V : Type} [DecidableEq K] {t : Table K V} {k : K} {v : V}
    (h : t.lookup k = some v) : (⟨k, v⟩ : Sigma fun _ : K => V) ∈ t.entries :=
  AList.mem_lookup_iff.mp h

theorem deleteExpired_height {W B : Type} [DecidableEq W] {current timeout deleted : ℕ} {s t : VotingStore W B}
    (h : (VotingStore.deleteExpired current timeout).Returns s deleted t) : current < 2 ^ 63 := by
  unfold VotingStore.deleteExpired at h
  obtain ⟨_, _, hheight, -⟩ := returns_bind.mp h
  unfold VotingStore.heightToI64 at hheight
  rcases returns_ite.mp hheight with ⟨hlt, -⟩ | ⟨-, hthrow⟩
  · exact hlt
  · exact absurd hthrow returns_throw

theorem ensureUniqueActiveRequest_triple (hkeeps : Keeps C K I) (request : NetworkVoteRequest)
    (proposer : Option Bytes32) (blockHeight : ℕ) :
    Triple I (ensureUniqueActiveRequest C request proposer blockHeight)
      (fun _ s => I s ∧ Checked C request proposer blockHeight s) I := by
  unfold ensureUniqueActiveRequest
  apply triple_bind (R := fun _ s => I s ∧ blockHeight < 2 ^ 63 ∧ ∀ messageHash row,
    s.requests.lookup messageHash = some row → VotingStore.isExpired blockHeight votingTimeoutBlocks row = false)
  · apply triple_statement _ fun _ => id
    intro s deleted t hs hdelete
    refine ⟨hkeeps.delete blockHeight deleted s t hs hdelete, deleteExpired_height hdelete, ?_⟩
    intro messageHash row hrow
    rw [(VotingStore.deleteExpired_returns hdelete).1, Table.lookup_filterRows] at hrow
    simpa using (Option.filter_eq_some_iff.mp hrow).2
  intro _
  apply triple_bind triple_get
  intro store
  apply triple_bind (R := fun _ s => store = s ∧ (I s ∧ blockHeight < 2 ^ 63 ∧ (∀ messageHash row,
    s.requests.lookup messageHash = some row → VotingStore.isExpired blockHeight votingTimeoutBlocks row = false)) ∧
      ∀ messageHash row, s.requests.lookup messageHash = some row → row.executionConfirmed = false →
        ensureOther C (request.canonicalHash C.digest) blockHeight row = .ok ⟨⟩)
  · apply triple_check _ fun _ h => h.2.1
    rintro ⟨⟩ hloop s ⟨rfl, hs⟩
    refine ⟨rfl, hs, fun messageHash row hrow hopen => forM_except_ok hloop row ?_⟩
    rw [List.mem_filter]
    exact ⟨List.mem_map.mpr ⟨_, mem_entries_of_lookup hrow, rfl⟩, by rw [hopen]; rfl⟩
  intro _
  split_ifs with hquota
  · exact triple_throw fun _ h => h.2.1.1
  · apply triple_pure
    rintro s ⟨rfl, ⟨hs, hheight, hfresh⟩, hothers⟩
    exact ⟨hs, hheight, hfresh, hothers, Nat.lt_of_not_le hquota⟩

end Checks

section Proposals

variable {K : NetworkVoteRequest → Prop} {I : Store → Prop} {peers : List Bytes32} {blockHeight : ℕ}

theorem create_triple (hkeeps : Keeps C K I) {request : NetworkVoteRequest} (hrequest : K request)
    (signature : Bytes) : Triple I (create C V peers request signature blockHeight) (fun _ => I) I := by
  unfold create
  apply triple_bind (R := fun _ => I)
  · exact triple_check (fun _ _ _ => id) fun _ => id
  intro _
  split_ifs
  · apply triple_bind (ensureUniqueActiveRequest_triple hkeeps request (some V.publicKey) blockHeight)
    intro _
    apply triple_bind (R := fun _ => I)
    · apply triple_statement _ fun _ h => h.1
      intro s inserted t hs hinsert
      refine hkeeps.insert _ _ request _ _ inserted s t hs.1 hrequest (fun request' hread => ?_) hs.2 hinsert
      exact decodeVotingRequest_eq rfl (storedRequest_encode hread)
    · intro inserted
      split_ifs
      · exact triple_pure fun _ => id
      · exact triple_throw fun _ => id
  · exact triple_throw fun _ => id

theorem checkProposal_ok {message : NodeMessage} {sender : Bytes32} {request : NetworkVoteRequest}
    (h : checkProposal C V peers message sender blockHeight = .ok request) :
    message.decodeVotingRequest = some request := by
  unfold checkProposal at h
  split_ifs at h
  obtain ⟨⟨request', createdAt⟩, hdecode, hrest⟩ := Db.except_bind_ok.mp h
  have hproposal : message.decodeVotingProposal = some (request', createdAt) := decoded_ok hdecode
  obtain ⟨_, -, hrest⟩ := Db.except_bind_ok.mp hrest
  obtain ⟨_, -, hrest⟩ := Db.except_bind_ok.mp hrest
  obtain ⟨_, -, hrest⟩ := Db.except_bind_ok.mp hrest
  obtain ⟨_, -, hrest⟩ := Db.except_bind_ok.mp hrest
  split_ifs at hrest
  obtain rfl := Except.ok.inj hrest
  exact decodeVotingRequest_of_proposal hproposal

theorem handleRequest_triple (hkeeps : Keeps C K I) {message : NodeMessage}
    (hmessage : ∀ request, message.decodeVotingRequest = some request → K request) (sender : Bytes32) :
    Triple I (handleRequest C V peers message sender blockHeight) (fun _ => I) I := by
  unfold handleRequest
  apply triple_bind (R := fun request s => message.decodeVotingRequest = some request ∧ I s)
  · exact triple_check (fun request hok s hs => ⟨checkProposal_ok hok, hs⟩) fun _ => id
  intro request
  apply triple_of_imp
  intro hdecode
  apply triple_bind (ensureUniqueActiveRequest_triple hkeeps request (some sender) blockHeight)
  intro _
  apply triple_bind (R := fun _ => I) _ fun _ => triple_pure fun _ => id
  apply triple_statement _ fun _ h => h.1
  intro s inserted t hs hinsert
  refine hkeeps.insert _ _ request _ _ inserted s t hs.1 (hmessage request hdecode) (fun request' hread => ?_)
    hs.2 hinsert
  exact Option.some.inj ((storedRequest_encode hread).symm.trans hdecode)

theorem checkSynchronized_ok {message : NodeMessage} {sender : Bytes32} {request : NetworkVoteRequest}
    {proposer : Option Bytes32}
    (h : checkSynchronized C V peers message sender blockHeight = .ok (some (request, proposer))) :
    message.decodeVotingRequest = some request := by
  unfold checkSynchronized at h
  obtain ⟨_, -, hrest⟩ := Db.except_bind_ok.mp h
  obtain ⟨⟨request', createdAt⟩, hdecode, hrest⟩ := Db.except_bind_ok.mp hrest
  have hproposal : message.decodeVotingProposal = some (request', createdAt) := decoded_ok hdecode
  simp only at hrest
  split_ifs at hrest
  · cases hrest
  obtain ⟨_, -, hrest⟩ := Db.except_bind_ok.mp hrest
  obtain ⟨_, -, hrest⟩ := Db.except_bind_ok.mp hrest
  obtain ⟨origin, -, hrest⟩ := Db.except_bind_ok.mp hrest
  have hrequest : request' = request := by
    cases origin with
    | none => exact congrArg Prod.fst (Option.some.inj (Except.ok.inj hrest))
    | some origin =>
      obtain ⟨_, -, hrest⟩ := Db.except_bind_ok.mp hrest
      exact congrArg Prod.fst (Option.some.inj (Except.ok.inj hrest))
  rw [← hrequest]
  exact decodeVotingRequest_of_proposal hproposal

theorem decodeSynchronized_ok {messageHash : Bytes32} {bytes : Bytes} {message : NodeMessage}
    (h : decodeSynchronized C messageHash bytes = .ok message) :
    NodeMessage.codec.fromBytes bytes = some message ∧ message.hash C.digest = messageHash := by
  unfold decodeSynchronized at h
  obtain ⟨message', hdecode, hrest⟩ := Db.except_bind_ok.mp h
  split_ifs at hrest with hcheck
  obtain rfl := Except.ok.inj hrest
  refine ⟨decoded_ok hdecode, ?_⟩
  by_contra hne
  exact hcheck (Or.inr (Or.inr hne))

theorem acceptSynchronizedRequest_triple (hkeeps : Keeps C K I) {bytes : Bytes}
    (hbytes : ∀ request, storedRequest bytes = some request → K request) (messageHash sender : Bytes32) :
    Triple I (acceptSynchronizedRequest C V peers messageHash bytes sender blockHeight) (fun _ => I) I := by
  unfold acceptSynchronizedRequest
  apply triple_bind (R := fun message s => NodeMessage.codec.fromBytes bytes = some message ∧ I s)
  · exact triple_check (fun message hok s hs => ⟨(decodeSynchronized_ok hok).1, hs⟩) fun _ => id
  intro message
  apply triple_of_imp
  intro hmessage
  apply triple_bind triple_get
  intro store
  cases store.requests.lookup messageHash with
  | some row => exact triple_pure fun _ h => h.2
  | none =>
    apply triple_bind (R := fun checked s =>
      (∀ request proposer, checked = some (request, proposer) → storedRequest bytes = some request) ∧ I s)
    · apply triple_check _ fun _ h => h.2
      intro checked hok s hs
      refine ⟨fun request proposer hchecked => ?_, hs.2⟩
      rw [hchecked] at hok
      unfold storedRequest
      rw [hmessage]
      exact checkSynchronized_ok hok
    intro checked
    apply triple_of_imp
    intro hread
    cases checked with
    | none => exact triple_pure fun _ => id
    | some entry =>
      obtain ⟨request, proposer⟩ := entry
      have hrequest := hread request proposer rfl
      apply triple_bind (R := fun _ => I)
      · exact triple_statement (fun s deleted t hs hdelete => hkeeps.delete _ deleted s t hs hdelete) fun _ => id
      intro _
      apply triple_bind triple_get
      intro store
      split_ifs
      · exact triple_pure fun _ h => h.2
      · apply triple_bind ((ensureUniqueActiveRequest_triple hkeeps request proposer blockHeight).weaken fun _ h => h.2)
        intro _
        apply triple_bind (R := fun _ => I) _ fun _ => triple_pure fun _ => id
        apply triple_statement _ fun _ h => h.1
        intro s inserted t hs hinsert
        refine hkeeps.insert _ _ request _ _ inserted s t hs.1 (hbytes request hrequest) (fun request' hread' => ?_)
          hs.2 hinsert
        exact Option.some.inj (hread'.symm.trans hrequest)

end Proposals

section Approvals

variable {I J : Store → Prop} {peers : List Bytes32} {blockHeight : ℕ}

/-- What the checks of an approval establish. -/
structure ApprovalChecked (C : VotingCrypto) (peers : List Bytes32) (approval : ApproveVotingRequest)
    (requestHash : Bytes32) : Prop where
  member : approval.publicKey ∈ peers
  length : approval.signature.length = 64
  verified : C.verify approval.signature requestHash approval.publicKey = true

theorem checkApproval_ok {approval : ApproveVotingRequest} {requestHash : Bytes32}
    (h : checkApproval C peers approval requestHash = .ok ⟨⟩) : ApprovalChecked C peers approval requestHash := by
  unfold checkApproval at h
  split_ifs at h with hkey hmember hlength hverify
  exact ⟨hmember, not_not.mp hlength, hverify⟩

theorem acceptApproval_triple {message : NodeMessage} {approval : ApproveVotingRequest} {requestHash : Bytes32}
    (hsame : ∀ s, I s → J s) (hinsert : ∀ s inserted t, I s → ApprovalChecked C peers approval requestHash →
      (VotingStore.insertApproval requestHash approval.publicKey (NodeMessage.codec.encode message) blockHeight
        (requiredApprovals peers.length)).Returns s inserted t → J t) :
    Triple I (acceptApproval C peers message approval requestHash blockHeight) (fun _ => J) J := by
  unfold acceptApproval
  apply triple_bind (R := fun _ s => ApprovalChecked C peers approval requestHash ∧ I s)
  · exact triple_check (fun _ hok s hs => ⟨checkApproval_ok hok, hs⟩) hsame
  intro _
  apply triple_of_imp
  intro hchecked
  apply triple_bind triple_get
  intro store
  split_ifs
  · apply triple_bind (R := fun _ => J)
    · apply triple_statement _ fun s h => hsame s h.2
      intro s inserted t hs hreturns
      exact hinsert s inserted t hs.2 hchecked hreturns
    · intro inserted
      split_ifs
      · exact triple_pure fun _ => id
      · exact triple_throw fun _ => id
  · exact triple_throw fun s h => hsame s h.2

end Approvals

end Voting

end PriceOracle
