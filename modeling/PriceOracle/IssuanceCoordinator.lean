import PriceOracle.IssuanceLeader
import PriceOracle.IssuedRequests
import PriceOracle.RoundFilling

/-!
# Rounds of a coordinator

A coordinator stores the batches that its API accepts, prepares rounds of them, broadcasts and marks. The
store keeps each batch under the hash of its bytes with its fee UTXOs reserved for it, so that whatever
round is prepared in a run, its messages pass the checks of every signer whose clock is close.
-/

namespace PriceOracle

namespace Issuance

variable {W T : Type} {view : RoundView W T} {requestLimit : ℕ} {considered : List (W × StoredUserRequest W)}
  {included : List (Accepted W)} {rate : Option PriceFeedData} {failed : List W}

section Walks

/-- An included batch is read, and its fee UTXOs are held. -/
theorem Walked.passed (hwalk : Walked view requestLimit considered included rate failed) :
    ∀ batch ∈ included, view.validateEncodedRequest batch.stored.request = .ok batch.request ∧
      List.Forall₂ (FeeHeld view batch.request.publicKey) batch.request.feeUtxos batch.feeOutputs := by
  induction hwalk with
  | start => simp
  | agedOut _ _ _ ih | waits _ _ _ _ ih | feeLost _ _ _ _ _ _ ih => exact ih
  | joins _ hpasses _ _ ih =>
    intro batch hbatch
    rcases List.mem_append.mp hbatch with hold | hlast
    · exact ih batch hold
    · rw [List.mem_singleton.mp hlast]
      exact ⟨hpasses.reads, hpasses.held⟩

/-- A rate that a round carries stays until its end. -/
theorem Carries.kept {requestHash : W} {held : PriceFeedData} {namedFeed : Option UInt32} {carried : Option PriceFeedData}
    (h : Carries view requestHash (some held) namedFeed carried) : carried = some held := by
  cases h <;> rfl

/-- The included batches that name a feed name that of the round's rate. -/
theorem Walked.named (hwalk : Walked view requestLimit considered included rate failed)
    (hprices : ∀ requestHash feed rate, view.price requestHash feed = some rate → rate.feedId = feed) :
    ∀ batch ∈ included, ∀ feed, batch.request.namedFeed = some feed → ∃ own, rate = some own ∧ own.feedId = feed := by
  induction hwalk with
  | start => simp
  | agedOut _ _ _ ih | waits _ _ _ _ ih | feeLost _ _ _ _ _ _ ih => exact ih
  | @joins _ _ rate _ row request carried _ _ hpasses _ _ ih =>
    intro batch hbatch feed hfeed
    rcases List.mem_append.mp hbatch with hold | hlast
    · obtain ⟨own, rfl, hown⟩ := ih batch hold feed hfeed
      exact ⟨own, hpasses.carries.kept, hown⟩
    · rw [List.mem_singleton.mp hlast] at hfeed
      have hcarries := hpasses.carries
      rw [show request.namedFeed = some feed from hfeed] at hcarries
      cases hcarries with
      | held own => exact ⟨own, rfl, rfl⟩
      | own hprice husable => exact ⟨_, rfl, hprices _ _ _ hprice⟩

theorem Carries.usable {requestHash : W} {namedFeed : Option UInt32} {carried : Option PriceFeedData}
    (h : Carries view requestHash rate namedFeed carried)
    (hrate : ∀ own, rate = some own → min (view.timestamp + signingSessionTimeout) (2 ^ 64 - 1) < own.validUntil.toNat) :
    ∀ own, carried = some own → min (view.timestamp + signingSessionTimeout) (2 ^ 64 - 1) < own.validUntil.toNat := by
  cases h with
  | unpriced => exact hrate
  | held => exact hrate
  | own hprice husable =>
    rintro own ⟨⟩
    exact husable

/-- The rate of a round outlives its signing session. -/
theorem Walked.usable (hwalk : Walked view requestLimit considered included rate failed) :
    ∀ own, rate = some own → min (view.timestamp + signingSessionTimeout) (2 ^ 64 - 1) < own.validUntil.toNat := by
  induction hwalk with
  | start => simp
  | agedOut _ _ _ ih | waits _ _ _ _ ih | feeLost _ _ _ _ _ _ ih => exact ih
  | joins _ hpasses _ _ ih => exact hpasses.carries.usable ih

/-- The included batches are different pending requests of the queue. -/
theorem Filled.pending [DecidableEq W] [LinearOrder W] {store next : UserRequestStore W}
    {rest : List (W × StoredUserRequest W)}
    (h : Filled view requestLimit store considered rest included rate failed next) :
    (∀ batch ∈ included, store.requests.lookup batch.requestHash = some batch.stored ∧ batch.stored.status = .pending) ∧
      included.Pairwise fun a b => a.requestHash ≠ b.requestHash := by
  have hsub := h.walked.sublist.trans (List.sublist_append_left considered rest)
  rw [← h.queue] at hsub
  have hmem : ∀ batch ∈ included,
      store.requests.lookup batch.requestHash = some batch.stored ∧ batch.stored.status = .pending :=
    fun batch hbatch => mem_pendingQueue.mp (hsub.subset (List.mem_map_of_mem hbatch))
  refine ⟨hmem, ?_⟩
  have hordered := List.pairwise_map.mp (pairwise_pendingQueue.sublist hsub)
  refine hordered.imp_of_mem fun {a b} ha hb hbefore hsame => ?_
  have hrow : a.stored = b.stored := by
    have hstored := (hmem b hb).1
    rw [← hsame, (hmem a ha).1] at hstored
    exact Option.some.inj hstored
  rw [hsame, hrow] at hbefore
  exact before_irrefl hbefore

end Walks

end Issuance

namespace IssuanceRound

open Issuance (okOr okOr_eq_ok_iff UserRequestError MarkedFailed pendingQueue mem_pendingQueue)
open UserRequestStore (releaseFeeUtxos)

section Filing

variable (libraries : IssuanceLibraries)

/-- The bytes and the fee UTXOs of a new request are those that the API has read. Nothing else adds a request. -/
def Submitted : UserRequestAction Bytes32 → Prop
  | .insertPending requestHash request _ feeUtxos => libraries.sha256 request = requestHash.toList ∧
      ∃ user read feed, validateEncodedRequest libraries request = .ok (user, read, feed) ∧ feeUtxos = read.map storedFeeUtxo
  | .observeProcessing _ _ _ _ => False
  | _ => True

/-- A stored batch is filed under the hash of its bytes, and while it is pending its fee UTXOs are its own. -/
structure Filed (store : UserRequestStore Bytes32) (requestHash : Bytes32) (row : StoredUserRequest Bytes32) : Prop where
  hash : libraries.sha256 row.request = requestHash.toList
  reserved : row.status = .pending → ∀ user read feed, validateEncodedRequest libraries row.request = .ok (user, read, feed) →
    ∀ feeUtxo ∈ read, store.feeUtxos.lookup (storedFeeUtxo feeUtxo) = some requestHash

def AllFiled (store : UserRequestStore Bytes32) : Prop :=
  ∀ requestHash row, store.requests.lookup requestHash = some row → Filed libraries store requestHash row

variable {libraries} {store next : UserRequestStore Bytes32} {requestHash : Bytes32}

theorem AllFiled.update (h : AllFiled libraries store) {row changed : StoredUserRequest Bytes32}
    (hrow : store.requests.lookup requestHash = some row) (hbytes : changed.request = row.request)
    (hstatus : changed.status = .pending → row.status = .pending) :
    AllFiled libraries { store with requests := store.requests.insert requestHash changed } := by
  intro other kept hkept
  rw [Table.lookup_insert_eq] at hkept
  split_ifs at hkept with hsame
  · cases hkept
    subst hsame
    have hfiled := h other row hrow
    refine ⟨by rw [hbytes]; exact hfiled.hash, fun hpending user read feed hread => ?_⟩
    rw [hbytes] at hread
    exact hfiled.reserved (hstatus hpending) user read feed hread
  · exact ⟨(h other kept hkept).hash, (h other kept hkept).reserved⟩

theorem AllFiled.release (h : AllFiled libraries store)
    (hended : ∀ row, store.requests.lookup requestHash = some row → row.status ≠ .pending) :
    AllFiled libraries (releaseFeeUtxos requestHash store) := by
  intro other row hrow
  have hfiled := h other row hrow
  refine ⟨hfiled.hash, fun hpending user read feed hread feeUtxo hmem => ?_⟩
  have hother : other ≠ requestHash := by
    rintro rfl
    exact hended row hrow hpending
  have hlookup := hfiled.reserved hpending user read feed hread feeUtxo hmem
  simp only [releaseFeeUtxos, Table.lookup_filterRows, hlookup, Option.filter, decide_eq_true_eq]
  exact if_pos hother

theorem AllFiled.marked (h : AllFiled libraries store) {failed : List Bytes32} (hmarked : MarkedFailed store failed next) :
    AllFiled libraries next := by
  intro requestHash row hrow
  by_cases hfailed : requestHash ∈ failed
  · obtain ⟨old, reason, hold, -, hended⟩ := hmarked.ended requestHash hfailed
    obtain rfl := Option.some.inj (hended.symm.trans hrow)
    exact ⟨(h requestHash old hold).hash, fun hpending => absurd hpending (by simp)⟩
  · rw [hmarked.kept requestHash hfailed] at hrow
    have hfiled := h requestHash row hrow
    refine ⟨hfiled.hash, fun hpending user read feed hread feeUtxo hmem => ?_⟩
    rw [hmarked.reserved, hfiled.reserved hpending user read feed hread feeUtxo hmem]
    simp [Option.filter, hfailed]

theorem AllFiled.updateRequest (h : AllFiled libraries store) {statuses : List UserRequestStatus}
    {change : StoredUserRequest Bytes32 → StoredUserRequest Bytes32} {updated : Bool}
    (hrun : (UserRequestStore.updateRequest requestHash statuses change).Returns store updated next)
    (hchange : ∀ row, (change row).request = row.request ∧ (change row).status ≠ .pending) :
    AllFiled libraries next := by
  obtain ⟨-, rfl⟩ | ⟨-, row, hrow, -, rfl⟩ := UserRequestStore.returns_updateRequest hrun
  · exact h
  · exact h.update hrow (hchange row).1 fun hpending => absurd hpending (hchange row).2

theorem AllFiled.endRequest (h : AllFiled libraries store) {statuses : List UserRequestStatus}
    {change : StoredUserRequest Bytes32 → StoredUserRequest Bytes32} {updated : Bool}
    (hrun : (UserRequestStore.endRequest requestHash statuses change).Returns store updated next)
    (hchange : ∀ row, (change row).request = row.request ∧ (change row).status ≠ .pending) :
    AllFiled libraries next := by
  obtain ⟨-, rfl⟩ | ⟨-, row, hrow, -, rfl⟩ := UserRequestStore.returns_endRequest hrun
  · exact h
  · refine (h.update hrow (hchange row).1 fun hpending => absurd hpending (hchange row).2).release fun ended hended => ?_
    rw [AList.lookup_insert] at hended
    cases hended
    exact (hchange row).2

theorem AllFiled.insertPending (h : AllFiled libraries store) {request : List UInt8} {blockHeight : ℕ}
    {feeUtxos : List (FeeUtxo Bytes32)} {result : InsertPendingResult Bytes32}
    (hsubmitted : Submitted libraries (.insertPending requestHash request blockHeight feeUtxos))
    (hrun : (UserRequestStore.insertPending requestHash request blockHeight feeUtxos).Returns store result next) :
    AllFiled libraries next := by
  obtain ⟨-, rfl⟩ | ⟨-, hnew, hrequests, hfree, hlookup⟩ := UserRequestStore.returns_insertPending hrun
  · exact h
  obtain ⟨hhash, user, read, feed, hread, rfl⟩ := hsubmitted
  intro other row hrow
  rw [hrequests, Table.lookup_insert_eq] at hrow
  split_ifs at hrow with hsame
  · cases hrow
    refine ⟨by rw [hsame]; exact hhash, fun _ user' read' feed' hread' feeUtxo hmem => ?_⟩
    obtain ⟨-, rfl, -⟩ := Prod.mk.injEq .. ▸ Except.ok.inj (hread.symm.trans hread')
    rw [hlookup, if_pos (List.mem_map_of_mem hmem), hsame]
  · have hfiled := h other row hrow
    refine ⟨hfiled.hash, fun hpending user' read' feed' hread' feeUtxo hmem => ?_⟩
    have hkept := hfiled.reserved hpending user' read' feed' hread' feeUtxo hmem
    rw [hlookup, if_neg, hkept]
    intro hmem'
    rw [hfree _ hmem'] at hkept
    cases hkept

theorem AllFiled.program (h : AllFiled libraries store) {action : UserRequestAction Bytes32}
    (hsubmitted : Submitted libraries action) {made : List (Bytes32 × FeeUtxo Bytes32)}
    (hrun : (UserRequestRun.program action).Returns store made next) : AllFiled libraries next := by
  cases action with
  | insertPending requestHash request blockHeight feeUtxos =>
    obtain ⟨result, u, hinsert, hpure⟩ := Db.returns_bind.mp hrun
    obtain ⟨-, rfl⟩ := Db.returns_pure.mp hpure
    exact h.insertPending hsubmitted hinsert
  | observeProcessing requestHash request blockHeight payload => exact absurd hsubmitted id
  | markProcessing requestHash payload executionTx =>
    obtain ⟨_, u, hmark, hpure⟩ := Db.returns_bind.mp hrun
    obtain ⟨-, rfl⟩ := Db.returns_pure.mp hpure
    exact h.updateRequest hmark fun row => ⟨rfl, by simp⟩
  | markIncluded requestHash blockHeight blockHash =>
    obtain ⟨_, u, hmark, hpure⟩ := Db.returns_bind.mp hrun
    obtain ⟨-, rfl⟩ := Db.returns_pure.mp hpure
    unfold UserRequestStore.markIncluded at hmark
    obtain ⟨_, v, hencode, hupdate⟩ := Db.returns_bind.mp hmark
    obtain ⟨-, rfl, rfl⟩ := UserRequestStore.returns_encodeHeight.mp hencode
    exact h.updateRequest hupdate fun row => ⟨rfl, by simp⟩
  | markOrphaned requestHash =>
    obtain ⟨_, u, hmark, hpure⟩ := Db.returns_bind.mp hrun
    obtain ⟨-, rfl⟩ := Db.returns_pure.mp hpure
    exact h.updateRequest hmark fun row => ⟨rfl, by simp⟩
  | markExecuted requestHash =>
    obtain ⟨_, u, hmark, hpure⟩ := Db.returns_bind.mp hrun
    obtain ⟨-, rfl⟩ := Db.returns_pure.mp hpure
    exact h.endRequest hmark fun row => ⟨rfl, by simp⟩
  | markFailed requestHash reason =>
    obtain ⟨_, u, hmark, hpure⟩ := Db.returns_bind.mp hrun
    obtain ⟨-, rfl⟩ := Db.returns_pure.mp hpure
    exact h.endRequest hmark fun row => ⟨rfl, by simp⟩

theorem AllFiled.step {reserved : List (Bytes32 × FeeUtxo Bytes32)} (h : AllFiled libraries store)
    {action : UserRequestAction Bytes32} (hsubmitted : Submitted libraries action) :
    AllFiled libraries (UserRequestRun.step ⟨store, reserved⟩ action).store := by
  rcases UserRequestRun.step_cases ⟨store, reserved⟩ action with hsame | ⟨made, next, hreturns, hstep⟩
  · rw [hsame]
    exact h
  · rw [hstep]
    exact h.program hsubmitted hreturns

theorem AllFiled.markRound {T : Type} {payload : T → Bytes32 → List UInt8} {finalBytes : T → List UInt8} {transaction : T}
    {requestHashes : List Bytes32} (h : AllFiled libraries store) :
    AllFiled libraries (Issuance.markRound payload finalBytes transaction requestHashes store) := by
  unfold Issuance.markRound
  induction requestHashes generalizing store with
  | nil => exact h
  | cons first rest ih =>
    refine ih ?_
    dsimp only
    rcases Db.exec_atomic_cases (UserRequestStore.markProcessing first (payload transaction first) (finalBytes transaction))
      store with hsame | ⟨updated, hreturns⟩
    · rw [hsame]
      exact h
    · exact h.updateRequest hreturns fun row => ⟨rfl, by simp⟩

end Filing

section Candidates

variable {libraries : RoundLibraries} {programs : IssuancePrograms} {config : Issuance.ProtocolConfig} {leader : Leader}
  {stormEye : NetworkAsset Bytes32} {batch : Issuance.Accepted Bytes32} {decoded : DecodedBatch}
  {read : List (FeeUtxo (List UInt8))} {store next : UserRequestStore Bytes32}

/-- A batch that joined a round, as its bytes and the node say. -/
structure Decoded (libraries : RoundLibraries) (leader : Leader) (batch : Issuance.Accepted Bytes32) (decoded : DecodedBatch)
    (read : List (FeeUtxo (List UInt8))) : Prop where
  requestHash : decoded.requestHash = batch.requestHash
  encoded : decoded.encoded = batch.stored.request
  valid : validateEncodedRequest libraries.toIssuanceLibraries batch.stored.request =
    .ok (decoded.request, read, decoded.namedFeed)
  utxos : List.Forall₂ (fun feeUtxo utxo => getConfirmedFeeOutpoint leader (storedFeeUtxo feeUtxo) = .ok (some utxo))
    read decoded.feeUtxos

theorem decodeBatch_ok (h : decodeBatch libraries leader batch = .ok decoded) :
    ∃ read, Decoded libraries leader batch decoded read := by
  unfold decodeBatch at h
  obtain ⟨⟨user, read, feed⟩, hread, h⟩ := Db.except_bind_ok.mp h
  obtain ⟨utxos, hutxos, h⟩ := Db.except_bind_ok.mp h
  cases h
  refine ⟨read, rfl, rfl, mapError_ok.mp hread, (Loops.mapM_forall₂ hutxos).imp fun feeUtxo utxo hutxo => ?_⟩
  unfold resolvedFeeUtxo at hutxo
  obtain ⟨found, hfound, hutxo⟩ := Db.except_bind_ok.mp hutxo
  rw [okOr_eq_ok_iff] at hutxo
  rw [hfound, hutxo]

theorem explicitOutpoint_ok {outpoint : Bytes32 × ℕ} {output : GetTxOut} {utxo : Utxo Bytes32}
    (h : explicitOutpoint outpoint output = .ok utxo) : utxo.outpoint = outpoint ∧
      output = ⟨output.confirmations, some (some utxo.asset), some (some utxo.amount), some utxo.scriptPubkey⟩ := by
  unfold explicitOutpoint at h
  obtain ⟨asset, hasset, h⟩ := Db.except_bind_ok.mp h
  obtain ⟨parsed, hparsed, h⟩ := Db.except_bind_ok.mp h
  obtain ⟨value, hvalue, h⟩ := Db.except_bind_ok.mp h
  obtain ⟨amount, hamount, h⟩ := Db.except_bind_ok.mp h
  obtain ⟨script, hscript, h⟩ := Db.except_bind_ok.mp h
  obtain rfl := Except.ok.inj h
  rw [okOr_eq_ok_iff] at hasset hparsed hvalue hamount hscript
  obtain ⟨confirmations, shownAsset, shownValue, shownScript⟩ := output
  dsimp only at hasset hvalue hscript
  rw [hasset, hparsed, hvalue, hamount, hscript]
  exact ⟨rfl, rfl⟩

theorem getConfirmedFeeOutpoint_ok {feeUtxo : FeeUtxo Bytes32} {utxo : Utxo Bytes32}
    (h : getConfirmedFeeOutpoint leader feeUtxo = .ok (some utxo)) :
    utxo.outpoint = outpointOf feeUtxo ∧ Shows leader utxo := by
  unfold getConfirmedFeeOutpoint at h
  obtain ⟨shown, hshown, h⟩ := Db.except_bind_ok.mp h
  rw [mapError_ok] at hshown
  cases shown with
  | none => cases h
  | some output =>
    dsimp only at h
    by_cases hyoung : output.confirmations < Issuance.minFeeUtxoConfirmations
    · rw [if_pos hyoung] at h
      cases h
    rw [if_neg hyoung] at h
    cases hexplicit : explicitOutpoint (outpointOf feeUtxo) output with
    | error error =>
      rw [hexplicit] at h
      cases h
    | ok found =>
      rw [hexplicit] at h
      obtain rfl := Option.some.inj (Except.ok.inj h)
      obtain ⟨houtpoint, houtput⟩ := explicitOutpoint_ok hexplicit
      refine ⟨houtpoint, output.confirmations, ?_⟩
      rw [houtpoint, hshown, ← houtput]

/-- The fee UTXOs of a batch are outputs of its owner's account. -/
theorem Decoded.resolved (h : Decoded libraries leader batch decoded read) (hstormEye : leader.stormEye = some stormEye)
    (hhash : libraries.sha256 batch.stored.request = batch.requestHash.toList)
    (hreads : decodedRequest libraries.toIssuanceLibraries batch.stored.request = .ok batch.request)
    (hheld : List.Forall₂ (Issuance.FeeHeld (leaderView libraries programs config leader) batch.request.publicKey)
      batch.request.feeUtxos batch.feeOutputs) :
    decoded.namedFeed = batch.request.namedFeed ∧ ∃ owner, Resolved libraries.toIssuanceLibraries programs stormEye decoded
      ⟨decoded.request, read, owner⟩ := by
  obtain ⟨user, feeUtxos, owner, hvalid, howner, hkey, hfees⟩ := decodedRequest_ok hreads
  obtain ⟨rfl, rfl, hfeed⟩ : decoded.request = user ∧ read = feeUtxos ∧ decoded.namedFeed = batch.request.namedFeed := by
    simpa using h.valid.symm.trans hvalid
  refine ⟨hfeed, owner, ?_, ?_, rfl, howner, ?_⟩
  · rw [h.encoded, h.requestHash, hhash]
  · rw [h.encoded]
    exact h.valid
  have hlengths := (validateFeeUtxos_ok (validateEncodedRequest_ok hvalid).1).1
  rw [hfees] at hheld
  refine List.forall₂_iff_get.mpr ⟨h.utxos.length_eq, fun i hi hi' => ?_⟩
  have hfound := (List.forall₂_iff_get.mp h.utxos).2 i hi hi'
  have hmem : storedFeeUtxo (read.get ⟨i, hi⟩) ∈ read.map storedFeeUtxo := List.mem_map_of_mem (List.get_mem _ _)
  obtain ⟨output, -, houtput⟩ := Loops.forall₂_mem hheld hmem
  have hconfirmed := houtput.confirmed
  have hlength := hlengths _ (List.get_mem read ⟨i, hi⟩)
  simp only [leaderView] at hconfirmed
  rw [hfound] at hconfirmed
  cases hconfirmed
  refine ⟨?_, houtput.asset, ?_⟩
  · rw [feeOutpoint_stored hlength, (getConfirmedFeeOutpoint_ok hfound).1]
  · have hscript := houtput.script
    simp only [leaderView, hstormEye, Option.elim_some, hkey] at hscript
    exact hscript

/-- The fee UTXOs of a batch are reserved for it. -/
theorem Decoded.owned (h : Decoded libraries leader batch decoded read)
    (hfiled : Filed libraries.toIssuanceLibraries store batch.requestHash batch.stored)
    (hpending : batch.stored.status = .pending) :
    (∀ utxo ∈ decoded.feeUtxos, ∃ feeUtxo, utxo.outpoint = outpointOf feeUtxo ∧
      store.feeUtxos.lookup feeUtxo = some decoded.requestHash) ∧
    (decoded.feeUtxos.map Utxo.outpoint).Nodup := by
  obtain ⟨hlengths, hnodup⟩ := validateFeeUtxos_ok (validateEncodedRequest_ok h.valid).1
  constructor
  · intro utxo hutxo
    obtain ⟨feeUtxo, hmem, hfound⟩ := Loops.forall₂_mem h.utxos.flip hutxo
    refine ⟨storedFeeUtxo feeUtxo, (getConfirmedFeeOutpoint_ok hfound).1, ?_⟩
    rw [h.requestHash]
    exact hfiled.reserved hpending _ _ _ h.valid feeUtxo hmem
  · have houtpoints : decoded.feeUtxos.map Utxo.outpoint = read.map fun feeUtxo => outpointOf (storedFeeUtxo feeUtxo) := by
      have hutxos := h.utxos
      generalize decoded.feeUtxos = utxos at hutxos
      clear h hlengths hnodup
      induction hutxos with
      | nil => rfl
      | cons hfound _ ih => rw [List.map_cons, List.map_cons, ih, (getConfirmedFeeOutpoint_ok hfound).1]
    rw [houtpoints]
    refine List.Nodup.map_on (fun a ha b hb hab => ?_) hnodup
    exact storedFeeUtxo_injOn (hlengths a ha) (hlengths b hb) (outpointOf_injective hab)

end Candidates

section Agreement

variable {libraries : RoundLibraries} {programs : IssuancePrograms} {config : Issuance.ProtocolConfig} {leader : Leader}
  {stormEye : NetworkAsset Bytes32} {store next : UserRequestStore Bytes32} {requestLimit : ℕ}
  {considered rest : List (Bytes32 × StoredUserRequest Bytes32)} {included : List (Issuance.Accepted Bytes32)}
  {batches : List DecodedBatch} {rate : Option PriceFeedData} {failed : List Bytes32} {round : LeaderRound}

/-- The round can be committed to every branch that has a key, and every signer who knows the assets of the leader, with a
clock close to its clock, accepts the message and reads off it the rate that the leader signs. -/
def AgreedBy (libraries : RoundLibraries) (programs : IssuancePrograms) (config : Issuance.ProtocolConfig) (leader : Leader)
    (round : LeaderRound) : Prop :=
  ∃ stormEye, leader.stormEye = some stormEye ∧ (∀ branch, libraries.xOnlyPublicKey branch.toList = true →
      branch ≠ Markers.noSigner →
        ∃ outputs, commitOutputs libraries.toIssuanceLibraries programs round.transaction branch = .ok outputs) ∧
    ∀ branch request now, messageFor libraries programs round branch = .ok request →
      absDiff leader.timestamp now ≤ maxTickTimeSkewSecs →
      validateExecuteRequest libraries.toIssuanceLibraries programs stormEye leader.tickAsset leader.verifierAsset config now
        request = .ok round.instructed

/-- A batch of a round, with its fee UTXOs reserved for it. -/
structure Joined (libraries : RoundLibraries) (programs : IssuancePrograms) (leader : Leader) (stormEye : NetworkAsset Bytes32)
    (store : UserRequestStore Bytes32) (batch : Issuance.Accepted Bytes32) (decoded : DecodedBatch) : Prop where
  requestHash : decoded.requestHash = batch.requestHash
  namedFeed : decoded.namedFeed = batch.request.namedFeed
  resolved : ∃ issued, Resolved libraries.toIssuanceLibraries programs stormEye decoded issued
  owned : ∀ utxo ∈ decoded.feeUtxos, ∃ feeUtxo, utxo.outpoint = outpointOf feeUtxo ∧
    store.feeUtxos.lookup feeUtxo = some decoded.requestHash
  shown : ∀ utxo ∈ decoded.feeUtxos, utxo.asset = programs.policyAsset ∧ Shows leader utxo
  nodup : (decoded.feeUtxos.map Utxo.outpoint).Nodup

theorem exists_resolved (h : List.Forall₂ (Joined libraries programs leader stormEye store) included batches) :
    ∃ issued, List.Forall₂ (Resolved libraries.toIssuanceLibraries programs stormEye) batches issued := by
  induction h with
  | nil => exact ⟨[], .nil⟩
  | cons hjoined _ ih =>
    obtain ⟨read, hread⟩ := hjoined.resolved
    obtain ⟨issued, hissued⟩ := ih
    exact ⟨read :: issued, .cons hread hissued⟩

theorem requestHashes_joined (h : List.Forall₂ (Joined libraries programs leader stormEye store) included batches) :
    batches.map DecodedBatch.requestHash = included.map Issuance.Accepted.requestHash := by
  induction h with
  | nil => rfl
  | cons hjoined _ ih => rw [List.map_cons, List.map_cons, ih, hjoined.requestHash]

/-- No UTXO pays for two batches, so that all of them together hold no more than there is. -/
theorem sum_feeGroups_lt (h : List.Forall₂ (Joined libraries programs leader stormEye store) included batches)
    (hdistinct : included.Pairwise fun a b => a.requestHash ≠ b.requestHash) (hleads : Leads programs leader) :
    ((feeGroups batches).flatten.map heldValue).sum < 2 ^ 64 := by
  have hvalues : (feeGroups batches).flatten.map heldValue = (batches.flatMap DecodedBatch.feeUtxos).map Utxo.amount := by
    simp only [feeGroups, List.map_flatten, List.map_map, List.flatMap]
    congr 1
    exact List.map_congr_left fun batch _ => by simp [Function.comp_def, heldValue_new]
  rw [hvalues]
  have hall : ∀ decoded ∈ batches, ∃ batch ∈ included, Joined libraries programs leader stormEye store batch decoded :=
    fun decoded hdecoded => Loops.forall₂_mem h.flip hdecoded
  refine hleads.supply _ ?_ fun utxo hutxo => ?_
  · rw [List.map_flatMap, List.nodup_flatMap]
    refine ⟨fun decoded hdecoded => ?_, ?_⟩
    · obtain ⟨batch, -, hjoined⟩ := hall decoded hdecoded
      exact hjoined.nodup
    · have hhashes : (batches.map DecodedBatch.requestHash).Pairwise (· ≠ ·) := by
        rw [requestHashes_joined h]
        exact List.pairwise_map.mpr hdistinct
      refine (List.pairwise_map.mp hhashes).imp_of_mem fun {a b} ha hb hne outpoint hfirst hsecond => hne ?_
      obtain ⟨_, -, hjoined⟩ := hall a ha
      obtain ⟨_, -, hjoined'⟩ := hall b hb
      obtain ⟨utxo, hutxo, rfl⟩ := List.mem_map.mp hfirst
      obtain ⟨utxo', hutxo', hsame⟩ := List.mem_map.mp hsecond
      obtain ⟨feeUtxo, houtpoint, hlookup⟩ := hjoined.owned utxo hutxo
      obtain ⟨feeUtxo', houtpoint', hlookup'⟩ := hjoined'.owned utxo' hutxo'
      rw [houtpoint, houtpoint'] at hsame
      rw [outpointOf_injective hsame, hlookup] at hlookup'
      exact Option.some.inj hlookup'
  · obtain ⟨decoded, hdecoded, hmem⟩ := List.mem_flatMap.mp hutxo
    obtain ⟨batch, -, hjoined⟩ := hall decoded hdecoded
    exact hjoined.shown utxo hmem

theorem leaderBuild_ok (h : leaderBuild libraries programs config leader included rate = .ok round) :
    ∃ stormEye stormEyeUtxo batches, leader.stormEye = some stormEye ∧
      leader.lanes.findContractUtxo stormEye.contractScript (some stormEye.assetId) (.userRequests leader.lane) =
        .ok stormEyeUtxo ∧
      List.Forall₂ (fun batch decoded => decodeBatch libraries leader batch = .ok decoded) included batches ∧
      buildRound libraries programs leader.tokens stormEye leader.tickAsset leader.verifierAsset config leader.timestamp
        stormEyeUtxo batches rate = .ok round := by
  unfold leaderBuild at h
  obtain ⟨⟨stormEye, stormEyeUtxo⟩, hlane, h⟩ := Db.except_bind_ok.mp h
  obtain ⟨batches, hbatches, h⟩ := Db.except_bind_ok.mp h
  unfold stormEyeLane at hlane
  obtain ⟨asset, hasset, hlane⟩ := Db.except_bind_ok.mp hlane
  obtain ⟨utxo, hutxo, hlane⟩ := Db.except_bind_ok.mp hlane
  cases hlane
  rw [okOr_eq_ok_iff] at hasset
  exact ⟨stormEye, stormEyeUtxo, batches, hasset, mapError_ok.mp hutxo, Loops.mapM_forall₂ hbatches, mapError_ok.mp h⟩

theorem joined_included (hfiled : AllFiled libraries.toIssuanceLibraries store)
    (hfilled : Issuance.Filled (leaderView libraries programs config leader) requestLimit store considered rest included rate
      failed next) (hstormEye : leader.stormEye = some stormEye)
    (h : List.Forall₂ (fun batch decoded => decodeBatch libraries leader batch = .ok decoded) included batches) :
    List.Forall₂ (Joined libraries programs leader stormEye store) included batches := by
  refine Loops.forall₂_imp_mem h fun batch hbatch decoded hdecoded => ?_
  obtain ⟨read, hread⟩ := decodeBatch_ok hdecoded
  obtain ⟨hstored, hpending⟩ := hfilled.pending.1 batch hbatch
  obtain ⟨hreads, hheld⟩ := hfilled.walked.passed batch hbatch
  have hrow := hfiled _ _ hstored
  obtain ⟨hfeed, owner, hresolved⟩ := hread.resolved hstormEye hrow.hash hreads hheld
  obtain ⟨howned, hnodup⟩ := hread.owned hrow hpending
  refine ⟨hread.requestHash, hfeed, ⟨_, hresolved⟩, howned, fun utxo hutxo => ?_, hnodup⟩
  obtain ⟨feeUtxo, -, hfee⟩ := Loops.forall₂_mem hresolved.feeUtxos.flip hutxo
  obtain ⟨feeUtxo', -, hfound⟩ := Loops.forall₂_mem hread.utxos.flip hutxo
  exact ⟨hfee.2.1, (getConfirmedFeeOutpoint_ok hfound).2⟩

/-- A round that the leader builds of the batches it has walked. -/
theorem candidate_built (hlaws : LawfulBlinding libraries) (hleads : Leads programs leader)
    (hfiled : AllFiled libraries.toIssuanceLibraries store)
    (hfilled : Issuance.Filled (leaderView libraries programs config leader) requestLimit store considered rest included rate
      failed next) (hbuild : leaderBuild libraries programs config leader included rate = .ok round) :
    ∃ stormEye stormEyeUtxo batches issued parts, leader.stormEye = some stormEye ∧
      List.Forall₂ (Joined libraries programs leader stormEye store) included batches ∧
      List.Forall₂ (Resolved libraries.toIssuanceLibraries programs stormEye) batches issued ∧
      RoundNetwork programs stormEye leader.tickAsset leader.verifierAsset stormEyeUtxo batches ∧
      Built libraries programs stormEye leader.tickAsset leader.verifierAsset config leader.timestamp stormEyeUtxo batches
        issued rate round parts := by
  obtain ⟨stormEye, stormEyeUtxo, batches, hstormEye, hlane, hdecoded, hround⟩ := leaderBuild_ok hbuild
  have hjoined := joined_included hfiled hfilled hstormEye hdecoded
  obtain ⟨issued, hresolved⟩ := exists_resolved hjoined
  obtain ⟨parts, hbuilt⟩ := buildRound_ok hlaws hresolved hround
  obtain ⟨hasset, hscript⟩ := ElementsNode.findContractUtxo_ok hleads.lanes hlane
  refine ⟨stormEye, stormEyeUtxo, batches, issued, parts, hstormEye, hjoined, hresolved, ⟨?_, ?_, ⟨?_, hscript⟩, ?_⟩, hbuilt⟩
  · exact hleads.assets _ (.inl hstormEye)
  · exact fun asset hasset => hleads.assets asset (.inr hasset)
  · simpa [ElementsNode.matchesExpectedAsset, ElementsNode.matchesScannedAsset] using hasset
  · exact sum_feeGroups_lt hjoined hfilled.pending.2 hleads

/-- The batches of a round name the feed of its rate, and it has one if one of them does. -/
theorem feeds_joined (hleads : Leads programs leader)
    (hfilled : Issuance.Filled (leaderView libraries programs config leader) requestLimit store considered rest included rate
      failed next) (h : List.Forall₂ (Joined libraries programs leader stormEye store) included batches) :
    (∀ batch ∈ batches, ∀ feed, batch.namedFeed = some feed → ∃ own, rate = some own ∧ own.feedId = feed) ∧
      (rate = none ↔ ∀ batch ∈ batches, batch.namedFeed = none) := by
  have hpriced := hfilled.walked.rate_isSome_iff
  refine ⟨fun decoded hmem feed hfeed => ?_, fun hnone decoded hmem => ?_, fun hnone => ?_⟩
  · obtain ⟨batch, hbatch, hjoined⟩ := Loops.forall₂_mem h.flip hmem
    exact hfilled.walked.named hleads.prices batch hbatch feed (hjoined.namedFeed ▸ hfeed)
  · obtain ⟨batch, hbatch, hjoined⟩ := Loops.forall₂_mem h.flip hmem
    rw [hjoined.namedFeed, ← Option.not_isSome_iff_eq_none]
    intro hsome
    have hrate := hpriced.mpr ⟨batch, hbatch, hsome⟩
    rw [hnone] at hrate
    cases hrate
  · rw [← Option.not_isSome_iff_eq_none, hpriced]
    rintro ⟨batch, hbatch, hsome⟩
    obtain ⟨decoded, hmem, hjoined⟩ := Loops.forall₂_mem h hbatch
    rw [← hjoined.namedFeed, hnone decoded hmem] at hsome
    cases hsome

theorem candidate_agreed (hlaws : LawfulBlinding libraries) (hleads : Leads programs leader)
    (hfiled : AllFiled libraries.toIssuanceLibraries store)
    (hfilled : Issuance.Filled (leaderView libraries programs config leader) requestLimit store considered rest included rate
      failed next) (hne : included ≠ []) (hbuild : leaderBuild libraries programs config leader included rate = .ok round) :
    AgreedBy libraries programs config leader round := by
  obtain ⟨stormEye, stormEyeUtxo, batches, issued, parts, hstormEye, hjoined, hresolved, hnetwork, hbuilt⟩ :=
    candidate_built hlaws hleads hfiled hfilled hbuild
  obtain ⟨hcarried, hpriced⟩ := feeds_joined hleads hfilled hjoined
  have hsome : batches ≠ [] := by
    intro hnil
    rw [hnil] at hjoined
    cases hjoined
    exact hne rfl
  refine ⟨stormEye, hstormEye, fun branch => hbuilt.commits, fun branch request now hrequest hclock => ?_⟩
  obtain ⟨committed, script, hmessage⟩ := messageFor_ok hbuilt hrequest
  rw [validateExecuteRequest_iff, hbuilt.instructed]
  exact message_accepted hlaws hresolved hbuilt hmessage hnetwork hsome hcarried hpriced hclock

end Agreement

section Runs

variable {libraries : RoundLibraries} {programs : IssuancePrograms} {config : Issuance.ProtocolConfig} {leaders : ℕ → Leader}

/-- What holds of every round that a leader builds of the batches it has walked. -/
def Candidates (libraries : RoundLibraries) (programs : IssuancePrograms) (config : Issuance.ProtocolConfig)
    (Good : Leader → LeaderRound → Prop) : Prop :=
  ∀ {leader requestLimit store considered rest included rate failed next round}, Leads programs leader →
    AllFiled libraries.toIssuanceLibraries store →
    Issuance.Filled (leaderView libraries programs config leader) requestLimit store considered rest included rate failed next →
    included ≠ [] → leaderBuild libraries programs config leader included rate = .ok round → Good leader round

/-- It holds of the round under the leader of some turn. -/
def GoodInTurn (Good : Leader → LeaderRound → Prop) (leaders : ℕ → Leader)
    (prepared : Option (Issuance.PreparedRound Bytes32 LeaderRound)) : Prop :=
  ∀ round, prepared = some round → ∃ turn, Good (leaders turn) round.transaction

variable {Good : Leader → LeaderRound → Prop}

theorem triple_prepareRoundCandidate (hgood : Candidates libraries programs config Good) {leader : Leader} (hleads : Leads programs leader)
    {requestLimit : ℕ} (hlimit : 0 < requestLimit) :
    Db.Triple (AllFiled libraries.toIssuanceLibraries)
      (Issuance.prepareRoundCandidate (leaderView libraries programs config leader) requestLimit)
      (fun prepared store => (∀ round, prepared = some round → Good leader round.transaction) ∧
        AllFiled libraries.toIssuanceLibraries store)
      (AllFiled libraries.toIssuanceLibraries) := by
  intro store hfiled
  have hpost := Issuance.post_prepareRoundCandidate (leaderView libraries programs config leader) hlimit store
  unfold Db.Post at hpost
  generalize (Issuance.prepareRoundCandidate (leaderView libraries programs config leader) requestLimit).exec store =
    outcome at hpost ⊢
  obtain ⟨result, next⟩ := outcome
  cases result with
  | error error =>
    obtain ⟨_, _, _, _, _, hfilled, -⟩ := hpost
    exact hfiled.marked hfilled.marked
  | ok prepared =>
    obtain ⟨_, _, _, _, _, hfilled, -, hround⟩ := hpost
    refine ⟨fun round hprepared => ?_, hfiled.marked hfilled.marked⟩
    rw [hprepared] at hround
    exact hgood hleads hfiled hfilled hround.1 hround.2.1

theorem triple_failRequest {A : Type} {Q : A → UserRequestStore Bytes32 → Prop} (requestHash : Bytes32) (reason : String)
    (error : UserRequestError) :
    Db.Triple (AllFiled libraries.toIssuanceLibraries)
      (do
        let _ ← Issuance.failRequest requestHash reason
        throw error)
      Q (AllFiled libraries.toIssuanceLibraries) := by
  refine Db.triple_bind (R := fun _ => AllFiled libraries.toIssuanceLibraries) ?_ fun _ => Db.triple_throw fun _ h => h
  refine Db.triple_statement (fun store updated next hfiled hmark => ?_) fun _ h => h
  exact hfiled.endRequest hmark fun row => ⟨rfl, by simp⟩

theorem triple_searchRound (hgood : Candidates libraries programs config Good) (hleads : ∀ turn, Leads programs (leaders turn))
    (maxTransactionWeight : ℕ) {turns : ℕ} : ∀ {lower upper limit : ℕ}
    {best : Option (Issuance.PreparedRound Bytes32 LeaderRound)}, 0 < lower → 0 < limit →
    GoodInTurn Good leaders best →
    Db.Triple (AllFiled libraries.toIssuanceLibraries)
      (Issuance.searchRound (fun turn => leaderView libraries programs config (leaders turn)) maxTransactionWeight turns lower
        upper limit best)
      (fun prepared store => GoodInTurn Good leaders prepared ∧
        AllFiled libraries.toIssuanceLibraries store)
      (AllFiled libraries.toIssuanceLibraries) := by
  induction turns with
  | zero =>
    intro lower upper limit best _ _ hbest
    exact Db.triple_pure fun store hfiled => ⟨hbest, hfiled⟩
  | succ turns ih =>
    intro lower upper limit best hlower hlimit hbest
    unfold Issuance.searchRound
    split_ifs with hended
    · exact Db.triple_pure fun store hfiled => ⟨hbest, hfiled⟩
    refine Db.triple_bind (triple_prepareRoundCandidate hgood (hleads turns) hlimit) fun prepared => ?_
    refine Db.triple_of_imp fun hagreed => ?_
    cases prepared with
    | none => exact Db.triple_pure fun store hfiled => ⟨hbest, hfiled⟩
    | some candidate =>
      have hcandidate : GoodInTurn Good leaders (some candidate) := by
        rintro round ⟨⟩
        exact ⟨turns, hagreed candidate rfl⟩
      dsimp only
      refine Db.triple_bind (R := fun _ => AllFiled libraries.toIssuanceLibraries)
        (Db.triple_check (fun _ _ _ h => h) fun _ h => h) fun weight => ?_
      split_ifs with hlight hlast
      · exact Db.triple_pure fun store hfiled => ⟨hcandidate, hfiled⟩
      · exact ih (by omega) (by omega) hcandidate
      · split
        · exact triple_failRequest _ _ _
        · exact ih hlower (by omega) hbest

/-- What a coordinator does: its API stores the batches that it accepts, and its rounds are prepared on the chain. -/
def Coordinates (libraries : RoundLibraries) (programs : IssuancePrograms) (config : Issuance.ProtocolConfig) :
    IssuanceNode.Action Bytes32 LeaderRound → Prop
  | .store action => Submitted libraries.toIssuanceLibraries action
  | .prepare views _ => ∃ leaders : ℕ → Leader, (∀ turn, Leads programs (leaders turn)) ∧
      views = fun turn => leaderView libraries programs config (leaders turn)
  | _ => True

/-- It holds of the round that a call prepares. -/
def Prepares (libraries : RoundLibraries) (programs : IssuancePrograms) (config : Issuance.ProtocolConfig)
    (Good : Leader → LeaderRound → Prop) (next : IssuanceNode Bytes32 LeaderRound) : IssuanceNode.Action Bytes32 LeaderRound → Prop
  | .prepare views _ => ∀ leaders : ℕ → Leader, (∀ turn, Leads programs (leaders turn)) →
      (views = fun turn => leaderView libraries programs config (leaders turn)) →
        GoodInTurn Good leaders next.prepared
  | _ => True

variable {payload : LeaderRound → Bytes32 → List UInt8} {finalBytes : LeaderRound → List UInt8}

theorem triple_prepareRound (hgood : Candidates libraries programs config Good) (hleads : ∀ turn, Leads programs (leaders turn))
    (maxTransactionWeight : ℕ) :
    Db.Triple (AllFiled libraries.toIssuanceLibraries)
      (Issuance.prepareRound (fun turn => leaderView libraries programs config (leaders turn)) maxTransactionWeight)
      (fun prepared store => GoodInTurn Good leaders prepared ∧
        AllFiled libraries.toIssuanceLibraries store)
      (AllFiled libraries.toIssuanceLibraries) :=
  triple_searchRound hgood hleads maxTransactionWeight Nat.one_pos (by decide) fun _ h => by cases h

theorem coordinator_step (hgood : Candidates libraries programs config Good) (node : IssuanceNode Bytes32 LeaderRound)
    (action : IssuanceNode.Action Bytes32 LeaderRound) (hfiled : AllFiled libraries.toIssuanceLibraries node.store)
    (haction : Coordinates libraries programs config action) :
    AllFiled libraries.toIssuanceLibraries (node.step payload finalBytes action).store ∧
      Prepares libraries programs config Good (node.step payload finalBytes action) action := by
  cases action with
  | store action =>
    refine ⟨?_, trivial⟩
    unfold IssuanceNode.step
    dsimp only
    split_ifs
    · exact hfiled.step haction
    · exact hfiled
  | prepare views maxTransactionWeight =>
    obtain ⟨first, hfirst, hviews⟩ := haction
    have htriple : ∀ leaders : ℕ → Leader, (∀ turn, Leads programs (leaders turn)) →
        (views = fun turn => leaderView libraries programs config (leaders turn)) →
        Db.Triple (AllFiled libraries.toIssuanceLibraries) (Issuance.prepareRound views maxTransactionWeight)
          (fun prepared store => GoodInTurn Good leaders prepared ∧
            AllFiled libraries.toIssuanceLibraries store)
          (AllFiled libraries.toIssuanceLibraries) := by
      rintro leaders hleads rfl
      exact triple_prepareRound hgood hleads maxTransactionWeight
    unfold IssuanceNode.step
    dsimp only
    cases hexec : (Issuance.prepareRound views maxTransactionWeight).exec node.store with
    | mk result next =>
      have hfirstRun := htriple first hfirst hviews node.store hfiled
      rw [hexec] at hfirstRun
      cases result with
      | error error => exact ⟨hfirstRun, fun _ _ _ _ h => by cases h⟩
      | ok prepared =>
        refine ⟨hfirstRun.2, fun leaders hleads hsame => ?_⟩
        have hrun := htriple leaders hleads hsame node.store hfiled
        rw [hexec] at hrun
        exact hrun.1
  | broadcast outcome =>
    refine ⟨?_, trivial⟩
    unfold IssuanceNode.step
    dsimp only
    cases node.prepared with
    | none => exact hfiled
    | some prepared =>
      cases outcome with
      | refused => exact hfiled
      | unanswered => exact hfiled
      | answered marked => exact hfiled.markRound
  | restart => exact ⟨hfiled, trivial⟩

theorem prepared_rounds (hgood : Candidates libraries programs config Good) {actions : List (IssuanceNode.Action Bytes32 LeaderRound)}
    (hactions : ∀ action ∈ actions, Coordinates libraries programs config action) :
    Runs.EachStep (IssuanceNode.step payload finalBytes) (fun node action =>
      Prepares libraries programs config Good (node.step payload finalBytes action) action) IssuanceNode.initial actions := by
  have hinitial : AllFiled libraries.toIssuanceLibraries (IssuanceNode.initial : IssuanceNode Bytes32 LeaderRound).store := by
    intro requestHash row hrow
    cases hrow
  have hpermitted : Runs.EachStep (IssuanceNode.step payload finalBytes)
      (fun _ action => Coordinates libraries programs config action) IssuanceNode.initial actions :=
    Runs.EachStep.of_forall hactions
  exact (Runs.EachStep.run (coordinator_step hgood) hinitial hpermitted).2

/-- In every run of a coordinator, all signers whose clocks are close to the leader's accept every message of a round that it
prepares, and sign at the rate of the round. -/
theorem prepared_rounds_agreed (hlaws : LawfulBlinding libraries) (payload : LeaderRound → Bytes32 → List UInt8)
    (finalBytes : LeaderRound → List UInt8) (actions : List (IssuanceNode.Action Bytes32 LeaderRound))
    (hactions : ∀ action ∈ actions, Coordinates libraries programs config action) :
    Runs.EachStep (IssuanceNode.step payload finalBytes) (fun node action =>
      Prepares libraries programs config (AgreedBy libraries programs config) (node.step payload finalBytes action) action)
      IssuanceNode.initial actions :=
  prepared_rounds (candidate_agreed hlaws) hactions

end Runs

section Priced

/-- A Tick and a Verifier. -/
def pricedRequests : NetworkUserRequests :=
  { plainRequests with
    requests := [⟨UserApi.tickRequestKind, "tick"⟩, ⟨UserApi.priceRequestKind, "price"⟩] }

def pricedLibraries : RoundLibraries where
  toIssuanceLibraries :=
    { plainLibraries with
      fromStr text := .ok ⟨⟨"scriptPubKey-auth", "51"⟩, if text = "tick" then none else some 1⟩
      fromSlice _ := .ok pricedRequests }
  unblindSecrets txout := (unhide txout).map fun secrets => ⟨secrets.1, zeroTweak, secrets.2, zeroTweak⟩
  randomFactors _ := (zeroTweak, zeroTweak)
  treasuryBlindingKey := [2]
  withTxoutSecrets script secrets _ := some (hidden script secrets.asset secrets.value)
  newLastConfidential value asset script _ _ := some (hidden script asset value)
  blindAssetProof _ _ := some []
  blindValueProof _ _ _ _ := some []
  reissuanceInput utxo amount entropy :=
    { plainInput utxo.outpoint utxo.txout with
      issuanceValueAmount := some amount, issuanceAssetEntropy := some entropy, issuanceBlindingNonce := some (keyOf 13) }

def plainRate : PriceFeedData := ⟨1, 100, 2, 990, 1100⟩

def plainLeader : Leader where
  blockHeight := 5
  timestamp := 1000
  lane := 0
  stormEye := some plainStormEye
  tickAsset := some plainTick
  verifierAsset := some plainVerifier
  lanes :=
    { txout := fun _ outpoint =>
        .ok (if outpoint.1 = keyOf 20 then some (keyOf 6, 10, taprootScript (keyOf 6)) else none)
      scan := fun script =>
        .ok (if script = taprootScript (keyOf 6) then [⟨some (keyOf 20), 0, some (keyOf 6)⟩, ⟨some (keyOf 20), 1, some (keyOf 6)⟩]
          else []) }
  tokens :=
    { scanTxoutset := fun _ => .ok [(keyOf 21, 0, some 1), (keyOf 22, 0, some 1)]
      getRawTransaction := fun txid _ =>
        .ok ⟨txid, [], [hidden (taprootScript (keyOf 3)) (if txid = keyOf 21 then keyOf 8 else keyOf 18) 1]⟩
      getTxSpendingPrevout := fun _ => .ok none
      getRawMempool := .ok [] }
  getTxout outpoint := .ok (if outpoint = (keyOf 0xbb, 7) then
    some ⟨1, some (some (keyOf 1)), some (some 900), some (taprootScript (keyOf 2))⟩ else none)
  price _ feed := if feed = 1 then some plainRate else none
  isReservedForBurning _ := .ok false
  estimatedWeight _ := .ok 1000

def submitPriced : IssuanceNode.Action Bytes32 LeaderRound := .store (.insertPending (keyOf 9) [] 1 [⟨keyOf 0xbb, 7⟩])

def preparePriced : IssuanceNode.Action Bytes32 LeaderRound :=
  .prepare (fun _ => leaderView pricedLibraries plainPrograms plainConfig plainLeader) 400000

/-- The coordinator once it has stored the batch and prepared a round of it. -/
def pricedNode : IssuanceNode Bytes32 LeaderRound :=
  IssuanceNode.step (fun _ _ => []) (fun _ => []) (IssuanceNode.step (fun _ _ => []) (fun _ => []) IssuanceNode.initial
    submitPriced) preparePriced

theorem pricedNode_prepared : pricedNode.prepared.map (fun round => round.transaction.instructed) = some (some plainRate) := by
  decide +kernel

theorem priced_lawful : LawfulBlinding pricedLibraries where
  unblinds txout := by simp [pricedLibraries, plainLibraries, Function.comp_def]
  withTxoutSecrets script secrets spent txout h := by
    obtain rfl := Option.some.inj h
    refine ⟨?_, rfl, rfl, rfl⟩
    simp [pricedLibraries, plainLibraries, unhide, hidden, Markers.toKey_toList]
  newLastConfidential value asset script spent outputs txout h := by
    obtain rfl := Option.some.inj h
    refine ⟨?_, rfl, rfl, rfl⟩
    simp [pricedLibraries, plainLibraries, unhide, hidden, Markers.toKey_toList]
  assetProof txout secrets commitment proof h hasset _ := by
    obtain ⟨⟨asset, value⟩, hshown, rfl⟩ := Option.map_eq_some_iff.mp h
    have hopened := content_of_unhide hshown
    simp only [ChainTxOut.content, ChainTxOut.heldAsset, hasset, Option.bind_some] at hopened
    cases hvalue : txout.value <;> simp_all [pricedLibraries, plainLibraries, plainOpenings]
  valueProof txout secrets commitment valueCommitment proof h hasset hvalue _ := by
    obtain ⟨⟨asset, value⟩, hshown, rfl⟩ := Option.map_eq_some_iff.mp h
    have hopened := content_of_unhide hshown
    simp_all [ChainTxOut.content, ChainTxOut.heldAsset, pricedLibraries, plainLibraries, plainOpenings]
  reissuance utxo amount entropy := ⟨rfl, rfl, rfl, rfl, rfl, rfl⟩

theorem plain_leads : Leads plainPrograms plainLeader where
  assets asset h := by
    rcases h with ⟨⟨⟩⟩ | ⟨⟨⟩⟩ | ⟨⟨⟩⟩ <;> decide +kernel
  lanes script unspents hscan unspent hunspent txid asset amount held htxid hshown := by
    obtain rfl := Except.ok.inj hscan
    split_ifs at hunspent with hscript
    · obtain hheld := Except.ok.inj hshown
      split_ifs at hheld
      cases hheld
      exact hscript.symm
    · cases hunspent
  prices requestHash feed rate h := by
    unfold plainLeader at h
    dsimp only at h
    split_ifs at h with hfeed
    cases h
    exact hfeed.symm
  supply utxos hnodup h := by
    have hone : ∀ utxo ∈ utxos, utxo.outpoint = (keyOf 0xbb, 7) ∧ utxo.amount = 900 := by
      intro utxo hutxo
      obtain ⟨-, confirmations, hshown⟩ := h utxo hutxo
      have hanswer := Except.ok.inj hshown
      split_ifs at hanswer with houtpoint
      simp only [Option.some.injEq, GetTxOut.mk.injEq] at hanswer
      exact ⟨houtpoint, hanswer.2.2.1.symm⟩
    match utxos with
    | [] => decide
    | [utxo] => simp [(hone utxo List.mem_cons_self).2]
    | first :: second :: rest =>
      have hfirst := (hone first List.mem_cons_self).1
      have hsecond := (hone second (.tail _ List.mem_cons_self)).1
      simp [hfirst, hsecond] at hnodup

theorem priced_coordinates : ∀ action ∈ [submitPriced, preparePriced],
    Coordinates pricedLibraries plainPrograms plainConfig action := by
  have hread : (validateEncodedRequest pricedLibraries.toIssuanceLibraries []).toOption.map Prod.snd =
      some ([⟨List.replicate 32 0xbb, 7⟩], some 1) := by decide +kernel
  rintro action (_ | ⟨_, _ | ⟨_, _ | _⟩⟩)
  · refine ⟨by decide +kernel, ?_⟩
    cases hvalid : validateEncodedRequest pricedLibraries.toIssuanceLibraries [] with
    | error error =>
      rw [hvalid] at hread
      cases hread
    | ok read =>
      obtain ⟨user, feeUtxos, feed⟩ := read
      rw [hvalid] at hread
      cases hread
      exact ⟨user, _, _, rfl, by decide +kernel⟩
  · exact ⟨fun _ => plainLeader, fun _ => plain_leads, rfl⟩

theorem prepared_rounds_agreed_priced : ∃ round, pricedNode.prepared = some round ∧
    round.transaction.instructed = some plainRate ∧
      AgreedBy pricedLibraries plainPrograms plainConfig plainLeader round.transaction := by
  obtain ⟨round, hround, hrate⟩ := Option.map_eq_some_iff.mp pricedNode_prepared
  have hrun := prepared_rounds_agreed priced_lawful (fun _ _ => []) (fun _ => []) [submitPriced, preparePriced]
    priced_coordinates
  obtain ⟨turn, hagreed⟩ := hrun.2.1 (fun _ => plainLeader) (fun _ => plain_leads) rfl round hround
  exact ⟨round, hround, hrate, hagreed⟩

end Priced

end IssuanceRound

end PriceOracle
