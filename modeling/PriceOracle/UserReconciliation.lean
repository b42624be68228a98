import PriceOracle.Passes
import PriceOracle.UserRequestLifecycle

/-!
# Confirmations of user requests

`user_requests.rs`: `reconcile_confirmations` asks the node about the transaction of each
request that is processing or included, in the order of the table. It sends a transaction
that the node does not know once more. The answers of the node are parameters, one for each
request, since a pass asks once for each.
-/

namespace PriceOracle

/-- What `getrawtransaction` answers; a field that is missing has its default. -/
structure RawTransactionInfo where
  confirmations : ℕ
  blockHash : Option String
  deriving DecidableEq

namespace UserReconciliation

inductive ReconcileError where
  | requestDatabase (error : SqlError)
  | json (message : String)
  | invalid (message : String)
  | rpc (message : String)

/-- The node's answers, and the parsers of what is stored and answered. -/
structure UserChain (W : Type) where
  getBlockCount : Except String ℕ
  getRawTransaction : W → String → Except String RawTransactionInfo
  sendRawTransaction : W → List UInt8 → Except String String
  /-- The transaction in a stored result. -/
  resultTxid : List UInt8 → Except String String
  parseBlockHash : String → Except String W
  finalityConfirmations : ℕ

variable {W : Type} [LinearOrder W] (chain : UserChain W)

def listProcessing (store : UserRequestStore W) : List (W × StoredUserRequest W) :=
  let processing := (store.requests.entries.map fun row => (row.1, row.2)).filter fun row =>
    row.2.status = .processing ∨ row.2.status = .included
  processing.insertionSort fun a b =>
    a.2.blockHeight < b.2.blockHeight ∨ (a.2.blockHeight = b.2.blockHeight ∧ a.1 ≤ b.1)

/-- `tip.saturating_sub(confirmations).saturating_add(1)` -/
def includedAt (tip confirmations : ℕ) : ℕ := min (tip - confirmations + 1) (2 ^ 64 - 1)

def confirmedBlock (confirmation : RawTransactionInfo) : Except ReconcileError W :=
  match confirmation.blockHash with
  | none => .error (.invalid "confirmed issuance transaction has no block hash")
  | some text => (chain.parseBlockHash text).mapError .invalid

def isFinal (confirmation : RawTransactionInfo) : Prop := max chain.finalityConfirmations 1 ≤ confirmation.confirmations

instance (confirmation : RawTransactionInfo) : Decidable (isFinal chain confirmation) :=
  inferInstanceAs (Decidable (_ ≤ _))

def rebroadcast (item : W × StoredUserRequest W) : Except ReconcileError Unit :=
  match item.2.executionTx with
  | none => .ok ()
  | some transaction => do
    let _ ← (chain.sendRawTransaction item.1 transaction).mapError .rpc
    return ()

def orphan (requestHash : W) : Db (UserRequestStore W) ReconcileError Bool :=
  Db.statement .requestDatabase (UserRequestStore.markOrphaned requestHash)

/-- The row is included, and executed when the confirmation is final. -/
def markConfirmed (requestHash : W) (height : ℕ) (blockHash : W) (final : Prop) [Decidable final] :
    Db (UserRequestStore W) ReconcileError ℕ := do
  let _ ← Db.statement .requestDatabase (UserRequestStore.markIncluded requestHash height blockHash)
  if final then do
    let executed ← Db.statement .requestDatabase (UserRequestStore.markExecuted requestHash)
    return executed.toNat
  else return 0

/-- One turn of the loop. -/
def reconcileRequest (tip : ℕ) (item : W × StoredUserRequest W) : Db (UserRequestStore W) ReconcileError ℕ :=
  match item.2.payload with
  | none => pure 0
  | some payload => do
    let txid ← Db.check ((chain.resultTxid payload).mapError .json)
    match chain.getRawTransaction item.1 txid with
    | .error _ => do
      let _ ← orphan item.1
      Db.check (rebroadcast chain item)
      return 0
    | .ok confirmation =>
      if confirmation.confirmations = 0 then do
        let _ ← orphan item.1
        return 0
      else do
        let blockHash ← Db.check (confirmedBlock chain confirmation)
        markConfirmed item.1 (includedAt tip confirmation.confirmations) blockHash (isFinal chain confirmation)

def reconcileConfirmations : Db (UserRequestStore W) ReconcileError ℕ := do
  let store ← get
  let processing := listProcessing store
  if processing.isEmpty then return 0
  else do
    let tip ← Db.check (chain.getBlockCount.mapError .rpc)
    Db.pass (reconcileRequest chain tip) processing

section Statements

variable {s : UserRequestStore W} {h : W} {row : StoredUserRequest W} {statuses : List UserRequestStatus}
  {change : StoredUserRequest W → StoredUserRequest W}

theorem updateRequest_listed (hrow : s.requests.lookup h = some row) (hstatus : row.status ∈ statuses) :
    (UserRequestStore.updateRequest h statuses change).Returns s true
      { s with requests := s.requests.insert h (change row) } := by
  unfold UserRequestStore.updateRequest
  rw [Db.returns_get_bind, hrow]
  dsimp only
  rw [if_pos hstatus]
  exact Db.returns_bind.mpr ⟨⟨⟩, _, Db.returns_set.mpr rfl, Db.returns_pure.mpr ⟨rfl, rfl⟩⟩

/-- An update always goes through, and changes one row at most. -/
theorem updateRequest_total (s : UserRequestStore W) (h : W) (statuses : List UserRequestStatus)
    (change : StoredUserRequest W → StoredUserRequest W) :
    ∃ updated t, (UserRequestStore.updateRequest h statuses change).Returns s updated t ∧
      ∀ k, k ≠ h → t.requests.lookup k = s.requests.lookup k := by
  cases hrow : s.requests.lookup h with
  | none =>
    refine ⟨false, s, ?_, fun _ _ => rfl⟩
    unfold UserRequestStore.updateRequest
    rw [Db.returns_get_bind, hrow]
    exact Db.returns_pure.mpr ⟨rfl, rfl⟩
  | some row =>
    by_cases hstatus : row.status ∈ statuses
    · refine ⟨true, _, updateRequest_listed hrow hstatus, fun k hk => ?_⟩
      rw [Table.lookup_insert_eq, if_neg hk]
    · refine ⟨false, s, ?_, fun _ _ => rfl⟩
      unfold UserRequestStore.updateRequest
      rw [Db.returns_get_bind, hrow]
      dsimp only
      rw [if_neg hstatus]
      exact Db.returns_pure.mpr ⟨rfl, rfl⟩

theorem orphan_total (s : UserRequestStore W) (h : W) :
    ∃ updated t, (orphan h).Returns s updated t ∧ ∀ k, k ≠ h → t.requests.lookup k = s.requests.lookup k := by
  obtain ⟨updated, t, hupdate, hframe⟩ := updateRequest_total s h [.included] fun row =>
    { row with status := .processing, includedAtBlock := none, includedBlockHash := none }
  exact ⟨updated, t, Db.exec_statement_ok _ hupdate, hframe⟩

def includedRow (row : StoredUserRequest W) (height : ℕ) (blockHash : W) : StoredUserRequest W :=
  { row with status := .included, includedAtBlock := some height, includedBlockHash := some blockHash }

/-- The row of a confirmed request as the statements leave it. -/
def confirmedRow (row : StoredUserRequest W) (height : ℕ) (blockHash : W) (final : Prop) [Decidable final] :
    StoredUserRequest W :=
  if final then { includedRow row height blockHash with status := .executed } else includedRow row height blockHash

theorem markIncluded_listed {height : ℕ} (blockHash : W) (hrow : s.requests.lookup h = some row)
    (hstatus : row.status ∈ [UserRequestStatus.processing, .included]) (hheight : height < 2 ^ 63) :
    (UserRequestStore.markIncluded h height blockHash).Returns s true
      { s with requests := s.requests.insert h (includedRow row height blockHash) } :=
  Db.returns_bind.mpr ⟨height, s, UserRequestStore.returns_encodeHeight.mpr ⟨hheight, rfl, rfl⟩,
    updateRequest_listed hrow hstatus⟩

theorem markExecuted_included {height : ℕ} {blockHash : W}
    (hrow : s.requests.lookup h = some (includedRow row height blockHash)) :
    ∃ t, (UserRequestStore.markExecuted h).Returns s true t ∧
      t.requests = s.requests.insert h { includedRow row height blockHash with status := .executed } :=
  ⟨_, Db.returns_bind.mpr ⟨true, _, updateRequest_listed hrow List.mem_cons_self,
    Db.returns_bind.mpr ⟨⟨⟩, _, Db.returns_modify.mpr rfl, Db.returns_pure.mpr ⟨rfl, rfl⟩⟩⟩, rfl⟩

theorem markConfirmed_listed {height : ℕ} (blockHash : W) (final : Prop) [Decidable final]
    (hrow : s.requests.lookup h = some row) (hstatus : row.status ∈ [UserRequestStatus.processing, .included])
    (hheight : height < 2 ^ 63) :
    ∃ n t, (markConfirmed h height blockHash final).Returns s n t ∧
      t.requests.lookup h = some (confirmedRow row height blockHash final) ∧
      ∀ k, k ≠ h → t.requests.lookup k = s.requests.lookup k := by
  have hincluded := Db.exec_statement_ok ReconcileError.requestDatabase
    (markIncluded_listed blockHash hrow hstatus hheight)
  have hlookup : (s.requests.insert h (includedRow row height blockHash)).lookup h =
      some (includedRow row height blockHash) := by rw [Table.lookup_insert_eq, if_pos rfl]
  by_cases hfinal : final
  · obtain ⟨t, hexecuted, hrequests⟩ := markExecuted_included
      (s := { s with requests := s.requests.insert h (includedRow row height blockHash) }) hlookup
    refine ⟨1, t, Db.returns_bind.mpr ⟨true, _, hincluded, ?_⟩, ?_, fun k hk => ?_⟩
    · rw [if_pos hfinal]
      exact Db.returns_bind.mpr ⟨true, _, Db.exec_statement_ok _ hexecuted, Db.returns_pure.mpr ⟨rfl, rfl⟩⟩
    · rw [hrequests, confirmedRow, if_pos hfinal, Table.lookup_insert_eq, if_pos rfl]
    · rw [hrequests, Table.lookup_insert_eq, if_neg hk, Table.lookup_insert_eq, if_neg hk]
  · refine ⟨0, { s with requests := s.requests.insert h (includedRow row height blockHash) },
      Db.returns_bind.mpr ⟨true, _, hincluded, ?_⟩, ?_, fun k hk => ?_⟩
    · rw [if_neg hfinal]
      exact Db.returns_pure.mpr ⟨rfl, rfl⟩
    · rw [confirmedRow, if_neg hfinal]
      exact hlookup
    · rw [Table.lookup_insert_eq, if_neg hk]

theorem markConfirmed_tooHigh {height : ℕ} (blockHash : W) (final : Prop) [Decidable final] (hheight : ¬height < 2 ^ 63) :
    ∃ e, (markConfirmed h height blockHash final).exec s = (.error e, s) := by
  have hincluded : (UserRequestStore.markIncluded h height blockHash).exec s = (.error .encode, s) := by
    unfold UserRequestStore.markIncluded
    rw [Db.exec_bind, UserRequestStore.encodeHeight, if_neg hheight]
    rfl
  refine ⟨.requestDatabase .encode, ?_⟩
  unfold markConfirmed
  rw [Db.exec_bind, Db.exec_statement_error _ hincluded]

end Statements

section Turns

variable (tip : ℕ) (item : W × StoredUserRequest W)

/-- The node's answer about the transaction of an item, if its result can be read. -/
def answer : Option (Except String RawTransactionInfo) :=
  item.2.payload.bind fun payload =>
    match chain.resultTxid payload with
    | .ok txid => some (chain.getRawTransaction item.1 txid)
    | .error _ => none

/-- The node answers that the transaction is in a block. -/
def Confirmed (confirmation : RawTransactionInfo) : Prop :=
  answer chain item = some (.ok confirmation) ∧ 0 < confirmation.confirmations

/-- The row of a confirmed item is included in the block of the answer, or executed if that is final. -/
def Marked (confirmation : RawTransactionInfo) (row : StoredUserRequest W) : Prop :=
  ∃ blockHash, confirmedBlock chain confirmation = .ok blockHash ∧
    row.includedAtBlock = some (includedAt tip confirmation.confirmations) ∧
    row.includedBlockHash = some blockHash ∧
    row.status = if isFinal chain confirmation then .executed else .included

/-- What ends the pass at an item: its result cannot be read, its transaction is missing and cannot be
sent again, or the block of its transaction cannot be read or stored. -/
inductive Stops : Prop
  | unreadable (payload : List UInt8) (error : String) (hpayload : item.2.payload = some payload)
      (herror : chain.resultTxid payload = .error error)
  | missing (error : String) (transaction : List UInt8) (error' : String) (hanswer : answer chain item = some (.error error))
      (htransaction : item.2.executionTx = some transaction)
      (hsend : chain.sendRawTransaction item.1 transaction = .error error')
  | noBlock (confirmation : RawTransactionInfo) (error : ReconcileError) (h : Confirmed chain item confirmation)
      (herror : confirmedBlock chain confirmation = .error error)
  | tooHigh (confirmation : RawTransactionInfo) (h : Confirmed chain item confirmation)
      (hheight : ¬includedAt tip confirmation.confirmations < 2 ^ 63)

variable {chain tip item}

omit [LinearOrder W] in
theorem rebroadcast_error {e : ReconcileError} : rebroadcast chain item = .error e →
    ∃ transaction error, item.2.executionTx = some transaction ∧
      chain.sendRawTransaction item.1 transaction = .error error := by
  unfold rebroadcast
  cases item.2.executionTx with
  | none => nofun
  | some transaction =>
    cases hsend : chain.sendRawTransaction item.1 transaction with
    | ok text =>
      dsimp only
      rw [hsend]
      nofun
    | error error => exact fun _ => ⟨transaction, error, rfl, hsend⟩

/-- One turn: how it goes on, and that it only changes the row of its item. -/
inductive Turn (chain : UserChain W) (tip : ℕ) (item : W × StoredUserRequest W) (s : UserRequestStore W) : Prop
  /-- The transaction is in no block, and nothing ends the pass. -/
  | unconfirmed (n : ℕ) (t : UserRequestStore W) (hstop : ¬Stops chain tip item)
      (hunconfirmed : ∀ confirmation, ¬Confirmed chain item confirmation)
      (hrun : (reconcileRequest chain tip item).Returns s n t)
      (hframe : ∀ k, k ≠ item.1 → t.requests.lookup k = s.requests.lookup k)
  | lost (e : ReconcileError) (t : UserRequestStore W) (hstop : Stops chain tip item)
      (hunconfirmed : ∀ confirmation, ¬Confirmed chain item confirmation)
      (hrun : (reconcileRequest chain tip item).exec s = (.error e, t))
      (hframe : ∀ k, k ≠ item.1 → t.requests.lookup k = s.requests.lookup k)
  | confirmed (confirmation : RawTransactionInfo) (n : ℕ) (t : UserRequestStore W) (hstop : ¬Stops chain tip item)
      (hconfirmed : Confirmed chain item confirmation)
      (hrun : (reconcileRequest chain tip item).Returns s n t)
      (hmarked : ∃ row, t.requests.lookup item.1 = some row ∧ Marked chain tip confirmation row)
      (hframe : ∀ k, k ≠ item.1 → t.requests.lookup k = s.requests.lookup k)
  | refused (confirmation : RawTransactionInfo) (e : ReconcileError) (hstop : Stops chain tip item)
      (hconfirmed : Confirmed chain item confirmation)
      (hrun : (reconcileRequest chain tip item).exec s = (.error e, s))

omit [LinearOrder W] in
theorem marked_confirmedRow {confirmation : RawTransactionInfo} {blockHash : W} {row : StoredUserRequest W}
    (hblock : confirmedBlock chain confirmation = .ok blockHash) :
    Marked chain tip confirmation
      (confirmedRow row (includedAt tip confirmation.confirmations) blockHash (isFinal chain confirmation)) := by
  refine ⟨blockHash, hblock, ?_⟩
  unfold confirmedRow includedRow
  split_ifs
  · exact ⟨rfl, rfl, rfl⟩
  · exact ⟨rfl, rfl, rfl⟩

theorem turn_confirmed {confirmation : RawTransactionInfo} {s : UserRequestStore W}
    (hrow : s.requests.lookup item.1 = some item.2)
    (hstatus : item.2.status ∈ [UserRequestStatus.processing, .included])
    (hconfirmed : Confirmed chain item confirmation)
    (hrun : reconcileRequest chain tip item = (do
      let blockHash ← Db.check (confirmedBlock chain confirmation)
      markConfirmed item.1 (includedAt tip confirmation.confirmations) blockHash (isFinal chain confirmation))) :
    Turn chain tip item s := by
  cases hblock : confirmedBlock chain confirmation with
  | error e =>
    refine .refused confirmation e (.noBlock confirmation e hconfirmed hblock) hconfirmed ?_
    rw [hrun, hblock]
    rfl
  | ok blockHash =>
    have hmark : reconcileRequest chain tip item =
        markConfirmed item.1 (includedAt tip confirmation.confirmations) blockHash (isFinal chain confirmation) := by
      rw [hrun, hblock]
      rfl
    by_cases hheight : includedAt tip confirmation.confirmations < 2 ^ 63
    · obtain ⟨n, t, hreturns, hlookup, hframe⟩ := markConfirmed_listed blockHash
        (isFinal chain confirmation) hrow hstatus hheight
      refine .confirmed confirmation n t (fun hstop => ?_) hconfirmed (hmark ▸ hreturns)
        ⟨_, hlookup, marked_confirmedRow hblock⟩ hframe
      cases hstop with
      | unreadable payload error hpayload herror =>
        have hanswer := hconfirmed.1
        rw [answer, hpayload] at hanswer
        simp only [Option.bind_some, herror] at hanswer
        cases hanswer
      | missing error transaction error' hanswer =>
        rw [hconfirmed.1] at hanswer
        cases hanswer
      | noBlock other error hother herror =>
        have heq : confirmation = other := Except.ok.inj (Option.some.inj (hconfirmed.1.symm.trans hother.1))
        rw [← heq, hblock] at herror
        cases herror
      | tooHigh other hother hhigh =>
        have heq : confirmation = other := Except.ok.inj (Option.some.inj (hconfirmed.1.symm.trans hother.1))
        exact hhigh (heq ▸ hheight)
    · obtain ⟨e, herror⟩ := markConfirmed_tooHigh (s := s) (h := item.1) blockHash
        (isFinal chain confirmation) hheight
      exact .refused confirmation e (.tooHigh confirmation hconfirmed hheight) hconfirmed (hmark ▸ herror)

theorem turn (chain : UserChain W) (tip : ℕ) {item : W × StoredUserRequest W} {s : UserRequestStore W}
    (hrow : s.requests.lookup item.1 = some item.2)
    (hstatus : item.2.status ∈ [UserRequestStatus.processing, .included]) : Turn chain tip item s := by
  cases hpayload : item.2.payload with
  | none =>
    have hanswer : answer chain item = none := by rw [answer, hpayload, Option.bind_none]
    refine .unconfirmed 0 s (fun hstop => ?_) (fun confirmation h => ?_) ?_ fun _ _ => rfl
    · cases hstop with
      | unreadable payload error h => rw [hpayload] at h; cases h
      | missing error transaction error' h => rw [hanswer] at h; cases h
      | noBlock confirmation error h => rw [Confirmed, hanswer] at h; cases h.1
      | tooHigh confirmation h => rw [Confirmed, hanswer] at h; cases h.1
    · rw [Confirmed, hanswer] at h
      cases h.1
    · rw [reconcileRequest, hpayload]
      exact Db.returns_pure.mpr ⟨rfl, rfl⟩
  | some payload =>
    cases htxid : chain.resultTxid payload with
    | error error =>
      have hanswer : answer chain item = none := by
        rw [answer, hpayload]
        simp only [Option.bind_some, htxid]
      refine .lost (.json error) s (.unreadable payload error hpayload htxid) (fun confirmation h => ?_) ?_ fun _ _ => rfl
      · rw [Confirmed, hanswer] at h
        cases h.1
      · rw [reconcileRequest, hpayload]
        dsimp only
        rw [htxid]
        rfl
    | ok txid =>
      have hanswer : answer chain item = some (chain.getRawTransaction item.1 txid) := by
        rw [answer, hpayload]
        simp only [Option.bind_some, htxid]
      have hread : reconcileRequest chain tip item = (match chain.getRawTransaction item.1 txid with
          | .error _ => do
            let _ ← orphan item.1
            Db.check (rebroadcast chain item)
            return 0
          | .ok confirmation =>
            if confirmation.confirmations = 0 then do
              let _ ← orphan item.1
              return 0
            else do
              let blockHash ← Db.check (confirmedBlock chain confirmation)
              markConfirmed item.1 (includedAt tip confirmation.confirmations) blockHash
                (isFinal chain confirmation)) := by
        rw [reconcileRequest, hpayload]
        dsimp only
        rw [htxid]
        rfl
      obtain ⟨updated, t, horphan, hframe⟩ := orphan_total s item.1
      cases hraw : chain.getRawTransaction item.1 txid with
      | error error =>
        rw [hraw] at hanswer hread
        have hunconfirmed : ∀ confirmation, ¬Confirmed chain item confirmation := fun confirmation h => by
          have hok := hanswer.symm.trans h.1
          cases hok
        cases hsend : rebroadcast chain item with
        | error e =>
          obtain ⟨transaction, error', htransaction, herror⟩ := rebroadcast_error hsend
          refine .lost e t (.missing error transaction error' hanswer htransaction herror) hunconfirmed ?_ hframe
          rw [hread, Db.exec_bind, horphan]
          dsimp only
          rw [hsend]
          rfl
        | ok sent =>
          refine .unconfirmed 0 t (fun hstop => ?_) hunconfirmed ?_ hframe
          · cases hstop with
            | unreadable other error h herror =>
              rw [hpayload, Option.some_inj] at h
              rw [← h, htxid] at herror
              cases herror
            | missing error transaction error' h htransaction herror =>
              rw [rebroadcast, htransaction] at hsend
              dsimp only at hsend
              rw [herror] at hsend
              cases hsend
            | noBlock confirmation error h => exact hunconfirmed confirmation h
            | tooHigh confirmation h => exact hunconfirmed confirmation h
          · rw [hread]
            refine Db.returns_bind.mpr ⟨updated, t, horphan, Db.returns_bind.mpr ⟨sent, t, ?_, ?_⟩⟩
            · exact Db.returns_check.mpr ⟨hsend, rfl⟩
            · exact Db.returns_pure.mpr ⟨rfl, rfl⟩
      | ok confirmation =>
        rw [hraw] at hanswer hread
        by_cases hzero : confirmation.confirmations = 0
        · have hunconfirmed : ∀ other, ¬Confirmed chain item other := fun other h => by
            have heq : confirmation = other := Except.ok.inj (Option.some.inj (hanswer.symm.trans h.1))
            have hpos := h.2
            rw [← heq] at hpos
            omega
          refine .unconfirmed 0 t (fun hstop => ?_) hunconfirmed ?_ hframe
          · cases hstop with
            | unreadable other error h herror =>
              rw [hpayload, Option.some_inj] at h
              rw [← h, htxid] at herror
              cases herror
            | missing error transaction error' h =>
              rw [hanswer] at h
              cases h
            | noBlock other error h => exact hunconfirmed other h
            | tooHigh other h => exact hunconfirmed other h
          · rw [hread]
            dsimp only
            rw [if_pos hzero]
            exact Db.returns_bind.mpr ⟨updated, t, horphan, Db.returns_pure.mpr ⟨rfl, rfl⟩⟩
        · refine turn_confirmed hrow hstatus ⟨hanswer, Nat.pos_of_ne_zero hzero⟩ ?_
          rw [hread]
          dsimp only
          rw [if_neg hzero]

end Turns

section Passes

variable {store : UserRequestStore W}

/-- What a pass leaves. -/
def after (store : UserRequestStore W) : UserRequestStore W := ((reconcileConfirmations chain).exec store).2

/-- Every item whose transaction is confirmed is marked by the pass. -/
def Isolated (store : UserRequestStore W) : Prop :=
  ∀ item confirmation, item ∈ listProcessing store → Confirmed chain item confirmation →
    ∃ tip row, chain.getBlockCount = .ok tip ∧ (after chain store).requests.lookup item.1 = some row ∧
      Marked chain tip confirmation row

/-- The node answers, and no item up to a confirmed one ends the pass unless that one is marked already. -/
def NothingInFront (store : UserRequestStore W) : Prop :=
  ∀ front item back confirmation, listProcessing store = front ++ item :: back → Confirmed chain item confirmation →
    ∃ tip, chain.getBlockCount = .ok tip ∧
      (Marked chain tip confirmation item.2 ∨ ∀ other ∈ front ++ [item], ¬Stops chain tip other)

theorem mem_listProcessing {item : W × StoredUserRequest W} (h : item ∈ listProcessing store) :
    store.requests.lookup item.1 = some item.2 ∧ item.2.status ∈ [UserRequestStatus.processing, .included] := by
  unfold listProcessing at h
  rw [List.mem_insertionSort, List.mem_filter] at h
  obtain ⟨hmem, hstatus⟩ := h
  obtain ⟨⟨hash, row⟩, hentry, rfl⟩ := List.mem_map.mp hmem
  exact ⟨List.mem_dlookup store.requests.nodupKeys hentry, by simpa using hstatus⟩

theorem nodup_listProcessing (store : UserRequestStore W) : ((listProcessing store).map Prod.fst).Nodup := by
  unfold listProcessing
  rw [((List.perm_insertionSort _ _).map Prod.fst).nodup_iff]
  refine List.Nodup.sublist (List.filter_sublist.map Prod.fst) ?_
  rw [List.map_map]
  exact store.requests.nodupKeys

theorem after_of_tip {tip : ℕ} (h : chain.getBlockCount = .ok tip) :
    after chain store = ((Db.pass (reconcileRequest chain tip) (listProcessing store)).exec store).2 := by
  unfold after reconcileConfirmations
  rw [Db.exec_get_bind]
  dsimp only
  by_cases hempty : (listProcessing store).isEmpty
  · rw [if_pos hempty, List.isEmpty_iff.mp hempty]
    rfl
  · rw [if_neg hempty, h]
    rfl

theorem rows (tip : ℕ) : Db.Rows (reconcileRequest chain tip) Prod.fst (fun k s => s.requests.lookup k) (fun item => some item.2)
    (fun item => item.2.status ∈ [UserRequestStatus.processing, .included]) (Stops chain tip)
    (fun item row => ∀ confirmation, Confirmed chain item confirmation →
      ∃ stored, row = some stored ∧ Marked chain tip confirmation stored) where
  frame item s k hrow hstatus hk := by
    cases turn chain tip hrow hstatus with
    | unconfirmed n t hstop hunconfirmed hrun hframe => rw [hrun]; exact hframe k hk
    | lost e t hstop hunconfirmed hrun hframe => rw [hrun]; exact hframe k hk
    | confirmed confirmation n t hstop hconfirmed hrun hmarked hframe => rw [hrun]; exact hframe k hk
    | refused confirmation e hstop hconfirmed hrun => rw [hrun]
  goes item s hrow hstatus hgo := by
    cases turn chain tip hrow hstatus with
    | unconfirmed n t hstop hunconfirmed hrun hframe =>
      exact ⟨n, t, hrun, fun confirmation h => absurd h (hunconfirmed confirmation)⟩
    | lost e t hstop => exact absurd hstop hgo
    | confirmed confirmation n t hstop hconfirmed hrun hmarked =>
      refine ⟨n, t, hrun, fun other h => ?_⟩
      have heq : confirmation = other := Except.ok.inj (Option.some.inj (hconfirmed.1.symm.trans h.1))
      exact heq ▸ hmarked
    | refused confirmation e hstop => exact absurd hstop hgo
  ends item s hrow hstatus hstop := by
    cases turn chain tip hrow hstatus with
    | unconfirmed n t hgo => exact absurd hstop hgo
    | lost e t hstop hunconfirmed hrun => exact ⟨e, t, hrun⟩
    | confirmed confirmation n t hgo => exact absurd hstop hgo
    | refused confirmation e hstop hconfirmed hrun => exact ⟨e, s, hrun⟩

/-- Where nothing in front ends the pass, the item is marked. -/
theorem marked_of_reached {tip : ℕ} {front back : List (W × StoredUserRequest W)} {item : W × StoredUserRequest W}
    {confirmation : RawTransactionInfo} (htip : chain.getBlockCount = .ok tip)
    (hlist : listProcessing store = front ++ item :: back) (hconfirmed : Confirmed chain item confirmation)
    (hgo : ∀ other ∈ front ++ [item], ¬Stops chain tip other) :
    ∃ row, (after chain store).requests.lookup item.1 = some row ∧ Marked chain tip confirmation row := by
  have hlist' : listProcessing store = (front ++ [item]) ++ back := by rw [hlist, List.append_cons]
  have hnodup := nodup_listProcessing store
  have hlisted : ∀ other ∈ listProcessing store, store.requests.lookup other.1 = some other.2 :=
    fun other hother => (mem_listProcessing hother).1
  have hstatus : ∀ other ∈ listProcessing store, other.2.status ∈ [UserRequestStatus.processing, .included] :=
    fun other hother => (mem_listProcessing hother).2
  rw [hlist'] at hnodup hlisted hstatus
  obtain ⟨t, hpass, hrows, hdone⟩ := (rows chain tip).reaches hnodup hlisted fun other hother =>
    ⟨hstatus other (List.mem_append_left _ hother), hgo other hother⟩
  have hitem : item ∈ front ++ [item] := List.mem_append_right _ (List.mem_singleton.mpr rfl)
  obtain ⟨row, hrow, hmarked⟩ := hdone item hitem confirmation hconfirmed
  rw [List.map_append] at hnodup
  obtain ⟨-, hback, hkeys⟩ := List.nodup_append.mp hnodup
  have hbackRows : ∀ next ∈ back, t.requests.lookup next.1 = some next.2 := by
    intro next hnext
    rw [hrows next.1 fun other hother heq =>
      hkeys other.1 (List.mem_map_of_mem hother) next.1 (List.mem_map_of_mem hnext) heq.symm]
    exact hlisted next (List.mem_append_right _ hnext)
  have hlast := (rows chain tip).untouched (k := item.1) hback hbackRows
    (fun next hnext => hstatus next (List.mem_append_right _ hnext))
    fun next hnext heq => hkeys item.1 (List.mem_map_of_mem hitem) next.1 (List.mem_map_of_mem hnext) heq
  refine ⟨row, ?_, hmarked⟩
  rw [after_of_tip chain htip, hlist', hpass]
  exact hlast.trans hrow

/-- Where an item up to it ends the pass, a confirmed item is left as it was. -/
theorem row_of_unreached {tip : ℕ} {front back : List (W × StoredUserRequest W)} {item : W × StoredUserRequest W}
    {confirmation : RawTransactionInfo} (htip : chain.getBlockCount = .ok tip)
    (hlist : listProcessing store = front ++ item :: back) (hconfirmed : Confirmed chain item confirmation)
    (hstop : ¬∀ other ∈ front ++ [item], ¬Stops chain tip other) :
    (after chain store).requests.lookup item.1 = some item.2 := by
  obtain ⟨first, other, rest, hsplit, hfirst, hother⟩ := Db.exists_first hstop
  have hlist' : listProcessing store = first ++ other :: (rest ++ back) := by
    rw [hlist, List.append_cons, hsplit, List.append_assoc, List.cons_append]
  have hnodup := nodup_listProcessing store
  have hlisted : ∀ next ∈ listProcessing store, store.requests.lookup next.1 = some next.2 :=
    fun next hnext => (mem_listProcessing hnext).1
  have hstatus : ∀ next ∈ listProcessing store, next.2.status ∈ [UserRequestStatus.processing, .included] :=
    fun next hnext => (mem_listProcessing hnext).2
  have hitem := hlisted item (hlist ▸ List.mem_append_right _ List.mem_cons_self)
  have hmem : other ∈ listProcessing store := hlist' ▸ List.mem_append_right _ List.mem_cons_self
  have hfirstMem : ∀ next ∈ first, next ∈ listProcessing store := fun next hnext =>
    hlist' ▸ List.mem_append_left _ hnext
  obtain ⟨t, hpass, hrows, -⟩ := (rows chain tip).reaches (hlist' ▸ hnodup) (hlist' ▸ hlisted) fun next hnext =>
    ⟨hstatus next (hfirstMem next hnext), hfirst next hnext⟩
  have hafter : after chain store = ((Db.pass (reconcileRequest chain tip) (other :: (rest ++ back))).exec t).2 := by
    rw [after_of_tip chain htip, hlist', hpass]
  rw [hlist', List.map_append, List.map_cons] at hnodup
  obtain ⟨-, -, hkeys⟩ := List.nodup_append.mp hnodup
  have hrow : t.requests.lookup other.1 = some other.2 :=
    (hrows other.1 fun next hnext heq => hkeys next.1 (List.mem_map_of_mem hnext) other.1 List.mem_cons_self
      heq.symm).trans (hlisted other hmem)
  -- The item is the one that ends the pass or stands behind it.
  have hbehind : item ∈ other :: rest := by
    have hlast : (other :: rest).getLast? = some item := by
      have hends := congrArg List.getLast? hsplit
      rwa [List.getLast?_append_cons, List.getLast?_append_cons, List.getLast?_singleton, eq_comm] at hends
    exact List.mem_of_getLast? hlast
  have hitemRow : t.requests.lookup item.1 = some item.2 := by
    rw [hrows item.1 fun next hnext heq => ?_, hitem]
    have hitemKey : item.1 ∈ other.1 :: (rest ++ back).map Prod.fst := by
      rw [← List.map_cons, ← List.cons_append]
      exact List.mem_map_of_mem (List.mem_append_left _ hbehind)
    exact hkeys next.1 (List.mem_map_of_mem hnext) item.1 hitemKey heq.symm
  cases turn chain tip hrow (hstatus other hmem) with
  | unconfirmed n u hgo => exact absurd hgo hother
  | confirmed c n u hgo => exact absurd hgo hother
  | lost e u hstops hunconfirmed hrun hframe =>
    rw [hafter, Db.pass_cons_error hrun]
    by_cases hsame : item.1 = other.1
    · have heq : item = other := Prod.ext hsame (Option.some.inj (hitem.symm.trans (hsame ▸ hlisted other hmem)))
      exact absurd hconfirmed (heq ▸ hunconfirmed confirmation)
    · rw [hframe item.1 hsame, hitemRow]
  | refused c e hstops hc hrun =>
    rw [hafter, Db.pass_cons_error hrun, hitemRow]

theorem isolated_iff (store : UserRequestStore W) : Isolated chain store ↔ NothingInFront chain store := by
  constructor
  · intro h front item back confirmation hlist hconfirmed
    have hmem : item ∈ listProcessing store := hlist ▸ List.mem_append_right _ List.mem_cons_self
    obtain ⟨tip, row, htip, hlookup, hmarked⟩ := h item confirmation hmem hconfirmed
    refine ⟨tip, htip, ?_⟩
    by_cases hgo : ∀ other ∈ front ++ [item], ¬Stops chain tip other
    · exact .inr hgo
    · rw [row_of_unreached chain htip hlist hconfirmed hgo, Option.some_inj] at hlookup
      exact .inl (hlookup ▸ hmarked)
  · intro h item confirmation hmem hconfirmed
    obtain ⟨front, back, hlist⟩ := List.append_of_mem hmem
    obtain ⟨tip, htip, hcases⟩ := h front item back confirmation hlist hconfirmed
    by_cases hgo : ∀ other ∈ front ++ [item], ¬Stops chain tip other
    · obtain ⟨row, hlookup, hmarked⟩ := marked_of_reached chain htip hlist hconfirmed hgo
      exact ⟨tip, row, htip, hlookup, hmarked⟩
    · exact ⟨tip, item.2, htip, row_of_unreached chain htip hlist hconfirmed hgo, hcases.resolve_right hgo⟩

end Passes

end UserReconciliation

end PriceOracle
