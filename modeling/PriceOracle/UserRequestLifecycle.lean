import PriceOracle.Runs
import PriceOracle.UserRequests

/-!
# The life of a user request

Runs of the store of user requests, each operation in a transaction of its own. Beside the
tables a run keeps the reservations that were made, whether or not they still stand.
-/

namespace PriceOracle

variable {W : Type}

namespace UserRequestStatus

/-- The fee UTXOs of the request are still reserved. -/
def live : UserRequestStatus → Bool
  | .pending | .processing | .included => true
  | .executed | .failed => false

/-- The moves of a stored request. -/
inductive Moves : UserRequestStatus → UserRequestStatus → Prop
  | issued : Moves .pending .processing
  | included : Moves .processing .included
  | executed : Moves .included .executed
  | orphaned : Moves .included .processing
  | failed : Moves .pending .failed

end UserRequestStatus

namespace UserRequestStore

variable {s t : UserRequestStore W}

section Statements

@[simp]
theorem returns_encodeHeight {value n : ℕ} : (encodeHeight value).Returns s n t ↔ value < 2 ^ 63 ∧ n = value ∧ t = s := by
  unfold encodeHeight
  simp [Db.returns_ite]

variable [DecidableEq W]

/-- A row changes under its key, from one of the statuses of the update. -/
theorem returns_updateRequest {h : W} {statuses : List UserRequestStatus}
    {change : StoredUserRequest W → StoredUserRequest W} {updated : Bool}
    (hrun : (updateRequest h statuses change).Returns s updated t) :
    (updated = false ∧ t = s) ∨ (updated = true ∧ ∃ row, s.requests.lookup h = some row ∧ row.status ∈ statuses ∧
      t = { s with requests := s.requests.insert h (change row) }) := by
  unfold updateRequest at hrun
  rw [Db.returns_get_bind] at hrun
  cases hrow : s.requests.lookup h with
  | none =>
    rw [hrow] at hrun
    exact Or.inl (Db.returns_pure.mp hrun)
  | some row =>
    rw [hrow] at hrun
    obtain ⟨hstatus, hset⟩ | ⟨-, hpure⟩ := Db.returns_ite.mp hrun
    · obtain ⟨_, u, hu, hpure⟩ := Db.returns_bind.mp hset
      obtain ⟨rfl, rfl⟩ := Db.returns_pure.mp hpure
      exact Or.inr ⟨rfl, row, rfl, hstatus, Db.returns_set.mp hu⟩
    · exact Or.inl (Db.returns_pure.mp hpure)

theorem returns_endRequest {h : W} {statuses : List UserRequestStatus}
    {change : StoredUserRequest W → StoredUserRequest W} {updated : Bool}
    (hrun : (endRequest h statuses change).Returns s updated t) :
    (updated = false ∧ t = s) ∨ (updated = true ∧ ∃ row, s.requests.lookup h = some row ∧ row.status ∈ statuses ∧
      t = releaseFeeUtxos h { s with requests := s.requests.insert h (change row) }) := by
  unfold endRequest at hrun
  obtain ⟨changed, u, hupdate, hrest⟩ := Db.returns_bind.mp hrun
  obtain ⟨rfl, rfl⟩ | ⟨rfl, row, hrow, hstatus, rfl⟩ := returns_updateRequest hupdate
  · exact Or.inl (Db.returns_pure.mp hrest)
  · obtain ⟨_, v, hrelease, hpure⟩ := Db.returns_bind.mp hrest
    obtain ⟨rfl, rfl⟩ := Db.returns_pure.mp hpure
    exact Or.inr ⟨rfl, row, hrow, hstatus, Db.returns_modify.mp hrelease⟩

/-- Each UTXO of the list was free and is reserved for the request. -/
theorem returns_reserveFeeUtxos {h : W} {feeUtxos : List (FeeUtxo W)} {u : Unit}
    (hrun : (feeUtxos.forM (reserveFeeUtxo h)).Returns s u t) :
    t.requests = s.requests ∧ (∀ feeUtxo ∈ feeUtxos, s.feeUtxos.lookup feeUtxo = none) ∧
      ∀ feeUtxo, t.feeUtxos.lookup feeUtxo = if feeUtxo ∈ feeUtxos then some h else s.feeUtxos.lookup feeUtxo := by
  induction feeUtxos generalizing s with
  | nil =>
    obtain ⟨-, rfl⟩ := Db.returns_pure.mp hrun
    refine ⟨rfl, ?_, fun _ => rfl⟩
    intro feeUtxo hmem
    cases hmem
  | cons first feeUtxos ih =>
    obtain ⟨_, v, hfirst, hrest⟩ := Db.returns_bind.mp hrun
    unfold reserveFeeUtxo at hfirst
    rw [Db.returns_get_bind] at hfirst
    unfold insertFeeUtxo at hfirst
    by_cases hreserved : first ∈ s.feeUtxos
    · rw [if_pos hreserved] at hfirst
      exact absurd hfirst Db.returns_throw
    rw [if_neg hreserved] at hfirst
    obtain rfl := Db.returns_set.mp hfirst
    obtain ⟨hrequests, hfree, hlookup⟩ := ih hrest
    have hnone : s.feeUtxos.lookup first = none := AList.lookup_eq_none.mpr hreserved
    refine ⟨hrequests, fun feeUtxo hmem => ?_, fun feeUtxo => ?_⟩
    · obtain rfl | hmem := List.mem_cons.mp hmem
      · exact hnone
      · have hafter := hfree feeUtxo hmem
        rw [Table.lookup_insert_eq] at hafter
        split_ifs at hafter
        exact hafter
    · rw [hlookup, Table.lookup_insert_eq]
      by_cases hmem : feeUtxo ∈ feeUtxos
      · rw [if_pos hmem, if_pos (List.mem_cons_of_mem first hmem)]
      · rw [if_neg hmem]
        by_cases hfirst : feeUtxo = first
        · rw [if_pos hfirst, hfirst, if_pos List.mem_cons_self]
        · rw [if_neg hfirst, if_neg (by simp [hfirst, hmem])]

/-- A new request has its reservations, or nothing has changed. -/
theorem returns_insertPending {h : W} {request : List UInt8} {height : ℕ} {feeUtxos : List (FeeUtxo W)}
    {result : InsertPendingResult W} (hrun : (insertPending h request height feeUtxos).Returns s result t) :
    (result ≠ .inserted ∧ t = s) ∨ (result = .inserted ∧ s.requests.lookup h = none ∧
      t.requests = s.requests.insert h ⟨request, height, .pending, none, none, none, none⟩ ∧
      (∀ feeUtxo ∈ feeUtxos, s.feeUtxos.lookup feeUtxo = none) ∧
      ∀ feeUtxo, t.feeUtxos.lookup feeUtxo = if feeUtxo ∈ feeUtxos then some h else s.feeUtxos.lookup feeUtxo) := by
  unfold insertPending at hrun
  obtain ⟨_, v, hencode, hrest⟩ := Db.returns_bind.mp hrun
  obtain ⟨-, rfl, rfl⟩ := returns_encodeHeight.mp hencode
  obtain ⟨transaction, w, hattempt, hmatch⟩ := Db.returns_bind.mp hrest
  have hexec := Db.returns_attempt.mp hattempt
  cases transaction with
  | error conflict =>
    obtain ⟨rfl, rfl⟩ := Db.returns_pure.mp hmatch
    have hrollback := Db.exec_atomic_error (congrArg Prod.fst hexec)
    rw [hexec] at hrollback
    left
    refine ⟨fun hresult => ?_, hrollback⟩
    cases conflict with
    | requestHash => cases hresult
    | feeUtxo feeUtxo => cases hresult
  | ok _ =>
    obtain ⟨rfl, rfl⟩ := Db.returns_pure.mp hmatch
    right
    obtain ⟨_, x, hrow, hreserve⟩ := Db.returns_bind.mp (Db.returns_atomic.mp hexec)
    unfold insertPendingRow at hrow
    rw [Db.returns_get_bind] at hrow
    unfold insertRequest at hrow
    by_cases hstored : h ∈ v.requests
    · rw [if_pos hstored] at hrow
      exact absurd hrow Db.returns_throw
    rw [if_neg hstored] at hrow
    obtain rfl := Db.returns_set.mp hrow
    obtain ⟨hrequests, hfree, hlookup⟩ := returns_reserveFeeUtxos hreserve
    exact ⟨rfl, AList.lookup_eq_none.mpr hstored, hrequests, hfree, hlookup⟩

end Statements

end UserRequestStore

inductive UserRequestAction (W : Type) where
  | insertPending (requestHash : W) (request : List UInt8) (blockHeight : ℕ) (feeUtxos : List (FeeUtxo W))
  | observeProcessing (requestHash : W) (request : List UInt8) (blockHeight : ℕ) (payload : List UInt8)
  | markProcessing (requestHash : W) (payload executionTx : List UInt8)
  | markIncluded (requestHash : W) (blockHeight : ℕ) (blockHash : W)
  | markOrphaned (requestHash : W)
  | markExecuted (requestHash : W)
  | markFailed (requestHash : W) (reason : List UInt8)

/-- The store, and every reservation that was made with its request. -/
structure UserRequestRun (W : Type) where
  store : UserRequestStore W
  reserved : List (W × FeeUtxo W)

namespace UserRequestRun

open UserRequestStore

def initial : UserRequestRun W := ⟨.empty, []⟩

variable [DecidableEq W]

/-- The operation, with the reservations that it makes. -/
def program : UserRequestAction W → Db (UserRequestStore W) SqlError (List (W × FeeUtxo W))
  | .insertPending requestHash request blockHeight feeUtxos => do
    let result ← insertPending requestHash request blockHeight feeUtxos
    pure (if result = .inserted then feeUtxos.map fun feeUtxo => (requestHash, feeUtxo) else [])
  | .observeProcessing requestHash request blockHeight payload => do
    observeProcessing requestHash request blockHeight payload
    pure []
  | .markProcessing requestHash payload executionTx => do
    let _ ← markProcessing requestHash payload executionTx
    pure []
  | .markIncluded requestHash blockHeight blockHash => do
    let _ ← markIncluded requestHash blockHeight blockHash
    pure []
  | .markOrphaned requestHash => do
    let _ ← markOrphaned requestHash
    pure []
  | .markExecuted requestHash => do
    let _ ← markExecuted requestHash
    pure []
  | .markFailed requestHash reason => do
    let _ ← markFailed requestHash reason
    pure []

def step (run : UserRequestRun W) (action : UserRequestAction W) : UserRequestRun W :=
  match (program action).atomic.exec run.store with
  | (.ok made, store) => ⟨store, run.reserved ++ made⟩
  | (.error _, store) => ⟨store, run.reserved⟩

def status (store : UserRequestStore W) (requestHash : W) : Option UserRequestStatus :=
  (store.requests.lookup requestHash).map StoredUserRequest.status

/-- What an operation can do to the tables. -/
inductive Effect (s t : UserRequestStore W) : List (W × FeeUtxo W) → Prop where
  | nothing (same : t = s) : Effect s t []
  | inserted (requestHash : W) (row : StoredUserRequest W) (feeUtxos : List (FeeUtxo W))
    (new : s.requests.lookup requestHash = none) (requests : t.requests = s.requests.insert requestHash row)
    (pending : row.status = .pending) (free : ∀ feeUtxo ∈ feeUtxos, s.feeUtxos.lookup feeUtxo = none)
    (reserved : ∀ feeUtxo, t.feeUtxos.lookup feeUtxo =
      if feeUtxo ∈ feeUtxos then some requestHash else s.feeUtxos.lookup feeUtxo) :
    Effect s t (feeUtxos.map fun feeUtxo => (requestHash, feeUtxo))
  | observed (requestHash : W) (row : StoredUserRequest W) (new : s.requests.lookup requestHash = none)
    (processing : row.status = .processing)
    (stored : t = { s with requests := s.requests.insert requestHash row }) : Effect s t []
  | updated (requestHash : W) (row row' : StoredUserRequest W) (stored : s.requests.lookup requestHash = some row)
    (moves : row'.status = row.status ∨ row.status.Moves row'.status) (live : row.status.live ∧ row'.status.live)
    (requests : t = { s with requests := s.requests.insert requestHash row' }) : Effect s t []
  | ended (requestHash : W) (row row' : StoredUserRequest W) (stored : s.requests.lookup requestHash = some row)
    (moves : row.status.Moves row'.status) (ended : row'.status.live = false)
    (requests : t = releaseFeeUtxos requestHash { s with requests := s.requests.insert requestHash row' }) :
    Effect s t []

theorem effect {action : UserRequestAction W} {s t : UserRequestStore W} {made : List (W × FeeUtxo W)}
    (h : (program action).Returns s made t) : Effect s t made := by
  cases action with
  | insertPending requestHash request blockHeight feeUtxos =>
    obtain ⟨result, u, hinsert, hpure⟩ := Db.returns_bind.mp h
    obtain ⟨rfl, rfl⟩ := Db.returns_pure.mp hpure
    obtain ⟨hresult, rfl⟩ | ⟨rfl, hnew, hrequests, hfree, hlookup⟩ := returns_insertPending hinsert
    · rw [if_neg hresult]
      exact .nothing rfl
    · rw [if_pos rfl]
      exact .inserted requestHash _ feeUtxos hnew hrequests rfl hfree hlookup
  | observeProcessing requestHash request blockHeight payload =>
    obtain ⟨_, u, hobserve, hpure⟩ := Db.returns_bind.mp h
    obtain ⟨rfl, rfl⟩ := Db.returns_pure.mp hpure
    unfold observeProcessing at hobserve
    obtain ⟨_, v, hencode, hmodify⟩ := Db.returns_bind.mp hobserve
    obtain ⟨-, rfl, rfl⟩ := returns_encodeHeight.mp hencode
    obtain rfl := Db.returns_modify.mp hmodify
    unfold insertRequest
    by_cases hstored : requestHash ∈ v.requests
    · rw [if_pos hstored]
      exact .nothing rfl
    · rw [if_neg hstored]
      exact .observed requestHash _ (AList.lookup_eq_none.mpr hstored) rfl rfl
  | markProcessing requestHash payload executionTx =>
    obtain ⟨_, u, hmark, hpure⟩ := Db.returns_bind.mp h
    obtain ⟨rfl, rfl⟩ := Db.returns_pure.mp hpure
    obtain ⟨-, rfl⟩ | ⟨-, row, hrow, hstatus, ht⟩ := returns_updateRequest hmark
    · exact .nothing rfl
    · have hpending := List.mem_singleton.mp hstatus
      refine .updated requestHash row _ hrow (Or.inr ?_) ?_ ht
      · rw [hpending]
        exact .issued
      · rw [hpending]
        exact ⟨rfl, rfl⟩
  | markIncluded requestHash blockHeight blockHash =>
    obtain ⟨_, u, hmark, hpure⟩ := Db.returns_bind.mp h
    obtain ⟨rfl, rfl⟩ := Db.returns_pure.mp hpure
    unfold markIncluded at hmark
    obtain ⟨_, v, hencode, hupdate⟩ := Db.returns_bind.mp hmark
    obtain ⟨-, rfl, rfl⟩ := returns_encodeHeight.mp hencode
    obtain ⟨-, rfl⟩ | ⟨-, row, hrow, hstatus, ht⟩ := returns_updateRequest hupdate
    · exact .nothing rfl
    · obtain hprocessing | hincluded := List.mem_pair.mp hstatus
      · refine .updated requestHash row _ hrow (Or.inr ?_) ?_ ht
        · rw [hprocessing]
          exact .included
        · rw [hprocessing]
          exact ⟨rfl, rfl⟩
      · refine .updated requestHash row _ hrow (Or.inl hincluded.symm) ?_ ht
        rw [hincluded]
        exact ⟨rfl, rfl⟩
  | markOrphaned requestHash =>
    obtain ⟨_, u, hmark, hpure⟩ := Db.returns_bind.mp h
    obtain ⟨rfl, rfl⟩ := Db.returns_pure.mp hpure
    obtain ⟨-, rfl⟩ | ⟨-, row, hrow, hstatus, ht⟩ := returns_updateRequest hmark
    · exact .nothing rfl
    · have hincluded := List.mem_singleton.mp hstatus
      refine .updated requestHash row _ hrow (Or.inr ?_) ?_ ht
      · rw [hincluded]
        exact .orphaned
      · rw [hincluded]
        exact ⟨rfl, rfl⟩
  | markExecuted requestHash =>
    obtain ⟨_, u, hmark, hpure⟩ := Db.returns_bind.mp h
    obtain ⟨rfl, rfl⟩ := Db.returns_pure.mp hpure
    obtain ⟨-, rfl⟩ | ⟨-, row, hrow, hstatus, ht⟩ := returns_endRequest hmark
    · exact .nothing rfl
    · refine .ended requestHash row _ hrow ?_ rfl ht
      rw [List.mem_singleton.mp hstatus]
      exact .executed
  | markFailed requestHash reason =>
    obtain ⟨_, u, hmark, hpure⟩ := Db.returns_bind.mp h
    obtain ⟨rfl, rfl⟩ := Db.returns_pure.mp hpure
    obtain ⟨-, rfl⟩ | ⟨-, row, hrow, hstatus, ht⟩ := returns_endRequest hmark
    · exact .nothing rfl
    · refine .ended requestHash row _ hrow ?_ rfl ht
      rw [List.mem_singleton.mp hstatus]
      exact .failed

section Effects

variable {s t : UserRequestStore W} {made : List (W × FeeUtxo W)}

theorem status_insert (store : UserRequestStore W) (h h' : W) (row : StoredUserRequest W) :
    status { store with requests := store.requests.insert h row } h' =
      if h' = h then some row.status else status store h' := by
  unfold status
  dsimp only
  rw [Table.lookup_insert_eq]
  split_ifs
  · rfl
  · rfl

/-- What a step does to the status of one request. -/
inductive StatusMove : Option UserRequestStatus → Option UserRequestStatus → Prop
  | stays (status : Option UserRequestStatus) : StatusMove status status
  | pending : StatusMove none (some .pending)
  | processing : StatusMove none (some .processing)
  | moves {status status' : UserRequestStatus} (h : status.Moves status') : StatusMove (some status) (some status')

theorem Effect.statusMove (h : Effect s t made) (requestHash : W) :
    StatusMove (status s requestHash) (status t requestHash) := by
  cases h with
  | nothing same =>
    rw [same]
    exact .stays _
  | inserted key row feeUtxos new requests pending =>
    have hstatus : status t requestHash = if requestHash = key then some row.status else status s requestHash := by
      rw [← status_insert]
      unfold status
      rw [requests]
    rw [hstatus]
    split_ifs with hkey
    · rw [hkey, pending]
      unfold status
      rw [new]
      exact .pending
    · exact .stays _
  | observed key row new processing stored =>
    rw [stored, status_insert]
    split_ifs with hkey
    · rw [hkey, processing]
      unfold status
      rw [new]
      exact .processing
    · exact .stays _
  | updated key row row' stored moves live requests =>
    rw [requests, status_insert]
    split_ifs with hkey
    · have hstatus : status s requestHash = some row.status := by
        unfold status
        rw [hkey, stored]
        rfl
      rw [hstatus]
      obtain hsame | hmoves := moves
      · rw [hsame]
        exact .stays _
      · exact .moves hmoves
    · exact .stays _
  | ended key row row' stored moves ended requests =>
    have hstatus : status t requestHash = if requestHash = key then some row'.status else status s requestHash := by
      rw [← status_insert]
      unfold status
      rw [requests]
      rfl
    rw [hstatus]
    split_ifs with hkey
    · unfold status
      rw [hkey, stored]
      exact .moves moves
    · exact .stays _

/-- A reservation stands exactly while its request is live. -/
structure Reserves (run : UserRequestRun W) : Prop where
  reserved_iff : ∀ feeUtxo h, run.store.feeUtxos.lookup feeUtxo = some h ↔
    (h, feeUtxo) ∈ run.reserved ∧ ∃ current, status run.store h = some current ∧ current.live
  known : ∀ h feeUtxo, (h, feeUtxo) ∈ run.reserved → status run.store h ≠ none

theorem reserves_initial : Reserves (initial : UserRequestRun W) where
  reserved_iff _ _ := by
    constructor
    · intro h
      cases h
    · rintro ⟨h, -⟩
      cases h
  known _ _ h := nomatch h

/-- A step that changes the status of one request from live to live. -/
theorem Reserves.of_live {reserved : List (W × FeeUtxo W)} (h : Reserves ⟨s, reserved⟩)
    (hfee : t.feeUtxos = s.feeUtxos)
    (hstatus : ∀ key, status t key = status s key ∨ (status s key = none ∧ status t key ≠ none) ∨
      ∃ a b, status s key = some a ∧ status t key = some b ∧ a.live ∧ b.live) : Reserves ⟨t, reserved⟩ where
  reserved_iff feeUtxo key := by
    have hold := h.reserved_iff feeUtxo key
    dsimp only at hold ⊢
    rw [hfee, hold]
    apply and_congr_right
    intro hreserved
    obtain hsame | ⟨hnone, -⟩ | ⟨a, b, ha, hb, hlive, hlive'⟩ := hstatus key
    · rw [hsame]
    · exact absurd hnone (h.known key feeUtxo hreserved)
    · exact iff_of_true ⟨a, ha, hlive⟩ ⟨b, hb, hlive'⟩
  known key feeUtxo hreserved := by
    have hknown := h.known key feeUtxo hreserved
    obtain hsame | ⟨hnone, hsome⟩ | ⟨a, b, ha, hb, -⟩ := hstatus key
    · dsimp only at hknown ⊢
      rw [hsame]
      exact hknown
    · exact hsome
    · dsimp only
      rw [hb]
      exact Option.some_ne_none b

theorem Effect.reserves {reserved : List (W × FeeUtxo W)} (heffect : Effect s t made) (h : Reserves ⟨s, reserved⟩) :
    Reserves ⟨t, reserved ++ made⟩ := by
  cases heffect with
  | nothing same =>
    rw [same, List.append_nil]
    exact h
  | inserted key row feeUtxos new requests pending free reserved' =>
    have hnew : status s key = none := by
      unfold status
      rw [new]
      rfl
    have hstatus : ∀ key', status t key' = if key' = key then some row.status else status s key' := by
      intro key'
      rw [← status_insert]
      unfold status
      rw [requests]
    have hother : ∀ feeUtxo, (key, feeUtxo) ∉ reserved := fun feeUtxo hmem => h.known key feeUtxo hmem hnew
    constructor
    · intro feeUtxo key'
      have hold := h.reserved_iff feeUtxo key'
      dsimp only at hold ⊢
      rw [reserved', hstatus, List.mem_append]
      by_cases hkey : key' = key
      · subst hkey
        rw [if_pos rfl]
        constructor
        · intro hlookup
          split_ifs at hlookup with hmem
          · exact ⟨Or.inr (List.mem_map_of_mem hmem), row.status, rfl, by rw [pending]; rfl⟩
          · exact absurd (hold.mp hlookup).1 (hother feeUtxo)
        · rintro ⟨hmem | hmem, -⟩
          · exact absurd hmem (hother feeUtxo)
          · obtain ⟨utxo, hutxo, hpair⟩ := List.mem_map.mp hmem
            cases hpair
            rw [if_pos hutxo]
      · rw [if_neg hkey]
        have hmade : (key', feeUtxo) ∉ feeUtxos.map fun feeUtxo => (key, feeUtxo) := by
          intro hmem
          obtain ⟨utxo, -, hpair⟩ := List.mem_map.mp hmem
          exact hkey (Prod.mk.inj hpair).1.symm
        rw [or_iff_left hmade, ← hold]
        split_ifs with hmem
        · rw [free feeUtxo hmem]
          exact iff_of_false (fun hkeys => hkey (Option.some.inj hkeys).symm) (fun hnone => nomatch hnone)
        · rfl
    · intro key' feeUtxo hmem
      dsimp only
      rw [hstatus]
      split_ifs with hkey
      · exact Option.some_ne_none _
      · obtain hmem | hmem := List.mem_append.mp hmem
        · exact h.known key' feeUtxo hmem
        · obtain ⟨utxo, -, hpair⟩ := List.mem_map.mp hmem
          exact absurd (Prod.mk.inj hpair).1.symm hkey
  | observed key row new processing stored =>
    rw [List.append_nil]
    apply h.of_live
    · rw [stored]
    · intro key'
      rw [stored, status_insert]
      by_cases hkey : key' = key
      · right
        left
        rw [if_pos hkey, hkey]
        refine ⟨?_, Option.some_ne_none _⟩
        unfold status
        rw [new]
        rfl
      · exact Or.inl (if_neg hkey)
  | updated key row row' stored moves live requests =>
    rw [List.append_nil]
    apply h.of_live
    · rw [requests]
    · intro key'
      rw [requests, status_insert]
      by_cases hkey : key' = key
      · right
        right
        refine ⟨row.status, row'.status, ?_, if_pos hkey, live⟩
        unfold status
        rw [hkey, stored]
        rfl
      · exact Or.inl (if_neg hkey)
  | ended key row row' stored moves ended requests =>
    rw [List.append_nil]
    have hstatus : ∀ key', status t key' = if key' = key then some row'.status else status s key' := by
      intro key'
      rw [← status_insert]
      unfold status
      rw [requests]
      rfl
    have hfee : ∀ feeUtxo, t.feeUtxos.lookup feeUtxo = (s.feeUtxos.lookup feeUtxo).filter fun owner => owner ≠ key := by
      intro feeUtxo
      rw [requests]
      exact Table.lookup_filterRows (fun _ owner => decide (owner ≠ key)) s.feeUtxos feeUtxo
    constructor
    · intro feeUtxo key'
      have hold := h.reserved_iff feeUtxo key'
      dsimp only at hold ⊢
      rw [hfee, hstatus, Option.filter_eq_some_iff, hold]
      by_cases hkey : key' = key
      · rw [if_pos hkey]
        constructor
        · rintro ⟨-, hne⟩
          exact absurd hkey (of_decide_eq_true hne)
        · rintro ⟨-, current, hcurrent, hlive⟩
          rw [← Option.some.inj hcurrent, ended] at hlive
          cases hlive
      · rw [if_neg hkey]
        exact and_iff_left (decide_eq_true hkey)
    · intro key' feeUtxo hmem
      dsimp only
      rw [hstatus]
      split_ifs with hkey
      · exact Option.some_ne_none _
      · exact h.known key' feeUtxo hmem

end Effects

/-- A step fails and changes nothing, or its operation succeeds. -/
theorem step_cases (run : UserRequestRun W) (action : UserRequestAction W) :
    step run action = run ∨ ∃ made store, (program action).Returns run.store made store ∧
      step run action = ⟨store, run.reserved ++ made⟩ := by
  unfold step
  cases hexec : (program action).atomic.exec run.store with
  | mk r store =>
    cases r with
    | error e =>
      left
      have hstore := Db.exec_atomic_error (congrArg Prod.fst hexec)
      rw [hexec] at hstore
      simp only at hstore
      rw [hstore]
    | ok made => exact Or.inr ⟨made, store, Db.returns_atomic.mp hexec, rfl⟩

/-- The new request is not stored. -/
def InsertFails (run : UserRequestRun W) : UserRequestAction W → Prop
  | .insertPending requestHash request blockHeight feeUtxos =>
    ∀ store, ¬(insertPending requestHash request blockHeight feeUtxos).Returns run.store .inserted store
  | _ => False

/-- What a step does to the statuses, and what a failed insertion leaves. -/
structure LifecycleStep (run : UserRequestRun W) (action : UserRequestAction W) : Prop where
  moves : ∀ h, StatusMove (status run.store h) (status (step run action).store h)
  failed : InsertFails run action → step run action = run

theorem lifecycleStep (run : UserRequestRun W) (action : UserRequestAction W) : LifecycleStep run action := by
  obtain hsame | ⟨made, store, hreturns, hstep⟩ := step_cases run action
  · constructor
    · intro h
      rw [hsame]
      exact .stays _
    · intro _
      exact hsame
  · constructor
    · intro h
      rw [hstep]
      exact (effect hreturns).statusMove h
    · intro hfails
      rw [hstep]
      cases action with
      | insertPending requestHash request blockHeight feeUtxos =>
        obtain ⟨result, u, hinsert, hpure⟩ := Db.returns_bind.mp hreturns
        obtain ⟨rfl, rfl⟩ := Db.returns_pure.mp hpure
        obtain ⟨hresult, rfl⟩ | ⟨rfl, -⟩ := returns_insertPending hinsert
        · rw [if_neg hresult, List.append_nil]
        · exact absurd hinsert (hfails store)
      | _ => exact hfails.elim

theorem reserves_step {run : UserRequestRun W} (h : Reserves run) (action : UserRequestAction W) :
    Reserves (step run action) := by
  obtain hsame | ⟨made, store, hreturns, hstep⟩ := step_cases run action
  · rw [hsame]
    exact h
  · rw [hstep]
    exact (effect hreturns).reserves h

/-- A reservation stands, and its request waits, is issued or is in a block. -/
def Holds (run : UserRequestRun W) (h : W) (feeUtxo : FeeUtxo W) : Prop :=
  (h, feeUtxo) ∈ run.reserved ∧ ∃ current, status run.store h = some current ∧ current.live

/-- Whatever is done in whatever order, a fee UTXO is reserved exactly for the request that reserved it and
while that request is live, for one request at a time, and the requests move along their states. -/
theorem request_lifecycle (actions : List (UserRequestAction W)) :
    (∀ feeUtxo h, (actions.foldl step initial).store.feeUtxos.lookup feeUtxo = some h ↔
      Holds (actions.foldl step initial) h feeUtxo) ∧
    (∀ feeUtxo h h', Holds (actions.foldl step initial) h feeUtxo → Holds (actions.foldl step initial) h' feeUtxo →
      h = h') ∧
    Runs.EachStep step LifecycleStep (initial : UserRequestRun W) actions := by
  have hall : Runs.EachStep step (fun _ _ => True) (initial : UserRequestRun W) actions :=
    Runs.EachStep.of_forall (Q := fun _ => True) fun _ _ => trivial
  have hrun := Runs.EachStep.run (I := Reserves) (P := LifecycleStep)
    (fun run action h _ => ⟨reserves_step h action, lifecycleStep run action⟩) reserves_initial hall
  obtain ⟨hreserves, hsteps⟩ := hrun
  refine ⟨hreserves.reserved_iff, ?_, hsteps⟩
  intro feeUtxo h h' hholds hholds'
  have hlookup := (hreserves.reserved_iff feeUtxo h).mpr hholds
  rw [(hreserves.reserved_iff feeUtxo h').mpr hholds'] at hlookup
  exact (Option.some.inj hlookup).symm

example : let run := ([.insertPending 1 [] 5 [⟨7, 0⟩], .insertPending 2 [] 6 [⟨8, 0⟩, ⟨7, 0⟩], .markProcessing 1 [] []] :
    List (UserRequestAction ℕ)).foldl step initial
    status run.store 1 = some .processing ∧ status run.store 2 = none ∧ run.store.feeUtxos.lookup ⟨8, 0⟩ = none := by
  decide +kernel

end UserRequestRun

end PriceOracle
