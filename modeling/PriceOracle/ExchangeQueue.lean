import PriceOracle.MonitoredUtxos

/-!
# The queue of exchanges

`queue_exchange` and `finish_exchange_request` of `droplet.rs`: one request for each member, and the history of those it
has replaced. What queues the next request and what reports on one that it has read come in any order.
-/

namespace PriceOracle

inductive ExchangeStatus where
  | pending
  | completed
  | failed
  deriving DecidableEq

structure ExchangeRequest (W Tx : Type) where
  transaction : Tx
  signingHash : W
  requestedAtBlock : ℕ
  status : ExchangeStatus
  completedTxid : Option W
  lastError : Option String
  deriving DecidableEq

structure ExchangeQueue (W Tx : Type) where
  requests : Table W (ExchangeRequest W Tx)
  /-- Under the member, the block and the signing hash. -/
  history : Table (W × ℕ × W) (ExchangeRequest W Tx)

inductive QueueAction (W Tx : Type) where
  | queue (member : W) (transaction : Tx) (signingHash : W) (blockHeight : ℕ)
  | complete (member : W) (transaction : Tx) (signingHash txid : W)
  | fail (member : W) (transaction : Tx) (signingHash : W) (error : String)
  deriving DecidableEq

namespace ExchangeQueue

open MonitoredUtxoStore (encodeU64)

section Model

variable {W Tx : Type} [DecidableEq W] [DecidableEq Tx]

def empty : ExchangeQueue W Tx := ⟨∅, ∅⟩

def historyKey (member : W) (request : ExchangeRequest W Tx) : W × ℕ × W :=
  (member, request.requestedAtBlock, request.signingHash)

/-- `INSERT .. SELECT .. ON CONFLICT DO NOTHING`: the first outcome of a request stays. -/
def archived (member : W) (queue : ExchangeQueue W Tx) : Table (W × ℕ × W) (ExchangeRequest W Tx) :=
  match queue.requests.lookup member with
  | none => queue.history
  | some request =>
    if historyKey member request ∈ queue.history then queue.history
    else queue.history.insert (historyKey member request) request

def queueExchange (member : W) (transaction : Tx) (signingHash : W) (blockHeight : ℕ) :
    Db (ExchangeQueue W Tx) SqlError PUnit := do
  modify fun queue => { queue with history := archived member queue }
  let blockHeight ← encodeU64 blockHeight
  modify fun queue => { queue with
    requests := queue.requests.insert member ⟨transaction, signingHash, blockHeight, .pending, none, none⟩ }

def finished (request : ExchangeRequest W Tx) (status : ExchangeStatus) (txid : Option W) (error : Option String) :
    ExchangeRequest W Tx :=
  { request with status := status, completedTxid := txid, lastError := error }

/-- Only the request that was read is finished, and only once. -/
def finishExchangeRequest (member : W) (transaction : Tx) (signingHash : W) (status : ExchangeStatus) (txid : Option W)
    (error : Option String) : Db (ExchangeQueue W Tx) SqlError Bool := do
  let queue ← get
  match queue.requests.lookup member with
  | none => pure false
  | some request =>
    if request.status = .pending ∧ request.transaction = transaction ∧ request.signingHash = signingHash then do
      set { queue with requests := queue.requests.insert member (finished request status txid error) }
      pure true
    else pure false

def completeExchangeRequest (member : W) (transaction : Tx) (signingHash txid : W) : Db (ExchangeQueue W Tx) SqlError Bool :=
  finishExchangeRequest member transaction signingHash .completed (some txid) none

def failExchangeRequest (member : W) (transaction : Tx) (signingHash : W) (error : String) :
    Db (ExchangeQueue W Tx) SqlError Bool :=
  finishExchangeRequest member transaction signingHash .failed none (some error)

def program : QueueAction W Tx → Db (ExchangeQueue W Tx) SqlError PUnit
  | .queue member transaction signingHash blockHeight => queueExchange member transaction signingHash blockHeight
  | .complete member transaction signingHash txid => do
    let _ ← completeExchangeRequest member transaction signingHash txid
  | .fail member transaction signingHash error => do
    let _ ← failExchangeRequest member transaction signingHash error

def step (queue : ExchangeQueue W Tx) (action : QueueAction W Tx) : ExchangeQueue W Tx := ((program action).atomic.exec queue).2

def run (queue : ExchangeQueue W Tx) (actions : List (QueueAction W Tx)) : ExchangeQueue W Tx := actions.foldl step queue

end Model

section Steps

variable {W Tx : Type} [DecidableEq W] [DecidableEq Tx] {queue : ExchangeQueue W Tx} {member signingHash : W} {transaction : Tx}

theorem step_queue (queue : ExchangeQueue W Tx) (member : W) (transaction : Tx) (signingHash : W) (blockHeight : ℕ) :
    step queue (.queue member transaction signingHash blockHeight) = if blockHeight < 2 ^ 63 then
      ⟨queue.requests.insert member ⟨transaction, signingHash, blockHeight, .pending, none, none⟩, archived member queue⟩
    else queue := by
  change ((queueExchange member transaction signingHash blockHeight).atomic.exec queue).2 = _
  unfold queueExchange encodeU64
  by_cases hfits : blockHeight < 2 ^ 63
  · rw [if_pos hfits, if_pos hfits]
    rfl
  · rw [if_neg hfits, if_neg hfits]
    rfl

/-- A report changes the request it is about and says so, or nothing. -/
theorem finish_cases (queue : ExchangeQueue W Tx) (member : W) (transaction : Tx) (signingHash : W) (status : ExchangeStatus)
    (txid : Option W) (error : Option String) :
    (finishExchangeRequest member transaction signingHash status txid error).exec queue = (.ok false, queue) ∨
    ∃ request, queue.requests.lookup member = some request ∧ request.status = .pending ∧ request.transaction = transaction ∧
      request.signingHash = signingHash ∧
        (finishExchangeRequest member transaction signingHash status txid error).exec queue =
          (.ok true, { queue with requests := queue.requests.insert member (finished request status txid error) }) := by
  unfold finishExchangeRequest
  rw [Db.exec_get_bind]
  cases hrequest : queue.requests.lookup member with
  | none => exact Or.inl rfl
  | some request =>
    dsimp only
    split_ifs with hmatches
    · exact Or.inr ⟨request, rfl, hmatches.1, hmatches.2.1, hmatches.2.2, rfl⟩
    · exact Or.inl rfl

/-- A report is a transaction of its own. -/
theorem exec_report {status : ExchangeStatus} {txid : Option W} {error : Option String} {answer : Bool} {next : ExchangeQueue W Tx}
    (h : (finishExchangeRequest member transaction signingHash status txid error).exec queue = (.ok answer, next)) :
    ((do let _ ← finishExchangeRequest member transaction signingHash status txid error :
      Db (ExchangeQueue W Tx) SqlError PUnit).atomic.exec queue).2 = next := by
  rw [Db.exec_atomic_discard, Db.exec_atomic, h]

/-- How a report leaves a request. -/
def Reported (action : QueueAction W Tx) (member : W) (request next : ExchangeRequest W Tx) : Prop :=
  (∃ txid, action = .complete member request.transaction request.signingHash txid ∧
    next = finished request .completed (some txid) none) ∨
  ∃ error, action = .fail member request.transaction request.signingHash error ∧
    next = finished request .failed none (some error)

theorem step_cases (queue : ExchangeQueue W Tx) (action : QueueAction W Tx) :
    (step queue action = queue ∧ ∀ member transaction signingHash blockHeight,
      action = .queue member transaction signingHash blockHeight → 2 ^ 63 ≤ blockHeight) ∨
    (∃ member transaction signingHash blockHeight, action = .queue member transaction signingHash blockHeight ∧
      blockHeight < 2 ^ 63 ∧ step queue action =
        ⟨queue.requests.insert member ⟨transaction, signingHash, blockHeight, .pending, none, none⟩, archived member queue⟩) ∨
    ∃ member request next, queue.requests.lookup member = some request ∧ request.status = .pending ∧
      Reported action member request next ∧ step queue action = { queue with requests := queue.requests.insert member next } := by
  cases action with
  | queue member transaction signingHash blockHeight =>
    rw [step_queue]
    split_ifs with hfits
    · exact Or.inr (Or.inl ⟨member, transaction, signingHash, blockHeight, rfl, hfits, rfl⟩)
    · refine Or.inl ⟨rfl, ?_⟩
      intro _ _ _ _ h
      cases h
      exact not_lt.mp hfits
  | complete member transaction signingHash txid =>
    rcases finish_cases queue member transaction signingHash .completed (some txid) none with
      hsame | ⟨request, hrequest, hpending, rfl, rfl, hfinished⟩
    · exact Or.inl ⟨exec_report hsame, fun _ _ _ _ h => nomatch h⟩
    · exact Or.inr (Or.inr ⟨member, request, _, hrequest, hpending, Or.inl ⟨txid, rfl, rfl⟩, exec_report hfinished⟩)
  | fail member transaction signingHash error =>
    rcases finish_cases queue member transaction signingHash .failed none (some error) with
      hsame | ⟨request, hrequest, hpending, rfl, rfl, hfinished⟩
    · exact Or.inl ⟨exec_report hsame, fun _ _ _ _ h => nomatch h⟩
    · exact Or.inr (Or.inr ⟨member, request, _, hrequest, hpending, Or.inr ⟨error, rfl, rfl⟩, exec_report hfinished⟩)

end Steps

section Runs

variable {W Tx : Type} [DecidableEq W] [DecidableEq Tx] {queue : ExchangeQueue W Tx} {actions : List (QueueAction W Tx)}

/-- A request was queued as it stands, and its outcome is one that was reported for it. -/
structure Told (actions : List (QueueAction W Tx)) (member : W) (request : ExchangeRequest W Tx) : Prop where
  queued : .queue member request.transaction request.signingHash request.requestedAtBlock ∈ actions
  outcome : match request.status with
    | .pending => request.completedTxid = none ∧ request.lastError = none
    | .completed => request.lastError = none ∧ ∃ txid, request.completedTxid = some txid ∧
        .complete member request.transaction request.signingHash txid ∈ actions
    | .failed => request.completedTxid = none ∧ ∃ error, request.lastError = some error ∧
        .fail member request.transaction request.signingHash error ∈ actions

/-- What is held was told, and what was queued is held under its key. -/
structure Kept (actions : List (QueueAction W Tx)) (queue : ExchangeQueue W Tx) : Prop where
  requests : ∀ member request, queue.requests.lookup member = some request → Told actions member request
  history : ∀ key request, queue.history.lookup key = some request → historyKey key.1 request = key ∧ Told actions key.1 request
  held : ∀ member transaction signingHash blockHeight, .queue member transaction signingHash blockHeight ∈ actions →
    blockHeight < 2 ^ 63 → (∃ request, queue.requests.lookup member = some request ∧
      historyKey member request = (member, blockHeight, signingHash)) ∨ (member, blockHeight, signingHash) ∈ queue.history

omit [DecidableEq Tx] in
theorem kept_empty : Kept [] (empty : ExchangeQueue W Tx) :=
  ⟨fun _ _ h => (nomatch h), fun _ _ h => (nomatch h), fun _ _ _ _ h => absurd h List.not_mem_nil⟩

omit [DecidableEq W] [DecidableEq Tx] in
theorem Told.mono {more : List (QueueAction W Tx)} {member : W} {request : ExchangeRequest W Tx} (h : Told actions member request) :
    Told (actions ++ more) member request := by
  obtain ⟨hqueued, houtcome⟩ := h
  refine ⟨List.mem_append_left _ hqueued, ?_⟩
  cases hstatus : request.status with
  | pending =>
    rw [hstatus] at houtcome
    exact houtcome
  | completed =>
    rw [hstatus] at houtcome
    obtain ⟨hnone, txid, htxid, hreport⟩ := houtcome
    exact ⟨hnone, txid, htxid, List.mem_append_left _ hreport⟩
  | failed =>
    rw [hstatus] at houtcome
    obtain ⟨hnone, error, herror, hreport⟩ := houtcome
    exact ⟨hnone, error, herror, List.mem_append_left _ hreport⟩

omit [DecidableEq W] [DecidableEq Tx] in
theorem Told.reported {action : QueueAction W Tx} {member : W} {request next : ExchangeRequest W Tx} (h : Told actions member request)
    (hreported : Reported action member request next) :
    Told (actions ++ [action]) member next ∧ historyKey member next = historyKey member request := by
  have hlast : action ∈ actions ++ [action] := List.mem_append_right _ (List.mem_singleton_self action)
  rcases hreported with ⟨txid, rfl, rfl⟩ | ⟨error, rfl, rfl⟩
  · exact ⟨⟨List.mem_append_left _ h.queued, rfl, txid, rfl, hlast⟩, rfl⟩
  · exact ⟨⟨List.mem_append_left _ h.queued, rfl, error, rfl, hlast⟩, rfl⟩

omit [DecidableEq Tx] in
/-- Nothing leaves the history. -/
theorem archived_lookup {member : W} {key : W × ℕ × W} {request : ExchangeRequest W Tx}
    (h : queue.history.lookup key = some request) : (archived member queue).lookup key = some request := by
  unfold archived
  cases queue.requests.lookup member with
  | none => exact h
  | some replaced =>
    dsimp only
    split_ifs with hthere
    · exact h
    · rw [AList.lookup_insert_ne]
      · exact h
      · rintro rfl
        exact hthere (AList.lookup_isSome.mp (Option.isSome_iff_exists.mpr ⟨request, h⟩))

omit [DecidableEq Tx] in
theorem lookup_archived {member : W} {key : W × ℕ × W} {request : ExchangeRequest W Tx}
    (h : (archived member queue).lookup key = some request) : queue.history.lookup key = some request ∨
      queue.requests.lookup member = some request ∧ key = historyKey member request := by
  unfold archived at h
  cases hrow : queue.requests.lookup member with
  | none =>
    rw [hrow] at h
    exact Or.inl h
  | some replaced =>
    rw [hrow] at h
    dsimp only at h
    split_ifs at h with hthere
    · exact Or.inl h
    · by_cases hkey : key = historyKey member replaced
      · rw [hkey, AList.lookup_insert] at h
        obtain rfl := Option.some.inj h
        exact Or.inr ⟨rfl, hkey⟩
      · rw [AList.lookup_insert_ne hkey] at h
        exact Or.inl h

omit [DecidableEq Tx] in
theorem mem_archived {member : W} {request : ExchangeRequest W Tx} (h : queue.requests.lookup member = some request) :
    historyKey member request ∈ archived member queue := by
  unfold archived
  rw [h]
  dsimp only
  split_ifs with hthere
  · exact hthere
  · exact (AList.mem_insert _).mpr (Or.inl rfl)

omit [DecidableEq Tx] in
theorem mem_archived_of_mem {member : W} {key : W × ℕ × W} (h : key ∈ queue.history) : key ∈ archived member queue := by
  obtain ⟨request, hrequest⟩ := Option.isSome_iff_exists.mp (AList.lookup_isSome.mpr h)
  exact AList.lookup_isSome.mp (Option.isSome_iff_exists.mpr ⟨request, archived_lookup hrequest⟩)

omit [DecidableEq Tx] in
/-- A request that takes the place of the one before it. -/
theorem Kept.queued {member : W} {transaction : Tx} {signingHash : W} {blockHeight : ℕ} (h : Kept actions queue) :
    Kept (actions ++ [.queue member transaction signingHash blockHeight])
      ⟨queue.requests.insert member ⟨transaction, signingHash, blockHeight, .pending, none, none⟩, archived member queue⟩ := by
  have hlast : QueueAction.queue member transaction signingHash blockHeight ∈
      actions ++ [.queue member transaction signingHash blockHeight] := List.mem_append_right _ (List.mem_singleton_self _)
  constructor
  · intro other request hrequest
    dsimp only at hrequest
    by_cases hother : other = member
    · subst hother
      rw [AList.lookup_insert] at hrequest
      obtain rfl := Option.some.inj hrequest
      exact ⟨hlast, rfl, rfl⟩
    · rw [AList.lookup_insert_ne hother] at hrequest
      exact (h.requests other request hrequest).mono
  · intro key request hrequest
    rcases lookup_archived hrequest with hold | ⟨hrow, rfl⟩
    · obtain ⟨hkey, htold⟩ := h.history key request hold
      exact ⟨hkey, htold.mono⟩
    · exact ⟨rfl, (h.requests member request hrow).mono⟩
  · intro other otherTransaction otherHash otherHeight hmem hfits
    rcases List.mem_append.mp hmem with hold | hnew
    · rcases h.held other otherTransaction otherHash otherHeight hold hfits with ⟨request, hrow, hkey⟩ | hhistory
      · by_cases hother : other = member
        · subst hother
          rw [← hkey]
          exact Or.inr (mem_archived hrow)
        · refine Or.inl ⟨request, ?_, hkey⟩
          dsimp only
          rw [AList.lookup_insert_ne hother]
          exact hrow
      · exact Or.inr (mem_archived_of_mem hhistory)
    · cases List.mem_singleton.mp hnew
      exact Or.inl ⟨_, AList.lookup_insert _, rfl⟩

omit [DecidableEq Tx] in
theorem Kept.report {action : QueueAction W Tx} {member : W} {request next : ExchangeRequest W Tx} (h : Kept actions queue)
    (hrow : queue.requests.lookup member = some request) (hreported : Reported action member request next) :
    Kept (actions ++ [action]) { queue with requests := queue.requests.insert member next } := by
  obtain ⟨htold, hkeys⟩ := (h.requests member request hrow).reported hreported
  constructor
  · intro other found hfound
    dsimp only at hfound
    by_cases hother : other = member
    · subst hother
      rw [AList.lookup_insert] at hfound
      obtain rfl := Option.some.inj hfound
      exact htold
    · rw [AList.lookup_insert_ne hother] at hfound
      exact (h.requests other found hfound).mono
  · intro key found hfound
    obtain ⟨hkey, hold⟩ := h.history key found hfound
    exact ⟨hkey, hold.mono⟩
  · intro other transaction signingHash blockHeight hmem hfits
    have hold : .queue other transaction signingHash blockHeight ∈ actions := by
      rcases List.mem_append.mp hmem with hold | hnew
      · exact hold
      · rcases hreported with ⟨txid, rfl, -⟩ | ⟨error, rfl, -⟩ <;> cases List.mem_singleton.mp hnew
    rcases h.held other transaction signingHash blockHeight hold hfits with ⟨found, hfound, hkey⟩ | hhistory
    · by_cases hother : other = member
      · subst hother
        obtain rfl := Option.some.inj (hrow.symm.trans hfound)
        exact Or.inl ⟨next, AList.lookup_insert _, hkeys.trans hkey⟩
      · refine Or.inl ⟨found, ?_, hkey⟩
        dsimp only
        rw [AList.lookup_insert_ne hother]
        exact hfound
    · exact Or.inr hhistory

theorem Kept.step (h : Kept actions queue) (action : QueueAction W Tx) : Kept (actions ++ [action]) (queue.step action) := by
  rcases step_cases queue action with ⟨hsame, hunfit⟩ | ⟨member, transaction, signingHash, blockHeight, rfl, -, hstep⟩ |
    ⟨member, request, next, hrow, -, hreported, hstep⟩
  · rw [hsame]
    refine ⟨fun member request hrequest => (h.requests member request hrequest).mono, ?_, ?_⟩
    · intro key request hrequest
      exact ⟨(h.history key request hrequest).1, (h.history key request hrequest).2.mono⟩
    · intro member transaction signingHash blockHeight hmem hfits
      rcases List.mem_append.mp hmem with hold | hnew
      · exact h.held member transaction signingHash blockHeight hold hfits
      · exact absurd (hunfit _ _ _ _ (List.mem_singleton.mp hnew).symm) (not_le.mpr hfits)
  · rw [hstep]
    exact h.queued
  · rw [hstep]
    exact h.report hrow hreported

theorem kept_run (actions : List (QueueAction W Tx)) : Kept actions (run empty actions) := by
  induction actions using List.reverseRecOn with
  | nil => exact kept_empty
  | append_singleton actions action ih =>
    unfold run at ih ⊢
    rw [List.foldl_append]
    exact ih.step action

theorem run_append (queue : ExchangeQueue W Tx) (earlier later : List (QueueAction W Tx)) :
    run queue (earlier ++ later) = run (run queue earlier) later := List.foldl_append

/-- Nothing leaves the history. -/
theorem history_step {key : W × ℕ × W} {request : ExchangeRequest W Tx} (action : QueueAction W Tx)
    (h : queue.history.lookup key = some request) : (step queue action).history.lookup key = some request := by
  rcases step_cases queue action with ⟨hsame, -⟩ | ⟨member, transaction, signingHash, blockHeight, -, -, hstep⟩ |
    ⟨member, _, next, -, -, -, hstep⟩
  · rw [hsame]
    exact h
  · rw [hstep]
    exact archived_lookup h
  · rw [hstep]
    exact h

theorem history_run {key : W × ℕ × W} {request : ExchangeRequest W Tx} (later : List (QueueAction W Tx))
    (h : queue.history.lookup key = some request) : (run queue later).history.lookup key = some request := by
  induction later generalizing queue with
  | nil => exact h
  | cons action later ih => exact ih (history_step action h)

/-- An outcome is not reported over. -/
theorem settled_step {member : W} {request : ExchangeRequest W Tx} {action : QueueAction W Tx}
    (hrow : queue.requests.lookup member = some request) (hsettled : request.status ≠ .pending)
    (hqueue : ∀ transaction signingHash blockHeight, .queue member transaction signingHash blockHeight ≠ action) :
    (step queue action).requests.lookup member = some request := by
  rcases step_cases queue action with ⟨hsame, -⟩ | ⟨other, transaction, signingHash, blockHeight, rfl, -, hstep⟩ |
    ⟨other, found, next, hfound, hpending, -, hstep⟩
  · rw [hsame]
    exact hrow
  · have hother : member ≠ other := by
      rintro rfl
      exact hqueue _ _ _ rfl
    rw [hstep]
    dsimp only
    rw [AList.lookup_insert_ne hother]
    exact hrow
  · have hother : member ≠ other := by
      rintro rfl
      obtain rfl := Option.some.inj (hrow.symm.trans hfound)
      exact hsettled hpending
    rw [hstep]
    dsimp only
    rw [AList.lookup_insert_ne hother]
    exact hrow

theorem settled_run {member : W} {request : ExchangeRequest W Tx} {later : List (QueueAction W Tx)}
    (hrow : queue.requests.lookup member = some request) (hsettled : request.status ≠ .pending)
    (hqueue : ∀ transaction signingHash blockHeight, .queue member transaction signingHash blockHeight ∉ later) :
    (run queue later).requests.lookup member = some request := by
  induction later generalizing queue with
  | nil => exact hrow
  | cons action later ih =>
    have haction : ∀ transaction signingHash blockHeight, .queue member transaction signingHash blockHeight ≠ action := by
      rintro transaction signingHash blockHeight rfl
      exact hqueue transaction signingHash blockHeight List.mem_cons_self
    refine ih (settled_step hrow hsettled haction) ?_
    intro transaction signingHash blockHeight hmem
    exact hqueue transaction signingHash blockHeight (List.mem_cons_of_mem _ hmem)

/-- Requests and reports in any order: what is held was queued and has an outcome that was reported for it, each queued
request is in the queue or in the history, the history only grows, and an outcome stays until the member queues again. -/
theorem exchange_outcomes_kept (earlier later : List (QueueAction W Tx)) :
    Kept (earlier ++ later) (run empty (earlier ++ later)) ∧
    (∀ key request, (run empty earlier).history.lookup key = some request →
      (run empty (earlier ++ later)).history.lookup key = some request) ∧
    ∀ member request, (run empty earlier).requests.lookup member = some request → request.status ≠ .pending →
      (∀ transaction signingHash blockHeight, .queue member transaction signingHash blockHeight ∉ later) →
        (run empty (earlier ++ later)).requests.lookup member = some request := by
  refine ⟨kept_run _, ?_, ?_⟩
  · intro key request hrequest
    rw [run_append]
    exact history_run later hrequest
  · intro member request hrow hsettled hqueue
    rw [run_append]
    exact settled_run hrow hsettled hqueue

/-- Asked for again at the same block, the request keeps the outcome that came first. -/
example :
    let again : QueueAction ℕ ℕ := .queue 0 7 70 5
    let actions := [again, .fail 0 7 70 "expired", again, .complete 0 7 70 9, again]
    (run empty actions).history.lookup (0, 5, 70) = some ⟨7, 70, 5, .failed, none, some "expired"⟩ := by decide

end Runs

end ExchangeQueue

end PriceOracle
