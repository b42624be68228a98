import PriceOracle.IssuanceRounds
import PriceOracle.UserRequestLifecycle

/-!
# Issued requests

A transaction is broadcast before the requests that it issues are marked. If the marking is
cut short, a later round finds their fee UTXOs spent and fails requests that were issued.
-/

namespace PriceOracle

namespace Issuance

open UserRequestStore UserRequestRun

variable {W T : Type} [DecidableEq W]

section Settled

/-- The request was issued and is known to be. -/
def Settled (store : UserRequestStore W) (requestHash : W) : Prop :=
  ∃ current, status store requestHash = some current ∧ current ≠ .pending ∧ current ≠ .failed

variable {s t : UserRequestStore W} {requestHash : W}

theorem Settled.statusMove (h : Settled s requestHash)
    (hmove : StatusMove (status s requestHash) (status t requestHash)) : Settled t requestHash := by
  obtain ⟨current, hcurrent, hpending, hfailed⟩ := h
  rw [hcurrent] at hmove
  generalize hnext : status t requestHash = next at hmove
  cases hmove with
  | stays _ => exact ⟨current, hnext, hpending, hfailed⟩
  | moves hmoves =>
    refine ⟨_, hnext, ?_⟩
    cases hmoves with
    | issued => exact absurd rfl hpending
    | included => decide
    | executed => decide
    | orphaned => decide
    | failed => exact absurd rfl hpending

/-- An operation of the store does not unsettle a request. -/
theorem Settled.returns (h : Settled s requestHash) {action : UserRequestAction W} {made : List (W × FeeUtxo W)}
    (hrun : (program action).Returns s made t) : Settled t requestHash :=
  h.statusMove ((effect hrun).statusMove requestHash)

theorem Settled.step {run : UserRequestRun W} (h : Settled run.store requestHash) (action : UserRequestAction W) :
    Settled (run.step action).store requestHash := by
  have hstore : (run.step action).store = ((program action).atomic.exec run.store).2 := by
    unfold UserRequestRun.step
    cases (program action).atomic.exec run.store with
    | mk r t => cases r <;> rfl
  rw [hstore]
  rcases Db.exec_atomic_cases (program action) run.store with hsame | ⟨made, hreturns⟩
  · rw [hsame]
    exact h
  · exact h.returns hreturns

end Settled

section Preparation

/-- Every request of the list is settled. -/
def AllSettled (issued : List W) (store : UserRequestStore W) : Prop := ∀ requestHash ∈ issued, Settled store requestHash

variable {issued : List W}

/-- A program that leaves settled requests settled, whether or not it succeeds. -/
def KeepsSettled {A : Type} (issued : List W) (prog : Db (UserRequestStore W) UserRequestError A) : Prop :=
  Db.Triple (AllSettled issued) prog (fun _ => AllSettled issued) (AllSettled issued)

theorem keepsSettled_bind {A B : Type} {x : Db (UserRequestStore W) UserRequestError A}
    {f : A → Db (UserRequestStore W) UserRequestError B} (hx : KeepsSettled issued x)
    (hf : ∀ a, KeepsSettled issued (f a)) : KeepsSettled issued (x >>= f) :=
  Db.triple_bind hx hf

theorem keepsSettled_pure {A : Type} (a : A) :
    KeepsSettled issued (pure a : Db (UserRequestStore W) UserRequestError A) :=
  Db.triple_pure fun _ h => h

theorem keepsSettled_check {A : Type} (r : Except UserRequestError A) : KeepsSettled issued (Db.check r) :=
  Db.triple_check (fun _ _ _ h => h) fun _ h => h

theorem keepsSettled_failRequest (requestHash : W) (reason : String) :
    KeepsSettled issued (failRequest requestHash reason) := by
  apply Db.triple_statement
  · intro s updated t hsettled hmark h hissued
    have hprogram : (program (.markFailed requestHash reason.toUTF8.toList)).Returns s [] t :=
      Db.returns_bind.mpr ⟨updated, t, hmark, Db.returns_pure.mpr ⟨rfl, rfl⟩⟩
    exact (hsettled h hissued).returns hprogram
  · exact fun s hsettled => hsettled

theorem keepsSettled_scanRequest (view : RoundView W T) (requestLimit : ℕ) (scan : Scan W) (requestHash : W)
    (stored : StoredUserRequest W) : KeepsSettled issued (scanRequest view requestLimit scan requestHash stored) := by
  unfold scanRequest
  apply keepsSettled_bind (keepsSettled_check _)
  intro request
  split
  · apply keepsSettled_bind (keepsSettled_failRequest _ _)
    intro updated
    exact keepsSettled_pure _
  · dsimp only
    split
    · exact keepsSettled_pure _
    · exact keepsSettled_pure _
    · apply keepsSettled_bind (keepsSettled_check _)
      intro resolved
      split
      · apply keepsSettled_bind (keepsSettled_failRequest _ _)
        intro updated
        exact keepsSettled_pure _
      · exact keepsSettled_pure _

theorem keepsSettled_scanPage (view : RoundView W T) (requestLimit : ℕ) (scan : Scan W)
    (page : List (W × StoredUserRequest W)) : KeepsSettled issued (scanPage view requestLimit scan page) := by
  induction page generalizing scan with
  | nil => exact keepsSettled_pure _
  | cons row page ih =>
    obtain ⟨requestHash, stored⟩ := row
    unfold scanPage
    apply keepsSettled_bind (keepsSettled_scanRequest _ _ _ _ _)
    intro scan
    split_ifs
    · exact keepsSettled_pure _
    · exact ih scan

variable [LinearOrder W]

theorem keepsSettled_pendingAfter (cursor : Option (ℕ × W)) : KeepsSettled issued (pendingAfter cursor) := by
  apply Db.triple_statement
  · intro s page t hsettled hlist
    have hsame : t = s := by
      unfold listPendingAfter at hlist
      cases cursor with
      | none =>
        obtain ⟨_, u, hget, hpure⟩ := Db.returns_bind.mp hlist
        obtain ⟨-, rfl⟩ := Db.returns_get.mp hget
        exact (Db.returns_pure.mp hpure).2
      | some after =>
        obtain ⟨_, u, hencode, hget⟩ := Db.returns_bind.mp hlist
        obtain ⟨-, -, rfl⟩ := returns_encodeHeight.mp hencode
        obtain ⟨_, v, hget, hpure⟩ := Db.returns_bind.mp hget
        obtain ⟨-, rfl⟩ := Db.returns_get.mp hget
        exact (Db.returns_pure.mp hpure).2
    rw [hsame]
    exact hsettled
  · exact fun s hsettled => hsettled

theorem keepsSettled_scanPages (view : RoundView W T) (requestLimit pages : ℕ) (scan : Scan W)
    (page : List (W × StoredUserRequest W)) : KeepsSettled issued (scanPages view requestLimit pages scan page) := by
  induction pages generalizing scan page with
  | zero => exact keepsSettled_pure _
  | succ pages ih =>
    unfold scanPages
    apply keepsSettled_bind (keepsSettled_scanPage _ _ _ _)
    intro scan
    split_ifs
    · exact keepsSettled_pure _
    · exact keepsSettled_pure _
    · apply keepsSettled_bind (keepsSettled_pendingAfter _)
      intro page
      split_ifs
      · exact keepsSettled_pure _
      · exact ih scan page

theorem keepsSettled_prepareRoundCandidate (view : RoundView W T) (requestLimit : ℕ) :
    KeepsSettled issued (prepareRoundCandidate view requestLimit) := by
  unfold prepareRoundCandidate
  apply keepsSettled_bind (keepsSettled_pendingAfter _)
  intro pending
  split_ifs
  · exact keepsSettled_pure _
  · apply keepsSettled_bind (keepsSettled_check _)
    intro _
    apply keepsSettled_bind (keepsSettled_scanPages _ _ _ _ _)
    intro scan
    split_ifs
    · exact keepsSettled_pure _
    · apply keepsSettled_bind (keepsSettled_check _)
      intro transaction
      exact keepsSettled_pure _

theorem keepsSettled_searchRound (views : ℕ → RoundView W T) (maxTransactionWeight turns lower upper limit : ℕ)
    (best : Option (PreparedRound W T)) :
    KeepsSettled issued (searchRound views maxTransactionWeight turns lower upper limit best) := by
  induction turns generalizing lower upper limit best with
  | zero => exact keepsSettled_pure _
  | succ turns ih =>
    unfold searchRound
    split_ifs
    · exact keepsSettled_pure _
    · apply keepsSettled_bind (keepsSettled_prepareRoundCandidate _ _)
      intro candidate
      split
      · exact keepsSettled_pure _
      · apply keepsSettled_bind (keepsSettled_check _)
        intro weight
        split_ifs
        · exact keepsSettled_pure _
        · exact ih _ _ _ _
        · split
          · apply keepsSettled_bind (keepsSettled_failRequest _ _)
            intro _
            exact Db.triple_throw fun _ h => h
          · exact ih _ _ _ _

end Preparation

section Marking

variable {payload : T → W → List UInt8} {finalBytes : T → List UInt8} {transaction : T} {requestHashes : List W}
  {store : UserRequestStore W} {requestHash : W}

theorem settled_markRequest (h : Settled store requestHash) (marked : W) (bytes executionTx : List UInt8) :
    Settled ((markProcessing marked bytes executionTx).atomic.exec store).2 requestHash := by
  rcases Db.exec_atomic_cases (markProcessing marked bytes executionTx) store with hsame | ⟨updated, hreturns⟩
  · rw [hsame]
    exact h
  · have hprogram : (program (.markProcessing marked bytes executionTx)).Returns store []
        ((markProcessing marked bytes executionTx).atomic.exec store).2 :=
      Db.returns_bind.mpr ⟨updated, _, hreturns, Db.returns_pure.mpr ⟨rfl, rfl⟩⟩
    exact h.returns hprogram

theorem settled_of_pending (h : status store requestHash = some .pending) (bytes executionTx : List UInt8) :
    Settled ((markProcessing requestHash bytes executionTx).atomic.exec store).2 requestHash := by
  obtain ⟨row, hrow, hstatus⟩ := Option.map_eq_some_iff.mp h
  let processing : StoredUserRequest W :=
    { row with status := .processing, payload := some bytes, executionTx := some executionTx }
  have hreturns : (markProcessing requestHash bytes executionTx).Returns store true
      { store with requests := store.requests.insert requestHash processing } := by
    unfold markProcessing updateRequest
    rw [Db.returns_get_bind, hrow]
    dsimp only
    rw [if_pos (List.mem_singleton.mpr hstatus)]
    exact Db.returns_bind.mpr ⟨(), _, Db.returns_set.mpr rfl, Db.returns_pure.mpr ⟨rfl, rfl⟩⟩
  have hexec := Db.returns_atomic.mpr hreturns
  unfold Db.Returns at hexec
  rw [hexec]
  refine ⟨.processing, ?_, by decide, by decide⟩
  rw [status_insert, if_pos rfl]

theorem status_markRequest_other {marked : W} (hother : requestHash ≠ marked) (bytes executionTx : List UInt8) :
    status ((markProcessing marked bytes executionTx).atomic.exec store).2 requestHash = status store requestHash := by
  rcases Db.exec_atomic_cases (markProcessing marked bytes executionTx) store with hsame | ⟨updated, hreturns⟩
  · rw [hsame]
  · obtain ⟨-, hsame⟩ | ⟨-, row, -, -, hinsert⟩ := returns_updateRequest hreturns
    · rw [hsame]
    · rw [hinsert, status_insert, if_neg hother]

theorem settled_markRound_of_settled (h : Settled store requestHash) :
    Settled (markRound payload finalBytes transaction requestHashes store) requestHash := by
  unfold markRound
  induction requestHashes generalizing store with
  | nil => exact h
  | cons first rest ih => exact ih (settled_markRequest h first _ _)

/-- Once every request of a round is marked, those that were pending are settled. -/
theorem settled_markRound (hpending : status store requestHash = some .pending) (hmem : requestHash ∈ requestHashes) :
    Settled (markRound payload finalBytes transaction requestHashes store) requestHash := by
  unfold markRound
  induction requestHashes generalizing store with
  | nil => cases hmem
  | cons first rest ih =>
    by_cases hfirst : requestHash = first
    · subst hfirst
      have hsettled := settled_of_pending hpending (payload transaction requestHash) (finalBytes transaction)
      exact @settled_markRound_of_settled W T _ payload finalBytes transaction rest _ requestHash hsettled
    · apply ih
      · rw [status_markRequest_other hfirst]
        exact hpending
      · exact (List.mem_cons.mp hmem).resolve_left hfirst

end Marking

end Issuance

/-- A coordinator, with the round that it has prepared and the requests that were issued by a transaction
which a node accepted. -/
structure IssuanceNode (W T : Type) where
  store : UserRequestStore W
  prepared : Option (Issuance.PreparedRound W T)
  issued : List W

namespace IssuanceNode

open Issuance UserRequestStore UserRequestRun

variable {W T : Type} [DecidableEq W] [LinearOrder W]

/-- Requests are marked as issued or failed by the rounds alone. -/
def outside : UserRequestAction W → Bool
  | .markProcessing _ _ _ => false
  | .markFailed _ _ => false
  | _ => true

inductive Action (W T : Type) where
  | store (action : UserRequestAction W)
  | prepare (views : ℕ → RoundView W T) (maxTransactionWeight : ℕ)
  | broadcast (outcome : Broadcast)
  | restart

def initial : IssuanceNode W T := ⟨.empty, none, []⟩

variable (payload : T → W → List UInt8) (finalBytes : T → List UInt8)

def step (node : IssuanceNode W T) : Action W T → IssuanceNode W T
  | .store action =>
    if outside action then { node with store := (UserRequestRun.step ⟨node.store, []⟩ action).store } else node
  | .prepare views maxTransactionWeight =>
    match (prepareRound views maxTransactionWeight).exec node.store with
    | (.ok prepared, store) => { node with store := store, prepared := prepared }
    | (.error _, store) => { node with store := store, prepared := none }
  | .broadcast outcome =>
    match node.prepared with
    | none => node
    | some prepared =>
      ⟨finalizeAndBroadcast payload finalBytes prepared outcome node.store, none,
        if outcome.accepted then node.issued ++ prepared.requestResults else node.issued⟩
  | .restart => { node with prepared := none }

/-- No request whose vouchers are issued is failed. -/
def NoneFailed (node : IssuanceNode W T) : Prop := ∀ requestHash ∈ node.issued, status node.store requestHash ≠ some .failed

/-- When the node accepts the transaction of a round, the call runs to its end, and the requests of the
round are pending then. -/
def RunsToEnd (node : IssuanceNode W T) : Action W T → Prop
  | .broadcast outcome => ∀ prepared, node.prepared = some prepared →
    match outcome with
    | .refused => True
    | .unanswered => False
    | .answered marked => prepared.requestResults.length ≤ marked ∧
      ∀ requestHash ∈ prepared.requestResults, status node.store requestHash = some .pending
  | _ => True

variable {payload finalBytes} {node : IssuanceNode W T} {action : Action W T}

theorem allSettled_step (h : AllSettled node.issued node.store) (hends : node.RunsToEnd action) :
    AllSettled (node.step payload finalBytes action).issued (node.step payload finalBytes action).store := by
  cases action with
  | store action =>
    unfold step
    dsimp only
    split_ifs with houtside
    · intro requestHash hissued
      have hsettled : Settled (UserRequestRun.mk node.store []).store requestHash := h requestHash hissued
      exact hsettled.step action
    · exact h
  | prepare views maxTransactionWeight =>
    have hkept : AllSettled node.issued ((prepareRound views maxTransactionWeight).exec node.store).2 :=
      (keepsSettled_searchRound views maxTransactionWeight maxRequestsPerRound 1 maxRequestsPerRound
        maxRequestsPerRound none).exec (fun _ _ hsettled => hsettled) (fun _ hsettled => hsettled) h
    unfold step
    dsimp only
    cases hexec : (prepareRound views maxTransactionWeight).exec node.store with
    | mk result store =>
      rw [hexec] at hkept
      cases result with
      | ok prepared => exact hkept
      | error error => exact hkept
  | broadcast outcome =>
    unfold step
    dsimp only
    cases hprepared : node.prepared with
    | none => exact h
    | some prepared =>
      have hend := hends prepared hprepared
      cases outcome with
      | refused => exact h
      | unanswered => exact absurd hend id
      | answered marked =>
        obtain ⟨hmarked, hpending⟩ := hend
        intro requestHash hissued
        have hround : prepared.requestResults.take marked = prepared.requestResults := List.take_of_length_le hmarked
        unfold finalizeAndBroadcast
        dsimp only
        rw [hround]
        rcases List.mem_append.mp hissued with hissued | hissued
        · exact settled_markRound_of_settled (h requestHash hissued)
        · exact settled_markRound (hpending requestHash hissued) hissued
  | restart => exact h

omit [LinearOrder W] in
theorem noneFailed_of_allSettled (h : AllSettled node.issued node.store) : NoneFailed node := by
  intro requestHash hissued hfailed
  obtain ⟨current, hcurrent, -, hother⟩ := h requestHash hissued
  rw [hcurrent] at hfailed
  exact hother (Option.some.inj hfailed)

/-- In a run whose broadcasts run to their end no issued request is ever failed. -/
theorem issued_never_failed (payload : T → W → List UInt8) (finalBytes : T → List UInt8)
    {actions : List (Action W T)} (h : Runs.EachStep (step payload finalBytes) RunsToEnd initial actions) :
    Runs.EachStep (step payload finalBytes) (fun node action => NoneFailed (node.step payload finalBytes action))
      initial actions := by
  have hstep : ∀ (node : IssuanceNode W T) action, AllSettled node.issued node.store → node.RunsToEnd action →
      AllSettled (node.step payload finalBytes action).issued (node.step payload finalBytes action).store ∧
        NoneFailed (node.step payload finalBytes action) := by
    intro node action hsettled hends
    have hnext := @allSettled_step W T _ _ payload finalBytes node action hsettled hends
    exact ⟨hnext, noneFailed_of_allSettled hnext⟩
  have hinitial : AllSettled (initial : IssuanceNode W T).issued (initial : IssuanceNode W T).store := by
    intro requestHash hissued
    cases hissued
  exact (Runs.EachStep.run hstep hinitial h).2

section Example

/-- What the node sees of one request with one fee UTXO, which is there or is spent. -/
def plainView (spent : Bool) : RoundView ℕ ℕ where
  blockHeight := 5
  timestamp := 0
  contracts := .ok ()
  validateEncodedRequest _ := .ok ⟨1, 1, [⟨7, 0⟩], none⟩
  price _ _ := none
  policyAsset := 0
  accountScript _ := []
  outpointText _ := "07:0"
  isReservedForBurning _ := .ok false
  confirmedFeeOutpoint _ := .ok (if spent then none else some ⟨0, []⟩)
  build _ _ := .ok 0
  estimatedWeight _ := .ok 2000

def noPayload (_ : ℕ) (_ : ℕ) : List UInt8 := []

def noBytes (_ : ℕ) : List UInt8 := []

def roundPrepared : List (Action ℕ ℕ) :=
  [.store (.insertPending 1 [] 3 [⟨7, 0⟩]), .prepare (fun _ => plainView false) 400000]

theorem prepared_roundPrepared :
    (roundPrepared.foldl (step noPayload noBytes) initial).prepared = some ⟨0, [1]⟩ := by
  rfl

theorem pending_roundPrepared :
    status (roundPrepared.foldl (step noPayload noBytes) initial).store 1 = some .pending := by
  rfl

theorem issued_never_failed_marked : Runs.EachStep (step noPayload noBytes)
    (fun node action => NoneFailed (node.step noPayload noBytes action)) initial
    (roundPrepared ++ [.broadcast (.answered 1)]) := by
  apply issued_never_failed
  refine ⟨trivial, trivial, ?_, trivial⟩
  intro prepared hprepared
  have hround : some prepared = some ⟨0, [1]⟩ := hprepared.symm.trans prepared_roundPrepared
  obtain rfl := Option.some.inj hround
  refine ⟨le_refl 1, fun requestHash hmem => ?_⟩
  rw [List.mem_singleton.mp hmem]
  exact pending_roundPrepared

/-- The answer to the broadcast is lost; the next round finds the fee UTXO spent by the issuance. -/
theorem issued_request_failed : ¬∀ actions, Runs.EachStep (step noPayload noBytes)
    (fun node action => NoneFailed (node.step noPayload noBytes action)) initial actions := by
  intro hclaim
  have hlast := (hclaim ((roundPrepared ++ [.broadcast .unanswered]) ++
    [.prepare (fun _ => plainView true) 400000])).last
  apply hlast 1
  · decide
  · rfl

end Example

end IssuanceNode

end PriceOracle
