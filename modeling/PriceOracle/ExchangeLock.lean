import PriceOracle.ExchangeHandler
import PriceOracle.SigningLiveness

/-!
# The exchange lock is held while a signature may exist

As long as no lock is given up that a live session or a task about to sign relies on, every
transaction that the node may still have signed has its member locked for it.
-/

namespace PriceOracle

open Signing

namespace ExchangeNode

variable {W T Tx Sig : Type} [LinearOrder W] [DecidableEq T] [DecidableEq Tx] {M : Musig W T}
  {J : Jets W Sig} {R : ExchangeRules W Tx} {node node' : ExchangeNode M Tx}

/-- What every clear step keeps. -/
structure LockInv (R : ExchangeRules W Tx) (node : ExchangeNode M Tx) : Prop where
  signing : ∃ past : List (Action W T), Inv past node.signing
  checked : ∀ task ∈ node.tasks, task.request.signingHash = R.signingHash task.request.tx
  held : ∀ tx, node.Relied R tx → node.LockedFor R tx

omit [DecidableEq T] [DecidableEq Tx] in
theorem LockedFor.congr {tx tx' : Tx} (h : node.LockedFor R tx) (htxid : R.txid tx = R.txid tx') :
    node.LockedFor R tx' := by
  obtain ⟨last, hlast, heq⟩ := h
  rw [R.member_of_txid htxid] at hlast
  exact ⟨last, hlast, heq.trans htxid⟩

omit [DecidableEq T] [DecidableEq Tx] in
/-- No lock changes, and what newly relies on one was asked for by a task that waited for it. -/
theorem LockInv.of_fewer (h : LockInv R node) (hstore : node'.store = node.store)
    (hsigning : ∃ past : List (Action W T), Inv past node'.signing)
    (hsignable : ∀ tx, node'.Signable (R.signingHash tx) → node.Signable (R.signingHash tx) ∨
      ∃ task ∈ node.tasks, task.stage = .locked ∧ R.signingHash task.request.tx = R.signingHash tx)
    (hsettled : node.settled = node'.settled)
    (htasks : ∀ task' ∈ node'.tasks, ∃ task ∈ node.tasks, task.request = task'.request ∧
      (task'.stage = .locked → task.stage = .locked)) : LockInv R node' where
  signing := hsigning
  checked task' htask' := by
    obtain ⟨task, htask, hrequest, -⟩ := htasks task' htask'
    rw [← hrequest]
    exact h.checked task htask
  held tx hrelied := by
    have hold : node.LockedFor R tx := by
      rcases hrelied with ⟨htx, hlive⟩ | ⟨⟨task', htask', hstage, rfl⟩, hlive⟩
      · rw [← hsettled] at hlive
        rcases hsignable tx htx with hwas | ⟨task, htask, hstage, hhash⟩
        · exact h.held tx (Or.inl ⟨hwas, hlive⟩)
        · have htxid := R.txid_of_signingHash hhash
          apply (h.held task.request.tx (Or.inr ⟨⟨task, htask, hstage, rfl⟩, _⟩)).congr htxid
          rwa [htxid]
      · rw [← hsettled] at hlive
        obtain ⟨task, htask, hrequest, hlocked⟩ := htasks task' htask'
        apply h.held
        exact Or.inr ⟨⟨task, htask, hlocked hstage, by rw [hrequest]⟩, hlive⟩
    unfold LockedFor at hold ⊢
    rwa [hstore]

omit [DecidableEq T] [DecidableEq Tx] in
/-- The ledger changes, but keeps the locks that are still relied on. -/
theorem LockInv.of_locks (h : LockInv R node) (store : DropletStore W Tx) (confirmed : List W)
    (hlocks : ∀ tx, node.Relied R tx → R.txid tx ∉ confirmed → node.LockedFor R tx →
      { node with store := store }.LockedFor R tx) :
    LockInv R { node with store := store, settled := node.settled ++ confirmed } where
  signing := h.signing
  checked := h.checked
  held tx hrelied := by
    have hnew : R.txid tx ∉ node.settled ∧ R.txid tx ∉ confirmed := by
      rw [← not_or, ← List.mem_append]
      rcases hrelied with ⟨-, hlive⟩ | ⟨-, hlive⟩ <;> exact hlive
    have hold : node.Relied R tx := hrelied.imp (fun hr => ⟨hr.1, hnew.1⟩) fun hr => ⟨hr.1, hnew.1⟩
    exact hlocks tx hold hnew.2 (h.held tx hold)

omit [LinearOrder W] [DecidableEq T] [DecidableEq Tx] in
/-- A task that leaves its stage for one that is not `locked`. -/
theorem mem_modify_stage {tasks : List (HandlerTask W Tx)} {index : ℕ} {stage : HandlerStage}
    (hstage : stage ≠ .locked) {task' : HandlerTask W Tx}
    (h : task' ∈ tasks.modify index fun task => { task with stage := stage }) :
    ∃ task ∈ tasks, task.request = task'.request ∧ (task'.stage = .locked → task.stage = .locked) := by
  obtain ⟨i, hi⟩ := List.mem_iff_getElem?.mp h
  rw [List.getElem?_modify] at hi
  cases htask : tasks[i]? with
  | none => simp [htask] at hi
  | some task =>
    rw [htask] at hi
    refine ⟨task, List.mem_of_getElem? htask, ?_⟩
    split_ifs at hi with heq
    · cases hi
      exact ⟨rfl, fun hlocked => absurd hlocked hstage⟩
    · cases hi
      exact ⟨rfl, id⟩

omit [DecidableEq T] [DecidableEq Tx] in
/-- The coordinator does something for a task that leaves `locked`. -/
theorem LockInv.advance (h : LockInv R node) (index : ℕ) {stage : HandlerStage} (hstage : stage ≠ .locked)
    (signing : SigningState M) (hsigning : ∃ past : List (Action W T), Inv past signing)
    (htouched : ∀ tx, signing.Touched (R.signingHash tx) → node.signing.Touched (R.signingHash tx) ∨
      ∃ task ∈ node.tasks, task.stage = .locked ∧ R.signingHash task.request.tx = R.signingHash tx) :
    LockInv R ({ node with signing := signing }.setStage index stage) := by
  have hsignable : ∀ tx, ({ node with signing := signing }.setStage index stage).Signable (R.signingHash tx) →
      node.Signable (R.signingHash tx) ∨
        ∃ task ∈ node.tasks, task.stage = .locked ∧ R.signingHash task.request.tx = R.signingHash tx := by
    rintro tx (htx | hdone)
    · exact (htouched tx htx).imp_left Or.inl
    · exact Or.inl (Or.inr hdone)
  exact h.of_fewer rfl hsigning hsignable rfl fun _ htask' => mem_modify_stage hstage htask'

omit [DecidableEq T] [DecidableEq Tx] in
theorem LockInv.setStage (h : LockInv R node) (index : ℕ) {stage : HandlerStage} (hstage : stage ≠ .locked) :
    LockInv R (node.setStage index stage) :=
  h.advance index hstage node.signing h.signing fun _ htx => Or.inl htx

omit [DecidableEq Tx] in
theorem LockInv.sign (h : LockInv R node) {index : ℕ} {request : ExchangeRewards W Tx}
    (htask : node.tasks[index]? = some ⟨request, .locked⟩) (now : ℕ) (sender : Option W) (peers : List T) :
    LockInv R (node.sign J R index now request sender peers) := by
  have hmem := List.mem_of_getElem? htask
  cases sender with
  | none => exact h.setStage index nofun
  | some sender =>
    obtain ⟨past, hinv⟩ := h.signing
    have hrefreshed := hinv.refreshMembers J peers
    have hwithin := Within.refreshMembers J node.signing peers
    rw [ExchangeNode.sign]
    cases hrefresh : node.signing.refreshMembers J peers with
    | mk refreshed r =>
      rw [hrefresh] at hrefreshed hwithin
      have hready : Within node.signing (refreshed.removeExpiredSessions now) :=
        Within.trans hwithin (Within.removeExpiredSessions refreshed now)
      have hexpired := hrefreshed.removeExpiredSessions now
      cases r with
      | error e =>
        exact LockInv.advance h index (nofun : HandlerStage.failed ≠ .locked) refreshed ⟨past, hrefreshed⟩ fun tx htx =>
          Or.inl (hwithin _ htx)
      | ok u =>
        simp only
        have hinv' := hexpired.startSession now (R.messageHash request) sender
          ⟨request.signingStormTreeBranch, [request.signingHash]⟩ false
        have htouched : ∀ tx, ((refreshed.removeExpiredSessions now).startSession now (R.messageHash request)
            sender ⟨request.signingStormTreeBranch, [request.signingHash]⟩ none).1.Touched (R.signingHash tx) →
            node.signing.Touched (R.signingHash tx) ∨ ∃ task ∈ node.tasks, task.stage = .locked ∧
              R.signingHash task.request.tx = R.signingHash tx := by
          intro tx htx
          rcases startSession_touched _ now _ _ _ none _ htx with hwas | ⟨hnew, -⟩
          · exact Or.inl (hready _ hwas)
          · have hhash := List.mem_singleton.mp hnew
            rw [h.checked _ hmem] at hhash
            exact Or.inr ⟨_, hmem, rfl, hhash.symm⟩
        cases hstart : (refreshed.removeExpiredSessions now).startSession now (R.messageHash request) sender
          ⟨request.signingStormTreeBranch, [request.signingHash]⟩ none with
        | mk signing r =>
          change Inv past ((refreshed.removeExpiredSessions now).startSession now (R.messageHash request) sender
            ⟨request.signingStormTreeBranch, [request.signingHash]⟩ none).1 at hinv'
          rw [hstart] at hinv' htouched
          have hadvance : ∀ stage, stage ≠ .locked → LockInv R ({ node with signing := signing }.setStage index stage) :=
            fun stage hstage => h.advance index hstage signing ⟨past, hinv'⟩ htouched
          rcases r with e | ⟨_ | message⟩
          · exact hadvance .failed nofun
          · exact hadvance .done nofun
          · exact hadvance .sending nofun

omit [DecidableEq T] in
/-- A request goes on with the lock taken for it; whoever had that lock had it for the same transaction. -/
theorem LockInv.receive (h : LockInv R node) (request : ExchangeRewards W Tx) :
    LockInv R (node.receive R request) := by
  unfold ExchangeNode.receive
  split_ifs with hhash
  · generalize hprog : DropletStore.lockExchange (R.member request.tx) (R.amount request.tx)
      request.blockHeight request.tx = prog
    cases hrun : prog.atomic.exec node.store with
    | mk r store =>
      rcases r with e | ⟨_ | _⟩
      · exact h
      · exact h
      · have hlock : (DropletStore.lockExchange (R.member request.tx) (R.amount request.tx)
            request.blockHeight request.tx).Returns node.store true store := by
          rw [hprog]
          exact Db.returns_atomic.mp hrun
        rcases DropletStore.lockExchange_returns hlock with ⟨hfalse, -⟩ | ⟨-, row, hrow, -, hfree, rfl⟩
        · cases hfalse
        -- The lock that a relied transaction of this member had is the one that was taken again.
        have hkept : ∀ tx, node.Relied R tx → ∃ last,
            lockedFor (node.store.droplets.insert (R.member request.tx)
              (DropletStore.lockedRow row (R.amount request.tx) request.blockHeight request.tx))
                (R.member tx) = some last ∧ R.txid last = R.txid tx := by
          intro tx hrelied
          obtain ⟨last, hlast, htxid⟩ := h.held tx hrelied
          rw [lockedFor_insert]
          split_ifs with hmember
          · rw [hmember, lockedFor, hrow] at hlast
            change row.lock = some last at hlast
            unfold Droplet.lock at hlast
            split_ifs at hlast with hlocked
            rcases hfree with hunlocked | ⟨hsame, -⟩
            · rw [hlocked] at hunlocked
              cases hunlocked
            · obtain rfl := Option.some.inj (hsame.symm.trans hlast)
              exact ⟨request.tx, rfl, htxid⟩
          · exact ⟨last, hlast, htxid⟩
        refine ⟨h.signing, ?_, ?_⟩
        · intro task htask
          rcases List.mem_append.mp htask with hold | hnew
          · exact h.checked task hold
          · obtain rfl := List.mem_singleton.mp hnew
            exact hhash
        · rintro tx (hlive | ⟨⟨task, htask, hstage, rfl⟩, hlive⟩)
          · exact hkept tx (Or.inl hlive)
          · rcases List.mem_append.mp htask with hold | hnew
            · exact hkept _ (Or.inr ⟨⟨task, hold, hstage, rfl⟩, hlive⟩)
            · obtain rfl := List.mem_singleton.mp hnew
              refine ⟨request.tx, ?_, rfl⟩
              rw [lockedFor_insert, if_pos rfl]
              rfl
  · exact h

omit [DecidableEq T] in
theorem LockInv.observeBroadcast (h : LockInv R node) {tx finalTx : Tx} (htxid : R.txid finalTx = R.txid tx) :
    LockInv R { node with store := node.store.step (.updateLockedTransaction (R.member tx) tx finalTx) } := by
  have hlocks := h.of_locks (node.store.step (.updateLockedTransaction (R.member tx) tx finalTx)) [] ?_
  · rwa [List.append_nil] at hlocks
  intro tx' _ _ hold
  obtain ⟨last, hlast, heq⟩ := hold
  unfold LockedFor
  rcases node.store.update_columns (R.member tx) tx finalTx (R.member tx') with hsame | ⟨hwas, hnow⟩
  · rw [hsame]
    exact ⟨last, hlast, heq⟩
  · obtain rfl := Option.some.inj (hwas.symm.trans hlast)
    exact ⟨finalTx, hnow, htxid.trans heq⟩

omit [DecidableEq T] in
/-- The lock of a member is released when nothing relies on it. -/
theorem LockInv.release (h : LockInv R node) (member : W) (height : ℕ) (confirmed : List W)
    (hfree : ∀ tx, R.member tx = member → node.Relied R tx → R.txid tx ∈ confirmed) :
    LockInv R { node with
      store := node.store.step (.unlockExchange member height)
      settled := node.settled ++ confirmed } := by
  apply h.of_locks
  intro tx hrelied hlive hold
  obtain ⟨last, hlast, heq⟩ := hold
  refine ⟨last, ?_, heq⟩
  rcases (node.store.unlock_columns member height (R.member tx)).2 with hsame | ⟨hmember, -⟩
  · exact hsame.trans hlast
  · exact absurd (hfree tx hmember hrelied) hlive

omit [DecidableEq T] [DecidableEq Tx] in
theorem LockInv.applyBlock (h : LockInv R node) (height : ℕ) (ts : List (TreasuryTransaction W))
    (members : List W) (hclear : node.Clear R (.applyBlock height ts members)) {store : DropletStore W Tx}
    {u : PUnit} (hrun : (DropletStore.applyBlockIn height ts members).Returns node.store u store) :
    LockInv R { node with
      store := store
      settled := node.settled ++ ts.map TreasuryTransaction.txid } := by
  apply h.of_locks
  intro tx hrelied hlive hold
  obtain ⟨last, hlast, heq⟩ := hold
  let start : SpendState W Tx := ⟨node.store, []⟩
  -- No transaction of the block is charged to the member.
  have hkept : lockedFor (start.confirmAll height (DropletStore.sortedMembers members) ts).store.droplets
      (R.member tx) = some last := by
    apply SpendState.confirmAll_of_each (I := fun state => lockedFor state.store.droplets (R.member tx) = some last)
      _ hlast hclear
    intro state t hlocked hcharges
    rcases SpendState.confirm_columns height (DropletStore.sortedMembers members) state t (R.member tx) with
      ⟨amount, hcharge, -⟩ | ⟨hsame, -⟩
    · exact absurd (hcharges (R.member tx) amount hcharge tx rfl hrelied) hlive
    · exact hsame.trans hlocked
  rw [SpendState.confirmAll_of_returns hrun] at hkept
  exact ⟨last, hkept, heq⟩

omit [DecidableEq Tx] in
/-- What the coordinator touches by its other work it has touched before. -/
theorem touched_of_foreign (h : LockInv R node) {action : Action W T} (hforeign : isForeign R action = true)
    {tx : Tx} (htx : (Signing.step J node.signing action).Touched (R.signingHash tx)) :
    node.signing.Touched (R.signingHash tx) := by
  obtain ⟨past, hpast⟩ := h.signing
  cases action with
  | refreshMembers peers => exact Within.refreshMembers J node.signing peers _ htx
  | startSession now requestHash requestor request waited =>
    have hopened : node.signing.Touched (R.signingHash tx) ∨ R.signingHash tx ∈ request.messageHashes := by
      cases waited with
      | true => exact (startSession_touched _ now requestHash requestor request _ _ htx).imp id And.left
      | false => exact (startSession_touched _ now requestHash requestor request _ _ htx).imp id And.left
    rcases hopened with hwas | hmem
    · exact hwas
    · have hother := List.all_eq_true.mp hforeign _ hmem
      rw [R.isExchangeHash_signingHash] at hother
      cases hother
  | acceptNonces requestHash sender message =>
    exact Within.acceptNonces hpast requestHash sender message _ htx
  | acceptPartialSignatures requestHash sender message =>
    exact Within.acceptPartialSignatures node.signing requestHash sender message _ htx
  | removeExpiredSessions now => exact Within.removeExpiredSessions node.signing now _ htx
  | removeSession requestHash => exact Within.removeSession node.signing requestHash _ htx

omit [DecidableEq T] in
/-- A completed session was open. -/
theorem opened_of_completedBy {signing signing' : SigningState M} {action : Action W T} {messageHash : W}
    (h : messageHash ∈ completedBy signing signing' action) : signing.Opened messageHash := by
  have hclosed : ∀ requestHash, messageHash ∈ closedMessages signing signing' requestHash →
      signing.Opened messageHash := by
    intro requestHash hmem
    unfold closedMessages at hmem
    split at hmem
    · next session hs hs' => exact ⟨requestHash, session, hs, hmem⟩
    · cases hmem
  cases action with
  | acceptNonces requestHash sender message => exact hclosed requestHash h
  | acceptPartialSignatures requestHash sender message => exact hclosed requestHash h
  | _ => cases h

omit [DecidableEq Tx] in
theorem LockInv.signing_step (h : LockInv R node) (action : Action W T) (hforeign : isForeign R action = true) :
    LockInv R { node with
      signing := Signing.step J node.signing action
      completed := node.completed ++ completedBy node.signing (Signing.step J node.signing action) action } := by
  obtain ⟨past, hpast⟩ := h.signing
  have hsignable : ∀ tx, (Signing.step J node.signing action).Touched (R.signingHash tx) ∨
      R.signingHash tx ∈ node.completed ++ completedBy node.signing (Signing.step J node.signing action) action →
        node.Signable (R.signingHash tx) := by
    rintro tx (htx | hdone)
    · exact Or.inl (touched_of_foreign h hforeign htx)
    · rcases List.mem_append.mp hdone with hold | hnew
      · exact Or.inr hold
      · exact Or.inl (Or.inl (opened_of_completedBy hnew))
  exact h.of_fewer rfl ⟨past ++ [action], hpast.step J action⟩ (fun tx htx => Or.inl (hsignable tx htx)) rfl
    fun task htask => ⟨task, htask, rfl, id⟩

/-- Every clear step keeps the locks that are relied on. -/
theorem LockInv.step (h : LockInv R node) (action : HandlerAction W T Tx) (hclear : node.Clear R action) :
    LockInv R (node.step J R action) := by
  cases action with
  | receive request => exact h.receive request
  | sign index now sender peers =>
    rw [ExchangeNode.step]
    split
    · next request htask => exact h.sign htask now sender peers
    · exact h
  | send index sent =>
    rw [ExchangeNode.step]
    split
    · cases sent with
      | true => exact h.setStage index (nofun : HandlerStage.done ≠ .locked)
      | false => exact h.setStage index (nofun : HandlerStage.failed ≠ .locked)
    · exact h
  | unlock index =>
    rw [ExchangeNode.step]
    split
    · next request htask =>
      have hreleased := h.release (R.member request.tx) request.blockHeight [] fun tx hmember hrelied =>
        absurd hrelied (hclear _ htask rfl tx hmember)
      rw [List.append_nil] at hreleased
      exact hreleased.setStage index (nofun : HandlerStage.done ≠ .locked)
    · exact h
  | observeBroadcast tx finalTx =>
    rw [ExchangeNode.step]
    split_ifs with htxid
    · exact h.observeBroadcast htxid
    · exact h
  | signing action =>
    rw [ExchangeNode.step]
    split_ifs with hforeign
    · exact h.signing_step action hforeign
    · exact h
  | applyBlock height ts members =>
    rw [ExchangeNode.step]
    split
    · next u store hrun => exact h.applyBlock height ts members hclear hrun
    · exact h
  | conflicted member height =>
    rw [ExchangeNode.step]
    apply h.release
    -- The member's lock is for what was found conflicted.
    intro tx hmember hrelied
    obtain ⟨last, hlast, htxid⟩ := h.held tx hrelied
    rw [hmember] at hlast
    rw [hlast, ← htxid]
    exact List.mem_singleton_self _

omit [DecidableEq Tx] in
theorem new_lockInv (R : ExchangeRules W Tx) (secretKey : M.SecretKey) (peers : List T) :
    LockInv R (new J secretKey peers) where
  signing := ⟨[], new_inv J secretKey peers⟩
  checked _ htask := nomatch htask
  held tx hrelied := by
    rcases hrelied with ⟨htouched | hdone, -⟩ | ⟨⟨task, htask, -⟩, -⟩
    · rcases Within.refreshMembers J _ peers _ htouched with ⟨k, session, hs, -⟩ | ⟨secret, he, -⟩
      · simp at hs
      · cases he
    · cases hdone
    · cases htask

theorem LockInv.run (h : LockInv R node) {actions : List (HandlerAction W T Tx)}
    (hclear : AllClear J R node actions) : LockInv R (node.run J R actions) := by
  unfold ExchangeNode.run
  induction actions generalizing node with
  | nil => exact h
  | cons action actions ih => exact ih (h.step action hclear.1) hclear.2

/-- Along a clear run a member is locked for every transaction that may have a signature and can still
confirm, so there are never two of them. -/
theorem exchange_locked_while_live (J : Jets W Sig) (R : ExchangeRules W Tx) (secretKey : M.SecretKey)
    (peers : List T) (actions : List (HandlerAction W T Tx))
    (hclear : AllClear J R (new J secretKey peers) actions) :
    let node : ExchangeNode M Tx := (new J secretKey peers).run J R actions
    (∀ tx, node.Live R tx → node.LockedFor R tx) ∧
      ∀ tx tx', node.Live R tx → node.Live R tx' → R.member tx = R.member tx' → R.txid tx = R.txid tx' := by
  intro node
  have hinv : LockInv R node := (new_lockInv R secretKey peers).run hclear
  refine ⟨fun tx hlive => hinv.held tx (Or.inl hlive), fun tx tx' hlive hlive' hmember => ?_⟩
  obtain ⟨last, hlast, htxid⟩ := hinv.held tx (Or.inl hlive)
  obtain ⟨last', hlast', htxid'⟩ := hinv.held tx' (Or.inl hlive')
  rw [hmember] at hlast
  obtain rfl := Option.some.inj (hlast.symm.trans hlast')
  rw [← htxid, htxid']

section Example

/-- Transactions are numbers, all of member 1, and sign even hashes. -/
def sumRules : ExchangeRules ℕ ℕ where
  txid := id
  signingHash tx := 2 * tx
  member _ := 1
  amount _ := 500
  messageHash request := request.blockHeight + 6
  isExchangeHash messageHash := decide (messageHash % 2 = 0)
  isExchangeHash_signingHash tx := by simp
  txid_of_signingHash h := by
    simp only [id_eq]
    omega
  member_of_txid _ := rfl

/-- The request for transaction 201 at a height. -/
def exchange (blockHeight : ℕ) : ExchangeRewards ℕ ℕ := ⟨201, 402, 11, blockHeight⟩

def exchangeDeposit : HandlerAction ℕ ℕ ℕ := .applyBlock 1 [⟨100, [], [(0, 1000)], some 1, none⟩] [1, 2]

/-- The sessions for transaction 201 as node 1 opens them. -/
def exchangeSession (draw : ℕ) : SigningSession sumMusig :=
  { (freshSession 0 1 ⟨11, [402]⟩ [1, 2] none).modify 1 (·.setNonces [(1 + draw : ℕ)]) with
    secretNonces := some [⟨draw, 402⟩] }

def oneExchange (tree : StormTree ℕ) : SigningState sumMusig :=
  { sumState tree with
    sessions := (∅ : Std.ExtTreeMap ℕ (SigningSession sumMusig)).insert 7 (exchangeSession 0)
    draws := 1 }

def twoExchanges (tree : StormTree ℕ) : SigningState sumMusig :=
  { sumState tree with
    sessions := ((∅ : Std.ExtTreeMap ℕ (SigningSession sumMusig)).insert 7 (exchangeSession 0)).insert 8
      (exchangeSession 1)
    draws := 2 }

def funded (tree : StormTree ℕ) : ExchangeNode sumMusig ℕ :=
  (⟨sumState tree, DropletStore.empty, [], [], []⟩ : ExchangeNode sumMusig ℕ).step idealJets sumRules exchangeDeposit

def waiting (tree : StormTree ℕ) : ExchangeNode sumMusig ℕ :=
  (funded tree).step idealJets sumRules (.receive (exchange 1))

/-- The first request is served, and the transaction is requested once more. -/
def waitingAgain (tree : StormTree ℕ) : ExchangeNode sumMusig ℕ :=
  (({ waiting tree with signing := oneExchange tree }.setStage 0 .sending).step idealJets sumRules
    (.send 0 true)).step idealJets sumRules (.receive (exchange 2))

theorem sign_once {tree : StormTree ℕ}
    (hbranch : StormTree.nodesForBranch (E := sumMusig.KeyError) tree 11 = .ok [1, 2]) :
    (waiting tree).step idealJets sumRules (.sign 0 0 (some 1) [1, 2, 4]) =
      { waiting tree with signing := oneExchange tree }.setStage 0 .sending := by
  have hsigners : (sumState tree).signersForBranch 11 = .ok [1, 2] := by
    simp only [SigningState.signersForBranch, sumState, hbranch]
  have hrefresh : (waiting tree).signing.refreshMembers idealJets [1, 2, 4] = (sumState tree, .ok ()) := by
    with_unfolding_all rfl
  have hexpired : (sumState tree).removeExpiredSessions 0 = sumState tree := by with_unfolding_all rfl
  change (waiting tree).sign idealJets sumRules 0 0 (exchange 1) (some 1) [1, 2, 4] = _
  unfold ExchangeNode.sign
  simp only [hrefresh, hexpired]
  unfold SigningState.startSession
  simp only [exchange, hsigners]
  with_unfolding_all rfl

theorem sign_again {tree : StormTree ℕ}
    (hbranch : StormTree.nodesForBranch (E := sumMusig.KeyError) tree 11 = .ok [1, 2]) :
    (waitingAgain tree).step idealJets sumRules (.sign 1 0 (some 1) [1, 2, 4]) =
      { waitingAgain tree with signing := twoExchanges tree }.setStage 1 .sending := by
  have hsigners : (oneExchange tree).signersForBranch 11 = .ok [1, 2] := by
    simp only [SigningState.signersForBranch, oneExchange, sumState, hbranch]
  have hrefresh : (waitingAgain tree).signing.refreshMembers idealJets [1, 2, 4] =
      (oneExchange tree, .ok ()) := by
    with_unfolding_all rfl
  have hexpired : (oneExchange tree).removeExpiredSessions 0 = oneExchange tree := by with_unfolding_all rfl
  change (waitingAgain tree).sign idealJets sumRules 1 0 (exchange 2) (some 1) [1, 2, 4] = _
  unfold ExchangeNode.sign
  simp only [hrefresh, hexpired]
  unfold SigningState.startSession
  simp only [exchange, hsigners]
  with_unfolding_all rfl

/-- What the second request signed could not be sent. -/
def released (tree : StormTree ℕ) : ExchangeNode sumMusig ℕ :=
  (({ waitingAgain tree with signing := twoExchanges tree }.setStage 1 .sending).step idealJets sumRules
    (.send 1 false)).step idealJets sumRules (.unlock 1)

theorem new_sumNode : ∃ tree, (ExchangeNode.new idealJets (1 : ℕ) [1, 2, 4] : ExchangeNode sumMusig ℕ) =
    ⟨sumState tree, DropletStore.empty, [], [], []⟩ ∧
      StormTree.nodesForBranch (E := sumMusig.KeyError) tree 11 = .ok [1, 2] := by
  obtain ⟨tree, hnew, -, hbranch⟩ := sum_new
  refine ⟨tree, ?_, hbranch⟩
  unfold ExchangeNode.new
  rw [hnew]

/-- A request takes the lock and is signed. -/
theorem exchange_locked_while_live_one_request :
    let node : ExchangeNode sumMusig ℕ := (new idealJets (1 : ℕ) [1, 2, 4]).run idealJets sumRules
      [exchangeDeposit, .receive (exchange 1), .sign 0 0 (some 1) [1, 2, 4]]
    (∀ tx, node.Live sumRules tx → node.LockedFor sumRules tx) ∧
      ∀ tx tx', node.Live sumRules tx → node.Live sumRules tx' → sumRules.member tx = sumRules.member tx' →
        sumRules.txid tx = sumRules.txid tx' := by
  apply exchange_locked_while_live (M := sumMusig) idealJets sumRules (1 : ℕ) [1, 2, 4]
  refine ⟨⟨fun member amount hcharge => ?_, trivial⟩, trivial, trivial, trivial⟩
  cases hcharge

/-- The transaction is requested again at the next height; the node cannot send what it signs for that
request and unlocks, while the session of the first request is open. -/
theorem failed_request_releases_live_lock :
    ¬∀ actions : List (HandlerAction ℕ ℕ ℕ),
      let node : ExchangeNode sumMusig ℕ := (new idealJets (1 : ℕ) [1, 2, 4]).run idealJets sumRules actions
      (∀ tx, node.Live sumRules tx → node.LockedFor sumRules tx) ∧
        ∀ tx tx', node.Live sumRules tx → node.Live sumRules tx' → sumRules.member tx = sumRules.member tx' →
          sumRules.txid tx = sumRules.txid tx' := by
  intro hclaim
  obtain ⟨tree, hnew, hbranch⟩ := new_sumNode
  have h := (hclaim [exchangeDeposit, .receive (exchange 1), .sign 0 0 (some 1) [1, 2, 4], .send 0 true,
    .receive (exchange 2), .sign 1 0 (some 1) [1, 2, 4], .send 1 false, .unlock 1]).1 201
  have hfunded : (⟨sumState tree, DropletStore.empty, [], [], []⟩ : ExchangeNode sumMusig ℕ).step idealJets
      sumRules exchangeDeposit = funded tree := rfl
  have hwaiting : (funded tree).step idealJets sumRules (.receive (exchange 1)) = waiting tree := rfl
  have hwaitingAgain : (({ waiting tree with signing := oneExchange tree }.setStage 0 .sending).step idealJets
      sumRules (.send 0 true)).step idealJets sumRules (.receive (exchange 2)) = waitingAgain tree := rfl
  simp only [hnew, run, List.foldl_cons, List.foldl_nil, hfunded, hwaiting, sign_once hbranch,
    hwaitingAgain, sign_again hbranch] at h
  have hlive : (released tree).Live sumRules 201 := by
    have hsigning : (released tree).signing = twoExchanges tree := by with_unfolding_all rfl
    have hsettled : (released tree).settled = [100] := by with_unfolding_all rfl
    refine ⟨Or.inl (Or.inl ⟨7, exchangeSession 0, ?_, List.mem_singleton_self _⟩), ?_⟩
    · rw [hsigning]
      with_unfolding_all rfl
    · rw [hsettled]
      decide
  have hreleased : lockedFor (released tree).store.droplets 1 = none := by with_unfolding_all rfl
  obtain ⟨last, hlast, -⟩ := h hlive
  cases hreleased.symm.trans hlast

end Example

end ExchangeNode

end PriceOracle
