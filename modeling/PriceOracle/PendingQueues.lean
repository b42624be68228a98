import PriceOracle.IssuanceRounds
import PriceOracle.UserRequestLifecycle

/-!
# The queue of pending requests

`list_pending_after` of `db/user_request.rs` reads the queue page by page, past a cursor, while the
requests before the cursor change their status. The pages are consecutive parts of one queue: that
of the requests that are pending when the walk begins, by block height and hash.
-/

namespace PriceOracle

namespace Issuance

open UserRequestStore

variable {W : Type} [LinearOrder W]

/-- Earlier in the queue. -/
def Before (a b : W × StoredUserRequest W) : Prop :=
  a.2.blockHeight < b.2.blockHeight ∨ (a.2.blockHeight = b.2.blockHeight ∧ a.1 < b.1)

/-- The pending requests, by height and hash. -/
def pendingQueue (store : UserRequestStore W) : List (W × StoredUserRequest W) :=
  ((store.requests.entries.map fun row => (row.1, row.2)).filter fun row =>
    row.2.status = .pending).insertionSort fun a b =>
      a.2.blockHeight < b.2.blockHeight ∨ (a.2.blockHeight = b.2.blockHeight ∧ a.1 ≤ b.1)

section Order

variable {store : UserRequestStore W} {a b c : W × StoredUserRequest W}

theorem Before.trans (hab : Before a b) (hbc : Before b c) : Before a c := by
  rcases hab with hab | ⟨hab, hab'⟩ <;> rcases hbc with hbc | ⟨hbc, hbc'⟩
  · exact .inl (hab.trans hbc)
  · exact .inl (hbc ▸ hab)
  · exact .inl (hab ▸ hbc)
  · exact .inr ⟨hab.trans hbc, hab'.trans hbc'⟩

theorem Before.asymm (hab : Before a b) : ¬Before b a := by
  rintro (hba | ⟨hba, hba'⟩) <;> rcases hab with hab | ⟨hab, hab'⟩
  · exact absurd (hab.trans hba) (lt_irrefl _)
  · exact absurd (hab ▸ hba) (lt_irrefl _)
  · exact absurd (hba ▸ hab) (lt_irrefl _)
  · exact absurd (hab'.trans hba') (lt_irrefl _)

theorem before_irrefl : ¬Before a a := fun h => h.asymm h

/-- Any pending rows of a table, in the order of the queue. -/
theorem pairwise_sorted (p : W × StoredUserRequest W → Bool) :
    (((store.requests.entries.map fun row => (row.1, row.2)).filter p).insertionSort fun a b =>
      a.2.blockHeight < b.2.blockHeight ∨ (a.2.blockHeight = b.2.blockHeight ∧ a.1 ≤ b.1)).Pairwise Before := by
  have htotal : Std.Total fun a b : W × StoredUserRequest W =>
      a.2.blockHeight < b.2.blockHeight ∨ (a.2.blockHeight = b.2.blockHeight ∧ a.1 ≤ b.1) := by
    refine ⟨fun a b => ?_⟩
    rcases lt_trichotomy a.2.blockHeight b.2.blockHeight with hlt | heq | hlt
    · exact .inl (.inl hlt)
    · rcases le_total a.1 b.1 with hle | hle
      · exact .inl (.inr ⟨heq, hle⟩)
      · exact .inr (.inr ⟨heq.symm, hle⟩)
    · exact .inr (.inl hlt)
  have htrans : IsTrans (W × StoredUserRequest W) fun a b =>
      a.2.blockHeight < b.2.blockHeight ∨ (a.2.blockHeight = b.2.blockHeight ∧ a.1 ≤ b.1) := by
    refine ⟨fun a b c hab hbc => ?_⟩
    rcases hab with hab | ⟨hab, hab'⟩ <;> rcases hbc with hbc | ⟨hbc, hbc'⟩
    · exact .inl (hab.trans hbc)
    · exact .inl (hbc ▸ hab)
    · exact .inl (hab ▸ hbc)
    · exact .inr ⟨hab.trans hbc, hab'.trans hbc'⟩
  -- The hashes are the keys of the table, so that two rows never have the same.
  have hkeys : ((store.requests.entries.map fun row => (row.1, row.2)).filter p).Pairwise
      fun a b => a.1 ≠ b.1 := by
    refine List.Pairwise.filter _ (List.pairwise_map.mpr ?_)
    exact List.pairwise_map.mp store.requests.nodupKeys
  have hsorted := List.pairwise_insertionSort (fun a b : W × StoredUserRequest W =>
    a.2.blockHeight < b.2.blockHeight ∨ (a.2.blockHeight = b.2.blockHeight ∧ a.1 ≤ b.1))
    ((store.requests.entries.map fun row => (row.1, row.2)).filter p)
  have hdistinct := hkeys.perm (List.perm_insertionSort (fun a b : W × StoredUserRequest W =>
    a.2.blockHeight < b.2.blockHeight ∨ (a.2.blockHeight = b.2.blockHeight ∧ a.1 ≤ b.1)) _).symm fun h => h.symm
  refine (hsorted.and hdistinct).imp fun h => ?_
  rcases h with ⟨hlt | ⟨heq, hle⟩, hne⟩
  · exact .inl hlt
  · exact .inr ⟨heq, lt_of_le_of_ne hle hne⟩

theorem pairwise_pendingQueue : (pendingQueue store).Pairwise Before := pairwise_sorted _

variable [DecidableEq W]

theorem mem_sorted (p : W × StoredUserRequest W → Bool) {row : W × StoredUserRequest W} :
    (row ∈ ((store.requests.entries.map fun row => (row.1, row.2)).filter p).insertionSort fun a b =>
      a.2.blockHeight < b.2.blockHeight ∨ (a.2.blockHeight = b.2.blockHeight ∧ a.1 ≤ b.1)) ↔
      store.requests.lookup row.1 = some row.2 ∧ p row = true := by
  rw [List.mem_insertionSort, List.mem_filter, List.mem_map]
  refine and_congr_left fun _ => ?_
  constructor
  · rintro ⟨entry, hentry, rfl⟩
    exact AList.mem_lookup_iff.mpr hentry
  · exact fun h => ⟨⟨row.1, row.2⟩, AList.mem_lookup_iff.mp h, rfl⟩

theorem mem_pendingQueue {row : W × StoredUserRequest W} :
    row ∈ pendingQueue store ↔ store.requests.lookup row.1 = some row.2 ∧ row.2.status = .pending := by
  unfold pendingQueue
  rw [mem_sorted, decide_eq_true_eq]

end Order

variable [DecidableEq W]

/-- Requests of `store` have failed; every other row of its tables is as it was. -/
structure MarkedFailed (store : UserRequestStore W) (failed : List W) (next : UserRequestStore W) : Prop where
  ended : ∀ h ∈ failed, ∃ row reason, store.requests.lookup h = some row ∧ row.status = .pending ∧
    next.requests.lookup h = some { row with status := .failed, payload := some reason }
  kept : ∀ h, h ∉ failed → next.requests.lookup h = store.requests.lookup h
  reserved : ∀ feeUtxo, next.feeUtxos.lookup feeUtxo = (store.feeUtxos.lookup feeUtxo).filter fun owner => owner ∉ failed

section Marks

variable {store s : UserRequestStore W} {failed : List W} {row : W × StoredUserRequest W}

omit [LinearOrder W] in
theorem MarkedFailed.refl (store : UserRequestStore W) : MarkedFailed store [] store := by
  refine ⟨fun h hmem => absurd hmem List.not_mem_nil, fun h _ => rfl, fun feeUtxo => ?_⟩
  cases store.feeUtxos.lookup feeUtxo with
  | none => rfl
  | some owner => simp [Option.filter]

/-- A request that has not failed is pending as before. -/
theorem MarkedFailed.pending_iff (hmarked : MarkedFailed store failed s) :
    s.requests.lookup row.1 = some row.2 ∧ row.2.status = .pending ↔ row ∈ pendingQueue store ∧ row.1 ∉ failed := by
  rw [mem_pendingQueue]
  by_cases hfailed : row.1 ∈ failed
  · obtain ⟨old, reason, -, -, hnext⟩ := hmarked.ended row.1 hfailed
    constructor
    · rintro ⟨hlookup, hpending⟩
      rw [hnext, Option.some.injEq] at hlookup
      rw [← hlookup] at hpending
      cases hpending
    · exact fun h => absurd hfailed h.2
  · rw [hmarked.kept row.1 hfailed]
    exact ⟨fun h => ⟨h, hfailed⟩, fun h => h.1⟩

omit [LinearOrder W] in
theorem returns_markFailed {h : W} {stored : StoredUserRequest W} (hrow : s.requests.lookup h = some stored)
    (hpending : stored.status = .pending) (reason : List UInt8) :
    (markFailed h reason).Returns s true (releaseFeeUtxos h { s with
      requests := s.requests.insert h { stored with status := .failed, payload := some reason } }) := by
  refine Db.returns_bind.mpr ⟨true, _, ?_, Db.returns_bind.mpr ⟨⟨⟩, _, Db.returns_modify.mpr rfl, Db.returns_pure.mpr ⟨rfl, rfl⟩⟩⟩
  refine Db.returns_get_bind.mpr ?_
  rw [hrow]
  refine Db.returns_ite.mpr (.inl ⟨by simp [hpending], ?_⟩)
  exact Db.returns_bind.mpr ⟨⟨⟩, _, Db.returns_set.mpr rfl, Db.returns_pure.mpr ⟨rfl, rfl⟩⟩

/-- One more request has failed. -/
theorem MarkedFailed.snoc (hmarked : MarkedFailed store failed s) (hrow : row ∈ pendingQueue store)
    (reason : List UInt8) :
    MarkedFailed store (failed ++ [row.1]) (releaseFeeUtxos row.1 { s with
      requests := s.requests.insert row.1 { row.2 with status := .failed, payload := some reason } }) := by
  obtain ⟨hlookup, hpending⟩ := mem_pendingQueue.mp hrow
  refine ⟨fun h hmem => ?_, fun h hmem => ?_, fun feeUtxo => ?_⟩
  · have hrequests : (releaseFeeUtxos row.1 { s with
        requests := s.requests.insert row.1 { row.2 with status := .failed, payload := some reason } }).requests.lookup h =
        if h = row.1 then some { row.2 with status := .failed, payload := some reason } else s.requests.lookup h :=
      Table.lookup_insert_eq s.requests row.1 h _
    rw [hrequests]
    by_cases heq : h = row.1
    · rw [if_pos heq, heq]
      exact ⟨row.2, reason, hlookup, hpending, rfl⟩
    · rw [if_neg heq]
      exact hmarked.ended h ((List.mem_append.mp hmem).resolve_right fun hlast => heq (List.mem_singleton.mp hlast))
  · obtain ⟨hold, hne⟩ := not_or.mp (mt List.mem_append.mpr hmem)
    have hrequests : (releaseFeeUtxos row.1 { s with
        requests := s.requests.insert row.1 { row.2 with status := .failed, payload := some reason } }).requests.lookup h =
        if h = row.1 then some { row.2 with status := .failed, payload := some reason } else s.requests.lookup h :=
      Table.lookup_insert_eq s.requests row.1 h _
    rw [hrequests, if_neg fun heq => hne (List.mem_singleton.mpr heq)]
    exact hmarked.kept h hold
  · have hreleased : (releaseFeeUtxos row.1 { s with
        requests := s.requests.insert row.1 { row.2 with status := .failed, payload := some reason } }).feeUtxos.lookup feeUtxo =
        (s.feeUtxos.lookup feeUtxo).filter fun owner => owner ≠ row.1 :=
      Table.lookup_filterRows _ s.feeUtxos feeUtxo
    rw [hreleased, hmarked.reserved feeUtxo, Option.filter_filter]
    congr 1
    funext owner
    simp [Bool.and_comm]

/-- A request that has not failed yet fails. -/
theorem post_failRequest {X : UserRequestError → UserRequestStore W → Prop} (hmarked : MarkedFailed store failed s)
    (hrow : row ∈ pendingQueue store) (hnew : row.1 ∉ failed) (reason : String) :
    Db.Post (failRequest row.1 reason) (fun _ t => MarkedFailed store (failed ++ [row.1]) t) X s := by
  obtain ⟨hlookup, hpending⟩ := hmarked.pending_iff.mpr ⟨hrow, hnew⟩
  exact Db.post_of_returns (Db.returns_statement (returns_markFailed hlookup hpending _)) (hmarked.snoc hrow _)

end Marks

section Pages

variable {store s : UserRequestStore W} {failed : List W} {considered rest : List (W × StoredUserRequest W)}

omit [DecidableEq W] in
/-- The rows past the cursor are the rest of the queue. -/
theorem past_cursor (hqueue : pendingQueue store = considered ++ rest) {last row : W × StoredUserRequest W}
    (hlast : considered.getLast? = some last) (hrow : row ∈ pendingQueue store) : Before last row ↔ row ∈ rest := by
  obtain ⟨front, rfl⟩ := List.getLast?_eq_some_iff.mp hlast
  have hordered : (front ++ [last] ++ rest).Pairwise Before := hqueue ▸ pairwise_pendingQueue
  obtain ⟨hconsidered, -, hsplit⟩ := List.pairwise_append.mp hordered
  obtain ⟨-, -, hfront⟩ := List.pairwise_append.mp hconsidered
  constructor
  · intro hbefore
    rw [hqueue] at hrow
    rcases List.mem_append.mp hrow with hmem | hmem
    · rcases List.mem_append.mp hmem with hmem | hmem
      · exact absurd (hfront row hmem last List.mem_cons_self) hbefore.asymm
      · rw [List.mem_singleton.mp hmem] at hbefore
        exact absurd hbefore before_irrefl
    · exact hmem
  · exact fun hmem => hsplit last (List.mem_append_right _ List.mem_cons_self) row hmem

/-- What failed is behind the cursor. -/
theorem rest_not_failed (hqueue : pendingQueue store = considered ++ rest)
    (hfailed : ∀ h ∈ failed, ∃ row ∈ considered, row.1 = h) {row : W × StoredUserRequest W} (hrow : row ∈ rest) :
    row.1 ∉ failed := by
  intro hmem
  obtain ⟨other, hother, hsame⟩ := hfailed row.1 hmem
  have hordered : (considered ++ rest).Pairwise Before := hqueue ▸ pairwise_pendingQueue
  have hbefore := (List.pairwise_append.mp hordered).2.2 other hother row hrow
  have hlookup := (mem_pendingQueue.mp (hqueue ▸ List.mem_append_left rest hother)).1
  have hlookup' := (mem_pendingQueue.mp (hqueue ▸ List.mem_append_right considered hrow)).1
  rw [hsame, hlookup', Option.some.injEq] at hlookup
  exact before_irrefl (Prod.ext hsame hlookup.symm ▸ hbefore)

/-- The rows of a page are the next of the queue. -/
theorem page_eq (hmarked : MarkedFailed store failed s) (hqueue : pendingQueue store = considered ++ rest)
    (hfailed : ∀ h ∈ failed, ∃ row ∈ considered, row.1 = h) (p : W × StoredUserRequest W → Bool)
    (hpast : ∀ row ∈ pendingQueue store, row.1 ∉ failed → (p row = true ↔ row ∈ rest)) :
    (((s.requests.entries.map fun row => (row.1, row.2)).filter fun row =>
      row.2.status = .pending ∧ p row).insertionSort fun a b =>
      a.2.blockHeight < b.2.blockHeight ∨ (a.2.blockHeight = b.2.blockHeight ∧ a.1 ≤ b.1)) = rest := by
  have hrest : rest.Pairwise Before := by
    have hordered : (considered ++ rest).Pairwise Before := hqueue ▸ pairwise_pendingQueue
    exact (List.pairwise_append.mp hordered).2.1
  have hirrefl : Std.Irrefl (Before (W := W)) := ⟨fun _ => before_irrefl⟩
  have hantisymm : Std.Antisymm (Before (W := W)) := ⟨fun a b hab hba => absurd hba hab.asymm⟩
  refine List.Pairwise.eq_of_mem_iff (pairwise_sorted _) hrest fun row => ?_
  rw [mem_sorted, decide_eq_true_eq, ← and_assoc, hmarked.pending_iff]
  constructor
  · rintro ⟨⟨hrow, hnew⟩, hp⟩
    exact (hpast row hrow hnew).mp hp
  · intro hmem
    have hrow : row ∈ pendingQueue store := hqueue ▸ List.mem_append_right considered hmem
    have hnew := rest_not_failed hqueue hfailed hmem
    exact ⟨⟨hrow, hnew⟩, (hpast row hrow hnew).mpr hmem⟩

/-- A page is the beginning of the rest, unless the height of the cursor does not fit into the database. -/
theorem post_pendingAfter (hmarked : MarkedFailed store failed s) (hqueue : pendingQueue store = considered ++ rest)
    (hfailed : ∀ h ∈ failed, ∃ row ∈ considered, row.1 = h) :
    Db.Post (pendingAfter (considered.getLast?.map fun row => (row.2.blockHeight, row.1)))
      (fun page t => page = rest.take pendingScanPage ∧ t = s)
      (fun _ t => t = s ∧ ∃ row ∈ considered, 2 ^ 63 ≤ row.2.blockHeight) s := by
  cases hlast : considered.getLast? with
  | none =>
    have hnone : considered = [] := List.getLast?_eq_none_iff.mp hlast
    have hpage := page_eq hmarked hqueue hfailed (fun _ => true) fun row hrow _ => by
      rw [hqueue, hnone] at hrow
      exact ⟨fun _ => hrow, fun _ => rfl⟩
    refine Db.post_of_returns (Db.returns_statement (Db.returns_get_bind.mpr ?_)) ⟨rfl, rfl⟩
    exact Db.returns_pure.mpr ⟨by rw [← hpage]; rfl, rfl⟩
  | some last =>
    have hmem : last ∈ considered := List.mem_of_getLast? hlast
    by_cases hheight : last.2.blockHeight < 2 ^ 63
    · have hpage := page_eq hmarked hqueue hfailed (fun row => decide (last.2.blockHeight < row.2.blockHeight ∨
          (row.2.blockHeight = last.2.blockHeight ∧ last.1 < row.1))) fun row hrow _ => by
        rw [decide_eq_true_eq, eq_comm]
        exact past_cursor hqueue hlast hrow
      have hencode : (encodeHeight last.2.blockHeight).Returns s last.2.blockHeight s :=
        returns_encodeHeight.mpr ⟨hheight, rfl, rfl⟩
      refine Db.post_of_returns (Db.returns_statement (Db.returns_bind.mpr ⟨_, s, hencode, ?_⟩)) ⟨rfl, rfl⟩
      exact Db.returns_get_bind.mpr (Db.returns_pure.mpr ⟨by rw [← hpage]; rfl, rfl⟩)
    · have hencode : (encodeHeight last.2.blockHeight : Db (UserRequestStore W) SqlError ℕ) = throw .encode :=
        if_neg hheight
      unfold Db.Post pendingAfter
      rw [Db.exec_statement]
      simp only [Option.map_some, listPendingAfter, hencode]
      exact ⟨rfl, last, hmem, Nat.le_of_not_lt hheight⟩

end Pages

end Issuance

end PriceOracle
