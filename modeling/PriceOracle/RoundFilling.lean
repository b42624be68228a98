import PriceOracle.PendingQueues

/-!
# How a round is filled

`prepare_round_candidate` of `high_storm/user_requests.rs` walks the queue of pending requests. A walk is
stated batch by batch: what happens to each depends on the batches that the round includes already. The
loops over the pages are such a walk, over the beginning of the queue at which they stop.
-/

namespace PriceOracle

namespace Issuance

open UserRequestStore

variable {W T : Type}

section Checks

/-- The batch names a feed and has waited for it too long. -/
def AgedOut (view : RoundView W T) (stored : StoredUserRequest W) (request : DecodedRequest W) : Prop :=
  request.namedFeed.isSome ∧ maxUnpricedRequestBlocks < view.blockHeight - stored.blockHeight

/-- The rate that a round with some rate carries once the batch is in it. -/
inductive Carries (view : RoundView W T) (requestHash : W) :
    Option PriceFeedData → Option UInt32 → Option PriceFeedData → Prop where
  | unpriced (rate : Option PriceFeedData) : Carries view requestHash rate none rate
  | held (rate : PriceFeedData) : Carries view requestHash (some rate) (some rate.feedId) (some rate)
  | own {feed : UInt32} {rate : PriceFeedData} (hprice : view.price requestHash feed = some rate)
      (husable : min (view.timestamp + signingSessionTimeout) (2 ^ 64 - 1) < rate.validUntil.toNat) :
      Carries view requestHash none (some feed) (some rate)

/-- The UTXO is free and confirmed and pays from the account of the batch. -/
structure FeeHeld (view : RoundView W T) (publicKey : W) (feeUtxo : FeeUtxo W) (output : FeeOutput W) : Prop where
  unreserved : view.isReservedForBurning feeUtxo = .ok false
  confirmed : view.confirmedFeeOutpoint feeUtxo = .ok (some output)
  asset : output.asset = view.policyAsset
  script : output.scriptPubkey = view.accountScript publicKey

/-- The UTXO cannot be spent for the batch any more. -/
inductive FeeLost (view : RoundView W T) (publicKey : W) (feeUtxo : FeeUtxo W) : Prop where
  | reserved (h : view.isReservedForBurning feeUtxo = .ok true)
  | unconfirmed (h : view.confirmedFeeOutpoint feeUtxo = .ok none)
  | policy (output : FeeOutput W) (h : view.confirmedFeeOutpoint feeUtxo = .ok (some output))
      (hpolicy : output.asset ≠ view.policyAsset ∨ output.scriptPubkey ≠ view.accountScript publicKey)

/-- The node cannot tell whether the UTXO can be spent. -/
def FeeUnknown (view : RoundView W T) (feeUtxo : FeeUtxo W) : Prop :=
  ∃ error, view.isReservedForBurning feeUtxo = .error error ∨ view.confirmedFeeOutpoint feeUtxo = .error error

theorem agedOut_iff {view : RoundView W T} {stored : StoredUserRequest W} {request : DecodedRequest W} :
    AgedOut view stored request ↔
      (request.namedFeed.filter fun _ => waitedTooLong view.blockHeight stored.blockHeight).isSome := by
  unfold AgedOut waitedTooLong
  cases request.namedFeed with
  | none => simp
  | some feed => simp [Option.filter]

theorem carries_iff {view : RoundView W T} {requestHash : W} {rate carried : Option PriceFeedData}
    {namedFeed : Option UInt32} : Carries view requestHash rate namedFeed carried ↔
      roundRate rate namedFeed ((namedFeed.filter fun _ => rate.isNone).bind fun feed =>
        (view.price requestHash feed).filter (usableForRound view.timestamp)) = .carries carried := by
  constructor
  · rintro (_ | _ | ⟨hprice, husable⟩)
    · rfl
    · simp [roundRate]
    · have hown : usableForRound view.timestamp _ = true := decide_eq_true husable
      simp [roundRate, hprice, Option.filter, hown]
  · intro h
    cases namedFeed with
    | none =>
      obtain rfl := RoundRate.carries.inj h
      exact .unpriced _
    | some feed =>
      cases rate with
      | some held =>
        unfold roundRate at h
        dsimp only at h
        split_ifs at h with hfeed
        obtain rfl := RoundRate.carries.inj h
        obtain rfl := not_not.mp hfeed
        exact .held held
      | none =>
        have hnamed : ((some feed).filter fun _ => (none : Option PriceFeedData).isNone) = some feed := rfl
        rw [hnamed, Option.bind_some] at h
        unfold roundRate at h
        dsimp only at h
        cases hprice : (view.price requestHash feed).filter (usableForRound view.timestamp) with
        | none =>
          rw [hprice] at h
          cases h
        | some own =>
          obtain ⟨hown, husable⟩ := Option.filter_eq_some_iff.mp hprice
          rw [hprice] at h
          obtain rfl := RoundRate.carries.inj h
          exact .own hown (of_decide_eq_true husable)

variable [DecidableEq W]

/-- The fee UTXOs are all held, one of them is lost or the node cannot tell. -/
theorem resolveFeeUtxos_cases (view : RoundView W T) (publicKey : W) (feeUtxos : List (FeeUtxo W)) :
    match resolveFeeUtxos view publicKey feeUtxos with
    | .ok (.ok outputs) => List.Forall₂ (FeeHeld view publicKey) feeUtxos outputs
    | .ok (.error _) => ∃ feeUtxo ∈ feeUtxos, FeeLost view publicKey feeUtxo
    | .error _ => ∃ feeUtxo ∈ feeUtxos, FeeUnknown view feeUtxo := by
  induction feeUtxos with
  | nil => exact .nil
  | cons feeUtxo feeUtxos ih =>
    unfold resolveFeeUtxos
    cases hreserved : view.isReservedForBurning feeUtxo with
    | error error => exact ⟨feeUtxo, List.mem_cons_self, error, .inl hreserved⟩
    | ok reserved =>
      cases reserved with
      | true => exact ⟨feeUtxo, List.mem_cons_self, .reserved hreserved⟩
      | false =>
        cases hconfirmed : view.confirmedFeeOutpoint feeUtxo with
        | error error => exact ⟨feeUtxo, List.mem_cons_self, error, .inr hconfirmed⟩
        | ok found =>
          cases found with
          | none => exact ⟨feeUtxo, List.mem_cons_self, .unconfirmed hconfirmed⟩
          | some output =>
            by_cases hpolicy : output.asset ≠ view.policyAsset ∨ output.scriptPubkey ≠ view.accountScript publicKey
            · simp only [bind, Except.bind, pure, Except.pure, Bool.false_eq_true, ↓reduceIte, if_pos hpolicy]
              exact ⟨feeUtxo, List.mem_cons_self, .policy output hconfirmed hpolicy⟩
            · obtain ⟨hasset, hscript⟩ := not_or.mp hpolicy
              have hheld : FeeHeld view publicKey feeUtxo output :=
                ⟨hreserved, hconfirmed, not_not.mp hasset, not_not.mp hscript⟩
              simp only [bind, Except.bind, pure, Except.pure, Bool.false_eq_true, ↓reduceIte, if_neg hpolicy]
              -- The rest of the fee UTXOs decides.
              cases hrest : resolveFeeUtxos view publicKey feeUtxos with
              | error error =>
                rw [hrest] at ih
                obtain ⟨other, hmem, hother⟩ := ih
                exact ⟨other, List.mem_cons_of_mem feeUtxo hmem, hother⟩
              | ok resolved =>
                rw [hrest] at ih
                cases resolved with
                | error reason =>
                  obtain ⟨other, hmem, hother⟩ := ih
                  exact ⟨other, List.mem_cons_of_mem feeUtxo hmem, hother⟩
                | ok outputs => exact .cons hheld ih

end Checks

section Walks

/-- The descriptors that the batches issue. -/
def issuedDescriptors (included : List (Accepted W)) : ℕ := (included.map fun batch => batch.request.requests).sum

/-- The batch passes its own checks, in a round with some rate. -/
structure Passes (view : RoundView W T) (rate : Option PriceFeedData) (row : W × StoredUserRequest W)
    (request : DecodedRequest W) (carried : Option PriceFeedData) (feeOutputs : List (FeeOutput W)) : Prop where
  reads : view.validateEncodedRequest row.2.request = .ok request
  fresh : ¬AgedOut view row.2 request
  carries : Carries view row.1 rate request.namedFeed carried
  held : List.Forall₂ (FeeHeld view request.publicKey) request.feeUtxos feeOutputs

/-- A walk over requests in their order, with the batches that the round includes, the rate that it carries
and the requests that fail. -/
inductive Walked (view : RoundView W T) (requestLimit : ℕ) :
    List (W × StoredUserRequest W) → List (Accepted W) → Option PriceFeedData → List W → Prop where
  | start : Walked view requestLimit [] [] none []
  | agedOut {considered included rate failed row request} (hwalk : Walked view requestLimit considered included rate failed)
      (hreads : view.validateEncodedRequest row.2.request = .ok request) (haged : AgedOut view row.2 request) :
      Walked view requestLimit (considered ++ [row]) included rate (failed ++ [row.1])
  | waits {considered included rate failed row request} (hwalk : Walked view requestLimit considered included rate failed)
      (hreads : view.validateEncodedRequest row.2.request = .ok request) (hfresh : ¬AgedOut view row.2 request)
      (hrate : ∀ carried, ¬Carries view row.1 rate request.namedFeed carried) :
      Walked view requestLimit (considered ++ [row]) included rate failed
  | feeLost {considered included rate failed row request carried feeUtxo}
      (hwalk : Walked view requestLimit considered included rate failed)
      (hreads : view.validateEncodedRequest row.2.request = .ok request) (hfresh : ¬AgedOut view row.2 request)
      (hrate : Carries view row.1 rate request.namedFeed carried) (hmem : feeUtxo ∈ request.feeUtxos)
      (hlost : FeeLost view request.publicKey feeUtxo) :
      Walked view requestLimit (considered ++ [row]) included rate (failed ++ [row.1])
  | joins {considered included rate failed row request carried feeOutputs}
      (hwalk : Walked view requestLimit considered included rate failed)
      (hpasses : Passes view rate row request carried feeOutputs) (hlimit : included.length < requestLimit)
      (hroom : issuedDescriptors included + request.requests ≤ maxIssuedDescriptors) :
      Walked view requestLimit (considered ++ [row]) (included ++ [⟨row.1, row.2, request, feeOutputs⟩]) carried failed

/-- Why no request of the rest is considered. -/
inductive Stops (view : RoundView W T) (requestLimit : ℕ) (considered : List (W × StoredUserRequest W))
    (included : List (Accepted W)) (rate : Option PriceFeedData) : List (W × StoredUserRequest W) → Prop where
  | ended : Stops view requestLimit considered included rate []
  | bounded {rest} (hbound : considered.length = maxPendingScan) : Stops view requestLimit considered included rate rest
  | full {rest} (hfull : included.length = requestLimit) : Stops view requestLimit considered included rate rest
  | exceeds {row rest request carried feeOutputs} (hbound : considered.length < maxPendingScan)
      (hpasses : Passes view rate row request carried feeOutputs)
      (hexceeds : maxIssuedDescriptors < issuedDescriptors included + request.requests) :
      Stops view requestLimit considered included rate (row :: rest)

/-- Why a call fails. -/
inductive Interrupted (view : RoundView W T) (considered : List (W × StoredUserRequest W))
    (included : List (Accepted W)) (rate : Option PriceFeedData) : List (W × StoredUserRequest W) → Prop where
  | contracts {rest error} (h : view.contracts = .error error) : Interrupted view considered included rate rest
  | height {rest row} (hmem : row ∈ considered) (hheight : 2 ^ 63 ≤ row.2.blockHeight) :
      Interrupted view considered included rate rest
  | unreadable {row rest reason} (hreads : view.validateEncodedRequest row.2.request = .error reason) :
      Interrupted view considered included rate (row :: rest)
  | feeUnknown {row rest request feeUtxo} (hreads : view.validateEncodedRequest row.2.request = .ok request)
      (hmem : feeUtxo ∈ request.feeUtxos) (hunknown : FeeUnknown view feeUtxo) :
      Interrupted view considered included rate (row :: rest)
  | build {rest error} (h : view.build included rate = .error error) : Interrupted view considered included rate rest

variable {view : RoundView W T} {requestLimit : ℕ} {considered : List (W × StoredUserRequest W)}
  {included : List (Accepted W)} {rate : Option PriceFeedData} {failed : List W}

theorem Walked.length_le (hwalk : Walked view requestLimit considered included rate failed) :
    included.length ≤ requestLimit := by
  induction hwalk with
  | start => exact Nat.zero_le _
  | agedOut _ _ _ ih | waits _ _ _ _ ih | feeLost _ _ _ _ _ _ ih => exact ih
  | joins _ _ hlimit _ _ =>
    rw [List.length_append]
    exact hlimit

/-- The included batches are requests of the walk, in its order. -/
theorem Walked.sublist (hwalk : Walked view requestLimit considered included rate failed) :
    (included.map fun batch => (batch.requestHash, batch.stored)).Sublist considered := by
  induction hwalk with
  | start => exact .slnil
  | agedOut _ _ _ ih | waits _ _ _ _ ih | feeLost _ _ _ _ _ _ ih => exact ih.trans (List.sublist_append_left _ _)
  | joins _ _ _ _ ih =>
    rw [List.map_append]
    exact ih.append (List.Sublist.refl _)

/-- What fails has waited too long or has lost a fee UTXO. -/
theorem Walked.failed_of (hwalk : Walked view requestLimit considered included rate failed) :
    ∀ h ∈ failed, ∃ row ∈ considered, row.1 = h ∧ ∃ request, view.validateEncodedRequest row.2.request = .ok request ∧
      (AgedOut view row.2 request ∨ ∃ feeUtxo ∈ request.feeUtxos, FeeLost view request.publicKey feeUtxo) := by
  induction hwalk with
  | start => exact fun h hmem => absurd hmem List.not_mem_nil
  | @agedOut considered _ _ _ row request _ hreads haged ih =>
    intro h hmem
    rcases List.mem_append.mp hmem with hold | hlast
    · obtain ⟨other, hother, hwhy⟩ := ih h hold
      exact ⟨other, List.mem_append_left _ hother, hwhy⟩
    · exact ⟨row, List.mem_append_right _ List.mem_cons_self, (List.mem_singleton.mp hlast).symm, request, hreads, .inl haged⟩
  | @feeLost considered _ _ _ row request _ feeUtxo _ hreads _ _ hfee hlost ih =>
    intro h hmem
    rcases List.mem_append.mp hmem with hold | hlast
    · obtain ⟨other, hother, hwhy⟩ := ih h hold
      exact ⟨other, List.mem_append_left _ hother, hwhy⟩
    · exact ⟨row, List.mem_append_right _ List.mem_cons_self, (List.mem_singleton.mp hlast).symm, request, hreads,
        .inr ⟨feeUtxo, hfee, hlost⟩⟩
  | waits _ _ _ _ ih | joins _ _ _ _ ih =>
    intro h hmem
    obtain ⟨other, hother, hwhy⟩ := ih h hmem
    exact ⟨other, List.mem_append_left _ hother, hwhy⟩

/-- The round carries a rate for a batch that it includes, and with such a batch it carries one. -/
theorem Walked.rate_isSome_iff (hwalk : Walked view requestLimit considered included rate failed) :
    rate.isSome ↔ ∃ batch ∈ included, batch.request.namedFeed.isSome := by
  induction hwalk with
  | start => simp
  | agedOut _ _ _ ih | waits _ _ _ _ ih | feeLost _ _ _ _ _ _ ih => exact ih
  | @joins _ included rate _ row request carried feeOutputs _ hpasses _ _ ih =>
    have hlast : (∃ batch ∈ included ++ [⟨row.1, row.2, request, feeOutputs⟩], batch.request.namedFeed.isSome) ↔
        rate.isSome ∨ request.namedFeed.isSome := by
      rw [ih]
      simp only [List.mem_append, List.mem_singleton, or_and_right, exists_or, exists_eq_left]
    rw [hlast]
    rcases hnamed : request.namedFeed with _ | feed <;> have hcarries := hnamed ▸ hpasses.carries
    · obtain ⟨rate⟩ := hcarries
      simp
    · cases hcarries <;> simp

end Walks

section Loops

variable [DecidableEq W] [LinearOrder W]

/-- A walk over the beginning of the queue of `store`, with the requests that have failed in `next`. -/
structure Filled (view : RoundView W T) (requestLimit : ℕ) (store : UserRequestStore W)
    (considered rest : List (W × StoredUserRequest W)) (included : List (Accepted W)) (rate : Option PriceFeedData)
    (failed : List W) (next : UserRequestStore W) : Prop where
  queue : pendingQueue store = considered ++ rest
  bound : considered.length ≤ maxPendingScan
  walked : Walked view requestLimit considered included rate failed
  marked : MarkedFailed store failed next

/-- The loops in the middle of a walk. -/
structure Walking (view : RoundView W T) (requestLimit : ℕ) (store : UserRequestStore W) (scan : Scan W)
    (considered rest : List (W × StoredUserRequest W)) (failed : List W) (next : UserRequestStore W) : Prop where
  filling : Filled view requestLimit store considered rest scan.decoded scan.instructed failed next
  cursor : scan.cursor = considered.getLast?.map fun row => (row.2.blockHeight, row.1)
  scanned : scan.scanned = considered.length
  issuedCount : scan.issuedCount = issuedDescriptors scan.decoded
  room : scan.decoded.length < requestLimit
  unfilled : scan.filled = false

/-- The loops at their end. -/
def Finished (view : RoundView W T) (requestLimit : ℕ) (store : UserRequestStore W) (scan : Scan W)
    (next : UserRequestStore W) : Prop :=
  ∃ considered rest failed, Filled view requestLimit store considered rest scan.decoded scan.instructed failed next ∧
    Stops view requestLimit considered scan.decoded scan.instructed rest

/-- A call that fails. -/
def Failed (view : RoundView W T) (requestLimit : ℕ) (store : UserRequestStore W) (_ : UserRequestError)
    (next : UserRequestStore W) : Prop :=
  ∃ considered rest included rate failed, Filled view requestLimit store considered rest included rate failed next ∧
    Interrupted view considered included rate rest

variable {view : RoundView W T} {requestLimit : ℕ} {store s : UserRequestStore W} {scan : Scan W}
  {considered rest : List (W × StoredUserRequest W)} {failed : List W} {row : W × StoredUserRequest W}

theorem Walking.failed_considered (hscan : Walking view requestLimit store scan considered rest failed s) :
    ∀ h ∈ failed, ∃ row ∈ considered, row.1 = h := by
  intro h hmem
  obtain ⟨row, hrow, heq, -⟩ := hscan.filling.walked.failed_of h hmem
  exact ⟨row, hrow, heq⟩

/-- The walk passes a batch that does not join the round. -/
theorem Walking.pass (hscan : Walking view requestLimit store scan considered (row :: rest) failed s)
    (hbound : considered.length < maxPendingScan) {failed' : List W} {t : UserRequestStore W}
    (hwalk : Walked view requestLimit (considered ++ [row]) scan.decoded scan.instructed failed')
    (hmarked : MarkedFailed store failed' t) :
    Walking view requestLimit store
      { scan with cursor := some (row.2.blockHeight, row.1), scanned := scan.scanned + 1 } (considered ++ [row]) rest
      failed' t where
  filling := ⟨by rw [hscan.filling.queue, List.append_assoc, List.singleton_append], by simpa using hbound, hwalk, hmarked⟩
  cursor := by rw [List.getLast?_concat]; rfl
  scanned := by simp [hscan.scanned]
  issuedCount := hscan.issuedCount
  room := hscan.room
  unfilled := hscan.unfilled

/-- After one more request the walk goes on or the round is filled. -/
def Advanced (view : RoundView W T) (requestLimit : ℕ) (store : UserRequestStore W)
    (considered rest : List (W × StoredUserRequest W)) (scan : Scan W) (next : UserRequestStore W) : Prop :=
  (∃ failed, Walking view requestLimit store scan considered rest failed next) ∨
    (scan.filled = true ∧ Finished view requestLimit store scan next)

theorem Walking.join (hscan : Walking view requestLimit store scan considered (row :: rest) failed s)
    (hbound : considered.length < maxPendingScan) {request : DecodedRequest W} {carried : Option PriceFeedData}
    {feeOutputs : List (FeeOutput W)} (hpasses : Passes view scan.instructed row request carried feeOutputs) :
    Advanced view requestLimit store (considered ++ [row]) rest
      (Scan.join { scan with cursor := some (row.2.blockHeight, row.1), scanned := scan.scanned + 1 } requestLimit carried
        ⟨row.1, row.2, request, feeOutputs⟩) s := by
  unfold Scan.join
  dsimp only
  split_ifs with hexceeds
  · rw [hscan.issuedCount] at hexceeds
    exact .inr ⟨rfl, considered, row :: rest, failed, hscan.filling, .exceeds hbound hpasses hexceeds⟩
  · rw [hscan.issuedCount, Nat.not_lt] at hexceeds
    have hwalk := hscan.filling.walked.joins hpasses hscan.room hexceeds
    have hfilled : Filled view requestLimit store (considered ++ [row]) rest
        (scan.decoded ++ [⟨row.1, row.2, request, feeOutputs⟩]) carried failed s :=
      ⟨by rw [hscan.filling.queue, List.append_assoc, List.singleton_append], by simpa using hbound, hwalk,
        hscan.filling.marked⟩
    by_cases hfull : requestLimit ≤ scan.decoded.length + 1
    · refine .inr ⟨decide_eq_true hfull, considered ++ [row], rest, failed, hfilled, .full ?_⟩
      rw [List.length_append]
      exact Nat.le_antisymm hscan.room hfull
    · refine .inl ⟨failed, hfilled, by rw [List.getLast?_concat]; rfl, by simp [hscan.scanned], ?_, ?_, ?_⟩
      · simp [issuedDescriptors, hscan.issuedCount]
      · simpa using Nat.not_le.mp hfull
      · exact decide_eq_false hfull

/-- One batch of the queue. -/
theorem post_scanRequest (hscan : Walking view requestLimit store scan considered (row :: rest) failed s)
    (hbound : considered.length < maxPendingScan) :
    Db.Post (scanRequest view requestLimit scan row.1 row.2)
      (Advanced view requestLimit store (considered ++ [row]) rest) (Failed view requestLimit store) s := by
  have hrow : row ∈ pendingQueue store := by simp [hscan.filling.queue]
  have hnew := rest_not_failed hscan.filling.queue hscan.failed_considered List.mem_cons_self
  have hfails (error : UserRequestError)
      (hwhy : Interrupted view considered scan.decoded scan.instructed (row :: rest)) :
      Failed view requestLimit store error s := ⟨_, _, _, _, failed, hscan.filling, hwhy⟩
  refine Db.post_bind (R := fun request t => t = s ∧ view.validateEncodedRequest row.2.request = .ok request)
    (Db.post_check (fun request hok => ?_) fun error herror => ?_) ?_
  · cases hreads : view.validateEncodedRequest row.2.request with
    | error reason =>
      rw [hreads] at hok
      cases hok
    | ok read =>
      rw [hreads] at hok
      exact ⟨rfl, congrArg _ (Except.ok.inj hok)⟩
  · cases hreads : view.validateEncodedRequest row.2.request with
    | error reason => exact hfails error (.unreadable hreads)
    | ok read =>
      rw [hreads] at herror
      cases herror
  rintro request _ ⟨rfl, hreads⟩
  have hmark (reason : String) : Db.Post (failRequest row.1 reason)
      (fun _ t => MarkedFailed store (failed ++ [row.1]) t) (Failed view requestLimit store) _ :=
    post_failRequest hscan.filling.marked hrow hnew reason
  dsimp only
  cases haged : request.namedFeed.filter fun _ => waitedTooLong view.blockHeight row.2.blockHeight with
  | some feed =>
    have haged' : AgedOut view row.2 request := agedOut_iff.mpr (by rw [haged]; rfl)
    refine Db.post_bind (hmark _) fun _ t hmarked => Db.post_pure ?_
    exact .inl ⟨_, hscan.pass hbound (hscan.filling.walked.agedOut hreads haged') hmarked⟩
  | none =>
    have hfresh : ¬AgedOut view row.2 request := fun h => by simpa [haged] using agedOut_iff.mp h
    dsimp only
    cases hrate : roundRate scan.instructed request.namedFeed
        ((request.namedFeed.filter fun _ => scan.instructed.isNone).bind fun feed =>
          (view.price row.1 feed).filter (usableForRound view.timestamp)) with
    | anotherFeed | noLocalPrice =>
      have hwaits (carried : Option PriceFeedData) : ¬Carries view row.1 scan.instructed request.namedFeed carried := by
        rw [carries_iff, hrate]
        exact nofun
      exact .inl ⟨_, hscan.pass hbound (hscan.filling.walked.waits hreads hfresh hwaits) hscan.filling.marked⟩
    | carries carried =>
      have hcarries := carries_iff.mpr hrate
      have hfees := resolveFeeUtxos_cases view request.publicKey request.feeUtxos
      dsimp only
      refine Db.post_bind (R := fun resolved t => t = _ ∧
        resolveFeeUtxos view request.publicKey request.feeUtxos = .ok resolved)
        (Db.post_check (fun resolved hok => ⟨rfl, hok⟩) fun error herror => ?_) ?_
      · rw [herror] at hfees
        obtain ⟨feeUtxo, hmem, hunknown⟩ := hfees
        exact hfails error (.feeUnknown hreads hmem hunknown)
      rintro resolved _ ⟨rfl, hok⟩
      rw [hok] at hfees
      cases resolved with
      | error reason =>
        obtain ⟨feeUtxo, hmem, hlost⟩ := hfees
        refine Db.post_bind (hmark reason) fun _ t hmarked => Db.post_pure ?_
        exact .inl ⟨_, hscan.pass hbound (hscan.filling.walked.feeLost hreads hfresh hcarries hmem hlost) hmarked⟩
      | ok feeOutputs => exact Db.post_pure (hscan.join hbound ⟨hreads, hfresh, hcarries, hfees⟩)

/-- The batches of a page. -/
theorem post_scanPage {page : List (W × StoredUserRequest W)}
    (hscan : Walking view requestLimit store scan considered (page ++ rest) failed s)
    (hbound : considered.length + page.length ≤ maxPendingScan) :
    Db.Post (scanPage view requestLimit scan page) (Advanced view requestLimit store (considered ++ page) rest)
      (Failed view requestLimit store) s := by
  induction page generalizing scan considered failed s with
  | nil =>
    rw [List.append_nil]
    exact Db.post_pure (.inl ⟨failed, hscan⟩)
  | cons row page ih =>
    rw [List.length_cons] at hbound
    refine Db.post_bind (post_scanRequest hscan (by omega)) fun next t hadvanced => ?_
    rcases hadvanced with ⟨failed', hnext⟩ | ⟨hfilled, hfinished⟩
    · rw [hnext.unfilled, if_neg Bool.false_ne_true]
      have hpage := ih hnext (by rw [List.length_append, List.length_singleton]; omega)
      rwa [List.append_assoc, List.singleton_append] at hpage
    · rw [if_pos hfilled]
      exact Db.post_pure (.inr ⟨hfilled, hfinished⟩)

/-- The pages of the queue. A page that is not the last of the queue is full, so that the bound falls on the end
of a page. -/
theorem post_scanPages {pages : ℕ} {page : List (W × StoredUserRequest W)}
    (hscan : Walking view requestLimit store scan considered rest failed s) (hpage : page = rest.take pendingScanPage)
    (hsome : page ≠ []) (hfull : pendingScanPage ∣ considered.length) (hbound : considered.length < maxPendingScan)
    (hpages : maxPendingScan ≤ pages + considered.length) :
    Db.Post (scanPages view requestLimit pages scan page) (Finished view requestLimit store)
      (Failed view requestLimit store) s := by
  induction pages generalizing scan considered rest failed s page with
  | zero => omega
  | succ pages ih =>
    have hsplit : rest = page ++ rest.drop pendingScanPage := by rw [hpage, List.take_append_drop]
    have hshort : page.length = min pendingScanPage rest.length := by rw [hpage, List.length_take]
    have hpositive : 0 < page.length := List.length_pos_iff.mpr hsome
    have hfits : considered.length + page.length ≤ maxPendingScan := by
      obtain ⟨count, hcount⟩ := hfull
      unfold pendingScanPage at hcount hshort
      unfold maxPendingScan at hbound ⊢
      omega
    refine Db.post_bind (post_scanPage (hsplit ▸ hscan) hfits) fun next t hadvanced => ?_
    rcases hadvanced with ⟨failed', hnext⟩ | ⟨hfilled, hfinished⟩
    · rw [hnext.unfilled, if_neg Bool.false_ne_true, hnext.scanned]
      have hlength : (considered ++ page).length = considered.length + page.length := List.length_append
      split_ifs with hstop
      · exact Db.post_pure ⟨_, _, failed', hnext.filling, .bounded (Nat.le_antisymm hnext.filling.bound hstop)⟩
      · have hread := post_pendingAfter hnext.filling.marked hnext.filling.queue hnext.failed_considered
        rw [← hnext.cursor] at hread
        refine Db.post_bind (hread.weaken (fun _ _ h => h) ?_) ?_
        · rintro error _ ⟨rfl, row, hmem, hheight⟩
          exact ⟨_, _, _, _, failed', hnext.filling, .height hmem hheight⟩
        rintro page' _ ⟨hpage', rfl⟩
        split_ifs with hended
        · have hrest : rest.drop pendingScanPage = [] := by
            rcases List.take_eq_nil_iff.mp (hpage' ▸ hended) with hzero | hnil
            · cases hzero
            · exact hnil
          have hfilling := hnext.filling
          rw [hrest] at hfilling
          exact Db.post_pure ⟨_, _, failed', hfilling, .ended⟩
        · refine ih hnext hpage' hended ?_ (Nat.lt_of_not_le hstop) (by omega)
          -- The next page has a request, so that this page was full.
          have hmore : pendingScanPage < rest.length := by
            by_contra hend
            rw [hpage', List.drop_eq_nil_of_le (Nat.le_of_not_lt hend), List.take_nil] at hended
            exact hended rfl
          rw [hlength, hshort, min_eq_left hmore.le]
          exact dvd_add hfull dvd_rfl
    · rw [if_pos hfilled]
      exact Db.post_pure hfinished

/-- What a call leaves behind, with the round that it prepares or none. -/
def Prepared (view : RoundView W T) (requestLimit : ℕ) (store : UserRequestStore W) (round : Option (PreparedRound W T))
    (next : UserRequestStore W) : Prop :=
  ∃ considered rest included rate failed, Filled view requestLimit store considered rest included rate failed next ∧
    Stops view requestLimit considered included rate rest ∧
    match round with
    | none => included = []
    | some round => included ≠ [] ∧ view.build included rate = .ok round.transaction ∧
      round.requestResults = included.map Accepted.requestHash

theorem post_prepareRoundCandidate (view : RoundView W T) (hlimit : 0 < requestLimit) (store : UserRequestStore W) :
    Db.Post (prepareRoundCandidate view requestLimit) (Prepared view requestLimit store)
      (Failed view requestLimit store) store := by
  have hstart : Filled view requestLimit store [] (pendingQueue store) [] none [] store :=
    ⟨rfl, Nat.zero_le _, .start, .refl store⟩
  have hscan : Walking view requestLimit store Scan.start [] (pendingQueue store) [] store :=
    ⟨hstart, rfl, rfl, rfl, hlimit, rfl⟩
  have hread := post_pendingAfter hstart.marked hstart.queue hscan.failed_considered
  refine Db.post_bind (hread.weaken (fun _ _ h => h) ?_) ?_
  · rintro error _ ⟨-, row, hmem, -⟩
    cases hmem
  rintro pending t ⟨hpending, ht⟩
  rw [ht]
  split_ifs with hempty
  · have hqueue : pendingQueue store = [] := by
      rcases List.take_eq_nil_iff.mp (hpending ▸ hempty) with hzero | hnil
      · cases hzero
      · exact hnil
    rw [hqueue] at hstart
    exact Db.post_pure ⟨_, _, _, _, _, hstart, .ended, rfl⟩
  refine Db.post_bind (R := fun _ t => t = store) (Db.post_check (fun _ _ => rfl) fun error herror => ?_) ?_
  · exact ⟨_, _, _, _, _, hstart, .contracts herror⟩
  rintro _ t ht
  rw [ht]
  refine Db.post_bind (post_scanPages hscan hpending hempty (dvd_zero _) (show 0 < maxPendingScan by decide) le_rfl) ?_
  rintro scan t ⟨considered, rest, failed, hfilled, hstops⟩
  split_ifs with hnone
  · exact Db.post_pure ⟨_, _, _, _, _, hfilled, hstops, hnone⟩
  refine Db.post_bind (R := fun transaction u => u = t ∧ view.build scan.decoded scan.instructed = .ok transaction)
    (Db.post_check (fun _ hok => ⟨rfl, hok⟩) fun error herror => ?_) ?_
  · exact ⟨_, _, _, _, _, hfilled, .build herror⟩
  rintro transaction _ ⟨rfl, hbuild⟩
  exact Db.post_pure ⟨_, _, _, _, _, hfilled, hstops, hnone, hbuild, rfl⟩

/-- One call looks at the pending requests one by one, in the order of the queue, and includes those that pass
their own checks until it stops. -/
theorem prepareRoundCandidate_fills (view : RoundView W T) (requestLimit : ℕ) (hlimit : 0 < requestLimit)
    (store : UserRequestStore W) :
    (pendingQueue store).Pairwise Before ∧
    (∀ row, row ∈ pendingQueue store ↔ store.requests.lookup row.1 = some row.2 ∧ row.2.status = .pending) ∧
    ∃ considered rest included rate failed,
      Filled view requestLimit store considered rest included rate failed
        ((prepareRoundCandidate view requestLimit).exec store).2 ∧
      included.length ≤ requestLimit ∧
      (included.map fun batch => (batch.requestHash, batch.stored)).Sublist considered ∧
      (∀ h ∈ failed, ∃ row ∈ considered, row.1 = h ∧ ∃ request, view.validateEncodedRequest row.2.request = .ok request ∧
        (AgedOut view row.2 request ∨ ∃ feeUtxo ∈ request.feeUtxos, FeeLost view request.publicKey feeUtxo)) ∧
      (rate.isSome ↔ ∃ batch ∈ included, batch.request.namedFeed.isSome) ∧
      match ((prepareRoundCandidate view requestLimit).exec store).1 with
      | .ok none => Stops view requestLimit considered included rate rest ∧ included = []
      | .ok (some round) => Stops view requestLimit considered included rate rest ∧ included ≠ [] ∧
          view.build included rate = .ok round.transaction ∧ round.requestResults = included.map Accepted.requestHash
      | .error _ => Interrupted view considered included rate rest := by
  refine ⟨pairwise_pendingQueue, fun row => mem_pendingQueue, ?_⟩
  have hpost := post_prepareRoundCandidate view hlimit store
  unfold Db.Post at hpost
  generalize (prepareRoundCandidate view requestLimit).exec store = outcome at hpost ⊢
  obtain ⟨result, next⟩ := outcome
  cases result with
  | error error =>
    obtain ⟨considered, rest, included, rate, failed, hfilled, hwhy⟩ := hpost
    have hwalk := hfilled.walked
    exact ⟨considered, rest, included, rate, failed, hfilled, hwalk.length_le, hwalk.sublist, hwalk.failed_of,
      hwalk.rate_isSome_iff, hwhy⟩
  | ok round =>
    obtain ⟨considered, rest, included, rate, failed, hfilled, hstops, hround⟩ := hpost
    have hwalk := hfilled.walked
    refine ⟨considered, rest, included, rate, failed, hfilled, hwalk.length_le, hwalk.sublist, hwalk.failed_of,
      hwalk.rate_isSome_iff, ?_⟩
    cases round with
    | none => exact ⟨hstops, hround⟩
    | some round => exact ⟨hstops, hround⟩

/-- A node that finds every fee UTXO but that of transaction 9. -/
def plainView : RoundView ℕ (List ℕ) where
  blockHeight := 3
  timestamp := 0
  contracts := .ok ()
  validateEncodedRequest := fun request => .ok ⟨0, 1, request.map fun byte => ⟨byte.toNat, 0⟩, none⟩
  price := fun _ _ => none
  policyAsset := 1
  accountScript := fun _ => [0]
  outpointText := fun feeUtxo => toString feeUtxo.txid
  isReservedForBurning := fun _ => .ok false
  confirmedFeeOutpoint := fun feeUtxo => .ok (if feeUtxo.txid = 9 then none else some ⟨1, [0]⟩)
  build := fun included _ => .ok (included.map Accepted.requestHash)
  estimatedWeight := fun _ => .ok 0

def threePending : UserRequestStore ℕ where
  requests := AList.insert 4 ⟨[9], 1, .pending, none, none, none, none⟩
    (AList.insert 7 ⟨[7], 2, .pending, none, none, none, none⟩ (AList.insert 5 ⟨[8], 3, .pending, none, none, none, none⟩ ∅))
  feeUtxos := ∅

/-- The first of the queue has lost its fee UTXO, so that the second is the round. -/
theorem prepareRoundCandidate_fills_next : ∃ considered rest included rate failed,
    Filled plainView 1 threePending considered rest included rate failed
      ((prepareRoundCandidate plainView 1).exec threePending).2 ∧
    included.map Accepted.requestHash = [7] := by
  obtain ⟨-, -, considered, rest, included, rate, failed, hfilled, -, -, -, -, hround⟩ :=
    prepareRoundCandidate_fills plainView 1 Nat.one_pos threePending
  have hrun : ((prepareRoundCandidate plainView 1).exec threePending).1 = .ok (some ⟨[7], [7]⟩) := by rfl
  rw [hrun] at hround
  exact ⟨considered, rest, included, rate, failed, hfilled, hround.2.2.2.symm⟩

end Loops

end Issuance

end PriceOracle
