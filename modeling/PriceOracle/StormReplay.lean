import PriceOracle.Runs
import PriceOracle.StormState

/-!
# Replayed messages

A node remembers an accepted message for as long after its receipt as a timestamp may lie
in the past. A message that was dated ahead of the clock outlives its entry.
-/

namespace PriceOracle

namespace StormState

open Storm

variable {X D : Type} [DecidableEq X] [DecidableEq D]

/-- A message from a peer, and the clock when it is registered. -/
structure Arrival (X : Type) where
  peer : PublicKey X
  message : Message
  receivedAt : ℕ
  deriving DecidableEq

def register (sha256 : List UInt8 → D) (state : StormState X D) (arrival : Arrival X) : StormState X D :=
  ((registerMessage sha256 arrival.peer arrival.message arrival.receivedAt).exec state).2

def accepts (sha256 : List UInt8 → D) (state : StormState X D) (arrival : Arrival X) : Bool :=
  ((registerMessage sha256 arrival.peer arrival.message arrival.receivedAt).exec state).1.isOk

/-- The clock does not go back. -/
def InOrder (arrivals : List (Arrival X)) : Prop := arrivals.Pairwise fun a b => a.receivedAt ≤ b.receivedAt

section Register

variable (sha256 : List UInt8 → D) (state : StormState X D) (arrival : Arrival X)

def entryOf : RecentMessage D := ⟨sha256 (fingerprintBytes arrival.message), arrival.receivedAt⟩

/-- What a message does to the remembered messages. -/
inductive Outcome (next : StormState X D) : Prop where
  | untouched (recent : next.recentMessages = state.recentMessages)
      (control : accepts sha256 state arrival → arrival.message.header.payloadId ≤ 3)
  | refused (recent : next = state.setRecent arrival.peer (state.retained arrival.peer arrival.receivedAt))
      (refused : accepts sha256 state arrival = false)
  | remembered (recent : next = state.setRecent arrival.peer
      (state.retained arrival.peer arrival.receivedAt ++ [entryOf sha256 arrival]))

theorem register_outcome : Outcome sha256 state arrival (register sha256 state arrival) := by
  unfold register
  have haccepts : accepts sha256 state arrival =
      ((registerMessage sha256 arrival.peer arrival.message arrival.receivedAt).exec state).1.isOk := rfl
  unfold registerMessage at haccepts ⊢
  rw [Db.exec_get_bind] at haccepts ⊢
  dsimp only at haccepts ⊢
  split_ifs at haccepts ⊢ with hskew hcontrol hrate hreplay hfull
  · exact .untouched rfl fun h => absurd (haccepts.symm.trans h) Bool.false_ne_true
  · exact .untouched rfl fun _ => hcontrol
  · exact .untouched rfl fun _ => hcontrol
  · exact .refused rfl haccepts
  · exact .refused rfl haccepts
  · exact .remembered rfl

/-- A message that is not for control is accepted inside the window, once, and below the capacity. -/
theorem accepts_iff (hcontrol : 3 < arrival.message.header.payloadId) :
    accepts sha256 state arrival ↔ absDiff arrival.message.header.timestamp arrival.receivedAt ≤ messageClockSkew ∧
      (∀ entry ∈ state.retained arrival.peer arrival.receivedAt,
        entry.fingerprint ≠ sha256 (fingerprintBytes arrival.message)) ∧
      (state.retained arrival.peer arrival.receivedAt).length < replayCacheCapacity := by
  unfold accepts registerMessage
  rw [Db.exec_get_bind]
  dsimp only
  split_ifs with hskew hid hrate hreplay hfull
  · refine iff_of_false Bool.false_ne_true fun h => ?_
    omega
  · omega
  · omega
  · refine iff_of_false Bool.false_ne_true fun h => ?_
    obtain ⟨entry, hentry, hsame⟩ := List.any_eq_true.mp hreplay
    exact h.2.1 entry hentry (of_decide_eq_true hsame)
  · refine iff_of_false Bool.false_ne_true fun h => ?_
    omega
  · refine iff_of_true rfl ⟨by omega, fun entry hentry hsame => ?_, by omega⟩
    exact hreplay (List.any_eq_true.mpr ⟨entry, hentry, decide_eq_true hsame⟩)

end Register

section Memory

variable {sha256 : List UInt8 → D} {state : StormState X D}

def Remembers (state : StormState X D) (key : PublicKey X) (entry : RecentMessage D) : Prop :=
  entry ∈ (state.recentMessages.lookup key).getD []

omit [DecidableEq D] in
theorem mem_retained {key : PublicKey X} {receivedAt : ℕ} {entry : RecentMessage D} :
    entry ∈ state.retained key receivedAt ↔
      Remembers state key entry ∧ receivedAt - entry.receivedAt ≤ messageClockSkew := by
  unfold retained Remembers
  rw [List.mem_filter, decide_eq_true_iff]

omit [DecidableEq D] in
theorem remembers_setRecent {key key' : PublicKey X} {recent : List (RecentMessage D)} {entry : RecentMessage D} :
    Remembers (state.setRecent key recent) key' entry ↔
      (key' = key ∧ entry ∈ recent) ∨ (key' ≠ key ∧ Remembers state key' entry) := by
  unfold Remembers setRecent
  dsimp only
  rw [Table.lookup_insert_eq]
  split_ifs with hkey
  · simp [hkey]
  · simp [hkey]

/-- An entry stays for as long as no message arrives too late for it. -/
theorem Remembers.register {key : PublicKey X} {entry : RecentMessage D} (h : Remembers state key entry)
    {arrival : Arrival X} (hsoon : arrival.receivedAt ≤ entry.receivedAt + messageClockSkew) :
    Remembers (register sha256 state arrival) key entry := by
  have hkept : entry ∈ state.retained key arrival.receivedAt := mem_retained.mpr ⟨h, by omega⟩
  obtain hrecent | hrecent | hrecent := register_outcome sha256 state arrival
  · unfold Remembers
    rw [hrecent]
    exact h
  · rw [hrecent, remembers_setRecent]
    by_cases hkey : key = arrival.peer
    · subst hkey
      exact Or.inl ⟨rfl, hkept⟩
    · exact Or.inr ⟨hkey, h⟩
  · rw [hrecent, remembers_setRecent]
    by_cases hkey : key = arrival.peer
    · subst hkey
      exact Or.inl ⟨rfl, List.mem_append_left _ hkept⟩
    · exact Or.inr ⟨hkey, h⟩

theorem Remembers.run {key : PublicKey X} {entry : RecentMessage D} {arrivals : List (Arrival X)}
    (h : Remembers state key entry)
    (hsoon : ∀ arrival ∈ arrivals, arrival.receivedAt ≤ entry.receivedAt + messageClockSkew) :
    Remembers (arrivals.foldl (StormState.register sha256) state) key entry := by
  induction arrivals generalizing state with
  | nil => exact h
  | cons arrival arrivals ih =>
    apply ih
    · exact h.register (hsoon arrival List.mem_cons_self)
    · intro later hlater
      exact hsoon later (List.mem_cons_of_mem arrival hlater)

theorem remembers_accepted {arrival : Arrival X} (hid : 3 < arrival.message.header.payloadId)
    (h : accepts sha256 state arrival) :
    Remembers (register sha256 state arrival) arrival.peer (entryOf sha256 arrival) := by
  obtain hrecent | hrecent | hrecent := register_outcome sha256 state arrival
  · rename_i hcontrol
    have := hcontrol h
    omega
  · rename_i hrefused
    rw [hrefused] at h
    cases h
  · rw [hrecent, remembers_setRecent]
    exact Or.inl ⟨rfl, List.mem_append_right _ List.mem_cons_self⟩

/-- Nothing that is remembered was received after `now`. -/
def Past (now : ℕ) (state : StormState X D) : Prop :=
  ∀ key entry, Remembers state key entry → entry.receivedAt ≤ now

theorem Past.register {now : ℕ} (h : Past now state) {arrival : Arrival X} (hnow : now ≤ arrival.receivedAt) :
    Past arrival.receivedAt (register sha256 state arrival) := by
  intro key entry hentry
  have hold : ∀ key entry, Remembers state key entry → entry.receivedAt ≤ arrival.receivedAt :=
    fun key entry hentry => (h key entry hentry).trans hnow
  obtain hrecent | hrecent | hrecent := register_outcome sha256 state arrival
  · unfold Remembers at hentry
    rw [hrecent] at hentry
    exact hold key entry hentry
  · rw [hrecent, remembers_setRecent] at hentry
    obtain ⟨-, hmem⟩ | ⟨-, hmem⟩ := hentry
    · exact hold _ entry (mem_retained.mp hmem).1
    · exact hold key entry hmem
  · rw [hrecent, remembers_setRecent] at hentry
    obtain ⟨-, hmem⟩ | ⟨-, hmem⟩ := hentry
    · rcases List.mem_append.mp hmem with hmem | hmem
      · exact hold _ entry (mem_retained.mp hmem).1
      · rw [List.mem_singleton.mp hmem]
        exact le_refl _
    · exact hold key entry hmem

theorem Past.run {now : ℕ} {arrivals : List (Arrival X)} {last : Arrival X} (h : Past now state)
    (hnow : ∀ arrival ∈ arrivals ++ [last], now ≤ arrival.receivedAt) (horder : InOrder (arrivals ++ [last])) :
    Past last.receivedAt ((arrivals ++ [last]).foldl (StormState.register sha256) state) := by
  induction arrivals generalizing state now with
  | nil => exact h.register (hnow last List.mem_cons_self)
  | cons arrival arrivals ih =>
    obtain ⟨hfirst, hrest⟩ := List.pairwise_cons.mp horder
    exact ih (h.register (hnow arrival List.mem_cons_self)) hfirst hrest

omit [DecidableEq D] in
theorem past_new (key : PublicKey X) (peers : List (Peer X)) : Past 0 (new key peers : StormState X D) := by
  intro key' entry hentry
  cases hentry

end Memory

section Replay

variable (sha256 : List UInt8 → D)

/-- One message from one peer, for the application, is accepted twice. -/
def Replayed (state : StormState X D) (arrivals : List (Arrival X)) : Prop :=
  ∃ before first middle second after, arrivals = before ++ first :: (middle ++ second :: after) ∧
    first.peer = second.peer ∧ first.message = second.message ∧ 3 < first.message.header.payloadId ∧
    accepts sha256 (before.foldl (register sha256) state) first ∧
    accepts sha256 ((before ++ first :: middle).foldl (register sha256) state) second

/-- A message that is accepted is not dated ahead of the clock. -/
def NotAhead (state : StormState X D) (arrival : Arrival X) : Prop :=
  accepts sha256 state arrival → 3 < arrival.message.header.payloadId →
    arrival.message.header.timestamp ≤ arrival.receivedAt

/-- Some time later the message of `first` is accepted again. -/
def AcceptedAgain (state : StormState X D) (before : List (Arrival X)) (first : Arrival X) : Prop :=
  ∃ middle receivedAt, InOrder (before ++ first :: (middle ++ [{ first with receivedAt := receivedAt }])) ∧
    accepts sha256 ((before ++ first :: middle).foldl (register sha256) state) { first with receivedAt := receivedAt }

variable {sha256} {state : StormState X D}

/-- While the message is fresh its entry is still there. -/
theorem refused_again {before middle : List (Arrival X)} {first second : Arrival X}
    (horder : InOrder (before ++ first :: (middle ++ [second]))) (hpeer : first.peer = second.peer)
    (hmessage : first.message = second.message) (hid : 3 < first.message.header.payloadId)
    (hfirst : accepts sha256 (before.foldl (register sha256) state) first)
    (hahead : first.message.header.timestamp ≤ first.receivedAt) :
    ¬accepts sha256 ((before ++ first :: middle).foldl (register sha256) state) second := by
  intro hsecond
  rw [accepts_iff sha256 _ second (hmessage ▸ hid)] at hsecond
  obtain ⟨hfresh, hnew, -⟩ := hsecond
  have hlater := (List.pairwise_append.mp (List.pairwise_append.mp horder).2.1.of_cons).2.2
  have hafter := (List.pairwise_cons.mp (List.pairwise_append.mp horder).2.1).1
  have hsoon : second.receivedAt ≤ first.receivedAt + messageClockSkew := by
    unfold absDiff at hfresh
    rw [← hmessage] at hfresh
    omega
  have hremembered : Remembers ((before ++ first :: middle).foldl (register sha256) state) first.peer
      (entryOf sha256 first) := by
    rw [List.foldl_append, List.foldl_cons]
    apply (remembers_accepted hid hfirst).run
    intro arrival harrival
    exact (hlater arrival harrival second List.mem_cons_self).trans hsoon
  rw [hpeer] at hremembered
  apply hnew (entryOf sha256 first)
  · apply mem_retained.mpr ⟨hremembered, _⟩
    change second.receivedAt - first.receivedAt ≤ messageClockSkew
    omega
  · unfold entryOf
    rw [hmessage]

/-- When everything has been forgotten a fresh message is accepted. -/
theorem Past.accepts {now : ℕ} (h : Past now state) {second : Arrival X}
    (hid : 3 < second.message.header.payloadId) (hlate : now + messageClockSkew < second.receivedAt)
    (hfresh : absDiff second.message.header.timestamp second.receivedAt ≤ messageClockSkew) :
    accepts sha256 state second := by
  have hempty : state.retained second.peer second.receivedAt = [] := by
    apply List.eq_nil_iff_forall_not_mem.mpr
    intro entry hentry
    obtain ⟨hremembers, hyoung⟩ := mem_retained.mp hentry
    have := h second.peer entry hremembers
    omega
  apply (accepts_iff sha256 state second hid).mpr
  rw [hempty]
  refine ⟨hfresh, ?_, Nat.zero_lt_succ _⟩
  intro entry hentry
  cases hentry

/-- A message that is dated ahead of the clock is accepted again when its entry has gone. -/
theorem accepted_again {before : List (Arrival X)} {first : Arrival X} (hpast : Past 0 state)
    (horder : InOrder (before ++ [first])) (hid : 3 < first.message.header.payloadId)
    (hfirst : accepts sha256 (before.foldl (register sha256) state) first)
    (hahead : first.receivedAt < first.message.header.timestamp) : AcceptedAgain sha256 state before first := by
  obtain ⟨hfresh, -, -⟩ := (accepts_iff sha256 _ first hid).mp hfirst
  refine ⟨[], first.receivedAt + messageClockSkew + 1, ?_, ?_⟩
  · obtain ⟨hbefore, -, hlast⟩ := List.pairwise_append.mp horder
    apply List.pairwise_append.mpr ⟨hbefore, _, _⟩
    · apply List.pairwise_pair.mpr
      change first.receivedAt ≤ first.receivedAt + messageClockSkew + 1
      omega
    · intro arrival harrival later hlater
      have hle := hlast arrival harrival first List.mem_cons_self
      rcases List.mem_pair.mp hlater with rfl | rfl
      · exact hle
      · change arrival.receivedAt ≤ first.receivedAt + messageClockSkew + 1
        omega
  · have hend : Past first.receivedAt ((before ++ [first]).foldl (register sha256) state) :=
      hpast.run (fun _ _ => Nat.zero_le _) horder
    apply @Past.accepts X D _ _ sha256 _ _ hend { first with receivedAt := first.receivedAt + messageClockSkew + 1 } hid
    · change first.receivedAt + messageClockSkew < first.receivedAt + messageClockSkew + 1
      omega
    · change absDiff first.message.header.timestamp (first.receivedAt + messageClockSkew + 1) ≤ messageClockSkew
      unfold absDiff at hfresh ⊢
      omega

/-- In every run no message is accepted twice while none is dated ahead of the clock, and an accepted
message stays accepted once exactly when it is not. -/
theorem accepted_once_iff_not_ahead (sha256 : List UInt8 → D) (key : PublicKey X) (peers : List (Peer X)) :
    (∀ arrivals, InOrder arrivals → Runs.EachStep (register sha256) (NotAhead sha256) (new key peers) arrivals →
      ¬Replayed sha256 (new key peers) arrivals) ∧
    ∀ before first, InOrder (before ++ [first]) → 3 < first.message.header.payloadId →
      accepts sha256 (before.foldl (register sha256) (new key peers)) first →
        (¬AcceptedAgain sha256 (new key peers) before first ↔
          first.message.header.timestamp ≤ first.receivedAt) := by
  constructor
  · rintro arrivals horder hahead ⟨before, first, middle, second, after, rfl, hpeer, hmessage, hid, hfirst, hsecond⟩
    have hpart : InOrder (before ++ first :: (middle ++ [second])) := by
      apply List.Pairwise.sublist _ horder
      simp
    exact refused_again hpart hpeer hmessage hid hfirst (hahead.between hfirst hid) hsecond
  · intro before first horder hid hfirst
    constructor
    · intro honce
      by_contra hlate
      exact honce (accepted_again (past_new key peers) horder hid hfirst (by omega))
    · rintro hahead ⟨middle, receivedAt, horder', hsecond⟩
      exact refused_again horder' rfl rfl hid hfirst hahead hsecond

section Example

def firstKey : PublicKey ℕ := ⟨false, 1⟩

def customMessage (timestamp : ℕ) : Message := ⟨⟨4, timestamp, 1⟩, [7]⟩

def plainDigest (bytes : List UInt8) : List UInt8 := bytes

/-- The same message, received at two times. -/
def twice (timestamp first second : ℕ) : List (Arrival ℕ) :=
  [⟨firstKey, customMessage timestamp, first⟩, ⟨firstKey, customMessage timestamp, second⟩]

instance {X : Type} (arrivals : List (Arrival X)) : Decidable (InOrder arrivals) :=
  inferInstanceAs (Decidable (arrivals.Pairwise fun a b => a.receivedAt ≤ b.receivedAt))

theorem accepted_once_iff_not_ahead_twice :
    ¬Replayed plainDigest (new firstKey [] : StormState ℕ (List UInt8)) (twice 1000 1000 1300) ∧
      (¬AcceptedAgain plainDigest (new firstKey [] : StormState ℕ (List UInt8)) []
        ⟨firstKey, customMessage 1000, 1000⟩ ↔ 1000 ≤ 1000) := by
  have h := accepted_once_iff_not_ahead plainDigest firstKey []
  refine ⟨h.1 (twice 1000 1000 1300) (by decide) ?_, h.2 [] ⟨firstKey, customMessage 1000, 1000⟩ (by decide) (by decide) rfl⟩
  refine ⟨fun _ _ => le_refl 1000, fun haccepts => ?_, trivial⟩
  exact absurd haccepts (by decide +kernel)

/-- A message that is dated five minutes ahead of the clock is accepted again after five minutes. -/
theorem message_ahead_replayed :
    ¬∀ arrivals, InOrder arrivals → ¬Replayed plainDigest (new firstKey [] : StormState ℕ (List UInt8)) arrivals := by
  intro hclaim
  apply hclaim (twice 1300 1000 1301) (by decide)
  exact ⟨[], _, [], _, [], rfl, rfl, rfl, by decide, rfl, rfl⟩

end Example

end Replay

end StormState

end PriceOracle
