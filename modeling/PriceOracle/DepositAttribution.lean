import PriceOracle.DropletConservation
import PriceOracle.FairDivision
import PriceOracle.Runs
import PriceOracle.TreasuryScan

/-!
# Deposits and the members they are tagged for

A marker tags the Treasury output right before it, and what no member's marker tags is shared. The
indexer gives the ledger one total for each transaction and one tag, so the ledger credits what the
markers say in some transactions only; `Attributable` says in which.
-/

namespace PriceOracle

open DropletStore

namespace Attribution

variable {W : Type} [DecidableEq W]

section Credited

/-- What a list of credits gives a member. -/
def credited (entries : List (W × ℕ)) (member : W) : ℕ :=
  ((entries.filter fun entry => entry.1 = member).map Prod.snd).sum

@[simp]
theorem credited_nil (member : W) : credited [] member = 0 := rfl

theorem credited_cons (entry : W × ℕ) (entries : List (W × ℕ)) (member : W) :
    credited (entry :: entries) member = (if entry.1 = member then entry.2 else 0) + credited entries member := by
  unfold credited
  rw [List.filter_cons]
  by_cases h : entry.1 = member
  · simp [h]
  · simp [h]

theorem credited_of_not_mem {entries : List (W × ℕ)} {member : W} (h : ∀ entry ∈ entries, entry.1 ≠ member) :
    credited entries member = 0 := by
  unfold credited
  rw [List.filter_eq_nil_iff.mpr fun entry hentry => by simpa using h entry hentry]
  rfl

/-- Credits to members only give the members as much as they are in all. -/
theorem sum_credited {members : List W} (hmembers : members.Nodup) {entries : List (W × ℕ)}
    (h : ∀ entry ∈ entries, entry.1 ∈ members) :
    (members.map (credited entries)).sum = (entries.map Prod.snd).sum := by
  induction entries with
  | nil =>
    have hzero : members.map (credited []) = members.map fun _ => 0 := List.map_congr_left fun member _ => credited_nil member
    rw [hzero]
    simp
  | cons entry entries ih =>
    have hrest := ih fun other hother => h other (List.mem_cons_of_mem entry hother)
    have hentry := h entry List.mem_cons_self
    have hone : (members.map fun member => if entry.1 = member then entry.2 else 0).sum = entry.2 := by
      rw [List.sum_map_eq_nsmul_single entry.1 _ fun member hne _ => if_neg (Ne.symm hne),
        List.count_eq_one_of_mem hmembers hentry, if_pos rfl, one_nsmul]
    rw [List.map_cons, List.sum_cons, ← hrest, ← hone, ← List.sum_map_add]
    exact congrArg List.sum (List.map_congr_left fun member _ => credited_cons entry entries member)

/-- An amount for each position is what the member there gets. -/
theorem credited_zipIdx (f : ℕ → ℕ) {members : List W} (hmembers : members.Nodup) {i : ℕ} {member : W}
    (hi : members[i]? = some member) (start : ℕ) :
    credited ((members.zipIdx start).map fun entry => (entry.1, f entry.2)) member = f (start + i) := by
  induction members generalizing i start with
  | nil => simp at hi
  | cons head members ih =>
    obtain ⟨hhead, hrest⟩ := List.nodup_cons.mp hmembers
    rw [List.zipIdx_cons, List.map_cons, credited_cons]
    cases i with
    | zero =>
      obtain rfl : head = member := by simpa using hi
      rw [if_pos rfl, credited_of_not_mem]
      · rfl
      · intro entry hentry
        obtain ⟨indexed, hindexed, rfl⟩ := List.mem_map.mp hentry
        have hmem := List.fst_mem_of_mem_zipIdx hindexed
        rintro rfl
        exact hhead hmem
    | succ i =>
      rw [List.getElem?_cons_succ] at hi
      have hne : head ≠ member := by
        rintro rfl
        exact hhead (List.mem_of_getElem? hi)
      rw [if_neg hne, ih hrest hi, Nat.zero_add]
      congr 1
      omega

end Credited

section Shares

variable {members : List W}

theorem credited_shares_tagged {first : W} (hfirst : first ∈ members) (amount : ℕ) (member : W) :
    credited (shares members (some first) amount) member = if member = first then amount else 0 := by
  have hfilter : (some first).filter (fun member => decide (member ∈ members)) = some first := by
    simp [hfirst]
  unfold shares
  by_cases hzero : amount = 0
  · simp [hzero]
  · rw [if_neg hzero]
    unfold allocations
    rw [hfilter]
    simp only [credited_cons, credited_nil, Nat.add_zero, eq_comm]

/-- A tag of a stranger is no tag. -/
theorem shares_untagged {tag : Option W} (h : tag.filter (fun member => decide (member ∈ members)) = none)
    (amount : ℕ) : shares members tag amount = shares members none amount := by
  unfold shares allocations
  rw [h]
  rfl

theorem credited_shares (hmembers : members.Nodup) {i : ℕ} {member : W} (hi : members[i]? = some member)
    (amount : ℕ) : credited (shares members none amount) member = FairDivision.share amount members.length i := by
  unfold shares
  by_cases hzero : amount = 0
  · simp [hzero, FairDivision.share]
  · rw [if_neg hzero]
    have hall := credited_zipIdx (FairDivision.share amount members.length) hmembers hi 0
    rw [Nat.zero_add] at hall
    exact hall

theorem mem_shares {tag : Option W} {amount : ℕ} {entry : W × ℕ} (h : entry ∈ shares members tag amount) :
    entry.1 ∈ members := by
  unfold shares at h
  split_ifs at h with hzero
  · exact absurd h List.not_mem_nil
  · unfold allocations at h
    cases hfilter : tag.filter fun member => decide (member ∈ members) with
    | some member =>
      rw [hfilter] at h
      obtain rfl := List.mem_singleton.mp h
      simpa using (Option.filter_eq_some_iff.mp hfilter).2
    | none =>
      rw [hfilter] at h
      obtain ⟨indexed, hindexed, rfl⟩ := List.mem_map.mp h
      have hmem := List.fst_mem_of_mem_zipIdx hindexed
      exact hmem

end Shares

section Due

/-- The member that an output is tagged for; a stranger's marker tags nothing. -/
def tagOf (members : List W) (deposit : ℕ × Option W) : Option W :=
  deposit.2.filter fun member => decide (member ∈ members)

def total (deposits : List (ℕ × Option W)) : ℕ := (deposits.map Prod.fst).sum

def tagged (members : List W) (deposits : List (ℕ × Option W)) (member : W) : ℕ :=
  ((deposits.filter fun deposit => tagOf members deposit = some member).map Prod.fst).sum

def untagged (members : List W) (deposits : List (ℕ × Option W)) : ℕ :=
  ((deposits.filter fun deposit => tagOf members deposit = none).map Prod.fst).sum

/-- What is tagged for the member, and its share of what is tagged for nobody. -/
def due (members : List W) (deposits : List (ℕ × Option W)) (member : W) : ℕ :=
  tagged members deposits member + credited (shares members none (untagged members deposits)) member

/-- The tag of a transaction: the first marker of any of its deposits. -/
def firstTag (members : List W) (deposits : List (ℕ × Option W)) : Option W :=
  (deposits.findSome? Prod.snd).filter fun member => decide (member ∈ members)

/-- The deposits that one total and one tag describe: if the tag is a member's, nothing is left for the
others, and otherwise what is tagged is what the shares grow by with it. -/
def Attributable (members : List W) (deposits : List (ℕ × Option W)) : Prop :=
  match firstTag members deposits with
  | some first => (∀ member ∈ members, member ≠ first → tagged members deposits member = 0) ∧
      (untagged members deposits = 0 ∨ members = [first] ∨
        (untagged members deposits = 1 ∧ members.head? = some first))
  | none => ∀ (i : ℕ) (member : W), members[i]? = some member →
      tagged members deposits member = FairDivision.share (total deposits) members.length i -
        FairDivision.share (untagged members deposits) members.length i

variable {members : List W} {deposits : List (ℕ × Option W)}

theorem tagged_of_not_mem {member : W} (hmember : member ∉ members) : tagged members deposits member = 0 := by
  unfold tagged
  rw [List.filter_eq_nil_iff.mpr]
  · rfl
  · intro deposit _ htag
    rw [decide_eq_true_eq] at htag
    exact hmember (by simpa using (Option.filter_eq_some_iff.mp htag).2)

/-- Every deposit is tagged for one member or for nobody. -/
theorem sum_tagged (deposits : List (ℕ × Option W)) (hmembers : members.Nodup) :
    (members.map (tagged members deposits)).sum + untagged members deposits = total deposits := by
  induction deposits with
  | nil =>
    have hzero : members.map (tagged members []) = members.map fun _ => 0 := List.map_congr_left fun member _ => rfl
    rw [hzero]
    simp [untagged, total]
  | cons deposit deposits ih =>
    have htotal : total (deposit :: deposits) = deposit.1 + total deposits := by
      rw [total, List.map_cons, List.sum_cons]
      rfl
    cases htag : tagOf members deposit with
    | none =>
      have hsame : tagged members (deposit :: deposits) = tagged members deposits := by
        funext member
        unfold tagged
        rw [List.filter_cons_of_neg (by simp [htag])]
      have hmore : untagged members (deposit :: deposits) = deposit.1 + untagged members deposits := by
        unfold untagged
        rw [List.filter_cons_of_pos (by simp [htag]), List.map_cons, List.sum_cons]
      rw [hsame, hmore, htotal]
      omega
    | some first =>
      have hfirst : first ∈ members := by simpa using (Option.filter_eq_some_iff.mp htag).2
      have hmore : ∀ member, tagged members (deposit :: deposits) member =
          (if member = first then deposit.1 else 0) + tagged members deposits member := by
        intro member
        unfold tagged
        by_cases hmember : member = first
        · rw [List.filter_cons_of_pos (by simp [htag, hmember]), List.map_cons, List.sum_cons, if_pos hmember]
        · rw [List.filter_cons_of_neg (by simp [htag, Ne.symm hmember]), if_neg hmember, Nat.zero_add]
      have hsame : untagged members (deposit :: deposits) = untagged members deposits := by
        unfold untagged
        rw [List.filter_cons_of_neg (by simp [htag])]
      have hone : (members.map fun member => if member = first then deposit.1 else 0).sum = deposit.1 := by
        rw [List.sum_map_eq_nsmul_single first _ fun member hne _ => if_neg hne,
          List.count_eq_one_of_mem hmembers hfirst, if_pos rfl, one_nsmul]
      have hsum : (members.map (tagged members (deposit :: deposits))).sum =
          deposit.1 + (members.map (tagged members deposits)).sum := by
        rw [List.map_congr_left fun member _ => hmore member, List.sum_map_add, hone]
      rw [hsum, hsame, htotal]
      omega

theorem due_of_not_mem {member : W} (hmember : member ∉ members) : due members deposits member = 0 := by
  unfold due
  rw [tagged_of_not_mem hmember, credited_of_not_mem]
  intro entry hentry hkey
  exact hmember (hkey ▸ mem_shares hentry)

/-- What is due is the deposits in all. -/
theorem sum_due (deposits : List (ℕ × Option W)) (hmembers : members.Nodup) (hne : members ≠ []) :
    (members.map (due members deposits)).sum = total deposits := by
  have hshared := sum_credited hmembers fun entry (hentry : entry ∈ shares members none (untagged members deposits)) =>
    mem_shares hentry
  rw [sum_shares hne] at hshared
  have htagged := sum_tagged deposits hmembers
  unfold due
  rw [List.sum_map_add]
  omega

theorem untagged_le_total (deposits : List (ℕ × Option W)) (hmembers : members.Nodup) : untagged members deposits ≤ total deposits := by
  have hsum := sum_tagged deposits hmembers
  omega

/-- The others get nothing of what is shared when nothing is, when there are no others, or when it is one
unit and the first member in order takes it. -/
theorem shared_alone_iff (hmembers : members.Nodup) {first : W} (hfirst : first ∈ members) (amount : ℕ) :
    (∀ member ∈ members, member ≠ first → credited (shares members none amount) member = 0) ↔
      amount = 0 ∨ members = [first] ∨ (amount = 1 ∧ members.head? = some first) := by
  constructor
  · intro hothers
    by_cases hzero : amount = 0
    · exact Or.inl hzero
    right
    obtain ⟨head, rest, rfl⟩ := List.exists_cons_of_ne_nil (List.ne_nil_of_mem hfirst)
    have hhead : head = first := by
      by_contra hne
      have hshare := credited_shares hmembers (i := 0) rfl amount
      rw [hothers head List.mem_cons_self hne] at hshare
      have hpos : 0 < FairDivision.share amount (head :: rest).length 0 :=
        FairDivision.share_first_pos (Nat.pos_of_ne_zero hzero)
      omega
    subst hhead
    cases rest with
    | nil => exact Or.inl rfl
    | cons second rest =>
      have hne : second ≠ head := fun heq => (List.nodup_cons.mp hmembers).1 (heq ▸ List.mem_cons_self)
      have hshare := credited_shares hmembers (i := 1) rfl amount
      rw [hothers second (List.mem_cons_of_mem head List.mem_cons_self) hne] at hshare
      have hle := FairDivision.le_one_of_share_second hshare.symm
      exact Or.inr ⟨by omega, rfl⟩
  · intro h member hmember hne
    obtain ⟨i, hi⟩ := List.mem_iff_getElem?.mp hmember
    rw [credited_shares hmembers hi]
    rcases h with rfl | rfl | ⟨rfl, hhead⟩
    · exact FairDivision.share_zero _ _
    · exact absurd (List.mem_singleton.mp hmember) hne
    · have hindex : i ≠ 0 := by
        rintro rfl
        rw [List.head?_eq_getElem?, hi] at hhead
        exact hne (Option.some.inj hhead)
      obtain ⟨hlt, -⟩ := List.getElem?_eq_some_iff.mp hi
      exact FairDivision.share_one_of_pos (by omega) (Nat.pos_of_ne_zero hindex)

/-- One total and one tag credit what is due exactly when the deposits are attributable. -/
theorem credited_eq_due_iff (hmembers : members.Nodup) :
    (∀ member, credited (shares members (deposits.findSome? Prod.snd) (total deposits)) member =
      due members deposits member) ↔ Attributable members deposits := by
  unfold Attributable
  cases htag : firstTag members deposits with
  | some first =>
    obtain ⟨hfound, hfirst⟩ := Option.filter_eq_some_iff.mp htag
    have hfirst : first ∈ members := by simpa using hfirst
    rw [hfound]
    simp only [credited_shares_tagged hfirst]
    rw [← shared_alone_iff hmembers hfirst]
    constructor
    · intro h
      have hothers : ∀ member ∈ members, member ≠ first → due members deposits member = 0 := by
        intro member _ hne
        rw [← h member, if_neg hne]
      exact ⟨fun member hmember hne => (Nat.add_eq_zero_iff.mp (hothers member hmember hne)).1,
        fun member hmember hne => (Nat.add_eq_zero_iff.mp (hothers member hmember hne)).2⟩
    · rintro ⟨htagged, hshared⟩
      have hothers : ∀ member, member ≠ first → member ∈ members → due members deposits member = 0 := by
        intro member hne hmember
        unfold due
        rw [htagged member hmember hne, hshared member hmember hne]
      intro member
      by_cases hmember : member = first
      · subst hmember
        have hsum := sum_due deposits hmembers (List.ne_nil_of_mem hfirst)
        rw [List.sum_map_eq_nsmul_single member _ hothers, List.count_eq_one_of_mem hmembers hfirst,
          one_nsmul] at hsum
        rw [if_pos rfl, hsum]
      · rw [if_neg hmember]
        by_cases hin : member ∈ members
        · exact (hothers member hmember hin).symm
        · exact (due_of_not_mem hin).symm
  | none =>
    rw [shares_untagged htag]
    constructor
    · intro h i member hi
      have hdue := h member
      unfold due at hdue
      rw [credited_shares hmembers hi, credited_shares hmembers hi] at hdue
      omega
    · intro h member
      by_cases hin : member ∈ members
      · obtain ⟨i, hi⟩ := List.mem_iff_getElem?.mp hin
        have htagged := h i member hi
        have hle := FairDivision.share_mono (untagged_le_total deposits hmembers) members.length i
        unfold due
        rw [credited_shares hmembers hi, credited_shares hmembers hi]
        omega
      · rw [due_of_not_mem hin, credited_of_not_mem]
        intro entry hentry hkey
        exact hin (hkey ▸ mem_shares hentry)

/-- One deposit is attributable, whatever follows it. -/
theorem attributable_singleton (deposit : ℕ × Option W) : Attributable members [deposit] := by
  unfold Attributable
  have htag : firstTag members [deposit] = tagOf members deposit := by
    unfold firstTag tagOf
    rw [List.findSome?_singleton]
  rw [htag]
  cases hcase : tagOf members deposit with
  | some first =>
    refine ⟨fun member _ hne => ?_, Or.inl ?_⟩
    · unfold tagged
      rw [List.filter_cons_of_neg (by simp [hcase, Ne.symm hne])]
      rfl
    · unfold untagged
      rw [List.filter_cons_of_neg (by simp [hcase])]
      rfl
  | none =>
    intro i member _
    have htagged : tagged members [deposit] member = 0 := by
      unfold tagged
      rw [List.filter_cons_of_neg (by simp [hcase])]
      rfl
    have huntagged : untagged members [deposit] = total [deposit] := by
      unfold untagged
      rw [List.filter_cons_of_pos (by simp [hcase])]
      rfl
    rw [htagged, huntagged, Nat.sub_self]

end Due

section Ledger

variable {Tx : Type}

/-- What the ledger owes the member, less what the member owes. -/
def netOf (store : DropletStore W Tx) (member : W) : ℤ := ((store.droplets.lookup member).map Droplet.net).getD 0

theorem net_creditAll (height : ℕ) (entries : List (W × ℕ)) (droplets : Table W (Droplet Tx)) (member : W) :
    (((creditAll droplets height entries).lookup member).map Droplet.net).getD 0 =
      ((droplets.lookup member).map Droplet.net).getD 0 + (credited entries member : ℕ) := by
  unfold creditAll
  induction entries generalizing droplets with
  | nil => simp
  | cons entry entries ih =>
    rw [List.foldl_cons, ih, credited_cons, creditRow, Table.lookup_insert_eq]
    by_cases hmember : entry.1 = member
    · subst hmember
      rw [if_pos rfl, if_pos rfl, Option.map_some, Option.getD_some, net_creditedRow]
      push_cast
      ring
    · rw [if_neg hmember, if_neg (Ne.symm hmember), Nat.zero_add]

end Ledger

end Attribution

namespace TreasuryScan

open Markers

section Scan

variable (treasuryScript : List UInt8) (policyAsset : Bytes32)

/-- The amount of each Treasury output, with the member that the output right after it names. -/
def deposits : List (ChainTxOut Bytes32) → List (ℕ × Option Bytes32)
  | [] => []
  | output :: rest =>
    match treasuryOutputAmount treasuryScript policyAsset output with
    | some amount => (amount, rest.head?.bind fun next => memberFromScript next.scriptPubkey) :: deposits rest
    | none => deposits rest

variable {treasuryScript policyAsset}

theorem mapM_requireIndex {outputs scanned : List (ℕ × ℕ)} :
    outputs.mapM requireIndex = .ok scanned ↔ scanned = outputs ∧ ∀ output ∈ outputs, output.1 < 2 ^ 32 := by
  induction outputs generalizing scanned with
  | nil =>
    constructor
    · rintro ⟨⟩
      exact ⟨rfl, fun output houtput => absurd houtput List.not_mem_nil⟩
    · rintro ⟨rfl, -⟩
      rfl
  | cons output outputs ih =>
    rw [List.mapM_cons, Db.except_bind_ok]
    constructor
    · rintro ⟨first, hfirst, h⟩
      obtain ⟨rest, hrest, h⟩ := Db.except_bind_ok.mp h
      cases h
      unfold requireIndex at hfirst
      split_ifs at hfirst with hlt
      cases hfirst
      obtain ⟨rfl, hall⟩ := ih.mp hrest
      exact ⟨rfl, List.forall_mem_cons.mpr ⟨hlt, hall⟩⟩
    · rintro ⟨rfl, hall⟩
      obtain ⟨hlt, hrest⟩ := List.forall_mem_cons.mp hall
      exact ⟨output, if_pos hlt, Db.except_bind_ok.mpr ⟨outputs, ih.mpr ⟨rfl, hrest⟩, rfl⟩⟩

/-- The scan finds the deposits: their amounts, and after each its marker. -/
theorem scan_deposits (treasuryScript : List UInt8) (policyAsset : Bytes32) (before outputs : List (ChainTxOut Bytes32)) :
    ((outputs.zipIdx before.length).filterMap (indexedOutput treasuryScript policyAsset)).map (fun output =>
        (output.2, (before ++ outputs)[output.1 + 1]?.bind fun next => memberFromScript next.scriptPubkey)) =
      deposits treasuryScript policyAsset outputs := by
  induction outputs generalizing before with
  | nil => rfl
  | cons output rest ih =>
    have hrest := ih (before ++ [output])
    rw [List.length_append, List.length_singleton, List.append_assoc, List.singleton_append] at hrest
    rw [List.zipIdx_cons]
    unfold deposits
    cases hamount : treasuryOutputAmount treasuryScript policyAsset output with
    | none =>
      have hindexed : indexedOutput treasuryScript policyAsset (output, before.length) = none := by
        rw [indexedOutput, hamount, Option.map_none]
      rw [List.filterMap_cons_none hindexed]
      exact hrest
    | some amount =>
      have hindexed : indexedOutput treasuryScript policyAsset (output, before.length) = some (before.length, amount) := by
        rw [indexedOutput, hamount, Option.map_some]
      have hnext : (before ++ output :: rest)[before.length + 1]? = rest.head? := by
        rw [List.getElem?_append_right (by omega), Nat.add_sub_cancel_left, List.getElem?_cons_succ,
          List.head?_eq_getElem?]
      rw [List.filterMap_cons_some hindexed, List.map_cons, hnext, hrest]

theorem findSome?_map_snd {A B C : Type} (f : A → B × Option C) (list : List A) :
    (list.map f).findSome? Prod.snd = list.findSome? fun a => (f a).2 := by
  rw [List.findSome?_map]
  rfl

/-- What the indexer hands to the ledger: one total, and the first tag. -/
theorem treasuryTransaction_ok {transaction : Transaction} {reading : TreasuryTransaction Bytes32}
    (h : treasuryTransaction treasuryScript policyAsset transaction = .ok reading) :
    reading.inputs = transaction.outpoints ∧
      reading.created = Attribution.total (deposits treasuryScript policyAsset transaction.output) ∧
        reading.depositMember = (deposits treasuryScript policyAsset transaction.output).findSome? Prod.snd := by
  obtain ⟨outputs, hscan, h⟩ := Db.except_bind_ok.mp h
  cases h
  obtain ⟨rfl, -⟩ := mapM_requireIndex.mp hscan
  have hdeposits := scan_deposits treasuryScript policyAsset [] transaction.output
  refine ⟨rfl, ?_, ?_⟩
  · unfold TreasuryTransaction.created Attribution.total
    rw [← hdeposits, List.map_map]
    rfl
  · rw [← hdeposits, findSome?_map_snd]
    rfl

end Scan

section Blocks

variable {Tx : Type}

/-- The state of the ledger after the turn of a transaction. -/
def turn (treasuryScript : List UInt8) (policyAsset : Bytes32) (height : ℕ) (members : List Bytes32)
    (store : DropletStore Bytes32 Tx) (transaction : Transaction) : DropletStore Bytes32 Tx :=
  match treasuryTransaction treasuryScript policyAsset transaction with
  | .ok reading => ((applyTransaction height members reading).exec store).2
  | .error _ => store

/-- None of the inputs is a Treasury output of the ledger. -/
def NonSpending (store : DropletStore Bytes32 Tx) (transaction : Transaction) : Prop :=
  ∀ outpoint ∈ transaction.outpoints, store.treasuryUtxos.lookup outpoint = none

/-- Every member is credited what is tagged for it and its share of the rest, and all members together the
Treasury outputs of the transaction. -/
structure Attributed (treasuryScript : List UInt8) (policyAsset : Bytes32) (members : List Bytes32)
    (transaction : Transaction) (s t : DropletStore Bytes32 Tx) : Prop where
  due : ∀ member, Attribution.netOf t member = Attribution.netOf s member +
    Attribution.due members (deposits treasuryScript policyAsset transaction.output) member
  total : (members.map fun member => Attribution.netOf t member - Attribution.netOf s member).sum =
    Attribution.total (deposits treasuryScript policyAsset transaction.output)

variable {treasuryScript : List UInt8} {policyAsset : Bytes32} {height : ℕ} {members : List Bytes32}
  {s t : DropletStore Bytes32 Tx} {u : PUnit}

theorem spentAmount_of_none {treasuryUtxos : Table (Bytes32 × ℕ) TreasuryUtxo} {inputs : List (Bytes32 × ℕ)}
    (h : ∀ input ∈ inputs, treasuryUtxos.lookup input = none) : spentAmount treasuryUtxos inputs = 0 := by
  induction inputs with
  | nil => rfl
  | cons input inputs ih =>
    obtain ⟨hinput, hrest⟩ := List.forall_mem_cons.mp h
    rw [spentAmount, hinput, Table.erase_of_lookup_none hinput, ih hrest]
    rfl

/-- One turn credits the total of the transaction under its first tag. -/
theorem net_turn {transaction : Transaction} {reading : TreasuryTransaction Bytes32}
    (hread : treasuryTransaction treasuryScript policyAsset transaction = .ok reading)
    (hspends : NonSpending s transaction) (hturn : (applyTransaction height members reading).Returns s u t)
    (member : Bytes32) : Attribution.netOf t member = Attribution.netOf s member +
      (Attribution.credited (shares members
        ((deposits treasuryScript policyAsset transaction.output).findSome? Prod.snd)
          (Attribution.total (deposits treasuryScript policyAsset transaction.output))) member : ℕ) := by
  obtain ⟨hinputs, hcreated, htag⟩ := treasuryTransaction_ok hread
  have hzero : spentAmount s.treasuryUtxos reading.inputs = 0 := spentAmount_of_none (hinputs ▸ hspends)
  obtain ⟨-, hout⟩ := applyTransaction_returns hturn
  cases hout with
  | deposit _ hdroplets =>
    unfold Attribution.netOf
    rw [hdroplets, Attribution.net_creditAll, hcreated, htag]
  | spend _ _ _ hspent => exact absurd hzero hspent

theorem attributed_turn_iff (hmembers : members.Nodup) (hne : members ≠ []) {transaction : Transaction}
    {reading : TreasuryTransaction Bytes32}
    (hread : treasuryTransaction treasuryScript policyAsset transaction = .ok reading)
    (hspends : NonSpending s transaction) (hturn : (applyTransaction height members reading).Returns s u t) :
    Attributed treasuryScript policyAsset members transaction s t ↔
      Attribution.Attributable members (deposits treasuryScript policyAsset transaction.output) := by
  have hnet := net_turn hread hspends hturn
  rw [← Attribution.credited_eq_due_iff hmembers]
  constructor
  · intro h member
    have hdue := h.due member
    rw [hnet] at hdue
    omega
  · intro h
    refine ⟨fun member => by rw [hnet, h], ?_⟩
    have hcredits : ∀ member ∈ members, Attribution.netOf t member - Attribution.netOf s member =
        ((Attribution.due members (deposits treasuryScript policyAsset transaction.output) member : ℕ) : ℤ) := by
      intro member _
      rw [hnet, h]
      omega
    rw [List.map_congr_left hcredits, ← Attribution.sum_due _ hmembers hne]
    rw [Nat.cast_list_sum, List.map_map]
    rfl

/-- The turns of a block that succeeds. -/
theorem eachStep_turns {transactions : List Transaction} {readings : List (TreasuryTransaction Bytes32)}
    (hread : transactions.mapM (treasuryTransaction treasuryScript policyAsset) = .ok readings)
    (hblock : (readings.forM (applyTransaction height members)).Returns s u t) :
    t = transactions.foldl (turn treasuryScript policyAsset height members) s ∧
      Runs.EachStep (turn treasuryScript policyAsset height members) (fun s transaction =>
        ∃ reading, treasuryTransaction treasuryScript policyAsset transaction = .ok reading ∧
          (applyTransaction height members reading).Returns s ⟨⟩ (turn treasuryScript policyAsset height members s transaction))
        s transactions := by
  induction transactions generalizing s readings with
  | nil =>
    cases hread
    exact ⟨(Db.returns_pure.mp hblock).2, trivial⟩
  | cons transaction transactions ih =>
    rw [List.mapM_cons] at hread
    obtain ⟨reading, hfirst, hread⟩ := Db.except_bind_ok.mp hread
    obtain ⟨rest, hrest, hread⟩ := Db.except_bind_ok.mp hread
    cases hread
    obtain ⟨_, s', hturn, hblock⟩ := Db.returns_bind.mp hblock
    have hstate : turn treasuryScript policyAsset height members s transaction = s' := by
      unfold turn
      rw [hfirst]
      exact congrArg Prod.snd hturn
    obtain ⟨ht, hsteps⟩ := ih hrest hblock
    refine ⟨?_, ⟨reading, hfirst, ?_⟩, ?_⟩
    · rw [List.foldl_cons, hstate]
      exact ht
    · rw [hstate]
      exact hturn
    · rw [hstate]
      exact hsteps

theorem sortedMembers_nodup (members : List Bytes32) : (sortedMembers members).Nodup := List.nodup_dedup _

/-- In every block that the ledger takes, a transaction that spends no Treasury output credits the members
as its markers say exactly when its deposits are attributable. -/
theorem deposits_attributed_iff {members : List Bytes32} {transactions : List Transaction}
    {readings : List (TreasuryTransaction Bytes32)}
    (hread : treasuryTransactions treasuryScript policyAsset transactions = .ok readings)
    (hblock : (applyBlockIn height readings members).Returns s u t) :
    t = transactions.foldl (turn treasuryScript policyAsset height (sortedMembers members)) s ∧
      Runs.EachStep (turn treasuryScript policyAsset height (sortedMembers members)) (fun s transaction =>
        NonSpending s transaction →
          (Attributed treasuryScript policyAsset (sortedMembers members) transaction s
              (turn treasuryScript policyAsset height (sortedMembers members) s transaction) ↔
            Attribution.Attributable (sortedMembers members) (deposits treasuryScript policyAsset transaction.output)))
        s transactions := by
  unfold applyBlockIn at hblock
  rcases Db.returns_ite.mp hblock with ⟨-, hthrow⟩ | ⟨hne, hloop⟩
  · exact absurd hthrow Db.returns_throw
  · obtain ⟨ht, hsteps⟩ := eachStep_turns hread hloop
    refine ⟨ht, (Runs.EachStep.run (I := fun _ => True) ?_ trivial hsteps).2⟩
    rintro s transaction - ⟨reading, hfirst, hturn⟩
    exact ⟨trivial, fun hspends =>
      attributed_turn_iff (sortedMembers_nodup members) (sortedMembers_ne_nil hne) hfirst hspends hturn⟩

section SplitDeposit

def lbtc : Bytes32 := Vector.replicate 32 8

def alice : Bytes32 := Vector.replicate 32 1

def bob : Bytes32 := Vector.replicate 32 2

def explicitOutput (amount : ℕ) (script : List UInt8) : ChainTxOut Bytes32 :=
  ⟨.explicit lbtc, .explicit amount, none, script, none, none⟩

/-- An untagged deposit of 1000 before one of 500 that is tagged for a member. -/
def splitDeposit : Transaction where
  txid := Vector.replicate 32 7
  input := []
  output := [explicitOutput 1000 [0x51], explicitOutput 500 [0x51], explicitOutput 0 (memberScript alice)]

def splitReading : TreasuryTransaction Bytes32 where
  txid := Vector.replicate 32 7
  inputs := []
  outputs := [(0, 1000), (1, 500)]
  depositMember := some alice
  exchangeMember := some alice

theorem treasuryTransactions_splitDeposit : treasuryTransactions [0x51] lbtc [splitDeposit] = .ok [splitReading] := by
  rfl

/-- The ledger after the block of `splitDeposit`. -/
def afterSplitDeposit : DropletStore Bytes32 Unit :=
  ((applyBlockIn 5 [splitReading] [alice, bob]).exec DropletStore.empty).2

theorem applyBlockIn_splitReading :
    (applyBlockIn 5 [splitReading] [alice, bob]).Returns (DropletStore.empty : DropletStore Bytes32 Unit) ⟨⟩ afterSplitDeposit := by
  unfold Db.Returns
  rfl

theorem deposits_attributed_iff_split :
    afterSplitDeposit = turn [0x51] lbtc 5 (sortedMembers [alice, bob]) DropletStore.empty splitDeposit ∧
      (Attributed [0x51] lbtc (sortedMembers [alice, bob]) splitDeposit DropletStore.empty
          (turn [0x51] lbtc 5 (sortedMembers [alice, bob]) (DropletStore.empty : DropletStore Bytes32 Unit) splitDeposit) ↔
        Attribution.Attributable (sortedMembers [alice, bob]) (deposits [0x51] lbtc splitDeposit.output)) := by
  obtain ⟨hend, hsteps⟩ := deposits_attributed_iff treasuryTransactions_splitDeposit applyBlockIn_splitReading
  exact ⟨hend, hsteps.1 fun outpoint houtpoint => absurd houtpoint List.not_mem_nil⟩

/-- The member of the tag gets both deposits. -/
theorem split_deposit_misattributed :
    treasuryTransactions [0x51] lbtc [splitDeposit] = .ok [splitReading] ∧
      (applyBlockIn 5 [splitReading] [alice, bob]).Returns (DropletStore.empty : DropletStore Bytes32 Unit) ⟨⟩
        afterSplitDeposit ∧
      NonSpending (DropletStore.empty : DropletStore Bytes32 Unit) splitDeposit ∧
      Attribution.netOf afterSplitDeposit alice = 1500 ∧ Attribution.netOf afterSplitDeposit bob = 0 ∧
      Attribution.due (sortedMembers [alice, bob]) (deposits [0x51] lbtc splitDeposit.output) alice = 1000 ∧
      ¬Attributed [0x51] lbtc (sortedMembers [alice, bob]) splitDeposit DropletStore.empty afterSplitDeposit := by
  have halice : Attribution.netOf afterSplitDeposit alice = 1500 := by rfl
  have hdue : Attribution.due (sortedMembers [alice, bob]) (deposits [0x51] lbtc splitDeposit.output) alice = 1000 := by
    rfl
  refine ⟨treasuryTransactions_splitDeposit, applyBlockIn_splitReading,
    fun outpoint houtpoint => absurd houtpoint List.not_mem_nil, halice, rfl, hdue, fun h => ?_⟩
  have hcredit := h.due alice
  rw [halice, hdue] at hcredit
  exact absurd hcredit (by decide)

end SplitDeposit

end Blocks

end TreasuryScan

end PriceOracle
