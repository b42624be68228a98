import Mathlib.Data.List.Induction
import Mathlib.Logic.Function.Basic
import Mathlib.Algebra.Order.Ring.Nat
import Mathlib.Data.Nat.Bitwise
import Mathlib.Tactic.Positivity
import Mathlib.Tactic.Ring

/-!
# Merkle membership proofs over an abstract hash

Trees with empty subtrees, their digests, and the fold of a proof. A proof that
folds to a digest starts from a leaf of the tree, whatever its length and its
directions. A list fills a tree of fixed height from the left; every slot of
the filled tree is the digest of a window of the list.
-/

namespace MerkleFold

/-- The two hashes of a Merkle tree and the digest of an empty subtree. -/
structure Hashing (A N : Type) where
  leaf : A → N
  node : N → N → N
  zero : N

variable {A N : Type} (H : Hashing A N)

/-- Injective hashes with disjoint images, neither of which reaches the empty digest. -/
structure Hashing.CollisionFree : Prop where
  leaf_injective : Function.Injective H.leaf
  node_injective : Function.Injective2 H.node
  leaf_ne_node : ∀ a l r, H.leaf a ≠ H.node l r
  leaf_ne_zero : ∀ a, H.leaf a ≠ H.zero
  node_ne_zero : ∀ l r, H.node l r ≠ H.zero

inductive MTree (A : Type) where
  | empty
  | leaf (a : A)
  | node (left right : MTree A)

namespace MTree

def leaves : MTree A → List A
  | empty => []
  | leaf a => [a]
  | node l r => l.leaves ++ r.leaves

def digest : MTree A → N
  | empty => H.zero
  | leaf a => H.leaf a
  | node l r => H.node (digest l) (digest r)

end MTree

/-- One level: the flag says that the running digest is the right child. -/
def step (digest : N) (level : Bool × N) : N :=
  if level.1 then H.node level.2 digest else H.node digest level.2

def fold (digest : N) (levels : List (Bool × N)) : N := levels.foldl (step H) digest

theorem fold_concat (digest : N) (levels : List (Bool × N)) (level : Bool × N) :
    fold H digest (levels ++ [level]) = step H (fold H digest levels) level := by
  simp [fold]

theorem step_eq_node (digest : N) (level : Bool × N) :
    ∃ l r, step H digest level = H.node l r ∧ (digest = l ∨ digest = r) := by
  by_cases hr : level.1
  · exact ⟨level.2, digest, by simp [step, hr], .inr rfl⟩
  · exact ⟨digest, level.2, by simp [step, hr], .inl rfl⟩

/-- Soundness: the digest of a tree is peeled from the root down, level by level. -/
theorem mem_leaves_of_fold (hc : H.CollisionFree) (a : A) (levels : List (Bool × N)) :
    ∀ t : MTree A, fold H (H.leaf a) levels = t.digest H → a ∈ t.leaves := by
  induction levels using List.reverseRecOn with
  | nil =>
    intro t h
    change H.leaf a = t.digest H at h
    cases t with
    | empty => exact absurd h (hc.leaf_ne_zero a)
    | leaf b => exact List.mem_singleton.mpr (hc.leaf_injective h)
    | node l r => exact absurd h (hc.leaf_ne_node a _ _)
  | append_singleton levels level ih =>
    intro t h
    obtain ⟨l, r, hstep, hchild⟩ := step_eq_node H (fold H (H.leaf a) levels) level
    rw [fold_concat, hstep] at h
    cases t with
    | empty => exact absurd h (hc.node_ne_zero l r)
    | leaf b => exact absurd h.symm (hc.leaf_ne_node b l r)
    | node tl tr =>
      obtain ⟨hl, hr⟩ := hc.node_injective h
      rw [MTree.leaves, List.mem_append]
      rcases hchild with hchild | hchild
      · exact .inl (ih tl (hchild.trans hl))
      · exact .inr (ih tr (hchild.trans hr))

/-- The tree of a given height over a list, filled from the left. -/
def fill : ℕ → List A → MTree A
  | 0, [] => .empty
  | 0, a :: _ => .leaf a
  | _ + 1, [] => .empty
  | h + 1, a :: as => .node (fill h ((a :: as).take (2 ^ h))) (fill h ((a :: as).drop (2 ^ h)))

theorem fill_nil (h : ℕ) : fill h ([] : List A) = .empty := by
  cases h <;> rfl

theorem fill_succ (h : ℕ) (as : List A) (hne : as ≠ []) :
    fill (h + 1) as = .node (fill h (as.take (2 ^ h))) (fill h (as.drop (2 ^ h))) := by
  cases as with
  | nil => exact absurd rfl hne
  | cons a as => rfl

theorem leaves_fill (h : ℕ) : ∀ as : List A, as.length ≤ 2 ^ h → (fill h as).leaves = as := by
  induction h with
  | zero =>
    intro as hlen
    match as, hlen with
    | [], _ => rfl
    | [a], _ => rfl
  | succ h ih =>
    intro as hlen
    by_cases hne : as = []
    · rw [hne, fill_nil]
      rfl
    · have htake : (as.take (2 ^ h)).length ≤ 2 ^ h := by
        rw [List.length_take]
        exact min_le_left _ _
      have hdrop : (as.drop (2 ^ h)).length ≤ 2 ^ h := by
        rw [List.length_drop]
        omega
      rw [fill_succ h as hne, MTree.leaves, ih _ htake, ih _ hdrop, List.take_append_drop]

/-- The leaves below slot `r` of height `h`. -/
def window (as : List A) (h r : ℕ) : List A := (as.drop (r * 2 ^ h)).take (2 ^ h)

theorem window_eq_nil_iff (as : List A) (h r : ℕ) :
    window as h r = [] ↔ as.length ≤ r * 2 ^ h := by
  simp [window, List.take_eq_nil_iff]

theorem window_root (as : List A) (h : ℕ) (hlen : as.length ≤ 2 ^ h) : window as h 0 = as := by
  rw [window, zero_mul, List.drop_zero, List.take_of_length_le hlen]

theorem take_window (as : List A) (h r : ℕ) :
    (window as (h + 1) r).take (2 ^ h) = window as h (2 * r) := by
  have hpow : 2 ^ (h + 1) = 2 ^ h * 2 := pow_succ 2 h
  have hstart : r * 2 ^ (h + 1) = 2 * r * 2 ^ h := by rw [hpow]; ring
  rw [window, window, List.take_take, hstart, min_eq_left (by omega)]

theorem drop_window (as : List A) (h r : ℕ) :
    (window as (h + 1) r).drop (2 ^ h) = window as h (2 * r + 1) := by
  have hpow : 2 ^ (h + 1) = 2 ^ h * 2 := pow_succ 2 h
  have hstart : (2 * r + 1) * 2 ^ h = r * 2 ^ (h + 1) + 2 ^ h := by rw [hpow]; ring
  have hlen : 2 ^ (h + 1) - 2 ^ h = 2 ^ h := by omega
  rw [window, window, List.drop_take, List.drop_drop, hstart, hlen]

/-- The digest of slot `r` of height `h`. -/
def slot (as : List A) (h r : ℕ) : N := (fill h (window as h r)).digest H

theorem slot_empty (as : List A) (h r : ℕ) (hr : as.length ≤ r * 2 ^ h) :
    slot H as h r = H.zero := by
  rw [slot, (window_eq_nil_iff as h r).mpr hr, fill_nil]
  rfl

theorem slot_zero (as : List A) (r : ℕ) (a : A) (ha : as[r]? = some a) :
    slot H as 0 r = H.leaf a := by
  obtain ⟨hr, rfl⟩ := List.getElem?_eq_some_iff.mp ha
  have hw : window as 0 r = [as[r]] := by
    rw [window, pow_zero, mul_one, List.drop_eq_getElem_cons hr]
    rfl
  rw [slot, hw]
  rfl

theorem slot_succ (as : List A) (h r : ℕ) (hr : r * 2 ^ (h + 1) < as.length) :
    slot H as (h + 1) r = H.node (slot H as h (2 * r)) (slot H as h (2 * r + 1)) := by
  have hne : window as (h + 1) r ≠ [] := fun hnil =>
    absurd ((window_eq_nil_iff as (h + 1) r).mp hnil) (Nat.not_le.mpr hr)
  rw [slot, fill_succ h _ hne, take_window, drop_window]
  rfl

theorem slot_root (as : List A) (h : ℕ) (hlen : as.length ≤ 2 ^ h) :
    slot H as h 0 = (fill h as).digest H := by
  rw [slot, window_root as h hlen]

/-- A new leaf changes only the slots above it. -/
theorem slot_concat (as : List A) (a : A) (h r : ℕ) (hr : r ≠ as.length / 2 ^ h) :
    slot H (as ++ [a]) h r = slot H as h r := by
  have hpos : 0 < 2 ^ h := by positivity
  have hw : window (as ++ [a]) h r = window as h r := by
    rcases Nat.lt_or_gt_of_ne hr with hlt | hgt
    · have hend : (r + 1) * 2 ^ h ≤ as.length :=
        (Nat.le_div_iff_mul_le hpos).mp hlt
      rw [Nat.add_mul, one_mul] at hend
      rw [window, window, List.drop_append_of_le_length (by omega), List.take_append_of_le_length]
      rw [List.length_drop]
      omega
    · have hstart : as.length < r * 2 ^ h := (Nat.div_lt_iff_lt_mul hpos).mp hgt
      rw [(window_eq_nil_iff as h r).mpr hstart.le, window_eq_nil_iff, List.length_append]
      exact hstart
  rw [slot, slot, hw]

/-- The siblings above leaf `k`, for `n` levels from height `h` on. -/
def siblings (as : List A) (k : ℕ) : ℕ → ℕ → List (Bool × N)
  | _, 0 => []
  | h, n + 1 =>
    (decide (k / 2 ^ h % 2 = 1), slot H as h (k / 2 ^ h ^^^ 1)) :: siblings as k (h + 1) n

theorem length_siblings (as : List A) (k n : ℕ) :
    ∀ h, (siblings H as k h n).length = n := by
  induction n with
  | zero => exact fun _ => rfl
  | succ n ih => exact fun h => congrArg (· + 1) (ih (h + 1))

theorem xor_one_div_two (n : ℕ) : (n ^^^ 1) / 2 = n / 2 := by
  rw [Nat.xor_div_two]
  exact Nat.xor_zero _

theorem xor_one_mod_two (n : ℕ) : (n ^^^ 1) % 2 = (n + 1) % 2 := by
  rw [Nat.xor_mod_two_eq]

/-- One level of the proof climbs from a slot to its parent. -/
theorem step_slot (as : List A) (k h : ℕ) (hk : k < as.length) :
    step H (slot H as h (k / 2 ^ h)) (decide (k / 2 ^ h % 2 = 1), slot H as h (k / 2 ^ h ^^^ 1)) =
      slot H as (h + 1) (k / 2 ^ (h + 1)) := by
  have hparent : k / 2 ^ (h + 1) = k / 2 ^ h / 2 := by rw [pow_succ, Nat.div_div_eq_div_mul]
  have hocc : k / 2 ^ (h + 1) * 2 ^ (h + 1) < as.length :=
    lt_of_le_of_lt (Nat.div_mul_le_self k _) hk
  rw [slot_succ H as h _ hocc, hparent]
  have hdiv := xor_one_div_two (k / 2 ^ h)
  have hmod := xor_one_mod_two (k / 2 ^ h)
  by_cases hodd : k / 2 ^ h % 2 = 1
  · have hself : 2 * (k / 2 ^ h / 2) + 1 = k / 2 ^ h := by omega
    have hsib : k / 2 ^ h ^^^ 1 = 2 * (k / 2 ^ h / 2) := by omega
    simp only [step, hodd, decide_true, if_true, hself, hsib]
  · have hself : 2 * (k / 2 ^ h / 2) = k / 2 ^ h := by omega
    have hsib : k / 2 ^ h ^^^ 1 = 2 * (k / 2 ^ h / 2) + 1 := by omega
    rw [hsib, hself]
    simp [step, hodd]

/-- Completeness: the siblings of an occupied slot fold to the slot above them. -/
theorem fold_siblings (as : List A) (k n : ℕ) (hk : k < as.length) :
    ∀ h, fold H (slot H as h (k / 2 ^ h)) (siblings H as k h n) =
      slot H as (h + n) (k / 2 ^ (h + n)) := by
  induction n with
  | zero => exact fun _ => rfl
  | succ n ih =>
    intro h
    change fold H (step H _ _) (siblings H as k (h + 1) n) = _
    rw [step_slot H as k h hk, ih (h + 1), Nat.add_right_comm, Nat.add_assoc]

end MerkleFold
