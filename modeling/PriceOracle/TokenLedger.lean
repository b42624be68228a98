import Mathlib.Data.List.Nodup
import Mathlib.Data.List.Range
import Mathlib.Data.List.Induction

/-!
# Tokens spent at most once

Tokens are minted from a counter and held by keyed holders; a holder loses
a token when it spends or drops it. Then no token is ever spent twice, whatever
the holders do. A last lemma carries such an invariant over a whole run.
-/

namespace TokenLedger

/-- Held tokens are fresh, unspent and in one place; spent ones were spent once. -/
structure Ledger {K : Type} (holds : K → List ℕ) (spent : List ℕ) (next : ℕ) : Prop where
  spent_nodup : spent.Nodup
  spent_lt : ∀ t ∈ spent, t < next
  held_nodup : ∀ k, (holds k).Nodup
  held_lt : ∀ k, ∀ t ∈ holds k, t < next
  held_unspent : ∀ k, ∀ t ∈ holds k, t ∉ spent
  held_once : ∀ k k', k ≠ k' → (holds k).Disjoint (holds k')

namespace Ledger

variable {K : Type} {holds holds' : K → List ℕ} {spent : List ℕ} {next : ℕ}

theorem empty : Ledger (fun _ : K => []) [] 0 := by
  constructor <;> simp

/-- One holder spends some of its tokens, keeps some and drops the rest. -/
theorem spend (hl : Ledger holds spent next) (k : K) (newly : List ℕ)
    (hother : ∀ k', k' ≠ k → holds' k' = holds k') (hsub : (newly ++ holds' k).Sublist (holds k)) :
    Ledger holds' (spent ++ newly) next := by
  have hnodup : (newly ++ holds' k).Nodup := (hl.held_nodup k).sublist hsub
  have hnewly : ∀ t ∈ newly, t ∈ holds k := fun t ht => hsub.subset (List.mem_append_left _ ht)
  have hsubset : ∀ k', ∀ t ∈ holds' k', t ∈ holds k' := by
    intro k' t ht
    by_cases hk : k' = k
    · subst hk
      exact hsub.subset (List.mem_append_right _ ht)
    · rwa [hother k' hk] at ht
  refine ⟨?_, ?_, ?_, ?_, ?_, ?_⟩
  · rw [List.nodup_append]
    refine ⟨hl.spent_nodup, (List.nodup_append.mp hnodup).1, fun t ht t' ht' heq => ?_⟩
    subst heq
    exact hl.held_unspent k t (hnewly t ht') ht
  · intro t ht
    rcases List.mem_append.mp ht with h | h
    · exact hl.spent_lt t h
    · exact hl.held_lt k t (hnewly t h)
  · intro k'
    by_cases hk : k' = k
    · subst hk
      exact (List.nodup_append.mp hnodup).2.1
    · rw [hother k' hk]
      exact hl.held_nodup k'
  · exact fun k' t ht => hl.held_lt k' t (hsubset k' t ht)
  · intro k' t ht hspent
    rcases List.mem_append.mp hspent with h | h
    · exact hl.held_unspent k' t (hsubset k' t ht) h
    · by_cases hk : k' = k
      · subst hk
        exact (List.nodup_append.mp hnodup).2.2 t h t ht rfl
      · exact hl.held_once k' k hk (hsubset k' t ht) (hnewly t h)
  · exact fun k' k'' hne t ht ht' => hl.held_once k' k'' hne (hsubset k' t ht) (hsubset k'' t ht')

/-- One holder receives the next `count` tokens in place of what it had. -/
theorem mint (hl : Ledger holds spent next) (k : K) (count : ℕ)
    (hother : ∀ k', k' ≠ k → holds' k' = holds k') (hnew : holds' k = List.range' next count) :
    Ledger holds' spent (next + count) := by
  have hfresh : ∀ t ∈ holds' k, next ≤ t ∧ t < next + count := by
    intro t ht
    rw [hnew, List.mem_range'_1] at ht
    exact ht
  have hold : ∀ k', k' ≠ k → ∀ t ∈ holds' k', t < next := by
    intro k' hk t ht
    rw [hother k' hk] at ht
    exact hl.held_lt k' t ht
  refine ⟨hl.spent_nodup, fun t ht => (hl.spent_lt t ht).trans_le (Nat.le_add_right _ _), ?_, ?_, ?_, ?_⟩
  · intro k'
    by_cases hk : k' = k
    · rw [hk, hnew]
      exact List.nodup_range'
    · rw [hother k' hk]
      exact hl.held_nodup k'
  · intro k' t ht
    by_cases hk : k' = k
    · rw [hk] at ht
      exact (hfresh t ht).2
    · exact (hold k' hk t ht).trans_le (Nat.le_add_right _ _)
  · intro k' t ht hspent
    by_cases hk : k' = k
    · rw [hk] at ht
      exact absurd (hl.spent_lt t hspent) (Nat.not_lt.mpr (hfresh t ht).1)
    · rw [hother k' hk] at ht
      exact hl.held_unspent k' t ht hspent
  · intro k' k'' hne t ht ht'
    by_cases hk : k' = k
    · have hk' : k'' ≠ k := fun h => hne (hk.trans h.symm)
      rw [hk] at ht
      exact absurd (hold k'' hk' t ht') (Nat.not_lt.mpr (hfresh t ht).1)
    · by_cases hk' : k'' = k
      · rw [hk'] at ht'
        exact absurd (hold k' hk t ht) (Nat.not_lt.mpr (hfresh t ht').1)
      · rw [hother k' hk] at ht
        rw [hother k'' hk'] at ht'
        exact hl.held_once k' k'' hne ht ht'

/-- A token minted and spent at once. -/
theorem mint_spend (hl : Ledger holds spent next) : Ledger holds (spent ++ [next]) (next + 1) := by
  refine ⟨?_, ?_, hl.held_nodup, fun k t ht => (hl.held_lt k t ht).trans_le (Nat.le_succ _), ?_,
    hl.held_once⟩
  · rw [List.nodup_append]
    refine ⟨hl.spent_nodup, List.nodup_singleton _, fun t ht t' ht' heq => ?_⟩
    rw [List.mem_singleton.mp ht'] at heq
    exact absurd (hl.spent_lt t ht) (heq ▸ lt_irrefl _)
  · intro t ht
    rcases List.mem_append.mp ht with h | h
    · exact (hl.spent_lt t h).trans_le (Nat.le_succ _)
    · rw [List.mem_singleton.mp h]
      exact Nat.lt_succ_self next
  · intro k t ht hspent
    rcases List.mem_append.mp hspent with h | h
    · exact hl.held_unspent k t ht h
    · exact absurd (hl.held_lt k t ht) (List.mem_singleton.mp h ▸ lt_irrefl _)

theorem congr (hl : Ledger holds spent next) (hother : ∀ k, holds' k = holds k) :
    Ledger holds' spent next := by
  rwa [funext hother]

end Ledger

/-- A token that is spent at most once is spent in one place. -/
theorem eq_of_spent {A : Type} (token : A → Option ℕ) (events : List A)
    (hnodup : (events.filterMap token).Nodup) {a b : A} {t : ℕ} (ha : a ∈ events) (hb : b ∈ events)
    (hta : token a = some t) (htb : token b = some t) : a = b := by
  induction events with
  | nil => cases ha
  | cons e events ih =>
    have hmem : ∀ c ∈ events, token c = some t → t ∈ events.filterMap token := fun c hc htc =>
      List.mem_filterMap.mpr ⟨c, hc, htc⟩
    rcases List.mem_cons.mp ha with rfl | ha'
    · rw [List.filterMap_cons_some hta, List.nodup_cons] at hnodup
      rcases List.mem_cons.mp hb with rfl | hb'
      · rfl
      · exact absurd (hmem b hb' htb) hnodup.1
    · rcases List.mem_cons.mp hb with rfl | hb'
      · rw [List.filterMap_cons_some htb, List.nodup_cons] at hnodup
        exact absurd (hmem a ha' hta) hnodup.1
      · apply ih _ ha' hb'
        cases he : token e with
        | none => rwa [List.filterMap_cons_none he] at hnodup
        | some t' =>
          rw [List.filterMap_cons_some he, List.nodup_cons] at hnodup
          exact hnodup.2

/-- An invariant of the past and the state, kept by every step, holds after every run. -/
theorem foldl_induction {S A : Type} (step : S → A → S) (start : S) (P : List A → S → Prop)
    (hstart : P [] start) (hstep : ∀ past s a, P past s → P (past ++ [a]) (step s a)) (run : List A) :
    P run (run.foldl step start) := by
  induction run using List.reverseRecOn with
  | nil => exact hstart
  | append_singleton past a ih =>
    rw [List.foldl_append]
    exact hstep past _ a ih

end TokenLedger
