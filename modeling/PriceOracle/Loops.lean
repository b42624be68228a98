import Mathlib.Data.List.Forall2
import PriceOracle.Database

/-!
# Loops that can fail

A loop over a list that stops at the first error. Its invariant speaks of the items that are done.
-/

namespace Loops

variable {A B S E : Type}

section Invariants

variable {f : S → A → Except E S} {P : List A → S → Prop}

theorem foldlM_ok_from (hstep : ∀ (done : List A) (a : A) (s next : S), P done s → f s a = .ok next → P (done ++ [a]) next)
    (items : List A) : ∀ {done : List A} {s last : S}, P done s → items.foldlM f s = .ok last → P (done ++ items) last := by
  induction items with
  | nil =>
    intro done s last hP h
    cases h
    rwa [List.append_nil]
  | cons a items ih =>
    intro done s last hP h
    rw [List.foldlM_cons] at h
    obtain ⟨next, hnext, h⟩ := Db.except_bind_ok.mp h
    have hrest := ih (hstep done a s next hP hnext) h
    rwa [List.append_assoc] at hrest

/-- What every step keeps holds of all items where the loop ends. -/
theorem foldlM_ok (hstep : ∀ (done : List A) (a : A) (s next : S), P done s → f s a = .ok next → P (done ++ [a]) next)
    {l : List A} {s last : S} (hstart : P [] s) (h : l.foldlM f s = .ok last) : P l last :=
  foldlM_ok_from hstep l hstart h

theorem foldlM_runs_from (items : List A) : ∀ {done : List A} {s : S}, P done s →
    (∀ (before : List A) (a : A) (after : List A) (s : S), items = before ++ a :: after → P (done ++ before) s →
      ∃ next, f s a = .ok next ∧ P (done ++ before ++ [a]) next) →
    ∃ last, items.foldlM f s = .ok last ∧ P (done ++ items) last := by
  induction items with
  | nil =>
    intro done s hP _
    exact ⟨s, rfl, by rwa [List.append_nil]⟩
  | cons a items ih =>
    intro done s hP hstep
    obtain ⟨next, hnext, hP'⟩ := hstep [] a items s rfl (by rwa [List.append_nil])
    rw [List.append_nil] at hP'
    obtain ⟨last, hlast, hPlast⟩ := ih hP' fun before b after s' hitems hbefore => by
      have hnext' := hstep (a :: before) b after s' (by rw [hitems, List.cons_append])
      simp only [List.append_assoc, List.cons_append, List.nil_append] at hbefore hnext' ⊢
      exact hnext' hbefore
    refine ⟨last, ?_, ?_⟩
    · rw [List.foldlM_cons, hnext]
      exact hlast
    · rwa [List.append_assoc] at hPlast

/-- The loop runs through where every step does, from what those before it keep. -/
theorem foldlM_runs {l : List A} {s : S} (hstart : P [] s)
    (hstep : ∀ (done : List A) (a : A) (rest : List A) (s : S), l = done ++ a :: rest → P done s →
      ∃ next, f s a = .ok next ∧ P (done ++ [a]) next) :
    ∃ last, l.foldlM f s = .ok last ∧ P l last :=
  foldlM_runs_from l hstart hstep

end Invariants

section Lists

/-- What exists for every item of a list exists as a list. -/
theorem exists_list {as : List A} : ∀ {Q : ℕ → A → B → Prop}, (∀ (i : ℕ) (a : A), as[i]? = some a → ∃ b, Q i a b) →
    ∃ bs : List B, bs.length = as.length ∧
      ∀ (i : ℕ) (b : B), bs[i]? = some b → ∃ a, as[i]? = some a ∧ Q i a b := by
  induction as with
  | nil => exact fun _ => ⟨[], rfl, fun i b hb => by simp at hb⟩
  | cons a as ih =>
    intro Q h
    obtain ⟨b, hb⟩ := h 0 a rfl
    obtain ⟨bs, hlength, hbs⟩ := @ih (fun i => Q (i + 1)) fun i a' ha' => h (i + 1) a' ha'
    refine ⟨b :: bs, by rw [List.length_cons, List.length_cons, hlength], fun i b' hb' => ?_⟩
    cases i with
    | zero =>
      cases hb'
      exact ⟨a, rfl, hb⟩
    | succ i => exact hbs i b' hb'

end Lists

section Relations

variable {R : A → B → Prop}

theorem forall₂_split {as as' : List A} : ∀ {bs : List B}, List.Forall₂ R (as ++ as') bs →
    ∃ first second, bs = first ++ second ∧ List.Forall₂ R as first ∧ List.Forall₂ R as' second := by
  induction as with
  | nil => exact fun h => ⟨[], _, rfl, .nil, h⟩
  | cons a as ih =>
    intro bs h
    cases h with
    | cons hR hrest =>
      obtain ⟨first, second, rfl, hfirst, hsecond⟩ := ih hrest
      exact ⟨_ :: first, second, rfl, .cons hR hfirst, hsecond⟩

theorem forall₂_get {as : List A} {bs : List B} (h : List.Forall₂ R as bs) {i : ℕ} {b : B} (hb : bs[i]? = some b) :
    ∃ a, as[i]? = some a ∧ R a b := by
  induction h generalizing i with
  | nil => simp at hb
  | cons hR _ ih =>
    cases i with
    | zero =>
      cases hb
      exact ⟨_, rfl, hR⟩
    | succ i =>
      rw [List.getElem?_cons_succ] at hb
      exact ih hb

theorem forall₂_mem {as : List A} {bs : List B} (h : List.Forall₂ R as bs) {a : A} (ha : a ∈ as) : ∃ b ∈ bs, R a b := by
  induction h with
  | nil => cases ha
  | cons hR _ ih =>
    rcases List.mem_cons.mp ha with rfl | hrest
    · exact ⟨_, List.mem_cons_self, hR⟩
    · obtain ⟨b, hb, hRb⟩ := ih hrest
      exact ⟨b, List.mem_cons_of_mem _ hb, hRb⟩

theorem forall₂_imp_mem {Q : A → B → Prop} {as : List A} {bs : List B} (h : List.Forall₂ R as bs)
    (himp : ∀ a ∈ as, ∀ b, R a b → Q a b) : List.Forall₂ Q as bs := by
  induction h with
  | nil => exact .nil
  | cons hR _ ih => exact .cons (himp _ List.mem_cons_self _ hR) (ih fun a ha => himp a (List.mem_cons_of_mem _ ha))

/-- What a loop that collects has found for each item. -/
theorem mapM_forall₂ {g : A → Except E B} {as : List A} : ∀ {bs : List B}, as.mapM g = .ok bs →
    List.Forall₂ (fun a b => g a = .ok b) as bs := by
  induction as with
  | nil =>
    intro bs h
    cases h
    exact .nil
  | cons a as ih =>
    intro bs h
    rw [List.mapM_cons] at h
    obtain ⟨b, hb, h⟩ := Db.except_bind_ok.mp h
    obtain ⟨rest, hrest, h⟩ := Db.except_bind_ok.mp h
    cases h
    exact .cons hb (ih hrest)

end Relations

end Loops
