import Mathlib.Data.List.Basic

/-!
# Runs of a system

A system takes one step for each action. What its steps keep holds of every state of a run,
and what a step does in such a state holds of every step of the run.
-/

namespace Runs

variable {S A : Type} (step : S → A → S)

/-- `P` holds of every step of the run. -/
def EachStep (P : S → A → Prop) : S → List A → Prop
  | _, [] => True
  | s, action :: actions => P s action ∧ EachStep P (step s action) actions

instance EachStep.decidable {P : S → A → Prop} [∀ s action, Decidable (P s action)] :
    (s : S) → (actions : List A) → Decidable (EachStep step P s actions)
  | _, [] => isTrue trivial
  | s, action :: actions =>
    have : Decidable (EachStep step P (step s action) actions) := EachStep.decidable (step s action) actions
    inferInstanceAs (Decidable (P s action ∧ EachStep step P (step s action) actions))

variable {step} {I : S → Prop} {C P : S → A → Prop}

/-- An invariant of the steps that meet a condition, and what follows from it. -/
theorem EachStep.run (hstep : ∀ s action, I s → C s action → I (step s action) ∧ P s action) {s : S}
    {actions : List A} (hs : I s) (hc : EachStep step C s actions) :
    I (actions.foldl step s) ∧ EachStep step P s actions := by
  induction actions generalizing s with
  | nil => exact ⟨hs, trivial⟩
  | cons action actions ih =>
    obtain ⟨hnext, hp⟩ := hstep s action hs hc.1
    obtain ⟨hend, hrest⟩ := ih hnext hc.2
    exact ⟨hend, hp, hrest⟩

/-- Two conditions on the steps that agree while an invariant holds, which the one keeps. -/
theorem EachStep.iff_of_invariant (hiff : ∀ s action, I s → (P s action ↔ C s action))
    (hstep : ∀ s action, I s → C s action → I (step s action)) {s : S} {actions : List A} (hs : I s) :
    EachStep step P s actions ↔ EachStep step C s actions := by
  induction actions generalizing s with
  | nil => exact Iff.rfl
  | cons action actions ih =>
    constructor
    · rintro ⟨hp, hrest⟩
      have hc := (hiff s action hs).mp hp
      exact ⟨hc, (ih (hstep s action hs hc)).mp hrest⟩
    · rintro ⟨hc, hrest⟩
      exact ⟨(hiff s action hs).mpr hc, (ih (hstep s action hs hc)).mpr hrest⟩

theorem EachStep.append {s : S} {before after : List A} :
    EachStep step P s (before ++ after) ↔ EachStep step P s before ∧ EachStep step P (before.foldl step s) after := by
  induction before generalizing s with
  | nil => simp [EachStep]
  | cons action before ih => simp [EachStep, ih, and_assoc]

theorem EachStep.and {Q : S → A → Prop} {s : S} {actions : List A} (hp : EachStep step P s actions)
    (hq : EachStep step Q s actions) : EachStep step (fun s action => P s action ∧ Q s action) s actions := by
  induction actions generalizing s with
  | nil => trivial
  | cons action actions ih => exact ⟨⟨hp.1, hq.1⟩, ih hp.2 hq.2⟩

/-- A step of a run, in the state that the steps before it lead to. -/
theorem EachStep.between {s : S} {before after : List A} {action : A}
    (h : EachStep step P s (before ++ action :: after)) : P (before.foldl step s) action := by
  induction before generalizing s with
  | nil => exact h.1
  | cons first before ih => exact ih h.2

/-- The last step of a run. -/
theorem EachStep.last {s : S} {actions : List A} {action : A} (h : EachStep step P s (actions ++ [action])) :
    P (actions.foldl step s) action := h.between

/-- A condition on the actions alone. -/
theorem EachStep.of_forall {Q : A → Prop} {s : S} {actions : List A} (h : ∀ action ∈ actions, Q action) :
    EachStep step (fun _ action => Q action) s actions := by
  induction actions generalizing s with
  | nil => trivial
  | cons action actions ih =>
    exact ⟨h action List.mem_cons_self, ih fun a ha => h a (List.mem_cons_of_mem action ha)⟩

end Runs
