import Mathlib.Data.List.Basic

/-!
# Programs over a database

A program reads and writes a state and may fail. What it wrote before it failed stays,
unless it ran in a transaction, which is rolled back. `Returns` says that a program
succeeds; its lemmas take programs apart, and the loop rules carry an invariant.
-/

abbrev Db (S E : Type) := ExceptT E (StateM S)

namespace Db

variable {S E A B : Type}

/-- What the program leaves behind, with its value or its error. -/
def exec (prog : Db S E A) (s : S) : Except E A × S := prog.run.run s

/-- The program succeeds in state `s` with value `a`, and ends in state `t`. -/
def Returns (prog : Db S E A) (s : S) (a : A) (t : S) : Prop := prog.exec s = (.ok a, t)

/-- A transaction or a savepoint: on an error everything is rolled back. -/
def atomic (prog : Db S E A) : Db S E A :=
  fun s => match prog.exec s with
  | (.ok a, t) => (.ok a, t)
  | (.error e, _) => (.error e, s)

/-- A program on a part of the state. -/
def zoom {T E' : Type} (part : S → T) (put : T → S → S) (error : E → E') (prog : Db T E A) : Db S E' A :=
  fun s => match prog.exec (part s) with
  | (.ok a, t) => (.ok a, put t s)
  | (.error e, t) => (.error (error e), put t s)

/-- A savepoint, with the error that rolled it back. -/
def attempt {E' : Type} (prog : Db S E A) : Db S E' (Except E A) :=
  fun s => (.ok (prog.atomic.exec s).1, (prog.atomic.exec s).2)

/-- The result of a program that runs to its end or its error; nothing is rolled back. -/
def caught {E' : Type} (prog : Db S E A) : Db S E' (Except E A) := fun s => (.ok (prog.exec s).1, (prog.exec s).2)

theorem exec_bind (x : Db S E A) (f : A → Db S E B) (s : S) : (x >>= f).exec s = match x.exec s with
    | (.ok a, u) => (f a).exec u
    | (.error e, u) => (.error e, u) := by
  change (ExceptT.bindCont f (x.exec s).1 : StateM S _) (x.exec s).2 = _
  cases x.exec s with
  | mk r u => cases r <;> rfl

theorem exec_get_bind (f : S → Db S E B) (s : S) : (get >>= f).exec s = (f s).exec s := rfl

section Returns

variable {s t : S} {a : A} {b : B}

@[simp]
theorem returns_pure {a' : A} : (pure a : Db S E A).Returns s a' t ↔ a' = a ∧ t = s := by
  constructor
  · intro h
    cases h
    exact ⟨rfl, rfl⟩
  · rintro ⟨rfl, rfl⟩
    rfl

@[simp]
theorem returns_throw {e : E} : ¬(throw e : Db S E A).Returns s a t := by
  intro h
  cases h

@[simp]
theorem returns_bind {x : Db S E A} {f : A → Db S E B} :
    (x >>= f).Returns s b t ↔ ∃ a u, x.Returns s a u ∧ (f a).Returns u b t := by
  unfold Returns
  rw [exec_bind]
  cases hx : x.exec s with
  | mk r u =>
    cases r with
    | error e => simp
    | ok a => simp

@[simp]
theorem returns_map {x : Db S E A} {f : A → B} :
    (f <$> x).Returns s b t ↔ ∃ a, x.Returns s a t ∧ b = f a := by
  rw [map_eq_pure_bind, returns_bind]
  constructor
  · rintro ⟨a, u, hx, hf⟩
    obtain ⟨rfl, rfl⟩ := returns_pure.mp hf
    exact ⟨a, hx, rfl⟩
  · rintro ⟨a, hx, rfl⟩
    exact ⟨a, t, hx, returns_pure.mpr ⟨rfl, rfl⟩⟩

@[simp]
theorem returns_get {s' : S} : (get : Db S E S).Returns s s' t ↔ s' = s ∧ t = s := by
  constructor
  · intro h
    cases h
    exact ⟨rfl, rfl⟩
  · rintro ⟨rfl, rfl⟩
    rfl

theorem returns_get_bind {f : S → Db S E B} : (get >>= f).Returns s b t ↔ (f s).Returns s b t := by
  simp

@[simp]
theorem returns_set {s' : S} {u : PUnit} : (set s' : Db S E PUnit).Returns s u t ↔ t = s' := by
  constructor
  · intro h
    cases h
    rfl
  · rintro rfl
    rfl

@[simp]
theorem returns_modify {f : S → S} {u : PUnit} :
    (modify f : Db S E PUnit).Returns s u t ↔ t = f s := by
  constructor
  · intro h
    cases h
    rfl
  · rintro rfl
    rfl

theorem exec_zoom {T E' : Type} (part : S → T) (put : T → S → S) (error : E → E') (prog : Db T E A) (s : S) :
    (zoom part put error prog).exec s = match prog.exec (part s) with
      | (.ok a, t) => (.ok a, put t s)
      | (.error e, t) => (.error (error e), put t s) := rfl

@[simp]
theorem returns_zoom {T E' : Type} {part : S → T} {put : T → S → S} {error : E → E'} {prog : Db T E A} :
    (zoom part put error prog).Returns s a t ↔ ∃ u, prog.Returns (part s) a u ∧ t = put u s := by
  unfold Returns
  rw [exec_zoom]
  cases prog.exec (part s) with
  | mk r u => cases r <;> simp [eq_comm, and_comm]

@[simp]
theorem returns_attempt {E' : Type} {prog : Db S E A} {r : Except E A} :
    (attempt prog : Db S E' _).Returns s r t ↔ prog.atomic.exec s = (r, t) := by
  unfold Returns
  change ((.ok (prog.atomic.exec s).1, (prog.atomic.exec s).2) : Except E' _ × S) = _ ↔ _
  cases prog.atomic.exec s with
  | mk r' u => simp

@[simp]
theorem returns_ite {p : Prop} [Decidable p] {x y : Db S E A} :
    (if p then x else y).Returns s a t ↔ (p ∧ x.Returns s a t) ∨ (¬p ∧ y.Returns s a t) := by
  split_ifs with hp <;> simp [hp]

theorem exec_atomic (prog : Db S E A) (s : S) :
    prog.atomic.exec s = match prog.exec s with
      | (.ok a, t) => (.ok a, t)
      | (.error e, _) => (.error e, s) := rfl

@[simp]
theorem returns_atomic {prog : Db S E A} : prog.atomic.Returns s a t ↔ prog.Returns s a t := by
  unfold Returns
  rw [exec_atomic]
  cases prog.exec s with
  | mk r u => cases r <;> simp

theorem exec_atomic_error {prog : Db S E A} {e : E} (h : (prog.atomic.exec s).1 = .error e) :
    (prog.atomic.exec s).2 = s := by
  rw [exec_atomic] at h ⊢
  cases hx : prog.exec s with
  | mk r u =>
    rw [hx] at h
    cases r with
    | ok a => cases h
    | error e => rfl

/-- A transaction commits or leaves the state alone. -/
theorem exec_atomic_cases (prog : Db S E A) (s : S) :
    (prog.atomic.exec s).2 = s ∨ ∃ a, prog.Returns s a (prog.atomic.exec s).2 := by
  unfold Returns
  rw [exec_atomic]
  cases prog.exec s with
  | mk r u =>
    cases r with
    | ok a => exact Or.inr ⟨a, rfl⟩
    | error e => exact Or.inl rfl

/-- Dropping the value of a transaction changes nothing. -/
theorem exec_atomic_discard (x : Db S E A) (s : S) :
    ((do let _ ← x : Db S E PUnit).atomic.exec s).2 = (x.atomic.exec s).2 := by
  rw [exec_atomic, exec_atomic, exec_bind]
  cases x.exec s with
  | mk r u => cases r <;> rfl

end Returns

section Loops

variable {X : Type} {P : S → Prop}

/-- A loop keeps what each of its turns keeps. -/
theorem returns_forM {f : X → Db S E PUnit} {xs : List X}
    (hstep : ∀ x ∈ xs, ∀ s t u, P s → (f x).Returns s u t → P t) {s t : S} {u : PUnit} (hs : P s)
    (h : (xs.forM f).Returns s u t) : P t := by
  induction xs generalizing s with
  | nil =>
    obtain ⟨-, rfl⟩ := returns_pure.mp h
    exact hs
  | cons x xs ih =>
    obtain ⟨u', s', hx, hxs⟩ := returns_bind.mp h
    apply ih (fun y hy => hstep y (List.mem_cons_of_mem x hy)) (hstep x List.mem_cons_self s s' u' hs hx) hxs

/-- A loop of turns that are known functions of the state. -/
theorem returns_forM_foldl {f : X → Db S E PUnit} {g : S → X → S}
    (hstep : ∀ x s t u, (f x).Returns s u t → t = g s x) (xs : List X) {s t : S} {u : PUnit}
    (h : (xs.forM f).Returns s u t) : t = xs.foldl g s := by
  induction xs generalizing s with
  | nil => exact (returns_pure.mp h).2
  | cons x xs ih =>
    obtain ⟨u', s', hx, hxs⟩ := returns_bind.mp h
    rw [List.foldl_cons, ← hstep x s s' u' hx]
    exact ih hxs

end Loops

section Checks

variable {s t : S} {a : A}

/-- A check outside the database. -/
def check (r : Except E A) : Db S E A := fun s => (r, s)

/-- A check that goes through has a value for each of its parts. -/
theorem except_bind_ok {x : Except E A} {f : A → Except E B} {b : B} :
    x >>= f = .ok b ↔ ∃ a, x = .ok a ∧ f a = .ok b := by
  constructor
  · intro h
    cases x with
    | ok a => exact ⟨a, rfl, h⟩
    | error e => cases h
  · rintro ⟨a, rfl, h⟩
    exact h

@[simp]
theorem returns_check {r : Except E A} : (check r).Returns s a t ↔ r = .ok a ∧ t = s := by
  change ((r, s) : Except E A × S) = _ ↔ _
  rw [Prod.mk.injEq, eq_comm (a := s)]

end Checks

section Triples

variable {P : S → Prop} {Q : A → S → Prop} {X : S → Prop}

/-- A statement in a transaction of its own, with its error as the program reports it. -/
def statement {E' : Type} (error : E → E') (prog : Db S E A) : Db S E' A :=
  fun s => match prog.atomic.exec s with
  | (.ok a, t) => (.ok a, t)
  | (.error e, t) => (.error (error e), t)

theorem exec_statement {E' : Type} (error : E → E') (prog : Db S E A) (s : S) :
    (statement error prog).exec s = match prog.exec s with
      | (.ok a, t) => (.ok a, t)
      | (.error e, _) => (.error (error e), s) := by
  change (match prog.atomic.exec s with
    | (.ok a, t) => (.ok a, t)
    | (.error e, t) => (.error (error e), t) : Except E' A × S) = _
  rw [exec_atomic]
  cases prog.exec s with
  | mk r t => cases r <;> rfl

/-- From a state with `P` the program succeeds with `Q` or fails with `X`. -/
def Triple (P : S → Prop) (prog : Db S E A) (Q : A → S → Prop) (X : S → Prop) : Prop :=
  ∀ s, P s → match prog.exec s with
  | (.ok a, t) => Q a t
  | (.error _, t) => X t

theorem triple_pure {a : A} (h : ∀ s, P s → Q a s) : Triple P (pure a : Db S E A) Q X := h

theorem triple_throw {e : E} (h : ∀ s, P s → X s) : Triple P (throw e : Db S E A) Q X := h

theorem triple_bind {x : Db S E A} {f : A → Db S E B} {R : A → S → Prop} {Q : B → S → Prop}
    (hx : Triple P x R X) (hf : ∀ a, Triple (R a) (f a) Q X) : Triple P (x >>= f) Q X := by
  intro s hs
  have hrun := hx s hs
  rw [exec_bind]
  cases hexec : x.exec s with
  | mk r u =>
    rw [hexec] at hrun
    cases r with
    | ok a => exact hf a u hrun
    | error e => exact hrun

theorem triple_get : Triple P (get : Db S E S) (fun s t => s = t ∧ P t) X := fun _ hs => ⟨rfl, hs⟩

theorem triple_check {r : Except E A} (hok : ∀ a, r = .ok a → ∀ s, P s → Q a s) (herror : ∀ s, P s → X s) :
    Triple P (check r) Q X := by
  intro s hs
  cases r with
  | ok a => exact hok a rfl s hs
  | error e => exact herror s hs

/-- A statement succeeds or changes nothing. -/
theorem triple_statement {E' : Type} {error : E → E'} {prog : Db S E A}
    (hok : ∀ s a t, P s → prog.Returns s a t → Q a t) (herror : ∀ s, P s → X s) :
    Triple P (statement error prog) Q X := by
  intro s hs
  rw [exec_statement]
  cases hrun : prog.exec s with
  | mk r t =>
    cases r with
    | ok a => exact hok s a t hs hrun
    | error e => exact herror s hs

theorem Triple.weaken {P' : S → Prop} {prog : Db S E A} (h : Triple P prog Q X) (hpre : ∀ s, P' s → P s) :
    Triple P' prog Q X := fun s hs => h s (hpre s hs)

/-- A fact about values is a hypothesis. -/
theorem triple_of_imp {p : Prop} {prog : Db S E A} (h : p → Triple P prog Q X) :
    Triple (fun s => p ∧ P s) prog Q X := fun s hs => h hs.1 s hs.2

/-- What holds after success and after failure holds of the state that is left. -/
theorem Triple.exec {prog : Db S E A} {R : S → Prop} (h : Triple P prog Q X) (hok : ∀ a s, Q a s → R s)
    (herror : ∀ s, X s → R s) {s : S} (hs : P s) : R (prog.exec s).2 := by
  have hrun := h s hs
  cases hexec : prog.exec s with
  | mk r t =>
    rw [hexec] at hrun
    cases r with
    | ok a => exact hok a t hrun
    | error e => exact herror t hrun

end Triples

section Posts

variable {Q : A → S → Prop} {X : E → S → Prop} {s t : S} {a : A}

/-- From state `s` the program succeeds with `Q` or fails with `X`, which may speak of the error. -/
def Post (prog : Db S E A) (Q : A → S → Prop) (X : E → S → Prop) (s : S) : Prop :=
  match prog.exec s with
  | (.ok a, t) => Q a t
  | (.error e, t) => X e t

theorem post_pure (h : Q a s) : Post (pure a : Db S E A) Q X s := h

theorem post_bind {x : Db S E A} {f : A → Db S E B} {R : A → S → Prop} {Q : B → S → Prop} (hx : Post x R X s)
    (hf : ∀ a t, R a t → Post (f a) Q X t) : Post (x >>= f) Q X s := by
  unfold Post at hx ⊢
  rw [exec_bind]
  cases hexec : x.exec s with
  | mk r u =>
    rw [hexec] at hx
    cases r with
    | ok a => exact hf a u hx
    | error e => exact hx

theorem post_check {r : Except E A} (hok : ∀ a, r = .ok a → Q a s) (herror : ∀ e, r = .error e → X e s) :
    Post (check r) Q X s := by
  cases r with
  | ok a => exact hok a rfl
  | error e => exact herror e rfl

theorem post_of_returns {prog : Db S E A} (hrun : prog.Returns s a t) (h : Q a t) : Post prog Q X s := by
  unfold Post
  rw [hrun]
  exact h

theorem returns_statement {E' : Type} {error : E → E'} {prog : Db S E A} (hrun : prog.Returns s a t) :
    (statement error prog).Returns s a t := by
  unfold Returns
  rw [exec_statement, hrun]

theorem Post.weaken {Q' : A → S → Prop} {X' : E → S → Prop} {prog : Db S E A} (h : Post prog Q X s)
    (hQ : ∀ a t, Q a t → Q' a t) (hX : ∀ e t, X e t → X' e t) : Post prog Q' X' s := by
  unfold Post at h ⊢
  cases hexec : prog.exec s with
  | mk r t =>
    rw [hexec] at h
    cases r with
    | ok a => exact hQ a t h
    | error e => exact hX e t h

end Posts

section Pairs

variable {S' A' B' X : Type} {Q : A → A' → Prop} {R : S → S' → Prop} {s : S} {s' : S'}

/-- Two programs both succeed, or fail with the same error, and leave related states. -/
def Paired (Q : A → A' → Prop) (R : S → S' → Prop) (prog : Db S E A) (prog' : Db S' E A') (s : S) (s' : S') : Prop :=
  match prog.exec s, prog'.exec s' with
  | (.ok a, t), (.ok a', t') => Q a a' ∧ R t t'
  | (.error e, t), (.error e', t') => e = e' ∧ R t t'
  | _, _ => False

theorem paired_pure {a : A} {a' : A'} (ha : Q a a') (hs : R s s') :
    Paired Q R (pure a : Db S E A) (pure a') s s' := ⟨ha, hs⟩

theorem paired_throw {e : E} (hs : R s s') : Paired Q R (throw e : Db S E A) (throw e) s s' := ⟨rfl, hs⟩

theorem paired_check {Q : A → A → Prop} {r : Except E A} (hok : ∀ a, r = .ok a → Q a a) (hs : R s s') :
    Paired Q R (check r) (check r) s s' := by
  cases r with
  | ok a => exact ⟨hok a rfl, hs⟩
  | error e => exact ⟨rfl, hs⟩

theorem paired_modify {f : S → S} {f' : S' → S'} (h : R (f s) (f' s')) :
    Paired Eq R (modify f : Db S E PUnit) (modify f' : Db S' E PUnit) s s' := ⟨rfl, h⟩

theorem paired_set {t : S} {t' : S'} (h : R t t') :
    Paired Eq R (set t : Db S E PUnit) (set t' : Db S' E PUnit) s s' := ⟨rfl, h⟩

theorem paired_bind {Q' : B → B' → Prop} {x : Db S E B} {x' : Db S' E B'} {f : B → Db S E A} {f' : B' → Db S' E A'}
    (hx : Paired Q' R x x' s s') (hf : ∀ b b' t t', Q' b b' → R t t' → Paired Q R (f b) (f' b') t t') :
    Paired Q R (x >>= f) (x' >>= f') s s' := by
  unfold Paired at hx ⊢
  rw [exec_bind, exec_bind]
  cases hrun : x.exec s with
  | mk r t =>
    cases hrun' : x'.exec s' with
    | mk r' t' =>
      rw [hrun, hrun'] at hx
      cases r with
      | ok b =>
        cases r' with
        | ok b' => exact hf b b' t t' hx.1 hx.2
        | error e' => exact absurd hx id
      | error e =>
        cases r' with
        | ok b' => exact absurd hx id
        | error e' => exact hx

theorem paired_get_bind {f : S → Db S E A} {f' : S' → Db S' E A'} (h : Paired Q R (f s) (f' s') s s') :
    Paired Q R (get >>= f) (get >>= f') s s' := h

theorem paired_atomic {x : Db S E A} {x' : Db S' E A'} (hs : R s s') (h : Paired Q R x x' s s') :
    Paired Q R x.atomic x'.atomic s s' := by
  unfold Paired at h ⊢
  rw [exec_atomic, exec_atomic]
  cases hrun : x.exec s with
  | mk r t =>
    cases hrun' : x'.exec s' with
    | mk r' t' =>
      rw [hrun, hrun'] at h
      cases r with
      | ok a =>
        cases r' with
        | ok a' => exact h
        | error e' => exact absurd h id
      | error e =>
        cases r' with
        | ok a' => exact absurd h id
        | error e' => exact ⟨h.1, hs⟩

theorem paired_zoom {T T' E' : Type} {part : S → T} {put : T → S → S} {part' : S' → T'} {put' : T' → S' → S'}
    {error : E' → E} {P : T → T' → Prop} {x : Db T E' A} {x' : Db T' E' A'}
    (h : Paired Q P x x' (part s) (part' s')) (hput : ∀ t t', P t t' → R (put t s) (put' t' s')) :
    Paired Q R (zoom part put error x) (zoom part' put' error x') s s' := by
  unfold Paired at h ⊢
  rw [exec_zoom, exec_zoom]
  cases hrun : x.exec (part s) with
  | mk r t =>
    cases hrun' : x'.exec (part' s') with
    | mk r' t' =>
      rw [hrun, hrun'] at h
      cases r with
      | ok a =>
        cases r' with
        | ok a' => exact ⟨h.1, hput t t' h.2⟩
        | error e' => exact absurd h id
      | error e =>
        cases r' with
        | ok a' => exact absurd h id
        | error e' => exact ⟨congrArg error h.1, hput t t' h.2⟩

theorem paired_foldlM {f : A → X → Db S E A} {f' : A' → X → Db S' E A'}
    (hstep : ∀ x a a' s s', Q a a' → R s s' → Paired Q R (f a x) (f' a' x) s s') (xs : List X) {a : A} {a' : A'}
    (ha : Q a a') (hs : R s s') : Paired Q R (xs.foldlM f a) (xs.foldlM f' a') s s' := by
  induction xs generalizing a a' s s' with
  | nil => exact ⟨ha, hs⟩
  | cons x xs ih => exact paired_bind (hstep x a a' s s' ha hs) fun b b' t t' hb ht => ih hb ht

theorem paired_forM {f : X → Db S E PUnit} {f' : X → Db S' E PUnit}
    (hstep : ∀ x s s', R s s' → Paired Eq R (f x) (f' x) s s') (xs : List X) (hs : R s s') :
    Paired Eq R (xs.forM f) (xs.forM f') s s' := by
  induction xs generalizing s s' with
  | nil => exact ⟨rfl, hs⟩
  | cons x xs ih => exact paired_bind (hstep x s s' hs) fun _ _ t t' _ ht => ih ht

theorem Paired.weaken {Q₂ : A → A' → Prop} {R₂ : S → S' → Prop} {x : Db S E A} {x' : Db S' E A'} (h : Paired Q R x x' s s')
    (hQ : ∀ a a', Q a a' → Q₂ a a') (hR : ∀ t t', R t t' → R₂ t t') : Paired Q₂ R₂ x x' s s' := by
  unfold Paired at h ⊢
  cases hrun : x.exec s with
  | mk r t =>
    cases hrun' : x'.exec s' with
    | mk r' t' =>
      rw [hrun, hrun'] at h
      cases r with
      | ok a =>
        cases r' with
        | ok a' => exact ⟨hQ a a' h.1, hR t t' h.2⟩
        | error e' => exact h
      | error e =>
        cases r' with
        | ok a' => exact h
        | error e' => exact ⟨h.1, hR t t' h.2⟩

/-- Pairs of runs depend on the runs alone. -/
theorem Paired.congr {x y : Db S E A} {x' y' : Db S' E A'} (hx : x.exec s = y.exec s) (hx' : x'.exec s' = y'.exec s')
    (h : Paired Q R y y' s s') : Paired Q R x x' s s' := by
  unfold Paired at h ⊢
  rw [hx, hx']
  exact h

theorem exec_bind_congr {x y : Db S E A} (f : A → Db S E B) (h : x.exec s = y.exec s) :
    (x >>= f).exec s = (y >>= f).exec s := by
  rw [exec_bind, exec_bind, h]

theorem Paired.returns {prog : Db S E A} {prog' : Db S' E A'} (h : Paired Q R prog prog' s s') {a : A} {t : S}
    (hrun : prog.Returns s a t) : ∃ a' t', prog'.Returns s' a' t' ∧ Q a a' ∧ R t t' := by
  unfold Paired at h
  unfold Returns at hrun ⊢
  rw [hrun] at h
  cases hrun' : prog'.exec s' with
  | mk r' t' =>
    rw [hrun'] at h
    cases r' with
    | ok a' => exact ⟨a', t', rfl, h.1, h.2⟩
    | error e' => exact absurd h id

theorem Paired.exec {prog : Db S E A} {prog' : Db S' E A'} (h : Paired Q R prog prog' s s') :
    R (prog.exec s).2 (prog'.exec s').2 := by
  unfold Paired at h
  cases hrun : prog.exec s with
  | mk r t =>
    cases hrun' : prog'.exec s' with
    | mk r' t' =>
      rw [hrun, hrun'] at h
      cases r with
      | ok a =>
        cases r' with
        | ok a' => exact h.2
        | error e' => exact absurd h id
      | error e =>
        cases r' with
        | ok a' => exact absurd h id
        | error e' => exact h.2

end Pairs

end Db
