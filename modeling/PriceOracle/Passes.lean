import PriceOracle.Database

/-!
# Passes over items

A pass runs one program for each item of a list and ends at the first error. `Rows` is what
is known of a program that works on the row of its item: an item that is quiet leaves the
other rows alone, and whether it stops the pass depends on its own row. How far a pass gets
then follows from the list.
-/

namespace Db

variable {S E X : Type}

/-- The items one by one, and the sum of what they return. -/
def pass (step : X → Db S E ℕ) : List X → Db S E ℕ
  | [] => pure 0
  | item :: items => do
    let first ← step item
    let rest ← pass step items
    return first + rest

section Runs

variable {step : X → Db S E ℕ} {item : X} {items : List X} {s t : S}

theorem pass_nil (s : S) : ((pass step []).exec s).2 = s := rfl

theorem pass_cons_ok {n : ℕ} (h : (step item).Returns s n t) :
    ((pass step (item :: items)).exec s).2 = ((pass step items).exec t).2 := by
  rw [pass, exec_bind, h]
  dsimp only
  rw [exec_bind]
  cases (pass step items).exec t with
  | mk result u => cases result <;> rfl

theorem pass_cons_error {e : E} (h : (step item).exec s = (.error e, t)) :
    ((pass step (item :: items)).exec s).2 = t := by
  rw [pass, exec_bind, h]

theorem exec_statement_ok {A E' : Type} {prog : Db S E A} {a : A} (error : E → E') (h : prog.Returns s a t) :
    (statement error prog).exec s = (.ok a, t) := by
  rw [exec_statement, h]

theorem exec_statement_error {A E' : Type} {prog : Db S E A} {e : E} (error : E → E') (h : prog.exec s = (.error e, t)) :
    (statement error prog).exec s = (.error (error e), s) := by
  rw [exec_statement, h]

end Runs

/-- In a list with an item that is not `p` there is a first one. -/
theorem exists_first {p : X → Prop} {items : List X} (h : ¬∀ item ∈ items, p item) :
    ∃ front item back, items = front ++ item :: back ∧ (∀ other ∈ front, p other) ∧ ¬p item := by
  induction items with
  | nil => exact absurd (fun item hitem => absurd hitem List.not_mem_nil) h
  | cons head items ih =>
    by_cases hhead : p head
    · have hrest : ¬∀ item ∈ items, p item := fun hall => h (List.forall_mem_cons.mpr ⟨hhead, hall⟩)
      obtain ⟨front, item, back, rfl, hfront, hitem⟩ := ih hrest
      exact ⟨head :: front, item, back, rfl, List.forall_mem_cons.mpr ⟨hhead, hfront⟩, hitem⟩
    · exact ⟨[], head, items, rfl, fun other hother => absurd hother List.not_mem_nil, hhead⟩

/-- A pass over what its items are read from. -/
theorem pass_of_mapM {Y : Type} {step : X → Db S E ℕ} {read : Y → Except E X} {entries : List Y} :
    ∀ {items : List X}, entries.mapM read = .ok items →
      pass (fun entry => check (read entry) >>= step) entries = pass step items := by
  induction entries with
  | nil =>
    rintro items ⟨⟩
    rfl
  | cons entry entries ih =>
    intro items h
    rw [List.mapM_cons] at h
    obtain ⟨item, hitem, h⟩ := except_bind_ok.mp h
    obtain ⟨rest, hrest, h⟩ := except_bind_ok.mp h
    cases h
    rw [pass, pass, ih hrest, hitem]
    rfl

section Rows

variable {K V : Type}

/-- A program that works on the row of its item, with the rows as the pass has listed them and what a row
is when its item is done. -/
structure Rows (step : X → Db S E ℕ) (key : X → K) (row : K → S → V) (listed : X → V) (quiet stops : X → Prop)
    (done : X → V → Prop) : Prop where
  frame : ∀ item s k, row (key item) s = listed item → quiet item → k ≠ key item →
    row k ((step item).exec s).2 = row k s
  goes : ∀ item s, row (key item) s = listed item → quiet item → ¬stops item →
    ∃ n t, (step item).Returns s n t ∧ done item (row (key item) t)
  ends : ∀ item s, row (key item) s = listed item → quiet item → stops item →
    ∃ e t, (step item).exec s = (.error e, t)

variable {step : X → Db S E ℕ} {key : X → K} {row : K → S → V} {listed : X → V} {quiet stops : X → Prop}
  {done : X → V → Prop}

/-- A pass goes through items that are quiet and do not stop it. Their rows are done, and the others are
as they were. -/
theorem Rows.reaches (h : Rows step key row listed quiet stops done) {front back : List X} {s : S}
    (hnodup : ((front ++ back).map key).Nodup) (hlisted : ∀ item ∈ front ++ back, row (key item) s = listed item)
    (hfront : ∀ item ∈ front, quiet item ∧ ¬stops item) :
    ∃ t, ((pass step (front ++ back)).exec s).2 = ((pass step back).exec t).2 ∧
      (∀ k, (∀ item ∈ front, k ≠ key item) → row k t = row k s) ∧ ∀ item ∈ front, done item (row (key item) t) := by
  induction front generalizing s with
  | nil => exact ⟨s, rfl, fun _ _ => rfl, fun item hitem => absurd hitem List.not_mem_nil⟩
  | cons head front ih =>
    obtain ⟨hquiet, hgo⟩ := hfront head List.mem_cons_self
    have hhead := hlisted head List.mem_cons_self
    obtain ⟨n, t, hstep, hdone⟩ := h.goes head s hhead hquiet hgo
    have hframe : ∀ k, k ≠ key head → row k t = row k s := fun k hk => by
      have hrow := h.frame head s k hhead hquiet hk
      rw [hstep] at hrow
      exact hrow
    obtain ⟨hfresh, hnodup'⟩ := List.nodup_cons.mp hnodup
    have hlisted' : ∀ item ∈ front ++ back, row (key item) t = listed item := by
      intro item hitem
      rw [hframe (key item) fun heq => hfresh (heq ▸ List.mem_map_of_mem hitem)]
      exact hlisted item (.tail _ hitem)
    obtain ⟨u, hpass, hrow, hrest⟩ := ih hnodup' hlisted' fun item hitem => hfront item (.tail _ hitem)
    refine ⟨u, (pass_cons_ok hstep).trans hpass, fun k hk => ?_, List.forall_mem_cons.mpr ⟨?_, hrest⟩⟩
    · rw [hrow k fun item hitem => hk item (.tail _ hitem), hframe k (hk head List.mem_cons_self)]
    · rw [hrow (key head) fun item hitem heq => hfresh (heq ▸ List.mem_map_of_mem (List.mem_append_left _ hitem))]
      exact hdone

/-- A row that belongs to none of the items is left alone when all of them are quiet. -/
theorem Rows.untouched (h : Rows step key row listed quiet stops done) {items : List X} {s : S}
    (hnodup : (items.map key).Nodup) (hlisted : ∀ item ∈ items, row (key item) s = listed item)
    (hquiet : ∀ item ∈ items, quiet item) {k : K} (hk : ∀ item ∈ items, k ≠ key item) :
    row k ((pass step items).exec s).2 = row k s := by
  by_cases hall : ∀ item ∈ items, ¬stops item
  · have hreach := h.reaches (by rwa [List.append_nil items]) (by rwa [List.append_nil items])
      fun item hitem => ⟨hquiet item hitem, hall item hitem⟩
    obtain ⟨t, hpass, hrow, -⟩ := hreach
    rw [List.append_nil] at hpass
    rw [hpass, pass_nil]
    exact hrow k hk
  · obtain ⟨front, item, back, rfl, hfront, hitem⟩ := exists_first hall
    have hmem : item ∈ front ++ item :: back := List.mem_append_right _ List.mem_cons_self
    obtain ⟨t, hpass, hrow, -⟩ := h.reaches hnodup hlisted fun other hother =>
      ⟨hquiet other (List.mem_append_left _ hother), hfront other hother⟩
    have hlisted' : row (key item) t = listed item := by
      rw [hrow (key item) fun other hother heq => ?_, hlisted item hmem]
      rw [List.map_append, List.map_cons] at hnodup
      exact (List.nodup_append.mp hnodup).2.2 _ (List.mem_map_of_mem hother) _ List.mem_cons_self heq.symm
    obtain ⟨e, u, herror⟩ := h.ends item t hlisted' (hquiet item hmem) (not_not.mp hitem)
    have hframe := h.frame item t k hlisted' (hquiet item hmem) (hk item hmem)
    rw [herror] at hframe
    rw [hpass, pass_cons_error herror, hframe]
    exact hrow k fun other hother => hk other (List.mem_append_left _ hother)

end Rows

end Db
