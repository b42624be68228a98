import Mathlib.Data.List.Basic

/-!
# Streams

A reader takes a stream piece by piece and delivers messages until an error stops it. A reader of
chunks that answers an error with nothing else delivers, of the chunk with the error, no message.
-/

namespace Streams

variable {S B M E : Type}

/-- What was delivered before, too. -/
def deliver (messages : List M) (outcome : List M × Except E S) : List M × Except E S :=
  (messages ++ outcome.1, outcome.2)

/-- The messages before the first error, and the state or the error at the end. -/
def run (step : S → B → Except E (S × List M)) : S → List B → List M × Except E S
  | state, [] => ([], .ok state)
  | state, piece :: pieces =>
    match step state piece with
    | .error error => ([], .error error)
    | .ok (state, messages) => deliver messages (run step state pieces)

/-- A chunk at a time: all of its messages or an error. -/
def whole (step : S → B → Except E (S × List M)) (state : S) (chunk : List B) : Except E (S × List M) :=
  match run step state chunk with
  | (messages, .ok state) => .ok (state, messages)
  | (_, .error error) => .error error

variable {step : S → B → Except E (S × List M)} {state after : S} {messages : List M} {error : E}

@[simp]
theorem deliver_nil (outcome : List M × Except E S) : deliver [] outcome = outcome := rfl

theorem deliver_deliver (messages others : List M) (outcome : List M × Except E S) :
    deliver messages (deliver others outcome) = deliver (messages ++ others) outcome := by
  rw [deliver, deliver, deliver, List.append_assoc]

theorem run_cons_ok {piece : B} {pieces : List B} (h : step state piece = .ok (after, messages)) :
    run step state (piece :: pieces) = deliver messages (run step after pieces) := by
  rw [run, h]

theorem run_cons_error {piece : B} {pieces : List B} (h : step state piece = .error error) :
    run step state (piece :: pieces) = ([], .error error) := by
  rw [run, h]

theorem run_singleton {piece : B} (h : step state piece = .ok (after, messages)) :
    run step state [piece] = (messages, .ok after) := by
  rw [run_cons_ok h, run, deliver, List.append_nil]

/-- What follows is read from where the first part ended. -/
theorem run_append_ok {pieces : List B} (others : List B) (h : run step state pieces = (messages, .ok after)) :
    run step state (pieces ++ others) = deliver messages (run step after others) := by
  induction pieces generalizing state messages with
  | nil =>
    cases h
    rfl
  | cons piece pieces ih =>
    cases hpiece : step state piece with
    | error error =>
      rw [run_cons_error hpiece] at h
      cases h
    | ok next =>
      obtain ⟨middle, first⟩ := next
      rw [run_cons_ok hpiece] at h
      have hend := congrArg Prod.snd h
      have hmessages : first ++ (run step middle pieces).1 = messages := congrArg Prod.fst h
      have hrest : run step middle pieces = ((run step middle pieces).1, .ok after) := Prod.ext rfl hend
      rw [List.cons_append, run_cons_ok hpiece, ih hrest, deliver_deliver, hmessages]

/-- After an error nothing is read. -/
theorem run_append_error {pieces : List B} (others : List B) (h : run step state pieces = (messages, .error error)) :
    run step state (pieces ++ others) = (messages, .error error) := by
  induction pieces generalizing state messages with
  | nil => cases h
  | cons piece pieces ih =>
    cases hpiece : step state piece with
    | error other =>
      rw [run_cons_error hpiece] at h
      rw [List.cons_append, run_cons_error hpiece, h]
    | ok next =>
      obtain ⟨middle, first⟩ := next
      rw [run_cons_ok hpiece] at h
      have hend := congrArg Prod.snd h
      have hrest : run step middle pieces = ((run step middle pieces).1, .error error) := Prod.ext rfl hend
      rw [List.cons_append, run_cons_ok hpiece, ih hrest, ← hrest, h]

/-- Whatever the chunks, the same end is reached. -/
theorem run_whole_outcome (chunks : List (List B)) :
    (run (whole step) state chunks).2 = (run step state chunks.flatten).2 := by
  induction chunks generalizing state with
  | nil => rfl
  | cons chunk chunks ih =>
    rw [List.flatten_cons]
    cases hchunk : run step state chunk with
    | mk messages outcome =>
      cases outcome with
      | error error =>
        have hwhole : whole step state chunk = .error error := by rw [whole, hchunk]
        rw [run_cons_error hwhole, run_append_error chunks.flatten hchunk]
      | ok after =>
        have hwhole : whole step state chunk = .ok (after, messages) := by rw [whole, hchunk]
        rw [run_cons_ok hwhole, run_append_ok chunks.flatten hchunk]
        exact ih

/-- Without an error every chunking delivers the same messages. -/
theorem run_whole_of_ok {chunks : List (List B)} (h : (run step state chunks.flatten).2 = .ok after) :
    run (whole step) state chunks = run step state chunks.flatten := by
  induction chunks generalizing state with
  | nil => rfl
  | cons chunk chunks ih =>
    rw [List.flatten_cons] at h ⊢
    cases hchunk : run step state chunk with
    | mk messages outcome =>
      cases outcome with
      | error error =>
        rw [run_append_error chunks.flatten hchunk] at h
        cases h
      | ok middle =>
        have hwhole : whole step state chunk = .ok (middle, messages) := by rw [whole, hchunk]
        rw [run_append_ok chunks.flatten hchunk] at h ⊢
        rw [run_cons_ok hwhole, ih h]

/-- With an error, what is delivered is what was complete before the chunk with the error. -/
theorem run_whole_of_error {chunks : List (List B)} (h : (run step state chunks.flatten).2 = .error error) :
    ∃ before chunk later middle, chunks = before ++ chunk :: later ∧
      run step state before.flatten = ((run (whole step) state chunks).1, .ok middle) ∧
      (run step middle chunk).2 = .error error := by
  induction chunks generalizing state with
  | nil => cases h
  | cons chunk chunks ih =>
    rw [List.flatten_cons] at h
    cases hchunk : run step state chunk with
    | mk messages outcome =>
      cases outcome with
      | error other =>
        have hwhole : whole step state chunk = .error other := by rw [whole, hchunk]
        rw [run_append_error chunks.flatten hchunk] at h
        refine ⟨[], chunk, chunks, state, rfl, ?_, by rw [hchunk]; exact h⟩
        rw [run_cons_error hwhole]
        rfl
      | ok middle =>
        have hwhole : whole step state chunk = .ok (middle, messages) := by rw [whole, hchunk]
        rw [run_append_ok chunks.flatten hchunk] at h
        obtain ⟨before, last, later, final, hchunks, hbefore, hlast⟩ := ih h
        refine ⟨chunk :: before, last, later, final, by rw [hchunks, List.cons_append], ?_, hlast⟩
        rw [List.flatten_cons, run_append_ok before.flatten hchunk, hbefore, run_cons_ok hwhole]
        rfl

/-- The messages of a first part come first. -/
theorem run_append_prefix {pieces others : List B} (h : run step state pieces = (messages, .ok after)) :
    messages <+: (run step state (pieces ++ others)).1 := by
  rw [run_append_ok others h]
  exact List.prefix_append messages _

end Streams
