import PriceOracle.RoundLimits

/-!
# A search that retries

Candidates that fail with an error for which a smaller limit is tried: the search goes down through a fixed
sequence of limits until one of them can be taken, and then never comes back empty.
-/

namespace PriceOracle

namespace RoundSearch

section Retries

variable {S E C : Type} {rules : Rules S E C} {machine : Machine} {state : S} {available maxWeight : ℕ}
  {covered : ℕ → Prop} {weight : ℕ → ℕ}

/-- In a fixed state a limit takes as many groups as there are up to it. Taken together they are covered, and weigh
something, or fail with an error for which a smaller limit is tried. -/
structure Choices (rules : Rules S E C) (state : S) (available : ℕ) (covered : ℕ → Prop) (weight : ℕ → ℕ) : Prop where
  available_pos : 0 < available
  covers : ∀ limit, 0 < limit → covered (min limit available) → ∃ candidate,
    (rules.candidate limit).exec state = (.ok (some candidate), state) ∧ rules.count candidate = min limit available ∧
      rules.estimatedWeight candidate = .ok (weight (min limit available))
  shorts : ∀ limit, 0 < limit → ¬covered (min limit available) → ∃ error,
    (rules.candidate limit).exec state = (.error error, state) ∧ rules.retries error = true

/-- Going down from a limit as the search does, a limit is reached whose groups are covered, and light enough
together or alone: below groups that are not covered or too heavy, the next limit is about half as large. -/
inductive Reaches (available : ℕ) (covered : ℕ → Prop) (weight : ℕ → ℕ) (maxWeight aloneWeight : ℕ) : ℕ → Prop where
  | light {limit : ℕ} (hcovered : covered (min limit available)) (hlight : weight (min limit available) ≤ maxWeight) :
      Reaches available covered weight maxWeight aloneWeight limit
  | alone {limit : ℕ} (hcovered : covered (min limit available)) (hone : min limit available = 1)
      (hlight : weight (min limit available) ≤ aloneWeight) : Reaches available covered weight maxWeight aloneWeight limit
  | short {limit : ℕ} (hcovered : ¬covered (min limit available)) (hlimit : 1 < limit)
      (hrest : Reaches available covered weight maxWeight aloneWeight (1 + (limit - 1 - 1) / 2)) :
      Reaches available covered weight maxWeight aloneWeight limit
  | heavy {limit : ℕ} (hcovered : covered (min limit available)) (hheavy : maxWeight < weight (min limit available))
      (hmany : 1 < min limit available)
      (hrest : Reaches available covered weight maxWeight aloneWeight (1 + (min limit available - 1 - 1) / 2)) :
      Reaches available covered weight maxWeight aloneWeight limit

/-- A result of the loop that is a candidate within a bound. -/
def Found (rules : Rules S E C) (bound : ℕ) (ended : Except E (Searched C) × S) : Prop :=
  ∃ candidate weight, ended.1 = .ok (.returned (some candidate)) ∧ rules.estimatedWeight candidate = .ok weight ∧ weight ≤ bound

variable (hchoices : Choices rules state available covered weight) (hchecks : machine.checks = false)
  (hmachine : rules.maxLimit < machine.modulus)

include hchoices hchecks hmachine in
/-- Once a candidate within the bound is found, no error of a larger one loses it. -/
theorem searchLoop_found : ∀ {turns : ℕ} {search : Search C} {best : C}, search.best = some best →
    1 < search.lowerLimit → search.lowerLimit ≤ available + 1 → search.lowerLimit ≤ search.upperLimit + 1 →
    search.upperLimit ≤ rules.maxLimit → rules.estimatedWeight best = .ok (weight (search.lowerLimit - 1)) →
    weight (search.lowerLimit - 1) ≤ maxWeight →
    (search.lowerLimit ≤ search.upperLimit → search.limit = search.lowerLimit + (search.upperLimit - search.lowerLimit) / 2) →
    search.upperLimit + 1 < turns + search.lowerLimit →
      Found rules maxWeight ((searchLoop machine rules maxWeight turns search).exec state) := by
  intro turns
  induction turns with
  | zero =>
    intro search best _ _ _ hcrossed _ _ _ _ hturns
    omega
  | succ turns ih =>
    intro search best hbest hlower havailable hcrossed hupper hweight hlight hlimit hturns
    by_cases hbetween : search.lowerLimit ≤ search.upperLimit
    · have hlimit := hlimit hbetween
      by_cases hcovered : covered (min search.limit available)
      · obtain ⟨candidate, hfixed, hcount, hcandidate⟩ := hchoices.covers search.limit (by omega) hcovered
        rw [searchLoop_turn hbetween hfixed hcandidate, hcount]
        by_cases hfits : weight (min search.limit available) ≤ maxWeight
        · rw [if_pos hfits]
          by_cases hlast : min search.limit available < search.limit ∨ search.limit = rules.maxLimit
          · rw [if_pos hlast]
            exact ⟨candidate, _, rfl, hcandidate, hfits⟩
          · have hwhole : min search.limit available = search.limit := by omega
            rw [hwhole] at hcandidate hfits ⊢
            obtain ⟨limit, hmove, hnext⟩ := move_wrapping (some candidate) (search.limit + 1) hchecks
              (show search.upperLimit < machine.modulus by omega)
            rw [if_neg (by omega), add_of_lt (by omega), hmove]
            exact ih rfl (show 1 < search.limit + 1 by omega) (show search.limit + 1 ≤ available + 1 by omega)
              (show search.limit + 1 ≤ search.upperLimit + 1 by omega) hupper hcandidate hfits hnext
              (show search.upperLimit + 1 < turns + (search.limit + 1) by omega)
        · -- The groups are more than those of the best candidate, which are light.
          have hmore : search.lowerLimit ≤ min search.limit available := by
            by_contra hless
            rw [show min search.limit available = search.lowerLimit - 1 by omega] at hfits
            exact hfits hlight
          obtain ⟨limit, hmove, hnext⟩ := move_wrapping search.best search.lowerLimit hchecks
            (show min search.limit available - 1 < machine.modulus by omega)
          rw [if_neg hfits, if_neg (by omega), sub_of_le (by omega) (by omega), hmove]
          exact ih hbest hlower havailable (show search.lowerLimit ≤ min search.limit available - 1 + 1 by omega)
            (show min search.limit available - 1 ≤ rules.maxLimit by omega) hweight hlight hnext
            (show min search.limit available - 1 + 1 < turns + search.lowerLimit by omega)
      · obtain ⟨error, hfixed, hretries⟩ := hchoices.shorts search.limit (by omega) hcovered
        obtain ⟨limit, hmove, hnext⟩ := move_wrapping search.best search.lowerLimit hchecks
          (show search.limit - 1 < machine.modulus by omega)
        rw [searchLoop_retried hbetween hfixed hretries, if_pos (by omega), sub_of_le (by omega) (by omega), hmove]
        exact ih hbest hlower havailable (show search.lowerLimit ≤ search.limit - 1 + 1 by omega)
          (show search.limit - 1 ≤ rules.maxLimit by omega) hweight hlight hnext
          (show search.limit - 1 + 1 < turns + search.lowerLimit by omega)
    · rw [searchLoop_ended (not_le.mp hbetween)]
      exact ⟨best, _, by rw [hbest], hweight, hlight⟩

/-- What becomes of a candidate of one group that is too heavy for the bound. -/
def AloneWithin (rules : Rules S E C) (aloneWeight : ℕ) (state : S) : Prop :=
  ∀ candidate weight, rules.estimatedWeight candidate = .ok weight →
    (weight ≤ aloneWeight → Found rules aloneWeight
      ((Searched.returned <$> rules.alone candidate weight : Db S E (Searched C)).exec state)) ∧
    (aloneWeight < weight → ∃ error, ((Searched.returned <$> rules.alone candidate weight : Db S E (Searched C)).exec state).1 =
      .error error)

variable {aloneWeight : ℕ} (halone : AloneWithin rules aloneWeight state) (hbound : maxWeight ≤ aloneWeight)

theorem reaches_short {limit : ℕ} (hcovered : ¬covered (min limit available)) (hlimit : 1 < limit) :
    Reaches available covered weight maxWeight aloneWeight limit ↔
      Reaches available covered weight maxWeight aloneWeight (1 + (limit - 1 - 1) / 2) := by
  constructor
  · intro h
    cases h with
    | light hother => exact absurd hother hcovered
    | alone hother => exact absurd hother hcovered
    | short _ _ hrest => exact hrest
    | heavy hother => exact absurd hother hcovered
  · exact .short hcovered hlimit

theorem reaches_heavy {limit : ℕ} (hcovered : covered (min limit available)) (hheavy : maxWeight < weight (min limit available))
    (hmany : 1 < min limit available) :
    Reaches available covered weight maxWeight aloneWeight limit ↔
      Reaches available covered weight maxWeight aloneWeight (1 + (min limit available - 1 - 1) / 2) := by
  constructor
  · intro h
    cases h with
    | light _ hlight => exact absurd hheavy (not_lt.mpr hlight)
    | alone _ hone => omega
    | short hother => exact absurd hcovered hother
    | heavy _ _ _ hrest => exact hrest
  · exact .heavy hcovered hheavy hmany

/-- From every limit the search comes down to a single group at the latest. -/
theorem reaches_of_single (havailable : 0 < available) (hcovered : covered 1) (hlight : weight 1 ≤ aloneWeight) :
    ∀ limit, 0 < limit → Reaches available covered weight maxWeight aloneWeight limit := by
  intro limit
  induction limit using Nat.strong_induction_on with
  | h limit ih =>
    intro hlimit
    by_cases hone : min limit available = 1
    · exact .alone (hone ▸ hcovered) hone (hone ▸ hlight)
    · by_cases hmany : covered (min limit available)
      · rcases Nat.lt_or_ge maxWeight (weight (min limit available)) with hheavy | hfits
        · exact .heavy hmany hheavy (by omega) (ih _ (by omega) (by omega))
        · exact .light hmany hfits
      · exact .short hmany (by omega) (ih _ (by omega) (by omega))

theorem Found.mono {bound bound' : ℕ} {ended : Except E (Searched C) × S} (h : Found rules bound ended)
    (hle : bound ≤ bound') : Found rules bound' ended := by
  obtain ⟨candidate, weight, hended, hweight, hbound⟩ := h
  exact ⟨candidate, weight, hended, hweight, hbound.trans hle⟩

include hchoices hchecks hmachine halone hbound in
/-- As long as nothing is found, the search goes down from limit to limit. -/
theorem searchLoop_reaches : ∀ {turns : ℕ} {search : Search C}, search.best = none → search.lowerLimit = 1 →
    0 < search.limit → search.limit ≤ search.upperLimit → search.upperLimit ≤ rules.maxLimit → search.upperLimit < turns →
      (Reaches available covered weight maxWeight aloneWeight search.limit →
        Found rules aloneWeight ((searchLoop machine rules maxWeight turns search).exec state)) ∧
      (¬Reaches available covered weight maxWeight aloneWeight search.limit →
        ∃ error, ((searchLoop machine rules maxWeight turns search).exec state).1 = .error error) := by
  have havailable := hchoices.available_pos
  intro turns
  induction turns with
  | zero =>
    intro search _ _ _ _ _ hturns
    omega
  | succ turns ih =>
    intro search hbest hlower hpos hle hupper hturns
    have hbetween : search.lowerLimit ≤ search.upperLimit := by omega
    by_cases hcovered : covered (min search.limit available)
    · obtain ⟨candidate, hfixed, hcount, hcandidate⟩ := hchoices.covers search.limit hpos hcovered
      rw [searchLoop_turn hbetween hfixed hcandidate, hcount]
      by_cases hfits : weight (min search.limit available) ≤ maxWeight
      · rw [if_pos hfits]
        refine ⟨fun _ => Found.mono ?_ hbound, fun hnot => absurd (.light hcovered hfits) hnot⟩
        by_cases hlast : min search.limit available < search.limit ∨ search.limit = rules.maxLimit
        · rw [if_pos hlast]
          exact ⟨candidate, _, rfl, hcandidate, hfits⟩
        · have hwhole : min search.limit available = search.limit := by omega
          rw [hwhole] at hcandidate hfits ⊢
          obtain ⟨limit, hmove, hnext⟩ := move_wrapping (some candidate) (search.limit + 1) hchecks
            (show search.upperLimit < machine.modulus by omega)
          rw [if_neg (by omega), add_of_lt (by omega), hmove]
          exact searchLoop_found hchoices hchecks hmachine rfl (show 1 < search.limit + 1 by omega)
            (show search.limit + 1 ≤ available + 1 by omega) (show search.limit + 1 ≤ search.upperLimit + 1 by omega)
            hupper hcandidate hfits hnext (show search.upperLimit + 1 < turns + (search.limit + 1) by omega)
      · rw [if_neg hfits]
        by_cases hone : min search.limit available = 1
        · rw [if_pos hone]
          obtain ⟨hwithin, hbeyond⟩ := halone candidate _ hcandidate
          constructor
          · intro hreaches
            cases hreaches with
            | light _ hlight => exact absurd hlight hfits
            | alone _ _ hlight => exact hwithin hlight
            | short hother => exact absurd hcovered hother
            | heavy _ _ hmany => omega
          · exact fun hnot => hbeyond (not_le.mp fun hlight => hnot (.alone hcovered hone hlight))
        · have hmany : 1 < min search.limit available := by omega
          obtain ⟨limit, hmove, hnext⟩ := move_wrapping search.best search.lowerLimit hchecks
            (show min search.limit available - 1 < machine.modulus by omega)
          have hlimit := hnext (by omega)
          rw [hlower] at hlimit
          rw [if_neg hone, sub_of_le (by omega) (by omega), hmove, reaches_heavy hcovered (not_le.mp hfits) hmany, ← hlimit]
          exact @ih ⟨search.lowerLimit, min search.limit available - 1, limit, search.best⟩ hbest hlower
            (show 0 < limit by omega) (show limit ≤ min search.limit available - 1 by omega)
            (show min search.limit available - 1 ≤ rules.maxLimit by omega)
            (show min search.limit available - 1 < turns by omega)
    · obtain ⟨error, hfixed, hretries⟩ := hchoices.shorts search.limit hpos hcovered
      rw [searchLoop_retried hbetween hfixed hretries]
      by_cases hone : 1 < search.limit
      · obtain ⟨limit, hmove, hnext⟩ := move_wrapping search.best search.lowerLimit hchecks
          (show search.limit - 1 < machine.modulus by omega)
        have hlimit := hnext (by omega)
        rw [hlower] at hlimit
        rw [if_pos hone, sub_of_le (by omega) (by omega), hmove, reaches_short hcovered hone, ← hlimit]
        exact @ih ⟨search.lowerLimit, search.limit - 1, limit, search.best⟩ hbest hlower
          (show 0 < limit by omega) (show limit ≤ search.limit - 1 by omega)
          (show search.limit - 1 ≤ rules.maxLimit by omega) (show search.limit - 1 < turns by omega)
      · rw [if_neg hone]
        refine ⟨fun hreaches => ?_, fun _ => ⟨error, rfl⟩⟩
        cases hreaches with
        | light hother => exact absurd hother hcovered
        | alone hother => exact absurd hother hcovered
        | short _ hmore => exact absurd hmore hone
        | heavy hother => exact absurd hother hcovered

end Retries

end RoundSearch

end PriceOracle
