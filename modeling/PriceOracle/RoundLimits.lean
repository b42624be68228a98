import PriceOracle.RoundSearch

/-!
# What the search for a round finds

Candidates that grow with their limit: the search ends, without overflow checks it returns the largest one
within the bound, and a limit leaves its type exactly when it has to look below its first candidate.
-/

namespace PriceOracle

namespace RoundSearch

variable {S E C : Type} {rules : Rules S E C} {machine : Machine} {maxWeight : ℕ}

/-- In a fixed state a candidate holds the first of the available batches up to its limit, and more of them
weigh no less. -/
structure Growing (rules : Rules S E C) (state : S) (outcome : ℕ → Except E (Option C)) (available : ℕ)
    (weight : ℕ → ℕ) : Prop where
  fixed : ∀ limit, (rules.candidate limit).exec state = (outcome limit, state)
  empty : available = 0 → ∀ limit, 0 < limit → outcome limit = .ok none
  holds : ∀ limit, 0 < limit → limit ≤ available → ∃ candidate, outcome limit = .ok (some candidate) ∧
    rules.count candidate = limit ∧ rules.estimatedWeight candidate = .ok (weight limit)
  all : ∀ limit, available ≤ limit → outcome limit = outcome available
  grows : Monotone weight

/-- The candidate of the largest limit within the bound. -/
def Largest (rules : Rules S E C) (outcome : ℕ → Except E (Option C)) (maxWeight : ℕ) (candidate : C) : Prop :=
  ∃ limit, 0 < limit ∧ limit ≤ rules.maxLimit ∧ outcome limit = .ok (some candidate) ∧
    (∃ weight, rules.estimatedWeight candidate = .ok weight ∧ weight ≤ maxWeight) ∧
    ∀ larger other weight, limit < larger → larger ≤ rules.maxLimit → outcome larger = .ok (some other) →
      rules.estimatedWeight other = .ok weight → maxWeight < weight

section Turns

variable {state : S} {outcome : ℕ → Except E (Option C)} {search : Search C} {turns : ℕ} {candidate : C} {weight : ℕ}

/-- What follows a turn that moved a bound. -/
def continued (machine : Machine) (rules : Rules S E C) (maxWeight turns : ℕ) (state : S) (next : Option (Search C)) :
    Except E (Searched C) × S :=
  match next with
  | some search => (searchLoop machine rules maxWeight turns search).exec state
  | none => (.ok .panicked, state)

theorem searchLoop_ended (h : search.upperLimit < search.lowerLimit) :
    (searchLoop machine rules maxWeight (turns + 1) search).exec state = (.ok (.returned search.best), state) := by
  unfold searchLoop
  rw [if_pos h]
  rfl

/-- A turn between the bounds, once its candidate is known. -/
theorem searchLoop_turn (hbetween : search.lowerLimit ≤ search.upperLimit)
    (hfixed : (rules.candidate search.limit).exec state = (.ok (some candidate), state))
    (hweight : rules.estimatedWeight candidate = .ok weight) :
    (searchLoop machine rules maxWeight (turns + 1) search).exec state =
      if weight ≤ maxWeight then
        if rules.count candidate < search.limit ∨ search.limit = rules.maxLimit then
          (.ok (.returned (some candidate)), state)
        else continued machine rules maxWeight turns state
          (Search.move machine (some candidate) (machine.add (rules.count candidate) 1) (some search.upperLimit))
      else if rules.count candidate = 1 then
        (Searched.returned <$> rules.alone candidate weight : Db S E (Searched C)).exec state
      else continued machine rules maxWeight turns state
        (Search.move machine search.best (some search.lowerLimit) (machine.sub (rules.count candidate) 1)) := by
  have hcaught : (Db.caught (rules.candidate search.limit) : Db S E _).exec state = (.ok (.ok (some candidate)), state) := by
    change ((.ok ((rules.candidate search.limit).exec state).1, ((rules.candidate search.limit).exec state).2) :
      Except E _ × S) = _
    rw [hfixed]
  have hchecked : (Db.check (rules.estimatedWeight candidate) : Db S E ℕ).exec state = (.ok weight, state) := by
    rw [hweight]
    rfl
  rw [searchLoop, if_neg (Nat.not_lt.mpr hbetween), Db.exec_bind, hcaught]
  dsimp only
  rw [Db.exec_bind, hchecked]
  dsimp only
  split_ifs
  · rfl
  · cases hmove : Search.move machine (some candidate) (machine.add (rules.count candidate) 1) (some search.upperLimit) <;> rfl
  · rfl
  · cases hmove : Search.move machine search.best (some search.lowerLimit) (machine.sub (rules.count candidate) 1) <;> rfl

/-- A turn whose candidate failed with an error for which a smaller limit is tried. -/
theorem searchLoop_retried {error : E} (hbetween : search.lowerLimit ≤ search.upperLimit)
    (hfixed : (rules.candidate search.limit).exec state = (.error error, state)) (hretries : rules.retries error = true) :
    (searchLoop machine rules maxWeight (turns + 1) search).exec state =
      if 1 < search.limit then continued machine rules maxWeight turns state
        (Search.move machine search.best (some search.lowerLimit) (machine.sub search.limit 1))
      else (.error error, state) := by
  have hcaught : (Db.caught (rules.candidate search.limit) : Db S E _).exec state = (.ok (.error error), state) := by
    change ((.ok ((rules.candidate search.limit).exec state).1, ((rules.candidate search.limit).exec state).2) :
      Except E _ × S) = _
    rw [hfixed]
  rw [searchLoop, if_neg (Nat.not_lt.mpr hbetween), Db.exec_bind, hcaught]
  dsimp only
  by_cases hone : 1 < search.limit
  · rw [if_pos ⟨hretries, hone⟩, if_pos hone]
    cases hmove : Search.move machine search.best (some search.lowerLimit) (machine.sub search.limit 1) <;> rfl
  · rw [if_neg (fun h => hone h.2), if_neg hone]
    rfl

/-- Without overflow checks there is always a next turn, in which the limit is read only between the bounds. -/
theorem move_wrapping {upper : ℕ} (best : Option C) (lower : ℕ) (hchecks : machine.checks = false)
    (hupper : upper < machine.modulus) : ∃ limit, Search.move machine best (some lower) (some upper) =
      some ⟨lower, upper, limit, best⟩ ∧ (lower ≤ upper → limit = lower + (upper - lower) / 2) := by
  obtain ⟨limit, hlimit⟩ := Option.isSome_iff_exists.mp
    (midpoint_of_gt_wrapping hchecks : (machine.midpoint lower upper).isSome)
  refine ⟨limit, ?_, fun hle => ?_⟩
  · simp only [Search.move, Option.bind_eq_bind, Option.bind_some, hlimit]
    rfl
  · rw [midpoint_of_le hle hupper] at hlimit
    exact (Option.some.inj hlimit).symm

end Turns

section Bounds

variable {state : S} {outcome : ℕ → Except E (Option C)} {available : ℕ} {weight : ℕ → ℕ} {search : Search C}

/-- The bounds between two turns, once the first candidate was too heavy: the answer is the best candidate so far
or one of a limit between them. -/
structure Bracket (rules : Rules S E C) (outcome : ℕ → Except E (Option C)) (available : ℕ) (weight : ℕ → ℕ)
    (maxWeight : ℕ) (search : Search C) : Prop where
  lower_pos : 0 < search.lowerLimit
  between : search.lowerLimit ≤ search.upperLimit
  upper_lt : search.upperLimit < min rules.maxLimit available
  limit_eq : search.limit = search.lowerLimit + (search.upperLimit - search.lowerLimit) / 2
  heavy : maxWeight < weight (search.upperLimit + 1)
  lowest : search.lowerLimit = 1 → search.best = none
  best : 1 < search.lowerLimit → weight (search.lowerLimit - 1) ≤ maxWeight ∧
    ∃ candidate, search.best = some candidate ∧ outcome (search.lowerLimit - 1) = .ok (some candidate)

/-- The bounds have passed each other at a limit within the bound whose successor is not. -/
structure Passed (rules : Rules S E C) (outcome : ℕ → Except E (Option C)) (available : ℕ) (weight : ℕ → ℕ)
    (maxWeight limit : ℕ) (candidate : C) : Prop where
  pos : 0 < limit
  lt : limit < min rules.maxLimit available
  light : weight limit ≤ maxWeight
  heavy : maxWeight < weight (limit + 1)
  found : outcome limit = .ok (some candidate)

/-- What a turn between the bounds leads to. -/
inductive Turned (machine : Machine) (rules : Rules S E C) (outcome : ℕ → Except E (Option C)) (available : ℕ)
    (weight : ℕ → ℕ) (maxWeight turns : ℕ) (state : S) (search : Search C) (ended : Except E (Searched C) × S) : Prop where
  | on (next : Search C) (bracket : Bracket rules outcome available weight maxWeight next)
      (narrower : next.upperLimit - next.lowerLimit < search.upperLimit - search.lowerLimit)
      (ends : ended = (searchLoop machine rules maxWeight turns next).exec state)
  | passed (limit : ℕ) (candidate : C) (at_limit : Passed rules outcome available weight maxWeight limit candidate)
      (ends : ended = continued machine rules maxWeight turns state
        (Search.move machine (some candidate) (some (limit + 1)) (some limit)))
  | alone (candidate : C) (heavy : maxWeight < weight 1)
      (ends : ended = (Searched.returned <$> rules.alone candidate (weight 1) : Db S E (Searched C)).exec state)

variable (hgrow : Growing rules state outcome available weight) (hmachine : rules.maxLimit < machine.modulus)

include hgrow hmachine in
/-- One turn keeps the bounds around the answer and brings them nearer, or is the last to move one. -/
theorem searchLoop_step {turns : ℕ} (hb : Bracket rules outcome available weight maxWeight search) :
    Turned machine rules outcome available weight maxWeight turns state search
      ((searchLoop machine rules maxWeight (turns + 1) search).exec state) := by
  have hlower := hb.lower_pos
  have hbetween := hb.between
  have hupper := hb.upper_lt
  have hlimit := hb.limit_eq
  obtain ⟨candidate, hfound, hcount, hweight⟩ := hgrow.holds search.limit (by omega) (by omega)
  have hfixed : (rules.candidate search.limit).exec state = (.ok (some candidate), state) := by
    rw [hgrow.fixed, hfound]
  rw [searchLoop_turn hbetween hfixed hweight, hcount]
  by_cases hlight : weight search.limit ≤ maxWeight
  · rw [if_pos hlight, if_neg (by omega), add_of_lt (by omega)]
    by_cases hpassed : search.limit = search.upperLimit
    · -- The largest limit left is within the bound: the lower bound passes the upper one.
      refine .passed search.limit candidate ⟨by omega, by omega, hlight, ?_, hfound⟩ ?_
      · rw [hpassed]
        exact hb.heavy
      · rw [hpassed]
    · refine .on ⟨search.limit + 1, search.upperLimit,
        search.limit + 1 + (search.upperLimit - (search.limit + 1)) / 2, some candidate⟩ ?_ ?_ ?_
      · exact ⟨Nat.succ_pos _, show search.limit + 1 ≤ search.upperLimit by omega, hupper, rfl, hb.heavy,
          fun h => absurd (show search.limit + 1 = 1 from h) (by omega), fun _ => ⟨hlight, candidate, rfl, hfound⟩⟩
      · change search.upperLimit - (search.limit + 1) < _
        omega
      · simp only [Search.move, Option.bind_eq_bind, Option.bind_some,
          midpoint_of_le (show search.limit + 1 ≤ search.upperLimit by omega)
            (show search.upperLimit < machine.modulus by omega)]
        rfl
  · rw [if_neg hlight]
    by_cases hone : search.limit = 1
    · rw [if_pos hone]
      exact .alone candidate (hone ▸ Nat.lt_of_not_le hlight) (by rw [hone])
    · rw [if_neg hone, sub_of_le (by omega) (by omega)]
      by_cases hpassed : search.limit = search.lowerLimit
      · -- The smallest limit left is too heavy: the upper bound passes the lower one.
        obtain ⟨hbest, best, hsome, hwas⟩ := hb.best (by omega)
        refine .passed (search.lowerLimit - 1) best ⟨by omega, by omega, hbest, ?_, hwas⟩ ?_
        · rw [show search.lowerLimit - 1 + 1 = search.limit by omega]
          exact Nat.lt_of_not_le hlight
        · rw [hsome, show search.lowerLimit - 1 + 1 = search.lowerLimit by omega, hpassed]
      · refine .on ⟨search.lowerLimit, search.limit - 1,
          search.lowerLimit + (search.limit - 1 - search.lowerLimit) / 2, search.best⟩ ?_ ?_ ?_
        · refine ⟨hlower, show search.lowerLimit ≤ search.limit - 1 by omega,
            show search.limit - 1 < _ by omega, rfl, ?_, hb.lowest, hb.best⟩
          change maxWeight < weight (search.limit - 1 + 1)
          rw [show search.limit - 1 + 1 = search.limit by omega]
          exact Nat.lt_of_not_le hlight
        · change search.limit - 1 - search.lowerLimit < _
          omega
        · simp only [Search.move, Option.bind_eq_bind, Option.bind_some,
            midpoint_of_le (show search.lowerLimit ≤ search.limit - 1 by omega)
              (show search.limit - 1 < machine.modulus by omega)]
          rfl

include hgrow hmachine in
/-- Enough turns end the search: the bounds pass each other, or a candidate of one batch is too heavy. -/
theorem searchLoop_run : ∀ {turns : ℕ} {search : Search C}, Bracket rules outcome available weight maxWeight search →
    search.upperLimit - search.lowerLimit + 1 < turns →
      (∃ limit candidate rest, 0 < rest ∧ Passed rules outcome available weight maxWeight limit candidate ∧
        (searchLoop machine rules maxWeight turns search).exec state = continued machine rules maxWeight rest state
          (Search.move machine (some candidate) (some (limit + 1)) (some limit))) ∨
      ∃ candidate, maxWeight < weight 1 ∧ (searchLoop machine rules maxWeight turns search).exec state =
        (Searched.returned <$> rules.alone candidate (weight 1) : Db S E (Searched C)).exec state := by
  intro turns
  induction turns with
  | zero => intro search _ hturns; omega
  | succ turns ih =>
    intro search hb hturns
    have hstep : Turned machine rules outcome available weight maxWeight turns state search
        ((searchLoop machine rules maxWeight (turns + 1) search).exec state) := searchLoop_step hgrow hmachine hb
    cases hstep with
    | on next bracket narrower ends =>
      rw [ends]
      exact ih bracket (by omega)
    | passed limit candidate at_limit ends => exact .inl ⟨limit, candidate, turns, by omega, at_limit, ends⟩
    | alone candidate heavy ends => exact .inr ⟨candidate, heavy, ends⟩

/-- With overflow checks, halfway between bounds that have passed each other is a panic. -/
theorem passed_checked {candidate : C} {limit rest : ℕ} (hchecks : machine.checks = true) :
    continued machine rules maxWeight rest state (Search.move machine (some candidate) (some (limit + 1)) (some limit)) =
      (.ok .panicked, state) := by
  simp only [Search.move, Option.bind_eq_bind, Option.bind_some, midpoint_of_gt_checked hchecks (Nat.lt_succ_self limit),
    Option.bind_none]
  rfl

/-- Without, it wraps, and the loop ends before anything reads it. -/
theorem passed_wrapping {candidate : C} {limit rest : ℕ} (hchecks : machine.checks = false) (hrest : 0 < rest) :
    continued machine rules maxWeight rest state (Search.move machine (some candidate) (some (limit + 1)) (some limit)) =
      (.ok (.returned (some candidate)), state) := by
  obtain ⟨middle, hmiddle⟩ := Option.isSome_iff_exists.mp
    (midpoint_of_gt_wrapping hchecks : (machine.midpoint (limit + 1) limit).isSome)
  obtain ⟨turns, rfl⟩ : ∃ turns, rest = turns + 1 := ⟨rest - 1, by omega⟩
  simp only [Search.move, Option.bind_eq_bind, Option.bind_some, hmiddle]
  have hpassed : (⟨limit + 1, limit, middle, some candidate⟩ : Search C).upperLimit < limit + 1 := Nat.lt_succ_self limit
  exact searchLoop_ended hpassed

end Bounds

section Results

variable {state : S} {outcome : ℕ → Except E (Option C)} {available : ℕ} {weight : ℕ → ℕ}

/-- The search ends within `maxLimit + 1` turns, no limit leaves its type, and if the candidate of one batch is within
the bound, the result is the largest one that is. -/
def Succeeds (machine : Machine) (rules : Rules S E C) (maxWeight : ℕ) (state : S)
    (outcome : ℕ → Except E (Option C)) : Prop :=
  ∀ turns, rules.maxLimit < turns →
    ((search machine rules maxWeight turns).exec state).1 ≠ .ok .unfinished ∧
    ((search machine rules maxWeight turns).exec state).1 ≠ .ok .panicked ∧
    ∀ single weight, outcome 1 = .ok (some single) → rules.estimatedWeight single = .ok weight → weight ≤ maxWeight →
      ∃ candidate, ((search machine rules maxWeight turns).exec state).1 = .ok (.returned (some candidate)) ∧
        Largest rules outcome maxWeight candidate

variable (hgrow : Growing rules state outcome available weight) (hmachine : rules.maxLimit < machine.modulus)
  (hmax : 0 < rules.maxLimit)

include hgrow in
theorem Growing.weighs {limit : ℕ} {candidate : C} (hlimit : 0 < limit) (h : outcome limit = .ok (some candidate)) :
    0 < available ∧ rules.count candidate = min limit available ∧
      rules.estimatedWeight candidate = .ok (weight (min limit available)) := by
  have havailable : 0 < available := by
    by_contra hnone
    rw [hgrow.empty (by omega) limit hlimit] at h
    cases h
  refine ⟨havailable, ?_⟩
  by_cases hle : limit ≤ available
  · obtain ⟨other, hfound, hcount, hweight⟩ := hgrow.holds limit hlimit hle
    obtain rfl : other = candidate := by simpa [hfound] using h
    rw [Nat.min_eq_left hle]
    exact ⟨hcount, hweight⟩
  · rw [hgrow.all limit (by omega)] at h
    obtain ⟨other, hfound, hcount, hweight⟩ := hgrow.holds available havailable le_rfl
    obtain rfl : other = candidate := by simpa [hfound] using h
    rw [Nat.min_eq_right (by omega)]
    exact ⟨hcount, hweight⟩

include hgrow in
/-- The candidate at which the bounds passed is the largest within the bound. -/
theorem Passed.largest {limit : ℕ} {candidate : C} (h : Passed rules outcome available weight maxWeight limit candidate) :
    Largest rules outcome maxWeight candidate := by
  have hpos := h.pos
  have hlt := h.lt
  obtain ⟨-, -, hweight⟩ := hgrow.weighs hpos h.found
  rw [Nat.min_eq_left (by omega)] at hweight
  refine ⟨limit, hpos, by omega, h.found, ⟨_, hweight, h.light⟩, ?_⟩
  intro larger other w hlarger hle hother hw
  obtain ⟨-, -, hothers⟩ := hgrow.weighs (by omega) hother
  obtain rfl : weight (min larger available) = w := by simpa [hothers] using hw
  exact lt_of_lt_of_le h.heavy (hgrow.grows (by omega))

include hgrow in
/-- With the first candidate within the bound, it is the largest. -/
theorem first_largest {candidate : C} (hfound : outcome rules.maxLimit = .ok (some candidate)) (hpos : 0 < rules.maxLimit)
    (hlight : weight (min rules.maxLimit available) ≤ maxWeight) : Largest rules outcome maxWeight candidate := by
  obtain ⟨-, -, hweight⟩ := hgrow.weighs hpos hfound
  exact ⟨rules.maxLimit, hpos, le_rfl, hfound, ⟨_, hweight, hlight⟩,
    fun larger _ _ hlarger hle => absurd hlarger (Nat.not_lt.mpr hle)⟩

/-- How a whole search ends. -/
inductive Ended (machine : Machine) (rules : Rules S E C) (outcome : ℕ → Except E (Option C)) (available : ℕ)
    (weight : ℕ → ℕ) (maxWeight : ℕ) (state : S) (ended : Except E (Searched C) × S) : Prop where
  | nothing (empty : available = 0) (ends : ended = (.ok (.returned none), state))
  | first (candidate : C) (light : weight (min rules.maxLimit available) ≤ maxWeight)
      (largest : Largest rules outcome maxWeight candidate) (ends : ended = (.ok (.returned (some candidate)), state))
  | passed (limit rest : ℕ) (candidate : C) (available_pos : 0 < available)
      (heavy : maxWeight < weight (min rules.maxLimit available)) (rest_pos : 0 < rest)
      (at_limit : Passed rules outcome available weight maxWeight limit candidate)
      (ends : ended = continued machine rules maxWeight rest state
        (Search.move machine (some candidate) (some (limit + 1)) (some limit)))
  | alone (candidate : C) (heavy : maxWeight < weight 1)
      (ends : ended = (Searched.returned <$> rules.alone candidate (weight 1) : Db S E (Searched C)).exec state)

include hgrow hmachine hmax in
theorem search_ended {turns : ℕ} (hturns : rules.maxLimit < turns) :
    Ended machine rules outcome available weight maxWeight state ((search machine rules maxWeight turns).exec state) := by
  obtain ⟨turns, rfl⟩ : ∃ rest, turns = rest + 1 := ⟨turns - 1, by omega⟩
  rcases Nat.eq_zero_or_pos available with hnone | havailable
  · refine .nothing hnone ?_
    have hcaught : (Db.caught (rules.candidate rules.maxLimit) : Db S E _).exec state = (.ok (.ok none), state) := by
      change ((.ok ((rules.candidate rules.maxLimit).exec state).1, ((rules.candidate rules.maxLimit).exec state).2) :
        Except E _ × S) = _
      rw [hgrow.fixed, hgrow.empty hnone _ hmax]
    change (searchLoop machine rules maxWeight (turns + 1) ⟨1, rules.maxLimit, rules.maxLimit, none⟩).exec state = _
    rw [searchLoop, if_neg (Nat.not_lt.mpr hmax), Db.exec_bind, hcaught]
    rfl
  · obtain ⟨candidate, hfound⟩ : ∃ candidate, outcome rules.maxLimit = .ok (some candidate) := by
      by_cases hle : rules.maxLimit ≤ available
      · obtain ⟨candidate, hfound, -⟩ := hgrow.holds rules.maxLimit hmax hle
        exact ⟨candidate, hfound⟩
      · obtain ⟨candidate, hfound, -⟩ := hgrow.holds available havailable le_rfl
        exact ⟨candidate, (hgrow.all rules.maxLimit (by omega)).trans hfound⟩
    obtain ⟨-, hcount, hweight⟩ := hgrow.weighs hmax hfound
    have hfixed : (rules.candidate rules.maxLimit).exec state = (.ok (some candidate), state) := by
      rw [hgrow.fixed, hfound]
    change Ended machine rules outcome available weight maxWeight state
      ((searchLoop machine rules maxWeight (turns + 1) ⟨1, rules.maxLimit, rules.maxLimit, none⟩).exec state)
    rw [searchLoop_turn (show 1 ≤ rules.maxLimit from hmax) hfixed hweight, hcount]
    dsimp only
    by_cases hlight : weight (min rules.maxLimit available) ≤ maxWeight
    · rw [if_pos hlight, if_pos (.inr rfl)]
      exact .first candidate hlight (first_largest hgrow hfound hmax hlight) rfl
    · rw [if_neg hlight]
      by_cases hone : min rules.maxLimit available = 1
      · rw [if_pos hone, hone]
        exact .alone candidate (hone ▸ Nat.lt_of_not_le hlight) rfl
      · -- From here on the upper bound is below both the first limit and the number available.
        rw [if_neg hone, sub_of_le (by omega) (by omega)]
        have hbracket : Bracket rules outcome available weight maxWeight
            ⟨1, min rules.maxLimit available - 1, 1 + (min rules.maxLimit available - 1 - 1) / 2, none⟩ := by
          refine ⟨Nat.one_pos, show 1 ≤ min rules.maxLimit available - 1 by omega,
            show min rules.maxLimit available - 1 < _ by omega, rfl, ?_, fun _ => rfl, fun h => absurd h (lt_irrefl 1)⟩
          change maxWeight < weight (min rules.maxLimit available - 1 + 1)
          rw [show min rules.maxLimit available - 1 + 1 = min rules.maxLimit available by omega]
          exact Nat.lt_of_not_le hlight
        simp only [Search.move, Option.bind_eq_bind, Option.bind_some,
          midpoint_of_le (show 1 ≤ min rules.maxLimit available - 1 by omega)
            (show min rules.maxLimit available - 1 < machine.modulus by omega)]
        have hrest : min rules.maxLimit available - 1 - 1 + 1 < turns := by omega
        rcases searchLoop_run hgrow hmachine hbracket hrest with
          ⟨limit, best, rest, hrest, hpassed, hends⟩ | ⟨single, hheavy, hends⟩
        · exact .passed limit rest best havailable (Nat.lt_of_not_le hlight) hrest hpassed hends
        · exact .alone single hheavy hends

include hgrow in
/-- A candidate of one batch that is too heavy is the only case without a promise. -/
theorem single_weighs {single : C} {w : ℕ} (hsingle : outcome 1 = .ok (some single))
    (hweight : rules.estimatedWeight single = .ok w) : 0 < available ∧ w = weight 1 := by
  obtain ⟨hpos, -, hother⟩ := hgrow.weighs Nat.one_pos hsingle
  rw [Nat.min_eq_left hpos] at hother
  have : weight 1 = w := by simpa [hother] using hweight
  exact ⟨hpos, this.symm⟩

theorem returned_exec (prog : Db S E (Option C)) :
    ((Searched.returned <$> prog : Db S E (Searched C)).exec state).1 ≠ .ok .unfinished ∧
    ((Searched.returned <$> prog : Db S E (Searched C)).exec state).1 ≠ .ok .panicked := by
  rw [map_eq_pure_bind, Db.exec_bind]
  rcases prog.exec state with ⟨e | a, t⟩
  · constructor
    · intro h
      cases h
    · intro h
      cases h
  · constructor
    · intro h
      cases h
    · intro h
      cases h

include hgrow hmachine hmax in
/-- Without overflow checks the search always succeeds. -/
theorem succeeds_wrapping (hchecks : machine.checks = false) : Succeeds machine rules maxWeight state outcome := by
  intro turns hturns
  have hended : Ended machine rules outcome available weight maxWeight state
    ((search machine rules maxWeight turns).exec state) := search_ended hgrow hmachine hmax hturns
  cases hended with
  | nothing empty ends =>
    rw [ends]
    refine ⟨by simp, by simp, fun single w hsingle hw => ?_⟩
    exact absurd (single_weighs hgrow hsingle hw).1 (by omega)
  | first candidate light largest ends =>
    rw [ends]
    exact ⟨by simp, by simp, fun _ _ _ _ _ => ⟨candidate, rfl, largest⟩⟩
  | passed limit rest candidate available_pos heavy rest_pos at_limit ends =>
    rw [ends, passed_wrapping hchecks rest_pos]
    exact ⟨by simp, by simp, fun _ _ _ _ _ => ⟨candidate, rfl, at_limit.largest hgrow⟩⟩
  | alone candidate heavy ends =>
    rw [ends]
    refine ⟨(returned_exec _).1, (returned_exec _).2, fun single w hsingle hw hlight => ?_⟩
    obtain ⟨-, rfl⟩ := single_weighs hgrow hsingle hw
    omega

include hgrow hmachine hmax in
/-- With overflow checks it succeeds exactly if it ends at its first candidate or at a candidate of one batch that is too
heavy: between two limits it always ends with the bounds past each other. -/
theorem succeeds_checked (hchecks : machine.checks = true) : Succeeds machine rules maxWeight state outcome ↔
    available = 0 ∨ weight (min rules.maxLimit available) ≤ maxWeight ∨ maxWeight < weight 1 := by
  constructor
  · intro h
    obtain ⟨-, hchecked, -⟩ := h (rules.maxLimit + 1) (Nat.lt_succ_self _)
    have hended : Ended machine rules outcome available weight maxWeight state
      ((search machine rules maxWeight (rules.maxLimit + 1)).exec state) :=
        search_ended hgrow hmachine hmax (Nat.lt_succ_self _)
    cases hended with
    | nothing empty ends => exact .inl empty
    | first candidate light largest ends => exact .inr (.inl light)
    | passed limit rest candidate available_pos heavy rest_pos at_limit ends =>
      rw [ends, passed_checked hchecks] at hchecked
      exact absurd rfl hchecked
    | alone candidate heavy ends => exact .inr (.inr heavy)
  · intro h turns hturns
    have hended : Ended machine rules outcome available weight maxWeight state
      ((search machine rules maxWeight turns).exec state) := search_ended hgrow hmachine hmax hturns
    cases hended with
    | nothing empty ends =>
      rw [ends]
      refine ⟨by simp, by simp, fun single w hsingle hw => ?_⟩
      exact absurd (single_weighs hgrow hsingle hw).1 (by omega)
    | first candidate light largest ends =>
      rw [ends]
      exact ⟨by simp, by simp, fun _ _ _ _ _ => ⟨candidate, rfl, largest⟩⟩
    | passed limit rest candidate available_pos heavy rest_pos at_limit ends =>
      have hlight := (hgrow.grows (show 1 ≤ limit from at_limit.pos)).trans at_limit.light
      omega
    | alone candidate heavy ends =>
      rw [ends]
      refine ⟨(returned_exec _).1, (returned_exec _).2, fun single w hsingle hw hlight => ?_⟩
      obtain ⟨-, rfl⟩ := single_weighs hgrow hsingle hw
      omega

end Results

end RoundSearch

section Rounds

open RoundSearch

variable {S C S' C' : Type}

/-- Both searches find the largest round within the bound. Their limits stay within their types unless a round of all
that is available, up to 100, is too heavy while a round of one is not. -/
theorem round_search_limits
    {candidate : ℕ → Db S Issuance.UserRequestError (Option C)} {requestCount : C → ℕ}
    {requestWeight : C → Except Issuance.UserRequestError ℕ} {markFailed : C → String → Db S Issuance.UserRequestError Unit}
    {burnCandidate : ℕ → Db S' BurningError (Option C')} {groupCount : C' → ℕ} {burnWeight : C' → Except BurningError ℕ}
    {withStandardWeight : C' → C'} {state : S} {outcome : ℕ → Except Issuance.UserRequestError (Option C)} {available : ℕ}
    {weight : ℕ → ℕ} {burnState : S'} {burnOutcome : ℕ → Except BurningError (Option C')} {burnable : ℕ}
    {weightBurned : ℕ → ℕ} {maxTransactionWeight : ℕ}
    (issuing : Growing (Issuance.roundRules candidate requestCount requestWeight markFailed maxTransactionWeight)
      state outcome available weight)
    (burning : Growing (Burning.roundRules burnCandidate groupCount burnWeight withStandardWeight)
      burnState burnOutcome burnable weightBurned) :
    (Succeeds (Issuance.machine false) (Issuance.roundRules candidate requestCount requestWeight markFailed
        maxTransactionWeight) maxTransactionWeight state outcome ∧
      (Succeeds (Issuance.machine true) (Issuance.roundRules candidate requestCount requestWeight markFailed
          maxTransactionWeight) maxTransactionWeight state outcome ↔
        available = 0 ∨ weight (min 100 available) ≤ maxTransactionWeight ∨ maxTransactionWeight < weight 1)) ∧
    (Succeeds (Burning.machine false) (Burning.roundRules burnCandidate groupCount burnWeight withStandardWeight)
        maxTransactionWeight burnState burnOutcome ∧
      (Succeeds (Burning.machine true) (Burning.roundRules burnCandidate groupCount burnWeight withStandardWeight)
          maxTransactionWeight burnState burnOutcome ↔
        burnable = 0 ∨ weightBurned (min 100 burnable) ≤ maxTransactionWeight ∨ maxTransactionWeight < weightBurned 1)) := by
  have hrequests : (100 : ℕ) < 2 ^ 32 := by norm_num
  have hburns : (100 : ℕ) < 2 ^ 64 := by norm_num
  have hmax : (0 : ℕ) < 100 := by norm_num
  exact ⟨⟨succeeds_wrapping issuing hrequests hmax rfl, succeeds_checked issuing hrequests hmax rfl⟩,
    succeeds_wrapping burning hburns hmax rfl, succeeds_checked burning hburns hmax rfl⟩

/-- Candidates of up to two batches, which weigh ten each. -/
def twoBatches {E : Type} (limit : ℕ) : Except E (Option ℕ) := .ok (if limit = 0 then none else some (min limit 2))

theorem twoBatches_issuing (maxTransactionWeight : ℕ) :
    Growing (Issuance.roundRules (fun limit => Db.check (twoBatches limit)) id (fun count => .ok (10 * count))
      (fun _ _ => pure ()) maxTransactionWeight) () twoBatches 2 (10 * ·) where
  fixed _ := rfl
  empty h := by cases h
  holds limit hpos hle := ⟨limit, by simp [twoBatches, Nat.ne_of_gt hpos, hle], rfl, rfl⟩
  all limit hle := by
    have hne : limit ≠ 0 := by omega
    simp [twoBatches, hne, hle]
  grows := fun _ _ h => Nat.mul_le_mul_left 10 h

theorem twoBatches_burning :
    Growing (Burning.roundRules (fun limit => Db.check (twoBatches limit)) id (fun count => .ok (10 * count)) id)
      () twoBatches 2 (10 * ·) where
  fixed _ := rfl
  empty h := by cases h
  holds limit hpos hle := ⟨limit, by simp [twoBatches, Nat.ne_of_gt hpos, hle], rfl, rfl⟩
  all limit hle := by
    have hne : limit ≠ 0 := by omega
    simp [twoBatches, hne, hle]
  grows := fun _ _ h => Nat.mul_le_mul_left 10 h

/-- Within a bound of twenty both batches go at once. -/
theorem round_search_limits_of_two :
    Succeeds (Issuance.machine true) (Issuance.roundRules (fun limit => Db.check (twoBatches limit)) id
        (fun count => .ok (10 * count)) (fun _ _ => pure ()) 20) 20 () twoBatches ∧
      Succeeds (Burning.machine true) (Burning.roundRules (fun limit => Db.check (twoBatches limit)) id
        (fun count => .ok (10 * count)) id) 20 () twoBatches := by
  obtain ⟨⟨-, hissuing⟩, -, hburning⟩ := round_search_limits (twoBatches_issuing 20) twoBatches_burning
  exact ⟨hissuing.mpr (.inr (.inl (by decide))), hburning.mpr (.inr (.inl (by decide)))⟩

/-- Within a bound of fifteen the search goes on to the limit one, whose candidate fits, and then subtracts the lower
limit two from the upper limit one. -/
theorem round_search_underflows :
    ¬Succeeds (Issuance.machine true) (Issuance.roundRules (fun limit => Db.check (twoBatches limit)) id
        (fun count => .ok (10 * count)) (fun _ _ => pure ()) 15) 15 () twoBatches ∧
      ¬Succeeds (Burning.machine true) (Burning.roundRules (fun limit => Db.check (twoBatches limit)) id
        (fun count => .ok (10 * count)) id) 15 () twoBatches := by
  constructor
  · intro h
    exact (h 101 (by decide)).2.1 rfl
  · intro h
    exact (h 101 (by decide)).2.1 rfl

end Rounds

end PriceOracle
