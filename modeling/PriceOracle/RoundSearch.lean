import PriceOracle.BurnLeader
import PriceOracle.IssuanceRounds

/-!
# The search for a round

`UserRequests::prepare_round` and `Burning::prepare_round` look for the largest round of a bounded weight.
They build a candidate for a limit, move one of two bounds by what the candidate holds, and go on halfway
between the bounds. The limits are unsigned machine numbers.
-/

namespace PriceOracle

namespace RoundSearch

section Arithmetic

/-- Unsigned numbers below a modulus. An operation that leaves them is a panic in a build with overflow checks,
and wraps in one without. -/
structure Machine where
  checks : Bool
  modulus : ℕ

def Machine.add (machine : Machine) (a b : ℕ) : Option ℕ :=
  if machine.checks ∧ machine.modulus ≤ a + b then none else some ((a + b) % machine.modulus)

def Machine.sub (machine : Machine) (a b : ℕ) : Option ℕ :=
  if machine.checks ∧ a < b then none else some ((machine.modulus + a - b) % machine.modulus)

/-- `lower_limit + (upper_limit - lower_limit) / 2` -/
def Machine.midpoint (machine : Machine) (lower upper : ℕ) : Option ℕ := do
  let difference ← machine.sub upper lower
  machine.add lower (difference / 2)

variable {machine : Machine} {a b lower upper : ℕ}

theorem add_of_lt (h : a + b < machine.modulus) : machine.add a b = some (a + b) := by
  unfold Machine.add
  rw [if_neg (by omega), Nat.mod_eq_of_lt h]

theorem sub_of_le (hle : b ≤ a) (hlt : a < machine.modulus) : machine.sub a b = some (a - b) := by
  unfold Machine.sub
  rw [if_neg (by omega), Nat.add_sub_assoc hle, Nat.add_mod_left, Nat.mod_eq_of_lt (by omega)]

theorem midpoint_of_le (hle : lower ≤ upper) (hlt : upper < machine.modulus) :
    machine.midpoint lower upper = some (lower + (upper - lower) / 2) := by
  unfold Machine.midpoint
  rw [sub_of_le hle hlt]
  exact add_of_lt (by omega)

theorem midpoint_of_gt_checked (hchecks : machine.checks = true) (hgt : upper < lower) : machine.midpoint lower upper = none := by
  unfold Machine.midpoint Machine.sub
  rw [if_pos ⟨hchecks, hgt⟩]
  rfl

theorem midpoint_of_gt_wrapping (hchecks : machine.checks = false) : (machine.midpoint lower upper).isSome := by
  unfold Machine.midpoint Machine.sub Machine.add
  simp [hchecks]

end Arithmetic

section Loop

variable {S E C : Type}

/-- The variables of the loop. -/
structure Search (C : Type) where
  lowerLimit : ℕ
  upperLimit : ℕ
  limit : ℕ
  best : Option C

def Search.start (maxLimit : ℕ) : Search C := ⟨1, maxLimit, maxLimit, none⟩

/-- How a call ends; `unfinished` when the turns that are looked at do not suffice. -/
inductive Searched (C : Type) where
  | returned (round : Option C)
  | panicked
  | unfinished
  deriving DecidableEq

/-- What the two loops differ in: the candidate for a limit, how much it holds and weighs, the errors for which
a smaller limit is tried, and what happens to a candidate that cannot be made smaller. -/
structure Rules (S E C : Type) where
  maxLimit : ℕ
  candidate : ℕ → Db S E (Option C)
  count : C → ℕ
  estimatedWeight : C → Except E ℕ
  retries : E → Bool
  alone : C → ℕ → Db S E (Option C)

/-- The next turn, once both bounds are computed. -/
def Search.move (machine : Machine) (best : Option C) (lower upper : Option ℕ) : Option (Search C) := do
  let lower ← lower
  let upper ← upper
  let limit ← machine.midpoint lower upper
  return ⟨lower, upper, limit, best⟩

variable (machine : Machine) (rules : Rules S E C) (maxWeight : ℕ)

/-- The loop, for so many turns. -/
def searchLoop : ℕ → Search C → Db S E (Searched C)
  | 0, _ => pure .unfinished
  | turns + 1, search =>
    let continues (next : Option (Search C)) : Db S E (Searched C) :=
      match next with
      | some search => searchLoop turns search
      | none => pure .panicked
    if search.upperLimit < search.lowerLimit then pure (.returned search.best)
    else do
      match ← Db.caught (rules.candidate search.limit) with
      | .error error =>
        if rules.retries error ∧ 1 < search.limit then
          continues (Search.move machine search.best (some search.lowerLimit) (machine.sub search.limit 1))
        else throw error
      | .ok none => pure (.returned search.best)
      | .ok (some candidate) => do
        let count := rules.count candidate
        let weight ← Db.check (rules.estimatedWeight candidate)
        if weight ≤ maxWeight then
          if count < search.limit ∨ search.limit = rules.maxLimit then pure (.returned (some candidate))
          else continues (Search.move machine (some candidate) (machine.add count 1) (some search.upperLimit))
        else if count = 1 then .returned <$> rules.alone candidate weight
        else continues (Search.move machine search.best (some search.lowerLimit) (machine.sub count 1))

def search (turns : ℕ) : Db S E (Searched C) := searchLoop machine rules maxWeight turns (.start rules.maxLimit)

end Loop

end RoundSearch

namespace Issuance

/-- `UserRequests::prepare_round`: a batch that is too heavy alone is failed, with the error it leaves. -/
def roundRules {S C : Type} (candidate : ℕ → Db S UserRequestError (Option C)) (requestCount : C → ℕ)
    (estimatedWeight : C → Except UserRequestError ℕ) (markFailed : C → String → Db S UserRequestError Unit)
    (maxTransactionWeight : ℕ) : RoundSearch.Rules S UserRequestError C where
  maxLimit := maxRequestsPerRound
  candidate := candidate
  count := requestCount
  estimatedWeight := estimatedWeight
  retries _ := false
  alone candidate weight := do
    let reason := "request transaction weight " ++ toString weight ++ " exceeds round limit " ++
      toString maxTransactionWeight
    markFailed candidate reason
    throw (.invalid reason)

/-- The limits of a request round are of type `u32`. -/
def machine (checks : Bool) : RoundSearch.Machine := ⟨checks, 2 ^ 32⟩

end Issuance

namespace Burning

/-- `MAX_STANDARD_TX_WEIGHT` -/
def maxStandardTxWeight : ℕ := 400000

/-- `Burning::prepare_round`: a group that is too heavy alone is burned alone, up to the standard weight. -/
def roundRules {S C : Type} (candidate : ℕ → Db S BurningError (Option C)) (groupCount : C → ℕ)
    (estimatedWeight : C → Except BurningError ℕ) (withStandardWeight : C → C) : RoundSearch.Rules S BurningError C where
  maxLimit := maxTicksPerBurn
  candidate := candidate
  count := groupCount
  estimatedWeight := estimatedWeight
  retries error := error = .reserveShortfall
  alone candidate weight :=
    if maxStandardTxWeight < weight then
      throw (.invalid ("one burn group transaction weight " ++ toString weight ++ " exceeds the standard limit"))
    else pure (some (withStandardWeight candidate))

/-- The limits of a burn are of type `usize`. -/
def machine (checks : Bool) : RoundSearch.Machine := ⟨checks, 2 ^ 64⟩

end Burning

end PriceOracle
