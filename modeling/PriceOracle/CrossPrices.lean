import PriceOracle.HalfEven
import PriceOracle.PriceSources

/-!
# Prices of Cross pairs

`price-feed/src/cross.rs`: a Cross pair is priced from the values of its route's legs, in `i128`.
The scale is applied to the denominator, or a digit at a time to the quotient; the digits are
those of the exact quotient, and the last remainder decides the rounding.
-/

namespace PriceOracle

structure ComputationPath where
  feed : UInt32
  invert : Bool
  deriving DecidableEq

namespace CrossPrice

open HalfEven (IsHalfEven halfEven isHalfEven_halfEven)

/-- How a computation ends without a price: it returns `None`, or its exponent, which is added
up unchecked, leaves the `i64`. -/
inductive Failure where
  | noPrice
  | overflow
  deriving DecidableEq

section Code

/-- A checked `i128` operation with this result; all of them are on numbers that are not negative. -/
def checkedI128 (n : ℕ) : Option ℕ := if n < 2 ^ 127 then some n else none

/-- `u64::MAX` -/
def maxU64 : ℕ := 2 ^ 64 - 1

/-- One digit more of the quotient for each unit of a positive exponent. -/
def digits (denominator : ℕ) : ℕ → ℕ → ℕ → Option (ℕ × ℕ)
  | 0, quotient, remainder => some (quotient, remainder)
  | count + 1, quotient, remainder => do
    let carried ← checkedI128 (remainder * 10)
    let shifted ← checkedI128 (quotient * 10)
    let quotient ← checkedI128 (shifted + carried / denominator)
    -- Growing tenfold a digit at a time, it never comes back into range.
    if maxU64 < quotient then none else digits denominator count quotient (carried % denominator)

/-- A negative exponent is applied to the denominator. -/
def scaledDenominator (denominator : ℕ) (exponent : ℤ) : Option ℕ :=
  if exponent < 0 then do
    if 2 ^ 32 ≤ exponent.natAbs then none
    else
      let scale ← checkedI128 (10 ^ exponent.natAbs)
      checkedI128 (denominator * scale)
  else some denominator

/-- To the nearest whole number, an exact half to the even one. -/
def rounded (denominator quotient remainder : ℕ) : Option ℕ :=
  if remainder < denominator - remainder then some quotient
  else if denominator - remainder < remainder then checkedI128 (quotient + 1)
  else checkedI128 (quotient + quotient % 2)

/-- `numerator · 10 ^ exponent / denominator`, rounded, when it fits in a `u64`. -/
def scaledPrice (numerator denominator : ℕ) (exponent : ℤ) : Option UInt64 := do
  let denominator ← scaledDenominator denominator exponent
  if denominator = 0 then none
  else
    let (quotient, remainder) ← digits denominator exponent.toNat (numerator / denominator)
      (numerator % denominator)
    let rounded ← rounded denominator quotient remainder
    if rounded ≤ maxU64 then some (UInt64.ofNat rounded) else none

/-- The products of the legs' prices and the exponent of ten, leg by leg. -/
structure Product where
  numerator : ℕ
  denominator : ℕ
  exponent : ℤ

abbrev Leg := ComputationPath × PriceFeedData

/-- An `i64` addition that is not checked. -/
def addI64 (n : ℤ) : Except Failure ℤ :=
  if -2 ^ 63 ≤ n ∧ n < 2 ^ 63 then .ok n else .error .overflow

def orNoPrice {α : Type} : Option α → Except Failure α
  | some a => .ok a
  | none => .error .noPrice

def Product.extend (product : Product) (leg : Leg) : Except Failure Product := do
  if leg.1.invert then
    let denominator ← orNoPrice (checkedI128 (product.denominator * leg.2.price.toNat))
    let exponent ← addI64 (product.exponent + leg.2.decimals.toNat)
    return { product with denominator, exponent }
  else
    let numerator ← orNoPrice (checkedI128 (product.numerator * leg.2.price.toNat))
    let exponent ← addI64 (product.exponent - leg.2.decimals.toNat)
    return { product with numerator, exponent }

/-- Prices a Cross pair at its own decimals from the values of its route's legs. -/
def compute (pair : FeedDefinition) (legs : List Leg) : Except Failure PriceFeedData := do
  let product ← legs.foldlM Product.extend ⟨1, 1, pair.decimals.toNat⟩
  let price ← orNoPrice
    ((scaledPrice product.numerator product.denominator product.exponent).filter (· ≠ 0))
  return {
    feedId := pair.id, price, decimals := pair.decimals
    receivedAt := ← orNoPrice (legs.map fun leg => leg.2.receivedAt).max?
    validUntil := ← orNoPrice (legs.map fun leg => leg.2.validUntil).min? }

end Code

section Digits

variable {denominator quotient remainder count q r : ℕ}

@[simp] theorem checkedI128_eq_some_iff (n m : ℕ) : checkedI128 n = some m ↔ m = n ∧ n < 2 ^ 127 := by
  unfold checkedI128
  split_ifs with h
  · simp only [Option.some.injEq, h, and_true, eq_comm]
  · simp only [h, and_false]

@[simp] theorem orNoPrice_eq_ok_iff {α : Type} (o : Option α) (a : α) :
    orNoPrice o = .ok a ↔ o = some a := by
  cases o <;> simp [orNoPrice]

/-- One digit more is what dividing ten times as much gives. -/
theorem div_ten_mul (hd : 0 < denominator) (n : ℕ) :
    n / denominator * 10 + n % denominator * 10 / denominator = n * 10 / denominator ∧
      n % denominator * 10 % denominator = n * 10 % denominator := by
  have h : n * 10 = n % denominator * 10 + denominator * (n / denominator * 10) := by
    calc n * 10 = (denominator * (n / denominator) + n % denominator) * 10 := by
          rw [Nat.div_add_mod]
      _ = n % denominator * 10 + denominator * (n / denominator * 10) := by ring
  rw [h, Nat.add_mul_div_left _ _ hd, Nat.add_mul_mod_self_left]
  exact ⟨Nat.add_comm _ _, rfl⟩

/-- The digit loop computes the quotient and the remainder of the scaled number, and fails
where a carried remainder overflows or the quotient leaves the `u64`. -/
theorem digits_eq_some_iff (hd : 0 < denominator) (n : ℕ) :
    digits denominator count (n / denominator) (n % denominator) = some (q, r) ↔
      q = n * 10 ^ count / denominator ∧ r = n * 10 ^ count % denominator ∧
      (0 < count → q ≤ maxU64) ∧ ∀ i < count, n * 10 ^ i % denominator * 10 < 2 ^ 127 := by
  induction count generalizing n with
  | zero => simp [digits, eq_comm]
  | succ count ih =>
    obtain ⟨hquotient, hremainder⟩ := div_ten_mul hd n
    have hpow (i : ℕ) : n * 10 * 10 ^ i = n * 10 ^ (i + 1) := by ring
    have hsplit : (∀ i < count + 1, n * 10 ^ i % denominator * 10 < 2 ^ 127) ↔
        n % denominator * 10 < 2 ^ 127 ∧
          ∀ i < count, n * 10 * 10 ^ i % denominator * 10 < 2 ^ 127 := by
      simp only [hpow]
      constructor
      · exact fun h => ⟨by simpa using h 0 (Nat.succ_pos _), fun i hi => h (i + 1) (by omega)⟩
      · rintro ⟨hzero, hsucc⟩ (_ | i) hi
        · simpa using hzero
        · exact hsucc i (by omega)
    have hgrows : n * 10 / denominator ≤ n * 10 ^ (count + 1) / denominator := by
      refine Nat.div_le_div_right (Nat.mul_le_mul_left _ ?_)
      exact Nat.le_self_pow (Nat.succ_ne_zero _) 10
    simp only [digits, Option.bind_eq_bind, Option.bind_eq_some_iff, checkedI128_eq_some_iff]
    rw [hsplit]
    constructor
    · rintro ⟨_, ⟨rfl, hcarried⟩, _, ⟨rfl, -⟩, _, ⟨rfl, -⟩, h⟩
      rw [hquotient, hremainder] at h
      split_ifs at h with hlarge
      obtain ⟨hq, hr, hfits, hrest⟩ := (ih (n * 10)).mp h
      rw [hpow] at hq hr
      refine ⟨hq, hr, fun _ => ?_, hcarried, hrest⟩
      rcases Nat.eq_zero_or_pos count with rfl | hpos
      · rw [hq]
        simpa using hlarge
      · exact hfits hpos
    · rintro ⟨hq, hr, hfits, hcarried, hrest⟩
      have hfits := hfits (Nat.succ_pos _)
      have hmax : maxU64 < 2 ^ 127 := by decide
      have hshifted : n / denominator * 10 ≤ n * 10 / denominator := Nat.le.intro hquotient
      refine ⟨_, ⟨rfl, hcarried⟩, _, ⟨rfl, by omega⟩, _, ⟨rfl, by omega⟩, ?_⟩
      rw [hquotient, hremainder, if_neg (by omega)]
      exact (ih (n * 10)).mpr ⟨by rw [hpow]; exact hq, by rw [hpow]; exact hr, fun _ => hfits, hrest⟩

end Digits

section Scaling

variable {numerator denominator : ℕ} {exponent : ℤ} {price : UInt64}

/-- No step of the scaling leaves the `i128`. -/
structure ScaleFits (numerator denominator : ℕ) (exponent : ℤ) : Prop where
  scale : denominator * 10 ^ (-exponent).toNat < 2 ^ 127
  carried : ∀ i < exponent.toNat, numerator * 10 ^ i % denominator * 10 < 2 ^ 127

theorem scaledDenominator_eq_some_iff (hd : 0 < denominator) (hfits : denominator < 2 ^ 127)
    (scaled : ℕ) : scaledDenominator denominator exponent = some scaled ↔
      scaled = denominator * 10 ^ (-exponent).toNat ∧ scaled < 2 ^ 127 := by
  unfold scaledDenominator
  by_cases hneg : exponent < 0
  · have habs : exponent.natAbs = (-exponent).toNat := by omega
    rw [if_pos hneg, habs]
    by_cases hlarge : 2 ^ 32 ≤ (-exponent).toNat
    · rw [if_pos hlarge]
      simp only [reduceCtorEq, false_iff, not_and, not_lt]
      rintro rfl
      -- The power alone is larger than an `i128`.
      calc 2 ^ 127 ≤ 10 ^ 127 := Nat.pow_le_pow_left (by decide) _
        _ ≤ 10 ^ (-exponent).toNat := Nat.pow_le_pow_right (by decide) (by omega)
        _ ≤ denominator * 10 ^ (-exponent).toNat := Nat.le_mul_of_pos_left _ hd
    · rw [if_neg hlarge]
      simp only [Option.bind_eq_bind, Option.bind_eq_some_iff, checkedI128_eq_some_iff]
      constructor
      · rintro ⟨_, ⟨rfl, -⟩, rfl, h⟩
        exact ⟨rfl, h⟩
      · rintro ⟨rfl, h⟩
        exact ⟨_, ⟨rfl, lt_of_le_of_lt (Nat.le_mul_of_pos_left _ hd) h⟩, rfl, h⟩
  · have hzero : (-exponent).toNat = 0 := by omega
    rw [if_neg hneg, hzero, pow_zero, mul_one, Option.some.injEq, eq_comm]
    exact ⟨fun h => ⟨h, h ▸ hfits⟩, And.left⟩

theorem rounded_eq_some_iff (hd : 0 < denominator) (n result : ℕ) (hresult : result ≤ maxU64) :
    rounded denominator (n / denominator) (n % denominator) = some result ↔
      result = halfEven n denominator := by
  have hlt := Nat.mod_lt n hd
  have hmax : maxU64 < 2 ^ 127 := by decide
  unfold rounded halfEven
  dsimp only
  split_ifs <;> simp only [Option.some.injEq, checkedI128_eq_some_iff] <;> omega

theorem halfEven_ge (n : ℕ) : n / denominator ≤ halfEven n denominator := by
  unfold halfEven
  dsimp only
  split_ifs <;> omega

/-- The scaled price is the exact one, rounded half to even, where no step overflows and it fits. -/
theorem scaledPrice_eq_some_iff (hd : 0 < denominator) (hfits : denominator < 2 ^ 127) :
    scaledPrice numerator denominator exponent = some price ↔
      ScaleFits numerator denominator exponent ∧
        price.toNat = halfEven (numerator * 10 ^ exponent.toNat)
          (denominator * 10 ^ (-exponent).toNat) := by
  have hscaled : 0 < denominator * 10 ^ (-exponent).toNat := by positivity
  -- Only a denominator that is not scaled carries remainders.
  have hcarried : (∀ i < exponent.toNat, numerator * 10 ^ i %
        (denominator * 10 ^ (-exponent).toNat) * 10 < 2 ^ 127) ↔
      ∀ i < exponent.toNat, numerator * 10 ^ i % denominator * 10 < 2 ^ 127 := by
    rcases Nat.eq_zero_or_pos exponent.toNat with hzero | hpos
    · simp [hzero]
    · rw [show (-exponent).toNat = 0 by omega, pow_zero, mul_one]
  unfold scaledPrice
  simp only [Option.bind_eq_bind, Option.bind_eq_some_iff,
    scaledDenominator_eq_some_iff hd hfits]
  constructor
  · rintro ⟨_, ⟨rfl, hscale⟩, h⟩
    rw [if_neg hscaled.ne'] at h
    obtain ⟨⟨q, r⟩, hdigits, h⟩ := Option.bind_eq_some_iff.mp h
    obtain ⟨result, hrounded, hprice⟩ := Option.bind_eq_some_iff.mp h
    split_ifs at hprice with hmax
    obtain ⟨rfl, rfl, -, hremainders⟩ := (digits_eq_some_iff hscaled numerator).mp hdigits
    have := (rounded_eq_some_iff hscaled _ _ hmax).mp hrounded
    refine ⟨⟨hscale, hcarried.mp hremainders⟩, ?_⟩
    cases hprice
    rw [← this]
    exact UInt64.toNat_ofNat_of_lt' (by unfold maxU64 at hmax; change result < 2 ^ 64; omega)
  · rintro ⟨⟨hscale, hremainders⟩, heq⟩
    have hmax : halfEven (numerator * 10 ^ exponent.toNat)
        (denominator * 10 ^ (-exponent).toNat) ≤ maxU64 := by
      have := price.toNat_lt
      unfold maxU64
      omega
    have hdigits := (digits_eq_some_iff hscaled numerator).mpr
      ⟨rfl, rfl, fun _ => (halfEven_ge _).trans hmax, hcarried.mpr hremainders⟩
    have hrounded := (rounded_eq_some_iff hscaled _ _ hmax).mpr rfl
    refine ⟨_, ⟨rfl, hscale⟩, ?_⟩
    rw [if_neg hscaled.ne', hdigits, Option.bind_some, hrounded, Option.bind_some, if_pos hmax,
      ← heq, UInt64.ofNat_toNat]

end Scaling

end CrossPrice

end PriceOracle
