import Mathlib.Algebra.BigOperators.Group.List.Lemmas
import Mathlib.Algebra.Order.Field.Power
import PriceOracle.CrossPrices

/-!
# What a Cross price is worth

The exact price of a Cross pair is the rational product of its legs, at the pair's decimals.
What the computation returns is that price rounded half to even; and it returns one for every
price that a `u64` holds, except where an intermediate number does not fit in its type.
-/

namespace PriceOracle.CrossPrice

open HalfEven (IsHalfEven halfEven isHalfEven_halfEven isHalfEven_div_iff)

section Exact

/-- What a leg multiplies the price by. -/
def Leg.rate (leg : Leg) : ℚ :=
  let rate : ℚ := leg.2.price.toNat / 10 ^ leg.2.decimals.toNat
  if leg.1.invert then rate⁻¹ else rate

/-- The exact price of the pair, in units of its last decimal. -/
def exactPrice (pair : FeedDefinition) (legs : List Leg) : ℚ :=
  (legs.map Leg.rate).prod * 10 ^ pair.decimals.toNat

def Leg.numerator (leg : Leg) : ℕ := if leg.1.invert then 1 else leg.2.price.toNat

def Leg.denominator (leg : Leg) : ℕ := if leg.1.invert then leg.2.price.toNat else 1

def Leg.exponent (leg : Leg) : ℤ :=
  if leg.1.invert then leg.2.decimals.toNat else -leg.2.decimals.toNat

/-- The product of the prices that are multiplied. -/
def numeratorOf (legs : List Leg) : ℕ := (legs.map Leg.numerator).prod

/-- The product of the prices that are divided by. -/
def denominatorOf (legs : List Leg) : ℕ := (legs.map Leg.denominator).prod

/-- The power of ten the fraction is scaled by. -/
def exponentOf (pair : FeedDefinition) (legs : List Leg) : ℤ :=
  pair.decimals.toNat + (legs.map Leg.exponent).sum

variable {pair : FeedDefinition} {legs : List Leg} {leg : Leg}

theorem Leg.rate_eq (leg : Leg) :
    leg.rate = (leg.numerator : ℚ) / leg.denominator * 10 ^ leg.exponent := by
  unfold Leg.rate Leg.numerator Leg.denominator Leg.exponent
  dsimp only
  split_ifs with hinvert
  · rw [zpow_natCast, inv_div, Nat.cast_one, div_mul_eq_mul_div, one_mul]
  · rw [zpow_neg, zpow_natCast, Nat.cast_one, div_one, div_eq_mul_inv]

theorem prod_rate (legs : List Leg) : (legs.map Leg.rate).prod =
    (numeratorOf legs : ℚ) / denominatorOf legs * 10 ^ (legs.map Leg.exponent).sum := by
  unfold numeratorOf denominatorOf
  induction legs with
  | nil => simp
  | cons leg legs ih =>
    simp only [List.map_cons, List.prod_cons, List.sum_cons, ih, leg.rate_eq, Nat.cast_mul,
      zpow_add₀ (by norm_num : (10 : ℚ) ≠ 0)]
    ring

theorem ten_zpow (e : ℤ) : (10 : ℚ) ^ e = 10 ^ e.toNat / 10 ^ (-e).toNat := by
  rcases le_total 0 e with h | h
  · rw [show (-e).toNat = 0 by omega, pow_zero, div_one, ← zpow_natCast, Int.toNat_of_nonneg h]
  · rw [show e.toNat = 0 by omega, pow_zero, ← zpow_natCast, Int.toNat_of_nonneg (by omega),
      zpow_neg, one_div, inv_inv]

/-- The exact price as the fraction that the code divides out. -/
theorem exactPrice_eq (pair : FeedDefinition) (legs : List Leg) : exactPrice pair legs =
    (numeratorOf legs * 10 ^ (exponentOf pair legs).toNat : ℕ) /
      (denominatorOf legs * 10 ^ (-exponentOf pair legs).toNat : ℕ) := by
  have hscale : (10 : ℚ) ^ (legs.map Leg.exponent).sum * 10 ^ pair.decimals.toNat =
      10 ^ (exponentOf pair legs).toNat / 10 ^ (-exponentOf pair legs).toNat := by
    rw [← ten_zpow, exponentOf, add_comm, zpow_add₀ (by norm_num), zpow_natCast]
  unfold exactPrice
  rw [prod_rate, mul_assoc, hscale, div_mul_div_comm]
  push_cast
  rfl

end Exact

section Products

/-- An `i64` holds it. -/
def InI64 (n : ℤ) : Prop := -2 ^ 63 ≤ n ∧ n < 2 ^ 63

/-- The products of the code after some legs, from an earlier product. -/
def Product.after (product : Product) (legs : List Leg) : Product :=
  ⟨product.numerator * numeratorOf legs, product.denominator * denominatorOf legs,
    product.exponent + (legs.map Leg.exponent).sum⟩

structure Product.Fits (product : Product) : Prop where
  numerator : product.numerator < 2 ^ 127
  denominator : product.denominator < 2 ^ 127
  exponent : InI64 product.exponent

variable {product product' : Product} {leg : Leg} {legs : List Leg}

theorem Product.after_nil (product : Product) : product.after [] = product := by
  simp [Product.after, numeratorOf, denominatorOf]

theorem Product.after_cons (product : Product) (leg : Leg) (legs : List Leg) :
    product.after (leg :: legs) = (product.after [leg]).after legs := by
  simp [Product.after, numeratorOf, denominatorOf, mul_assoc, add_assoc]

theorem addI64_eq_ok_iff (n m : ℤ) : addI64 n = .ok m ↔ m = n ∧ InI64 n := by
  unfold addI64 InI64
  split_ifs with h
  · simp only [Except.ok.injEq, h, and_true, eq_comm]
  · simp only [h, and_false]

/-- One leg is multiplied in exactly where the result still fits. -/
theorem extend_eq_ok_iff (hfits : product.Fits) :
    product.extend leg = .ok product' ↔ product' = product.after [leg] ∧ product'.Fits := by
  unfold Product.extend Product.after numeratorOf denominatorOf Leg.numerator
    Leg.denominator Leg.exponent
  cases hinvert : leg.1.invert
  · simp only [hinvert, Bool.false_eq_true, if_false, Db.except_bind_ok, orNoPrice_eq_ok_iff,
      checkedI128_eq_some_iff, addI64_eq_ok_iff, List.map_cons, List.map_nil, List.prod_cons,
      List.prod_nil, List.sum_cons, List.sum_nil, mul_one, add_zero, ← sub_eq_add_neg, pure,
      Except.pure, Except.ok.injEq]
    constructor
    · rintro ⟨_, ⟨rfl, hn⟩, _, ⟨rfl, he⟩, rfl⟩
      exact ⟨rfl, hn, hfits.denominator, he⟩
    · rintro ⟨rfl, h⟩
      exact ⟨_, ⟨rfl, h.numerator⟩, _, ⟨rfl, h.exponent⟩, rfl⟩
  · simp only [hinvert, if_true, Db.except_bind_ok, orNoPrice_eq_ok_iff,
      checkedI128_eq_some_iff, addI64_eq_ok_iff, List.map_cons, List.map_nil, List.prod_cons,
      List.prod_nil, List.sum_cons, List.sum_nil, mul_one, add_zero, pure,
      Except.pure, Except.ok.injEq]
    constructor
    · rintro ⟨_, ⟨rfl, hd⟩, _, ⟨rfl, he⟩, rfl⟩
      exact ⟨rfl, hfits.numerator, hd, he⟩
    · rintro ⟨rfl, h⟩
      exact ⟨_, ⟨rfl, h.denominator⟩, _, ⟨rfl, h.exponent⟩, rfl⟩

/-- The legs are multiplied out exactly where every prefix of them fits. -/
theorem foldlM_extend_eq_ok_iff (hfits : product.Fits) :
    legs.foldlM Product.extend product = .ok product' ↔
      product' = product.after legs ∧ ∀ walked, walked <+: legs → (product.after walked).Fits := by
  induction legs generalizing product with
  | nil =>
    simp only [List.foldlM_nil, pure, Except.pure, Except.ok.injEq, Product.after_nil,
      List.prefix_nil, forall_eq]
    exact ⟨fun h => ⟨h.symm, hfits⟩, fun h => h.1.symm⟩
  | cons leg legs ih =>
    have hprefix : (∀ walked, walked <+: leg :: legs → (product.after walked).Fits) ↔
        (product.after [leg]).Fits ∧
          ∀ walked, walked <+: legs → ((product.after [leg]).after walked).Fits := by
      constructor
      · refine fun h => ⟨h _ (List.prefix_cons_inj leg |>.mpr (List.nil_prefix)), fun walked hw => ?_⟩
        rw [← Product.after_cons]
        exact h _ ((List.prefix_cons_inj leg).mpr hw)
      · rintro ⟨-, h⟩ walked hw
        rcases List.prefix_cons_iff.mp hw with rfl | ⟨walked, rfl, hwalked⟩
        · rwa [Product.after_nil]
        · rw [Product.after_cons]
          exact h walked hwalked
    simp only [List.foldlM_cons, Db.except_bind_ok, extend_eq_ok_iff hfits, hprefix]
    rw [product.after_cons leg legs]
    constructor
    · rintro ⟨_, ⟨rfl, hfit⟩, h⟩
      obtain ⟨heq, hrest⟩ := (ih hfit).mp h
      exact ⟨heq, hfit, hrest⟩
    · rintro ⟨heq, hfit, hrest⟩
      exact ⟨_, ⟨rfl, hfit⟩, (ih hfit).mpr ⟨heq, hrest⟩⟩

end Products

section Compute

variable {pair : FeedDefinition} {legs : List Leg} {data : PriceFeedData}

/-- What a computed price is. -/
structure Computed (pair : FeedDefinition) (legs : List Leg) (data : PriceFeedData) : Prop where
  feedId : data.feedId = pair.id
  decimals : data.decimals = pair.decimals
  price : IsHalfEven (exactPrice pair legs) data.price.toNat
  positive : 0 < data.price.toNat
  receivedAt : (∃ leg ∈ legs, data.receivedAt = leg.2.receivedAt) ∧
    ∀ leg ∈ legs, leg.2.receivedAt ≤ data.receivedAt
  validUntil : (∃ leg ∈ legs, data.validUntil = leg.2.validUntil) ∧
    ∀ leg ∈ legs, data.validUntil ≤ leg.2.validUntil

theorem after_one (pair : FeedDefinition) (legs : List Leg) :
    (⟨1, 1, pair.decimals.toNat⟩ : Product).after legs =
      ⟨numeratorOf legs, denominatorOf legs, exponentOf pair legs⟩ := by
  simp [Product.after, exponentOf]

theorem fits_one (pair : FeedDefinition) : (⟨1, 1, pair.decimals.toNat⟩ : Product).Fits := by
  have := pair.decimals.toNat_lt
  exact ⟨by norm_num, by norm_num, by constructor <;> dsimp only <;> omega⟩

theorem scaledPrice_zero (n : ℕ) (e : ℤ) : scaledPrice n 0 e = none := by
  refine Option.eq_none_iff_forall_ne_some.mpr fun price h => ?_
  unfold scaledPrice at h
  obtain ⟨scaled, hscaled, h⟩ := Option.bind_eq_some_iff.mp h
  have hzero : scaled = 0 := by
    unfold scaledDenominator at hscaled
    split_ifs at hscaled
    · obtain ⟨scale, -, hscaled⟩ := Option.bind_eq_some_iff.mp hscaled
      simpa using ((checkedI128_eq_some_iff _ _).mp hscaled).1
    · exact (Option.some.inj hscaled).symm
  rw [if_pos hzero] at h
  cases h

instance lawfulOrderMax_uint64 : Std.LawfulOrderMax UInt64 where
  max_eq_or a b := by
    change (if a ≤ b then b else a) = a ∨ (if a ≤ b then b else a) = b
    split_ifs <;> simp
  max_le_iff a b c := by
    change (if a ≤ b then b else a) ≤ c ↔ _
    split_ifs with h
    · exact ⟨fun hb => ⟨UInt64.le_trans h hb, hb⟩, And.right⟩
    · have h := (UInt64.le_total a b).resolve_left h
      exact ⟨fun ha => ⟨ha, UInt64.le_trans h ha⟩, And.left⟩

theorem exists_max {f : Leg → UInt64} (hne : legs ≠ []) :
    ∃ most, (legs.map f).max? = some most := by
  refine Option.ne_none_iff_exists'.mp (mt List.max?_eq_none_iff.mp ?_)
  simpa using hne

theorem exists_min {f : Leg → UInt64} (hne : legs ≠ []) :
    ∃ least, (legs.map f).min? = some least := by
  refine Option.ne_none_iff_exists'.mp (mt List.min?_eq_none_iff.mp ?_)
  simpa using hne

theorem max_spec {f : Leg → UInt64} {most : UInt64} (h : (legs.map f).max? = some most) :
    (∃ leg ∈ legs, most = f leg) ∧ ∀ leg ∈ legs, f leg ≤ most := by
  obtain ⟨hmem, hle⟩ := List.max?_eq_some_iff.mp h
  obtain ⟨leg, hleg, rfl⟩ := List.mem_map.mp hmem
  exact ⟨⟨leg, hleg, rfl⟩, fun leg hleg => hle _ (List.mem_map_of_mem hleg)⟩

theorem min_spec {f : Leg → UInt64} {least : UInt64} (h : (legs.map f).min? = some least) :
    (∃ leg ∈ legs, least = f leg) ∧ ∀ leg ∈ legs, least ≤ f leg := by
  obtain ⟨hmem, hle⟩ := List.min?_eq_some_iff.mp h
  obtain ⟨leg, hleg, rfl⟩ := List.mem_map.mp hmem
  exact ⟨⟨leg, hleg, rfl⟩, fun leg hleg => hle _ (List.mem_map_of_mem hleg)⟩

/-- The computation returns a price exactly where nothing overflows, there is a leg, and the
rounded exact price is positive and fits. -/
theorem compute_eq_ok_iff : compute pair legs = .ok data ↔
    (∀ walked, walked <+: legs → ((⟨1, 1, pair.decimals.toNat⟩ : Product).after walked).Fits) ∧
    (∃ price, scaledPrice (numeratorOf legs) (denominatorOf legs) (exponentOf pair legs) =
        some price ∧ price ≠ 0 ∧ data.price = price) ∧
    data.feedId = pair.id ∧ data.decimals = pair.decimals ∧
    (legs.map fun leg => leg.2.receivedAt).max? = some data.receivedAt ∧
    (legs.map fun leg => leg.2.validUntil).min? = some data.validUntil := by
  unfold compute
  simp only [Db.except_bind_ok, orNoPrice_eq_ok_iff, Option.filter_eq_some_iff, decide_eq_true_eq,
    foldlM_extend_eq_ok_iff (fits_one pair), pure, Except.pure, Except.ok.injEq]
  constructor
  · rintro ⟨_, ⟨rfl, hfits⟩, price, ⟨hprice, hne⟩, received, hreceived, valid, hvalid, rfl⟩
    rw [after_one] at hprice
    exact ⟨hfits, ⟨price, hprice, hne, rfl⟩, rfl, rfl, hreceived, hvalid⟩
  · rintro ⟨hfits, ⟨price, hprice, hne, hdata⟩, hid, hdecimals, hreceived, hvalid⟩
    refine ⟨_, ⟨rfl, hfits⟩, price, ⟨by rw [after_one]; exact hprice, hne⟩, _, hreceived, _,
      hvalid, ?_⟩
    rw [← hdata, ← hid, ← hdecimals]

end Compute

section Soundness

variable {pair : FeedDefinition} {legs : List Leg} {leg : Leg} {data : PriceFeedData}
  {product product' : Product}

theorem isHalfEven_exactPrice (hd : 0 < denominatorOf legs) (n : ℕ) :
    IsHalfEven (exactPrice pair legs) n ↔
      n = halfEven (numeratorOf legs * 10 ^ (exponentOf pair legs).toNat)
        (denominatorOf legs * 10 ^ (-exponentOf pair legs).toNat) := by
  rw [exactPrice_eq]
  exact isHalfEven_div_iff (by positivity) n

theorem computed_of_ok (h : compute pair legs = .ok data) : Computed pair legs data := by
  obtain ⟨hfits, ⟨price, hprice, hne, rfl⟩, hid, hdecimals, hreceived, hvalid⟩ :=
    compute_eq_ok_iff.mp h
  have hall := hfits legs (List.prefix_refl legs)
  rw [after_one] at hall
  have hd : 0 < denominatorOf legs := by
    refine Nat.pos_of_ne_zero fun hzero => ?_
    rw [hzero, scaledPrice_zero] at hprice
    cases hprice
  refine ⟨hid, hdecimals, ?_, ?_, max_spec hreceived, min_spec hvalid⟩
  · exact (isHalfEven_exactPrice hd _).mpr ((scaledPrice_eq_some_iff hd hall.denominator).mp hprice).2
  · exact Nat.pos_of_ne_zero fun hzero => hne (UInt64.toNat_inj.mp hzero)

theorem exponent_extend (h : product.extend leg = .ok product') :
    product'.exponent.natAbs < product.exponent.natAbs + 2 ^ 32 := by
  have := leg.2.decimals.toNat_lt
  unfold Product.extend at h
  split_ifs at h
  · obtain ⟨_, -, e, he, h⟩ : ∃ d, orNoPrice _ = .ok d ∧ ∃ e, addI64 _ = .ok e ∧ _ := by
      simpa only [Db.except_bind_ok] using h
    cases h
    obtain ⟨rfl, -⟩ := (addI64_eq_ok_iff _ _).mp he
    dsimp only
    omega
  · obtain ⟨_, -, e, he, h⟩ : ∃ d, orNoPrice _ = .ok d ∧ ∃ e, addI64 _ = .ok e ∧ _ := by
      simpa only [Db.except_bind_ok] using h
    cases h
    obtain ⟨rfl, -⟩ := (addI64_eq_ok_iff _ _).mp he
    dsimp only
    omega

theorem addI64_ne_overflow {n : ℤ} (h : n.natAbs < 2 ^ 63) : addI64 n = .ok n :=
  (addI64_eq_ok_iff n n).mpr ⟨rfl, by unfold InI64; omega⟩

theorem extend_ne_overflow (h : product.exponent.natAbs + 2 ^ 32 ≤ 2 ^ 63) :
    product.extend leg ≠ .error .overflow := by
  have hdecimals := leg.2.decimals.toNat_lt
  unfold Product.extend
  split_ifs
  · rw [addI64_ne_overflow (by omega)]
    cases checkedI128 (product.denominator * leg.2.price.toNat) <;>
      simp [orNoPrice, bind, Except.bind, pure, Except.pure]
  · rw [addI64_ne_overflow (by omega)]
    cases checkedI128 (product.numerator * leg.2.price.toNat) <;>
      simp [orNoPrice, bind, Except.bind, pure, Except.pure]

/-- Every leg moves the exponent by less than `2 ^ 32`. -/
theorem foldlM_ne_overflow (h : product.exponent.natAbs + legs.length * 2 ^ 32 < 2 ^ 63) :
    legs.foldlM Product.extend product ≠ .error .overflow := by
  induction legs generalizing product with
  | nil => simp [pure, Except.pure]
  | cons leg legs ih =>
    rw [List.length_cons] at h
    rw [List.foldlM_cons]
    cases hstep : product.extend leg with
    | error failure =>
      have := @extend_ne_overflow leg product (by omega)
      rw [hstep] at this
      exact this
    | ok product' =>
      have := exponent_extend hstep
      exact ih (by omega)

theorem compute_ne_overflow (h : legs.length < 2 ^ 31) : compute pair legs ≠ .error .overflow := by
  have hdecimals := pair.decimals.toNat_lt
  have hfold := @foldlM_ne_overflow legs ⟨1, 1, pair.decimals.toNat⟩ (by dsimp only; omega)
  unfold compute
  cases hproduct : legs.foldlM Product.extend ⟨1, 1, pair.decimals.toNat⟩ with
  | error failure =>
    cases failure with
    | noPrice => simp [bind, Except.bind]
    | overflow => exact absurd hproduct hfold
  | ok product =>
    simp only [bind, Except.bind, pure, Except.pure]
    cases (scaledPrice product.numerator product.denominator product.exponent).filter (· ≠ 0) <;>
      cases (legs.map fun leg => leg.2.receivedAt).max? <;>
        cases (legs.map fun leg => leg.2.validUntil).min? <;> simp [orNoPrice]

/-- A computation from fewer than `2 ^ 31` legs never overflows, and the price it returns is the
exact one rounded half to even, with the newest stamp and the oldest validity of its legs. -/
theorem compute_sound (pair : FeedDefinition) (legs : List Leg) (hlength : legs.length < 2 ^ 31) :
    compute pair legs = .error .noPrice ∨
      ∃ data, compute pair legs = .ok data ∧ Computed pair legs data := by
  have hoverflow := @compute_ne_overflow pair legs hlength
  cases h : compute pair legs with
  | ok data => exact .inr ⟨data, rfl, computed_of_ok h⟩
  | error failure =>
    cases failure with
    | noPrice => exact .inl rfl
    | overflow => exact absurd h hoverflow

/-- The default registry's LBTC/USDT pair. -/
def lbtcUsdt : FeedDefinition := .new 4 .lbtc .usdt .cross

/-- A leg at the feeds' decimals. -/
def legAt (feed : UInt32) (invert : Bool) (price : UInt64) : Leg :=
  (⟨feed, invert⟩, ⟨feed, price, feedDecimals, 1700000000, 1700000300⟩)

theorem compute_sound_lbtc_usdt :
    compute lbtcUsdt [legAt 0 false 6000000000000, legAt 1 true 80000000] = .error .noPrice ∨
      ∃ data, compute lbtcUsdt [legAt 0 false 6000000000000, legAt 1 true 80000000] = .ok data ∧
        Computed lbtcUsdt [legAt 0 false 6000000000000, legAt 1 true 80000000] data :=
  compute_sound _ _ (by decide)

/-- An inverted leg with the largest decimals there are. -/
def steepLeg : Leg := (⟨1, true⟩, ⟨1, 1, 2 ^ 32 - 1, 1700000000, 1700000300⟩)

theorem foldlM_steep (count : ℕ) (e : ℤ) (hlow : 0 ≤ e) (hfits : e < 2 ^ 63)
    (hover : 2 ^ 63 ≤ e + count * (2 ^ 32 - 1)) :
    (List.replicate count steepLeg).foldlM Product.extend ⟨1, 1, e⟩ = .error .overflow := by
  induction count generalizing e with
  | zero => omega
  | succ count ih =>
    have hdecimals : ((2 ^ 32 - 1 : UInt32).toNat : ℤ) = 2 ^ 32 - 1 := by decide
    have hstep : Product.extend ⟨1, 1, e⟩ steepLeg =
        (addI64 (e + (2 ^ 32 - 1))).map fun e => ⟨1, 1, e⟩ := by
      simp only [Product.extend, steepLeg, if_true, hdecimals]
      rfl
    rw [List.replicate_succ, List.foldlM_cons, hstep]
    by_cases hfits' : e + (2 ^ 32 - 1) < 2 ^ 63
    · rw [addI64_ne_overflow (by omega)]
      exact ih _ (by omega) hfits' (by push_cast at hover ⊢; linarith)
    · unfold addI64
      rw [if_neg (fun h => hfits' h.2)]
      rfl

/-- `2 ^ 31` such legs take the exponent, which is added up unchecked, out of the `i64`. -/
theorem compute_overflows : compute { lbtcUsdt with decimals := 2 ^ 32 - 1 }
    (List.replicate (2 ^ 31) steepLeg) = .error .overflow := by
  have hfold := foldlM_steep (2 ^ 31) ((2 ^ 32 - 1 : UInt32).toNat : ℤ) (by decide) (by decide)
    (by decide)
  unfold compute
  dsimp only
  rw [hfold]
  rfl

end Soundness

section Completeness

variable {pair : FeedDefinition} {legs walked : List Leg} {data : PriceFeedData}

/-- The rounded exact price is one that a feed can carry. -/
def Representable (pair : FeedDefinition) (legs : List Leg) : Prop :=
  ∃ price, IsHalfEven (exactPrice pair legs) price ∧ 0 < price ∧ price < 2 ^ 64

/-- No number of the computation leaves its type. -/
structure Fits (pair : FeedDefinition) (legs : List Leg) : Prop where
  nonempty : legs ≠ []
  numerator : numeratorOf legs < 2 ^ 127
  denominator : denominatorOf legs < 2 ^ 127
  exponent : ∀ walked, walked <+: legs → InI64 (exponentOf pair walked)
  scale : ScaleFits (numeratorOf legs) (denominatorOf legs) (exponentOf pair legs)

theorem numeratorOf_pos (h : ∀ leg ∈ legs, leg.2.price ≠ 0) : 0 < numeratorOf legs := by
  refine List.prod_pos fun n hn => ?_
  obtain ⟨leg, hleg, rfl⟩ := List.mem_map.mp hn
  have := Nat.pos_of_ne_zero fun hzero => h leg hleg (UInt64.toNat_inj.mp hzero)
  unfold Leg.numerator
  split_ifs <;> omega

theorem denominatorOf_pos (h : ∀ leg ∈ legs, leg.2.price ≠ 0) : 0 < denominatorOf legs := by
  refine List.prod_pos fun n hn => ?_
  obtain ⟨leg, hleg, rfl⟩ := List.mem_map.mp hn
  have := Nat.pos_of_ne_zero fun hzero => h leg hleg (UInt64.toNat_inj.mp hzero)
  unfold Leg.denominator
  split_ifs <;> omega

/-- Prices that are not zero only make the products grow. -/
theorem numeratorOf_le (h : ∀ leg ∈ legs, leg.2.price ≠ 0) (hw : walked <+: legs) :
    numeratorOf walked ≤ numeratorOf legs := by
  obtain ⟨rest, rfl⟩ := hw
  have := @numeratorOf_pos rest fun leg hleg => h leg (List.mem_append_right _ hleg)
  rw [numeratorOf, numeratorOf, List.map_append, List.prod_append]
  exact Nat.le_mul_of_pos_right _ this

theorem denominatorOf_le (h : ∀ leg ∈ legs, leg.2.price ≠ 0) (hw : walked <+: legs) :
    denominatorOf walked ≤ denominatorOf legs := by
  obtain ⟨rest, rfl⟩ := hw
  have := @denominatorOf_pos rest fun leg hleg => h leg (List.mem_append_right _ hleg)
  rw [denominatorOf, denominatorOf, List.map_append, List.prod_append]
  exact Nat.le_mul_of_pos_right _ this

theorem fits_of_ok (h : compute pair legs = .ok data) : Fits pair legs := by
  obtain ⟨hfits, ⟨price, hprice, -⟩, -, -, hreceived, -⟩ := compute_eq_ok_iff.mp h
  simp only [after_one] at hfits
  have hall := hfits legs (List.prefix_refl legs)
  have hd : 0 < denominatorOf legs := by
    refine Nat.pos_of_ne_zero fun hzero => ?_
    rw [hzero, scaledPrice_zero] at hprice
    cases hprice
  refine ⟨?_, hall.numerator, hall.denominator, fun walked hw => (hfits walked hw).exponent,
    ((scaledPrice_eq_some_iff hd hall.denominator).mp hprice).1⟩
  rintro rfl
  cases hreceived

theorem ok_of_fits (hprices : ∀ leg ∈ legs, leg.2.price ≠ 0) (hfits : Fits pair legs)
    (hrepresentable : Representable pair legs) : ∃ data, compute pair legs = .ok data := by
  obtain ⟨price, hprice, hpos, hlt⟩ := hrepresentable
  have hd := denominatorOf_pos hprices
  have hword : (UInt64.ofNat price).toNat = price := UInt64.toNat_ofNat_of_lt' hlt
  have hscaled : scaledPrice (numeratorOf legs) (denominatorOf legs) (exponentOf pair legs) =
      some (UInt64.ofNat price) :=
    (scaledPrice_eq_some_iff hd hfits.denominator).mpr
      ⟨hfits.scale, by rw [hword]; exact (isHalfEven_exactPrice hd price).mp hprice⟩
  obtain ⟨received, hreceived⟩ := @exists_max _ (fun leg => leg.2.receivedAt) hfits.nonempty
  obtain ⟨valid, hvalid⟩ := @exists_min _ (fun leg => leg.2.validUntil) hfits.nonempty
  refine ⟨⟨pair.id, UInt64.ofNat price, pair.decimals, received, valid⟩,
    compute_eq_ok_iff.mpr ⟨fun walked hw => ?_, ⟨_, hscaled, fun hzero => ?_, rfl⟩, rfl, rfl,
      hreceived, hvalid⟩⟩
  · rw [after_one]
    exact ⟨(numeratorOf_le hprices hw).trans_lt hfits.numerator,
      (denominatorOf_le hprices hw).trans_lt hfits.denominator, hfits.exponent walked hw⟩
  · rw [hzero] at hword
    exact hpos.ne hword

/-- From legs with prices, every representable price is computed exactly where there is a leg and
no intermediate number of a representable price leaves its type. -/
theorem compute_complete_iff (pair : FeedDefinition) (legs : List Leg)
    (hprices : ∀ leg ∈ legs, leg.2.price ≠ 0) :
    (Representable pair legs → ∃ data, compute pair legs = .ok data) ↔
      (Representable pair legs → Fits pair legs) := by
  constructor
  · intro h hrepresentable
    obtain ⟨data, hdata⟩ := h hrepresentable
    exact fits_of_ok hdata
  · exact fun h hrepresentable => ok_of_fits hprices (h hrepresentable) hrepresentable

theorem compute_complete_iff_lbtc_usdt :
    (Representable lbtcUsdt [legAt 0 false 6000000000000, legAt 1 true 80000000] →
      ∃ data, compute lbtcUsdt [legAt 0 false 6000000000000, legAt 1 true 80000000] = .ok data) ↔
    (Representable lbtcUsdt [legAt 0 false 6000000000000, legAt 1 true 80000000] →
      Fits lbtcUsdt [legAt 0 false 6000000000000, legAt 1 true 80000000]) :=
  compute_complete_iff _ _ (by decide +kernel)

/-- The largest prices, which cancel. -/
def cancellingLegs : List Leg :=
  [legAt 0 false (2 ^ 64 - 1), legAt 1 false (2 ^ 64 - 1), legAt 2 true (2 ^ 64 - 1),
    legAt 3 true (2 ^ 64 - 1)]

/-- Their exact price is one, but the product of two of them leaves the `i128`. -/
theorem compute_incomplete : (∀ leg ∈ cancellingLegs, leg.2.price ≠ 0) ∧
    compute lbtcUsdt cancellingLegs = .error .noPrice ∧ Representable lbtcUsdt cancellingLegs := by
  refine ⟨by decide +kernel, by decide +kernel, 10 ^ 8, ?_, by norm_num, by norm_num⟩
  have hexact : exactPrice lbtcUsdt cancellingLegs = (10 ^ 8 : ℕ) := by
    have hprice : ((2 ^ 64 - 1 : UInt64).toNat : ℚ) = 2 ^ 64 - 1 := by
      rw [show (2 ^ 64 - 1 : UInt64).toNat = 2 ^ 64 - 1 by decide +kernel]
      norm_num
    have hdecimals : feedDecimals.toNat = 8 := by decide
    simp only [exactPrice, cancellingLegs, legAt, Leg.rate, lbtcUsdt, FeedDefinition.new, List.map_cons,
      List.map_nil, List.prod_cons, List.prod_nil, hprice, hdecimals, if_true, Bool.false_eq_true, if_false]
    norm_num
  rw [hexact]
  exact ⟨by norm_num, fun h => absurd h (by norm_num)⟩

end Completeness

end PriceOracle.CrossPrice
