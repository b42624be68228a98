import PriceOracle.HalfEven
import PriceOracle.PriceSources
import PriceOracle.Ranks

/-!
# The median of a feed's observations

`price-feed/src/reduce.rs`: the valid observations of a feed reduced to one price. The price
is a middle one, so as long as fewer than half of the sources are arbitrary it stays between
prices of the others.
-/

namespace PriceOracle

namespace MedianReducer

open HalfEven (IsHalfEven halfEven isHalfEven_halfEven)

/-- The prices, in order. -/
def sortedPrices (observations : List SourceObservation) : List UInt64 :=
  (observations.map SourceObservation.price).insertionSort fun a b => a ≤ b

/-- The sum of the two middle prices of an even count is taken in 128 bits. -/
def median (observations : List SourceObservation) : Option UInt64 := do
  let prices := sortedPrices observations
  let middle := prices.length / 2
  if prices.length % 2 = 1 then prices[middle]?
  else
    let lower ← prices[middle - 1]?
    let upper ← prices[middle]?
    let sum := lower.toNat + upper.toNat
    let half := sum / 2
    let rounded := if sum % 2 = 1 ∧ half % 2 = 1 then half + 1 else half
    if rounded < 2 ^ 64 then return UInt64.ofNat rounded else none

def reduce (registry : FeedRegistry) (feed : UInt32) (validObs : List SourceObservation) :
    Option PriceFeedData := do
  let definition ← registry.get feed
  let decimals := definition.decimals
  if validObs.isEmpty || validObs.any fun observation => observation.decimals != decimals then none
  else
    return {
      feedId := feed, price := ← median validObs, decimals
      receivedAt := ← (validObs.map SourceObservation.receivedAt).min?
      validUntil := ← (validObs.map SourceObservation.validUntil).min? }

section Sorted

variable {observations observations' : List SourceObservation}

theorem sortedPrices_perm :
    (sortedPrices observations).Perm (observations.map SourceObservation.price) :=
  List.perm_insertionSort _ _

theorem length_sortedPrices : (sortedPrices observations).length = observations.length := by
  rw [sortedPrices_perm.length_eq, List.length_map]

theorem sortedPrices_pairwise : (sortedPrices observations).Pairwise (· ≤ ·) := by
  have : Std.Total (fun a b : UInt64 => a ≤ b) := ⟨UInt64.le_total⟩
  have : IsTrans UInt64 (· ≤ ·) := ⟨fun _ _ _ => UInt64.le_trans⟩
  exact List.pairwise_insertionSort _ _

/-- The order of the observations does not matter. -/
theorem sortedPrices_congr (h : observations.Perm observations') :
    sortedPrices observations = sortedPrices observations' := by
  have : Std.Antisymm (fun a b : UInt64 => a ≤ b) := ⟨fun _ _ => UInt64.le_antisymm⟩
  refine List.Perm.eq_of_pairwise' sortedPrices_pairwise sortedPrices_pairwise ?_
  exact (sortedPrices_perm.trans (h.map _)).trans sortedPrices_perm.symm

end Sorted

section Median

/-- The middle price of the observations, or the mean of the two middle ones rounded half to
even. -/
structure IsMedian (observations : List SourceObservation) (price : UInt64) : Prop where
  odd : ∀ k, observations.length = 2 * k + 1 → ∃ sorted : List UInt64,
    sorted.Perm (observations.map SourceObservation.price) ∧ sorted.Pairwise (· ≤ ·) ∧
    sorted[k]? = some price
  even : ∀ k, observations.length = 2 * k + 2 → ∃ sorted : List UInt64, ∃ lower upper,
    sorted.Perm (observations.map SourceObservation.price) ∧ sorted.Pairwise (· ≤ ·) ∧
    sorted[k]? = some lower ∧ sorted[k + 1]? = some upper ∧
    IsHalfEven ((lower.toNat + upper.toNat : ℕ) / (2 : ℕ)) price.toNat

variable {observations trusted arbitrary : List SourceObservation} {price : UInt64}

/-- What the code computes of the sum is its half, rounded half to even. -/
theorem halfEven_two (sum : ℕ) :
    (if sum % 2 = 1 ∧ sum / 2 % 2 = 1 then sum / 2 + 1 else sum / 2) = halfEven sum 2 := by
  unfold halfEven
  dsimp only
  have := Nat.mod_lt sum two_pos
  split_ifs <;> omega

theorem isMedian_of_median (hne : observations ≠ []) :
    ∃ price, median observations = some price ∧ IsMedian observations price := by
  have hlength := @length_sortedPrices observations
  have hpos := List.length_pos_iff.mpr hne
  unfold median
  dsimp only
  split_ifs with hodd
  · have hmiddle : (sortedPrices observations).length / 2 < (sortedPrices observations).length := by
      omega
    refine ⟨_, List.getElem?_eq_getElem hmiddle, fun k hk => ?_, fun k hk => by omega⟩
    refine ⟨_, sortedPrices_perm, sortedPrices_pairwise, ?_⟩
    rw [← List.getElem?_eq_getElem hmiddle]
    congr 1
    omega
  · have hmiddle : (sortedPrices observations).length / 2 < (sortedPrices observations).length := by
      omega
    have hlower : (sortedPrices observations).length / 2 - 1 < (sortedPrices observations).length := by
      omega
    obtain ⟨lower, hlower⟩ : ∃ lower, (sortedPrices observations)[
        (sortedPrices observations).length / 2 - 1]? = some lower :=
      ⟨_, List.getElem?_eq_getElem hlower⟩
    obtain ⟨upper, hupper⟩ : ∃ upper, (sortedPrices observations)[
        (sortedPrices observations).length / 2]? = some upper :=
      ⟨_, List.getElem?_eq_getElem hmiddle⟩
    simp only [hlower, hupper, Option.bind_eq_bind, Option.bind_some, halfEven_two]
    have hhalf := isHalfEven_halfEven (lower.toNat + upper.toNat) (by decide : 0 < 2)
    have hfits : halfEven (lower.toNat + upper.toNat) 2 < 2 ^ 64 := by
      have hle : halfEven (lower.toNat + upper.toNat) 2 ≤ 2 ^ 64 - 1 := by
        refine hhalf.ge_of_ge ?_
        have hl := lower.toNat_lt
        have hu := upper.toNat_lt
        rw [div_le_iff₀ (by norm_num)]
        exact_mod_cast (by omega : lower.toNat + upper.toNat ≤ (2 ^ 64 - 1) * 2)
      omega
    rw [if_pos hfits]
    refine ⟨_, rfl, fun k hk => by omega, fun k hk => ?_⟩
    refine ⟨_, lower, upper, sortedPrices_perm, sortedPrices_pairwise, ?_, ?_, ?_⟩
    · rw [← hlower]
      congr 1
      omega
    · rw [← hupper]
      congr 1
      omega
    · rw [UInt64.toNat_ofNat_of_lt' hfits]
      exact hhalf

section Trusted

variable {sorted : List UInt64} {i : ℕ}

theorem toNat_perm (hsorted : sorted.Perm (observations.map SourceObservation.price))
    (hperm : observations.Perm (trusted ++ arbitrary)) :
    (sorted.map UInt64.toNat).Perm (trusted.map (fun observation => observation.price.toNat) ++
      arbitrary.map fun observation => observation.price.toNat) := by
  have := (hsorted.trans (hperm.map _)).map UInt64.toNat
  simpa [Function.comp_def] using this

theorem toNat_pairwise (hsorted : sorted.Pairwise (· ≤ ·)) :
    (sorted.map UInt64.toNat).Pairwise (· ≤ ·) :=
  hsorted.map _ fun _ _ => UInt64.le_iff_toNat_le.mp

/-- The price at a rank that the arbitrary observations cannot reach alone. -/
theorem exists_trusted_le (hsorted : sorted.Perm (observations.map SourceObservation.price))
    (hpairwise : sorted.Pairwise (· ≤ ·)) (hi : sorted[i]? = some price)
    (hperm : observations.Perm (trusted ++ arbitrary)) (h : arbitrary.length ≤ i) :
    ∃ observation ∈ trusted, observation.price ≤ price := by
  obtain ⟨hlt, rfl⟩ := List.getElem?_eq_some_iff.mp hi
  obtain ⟨x, hx, hle⟩ := Ranks.exists_trusted_le (toNat_pairwise hpairwise)
    (toNat_perm hsorted hperm) (by rwa [List.length_map]) (by rwa [List.length_map])
  obtain ⟨observation, hmem, rfl⟩ := List.mem_map.mp hx
  rw [List.getElem_map] at hle
  exact ⟨observation, hmem, UInt64.le_iff_toNat_le.mpr hle⟩

theorem exists_trusted_ge (hsorted : sorted.Perm (observations.map SourceObservation.price))
    (hpairwise : sorted.Pairwise (· ≤ ·)) (hi : sorted[i]? = some price)
    (hperm : observations.Perm (trusted ++ arbitrary))
    (h : arbitrary.length + i < observations.length) :
    ∃ observation ∈ trusted, price ≤ observation.price := by
  have hlength : sorted.length = observations.length := by rw [hsorted.length_eq, List.length_map]
  obtain ⟨hlt, rfl⟩ := List.getElem?_eq_some_iff.mp hi
  obtain ⟨x, hx, hle⟩ := Ranks.exists_trusted_ge (toNat_pairwise hpairwise)
    (toNat_perm hsorted hperm) (by rwa [List.length_map]) (by simpa [hlength] using h)
  obtain ⟨observation, hmem, rfl⟩ := List.mem_map.mp hx
  rw [List.getElem_map] at hle
  exact ⟨observation, hmem, UInt64.le_iff_toNat_le.mpr hle⟩

end Trusted

/-- With fewer than half of the observations arbitrary, the price lies between others'. -/
theorem IsMedian.between_trusted (h : IsMedian observations price)
    (hperm : observations.Perm (trusted ++ arbitrary))
    (hfew : 2 * arbitrary.length < observations.length) :
    (∃ observation ∈ trusted, observation.price ≤ price) ∧
      ∃ observation ∈ trusted, price ≤ observation.price := by
  obtain ⟨k, hk⟩ := Nat.even_or_odd' observations.length
  rcases hk with heven | hodd
  · obtain ⟨sorted, lower, upper, hsorted, hpairwise, hlower, hupper, hhalf⟩ :=
      h.even (k - 1) (by omega)
    obtain ⟨below, hbelow, hlow⟩ :=
      exists_trusted_le hsorted hpairwise hlower hperm (by omega)
    obtain ⟨above, habove, hhigh⟩ :=
      exists_trusted_ge hsorted hpairwise hupper hperm (by omega)
    -- The two middle prices bound their mean, and rounding keeps integer bounds.
    obtain ⟨hlt, hlower⟩ := List.getElem?_eq_some_iff.mp hlower
    obtain ⟨hlt', hupper⟩ := List.getElem?_eq_some_iff.mp hupper
    have horder : lower ≤ upper := by
      rw [← hlower, ← hupper]
      exact List.pairwise_iff_getElem.mp hpairwise _ _ hlt hlt' (by omega)
    have horder := UInt64.le_iff_toNat_le.mp horder
    have hmean : (lower.toNat : ℚ) ≤ (lower.toNat + upper.toNat : ℕ) / (2 : ℕ) := by
      rw [le_div_iff₀ (by norm_num)]
      exact_mod_cast (by omega : lower.toNat * 2 ≤ lower.toNat + upper.toNat)
    have hmean' : ((lower.toNat + upper.toNat : ℕ) : ℚ) / (2 : ℕ) ≤ upper.toNat := by
      rw [div_le_iff₀ (by norm_num)]
      exact_mod_cast (by omega : lower.toNat + upper.toNat ≤ upper.toNat * 2)
    exact ⟨⟨below, hbelow, UInt64.le_trans hlow (UInt64.le_iff_toNat_le.mpr (hhalf.le_of_le hmean))⟩,
      ⟨above, habove, UInt64.le_trans (UInt64.le_iff_toNat_le.mpr (hhalf.ge_of_ge hmean')) hhigh⟩⟩
  · obtain ⟨sorted, hsorted, hpairwise, hmiddle⟩ := h.odd k hodd
    exact ⟨exists_trusted_le hsorted hpairwise hmiddle hperm (by omega),
      exists_trusted_ge hsorted hpairwise hmiddle hperm (by omega)⟩

end Median

section Reduce

variable {registry : FeedRegistry} {definition : FeedDefinition} {feed : UInt32}
  {observations observations' : List SourceObservation}

/-- What a feed's observations are reduced to. -/
structure Reduced (definition : FeedDefinition) (observations : List SourceObservation)
    (data : PriceFeedData) : Prop where
  decimals : data.decimals = definition.decimals
  median : IsMedian observations data.price
  smallest : ∃ observation ∈ observations, observation.price ≤ data.price
  largest : ∃ observation ∈ observations, data.price ≤ observation.price
  trusted : ∀ trusted arbitrary, observations.Perm (trusted ++ arbitrary) →
    2 * arbitrary.length < observations.length →
    (∃ observation ∈ trusted, observation.price ≤ data.price) ∧
      ∃ observation ∈ trusted, data.price ≤ observation.price
  receivedAt : (∃ observation ∈ observations, data.receivedAt = observation.receivedAt) ∧
    ∀ observation ∈ observations, data.receivedAt ≤ observation.receivedAt
  validUntil : (∃ observation ∈ observations, data.validUntil = observation.validUntil) ∧
    ∀ observation ∈ observations, data.validUntil ≤ observation.validUntil

theorem median_congr (h : observations.Perm observations') :
    median observations = median observations' := by
  unfold median
  rw [sortedPrices_congr h]

theorem min_congr {f : SourceObservation → UInt64} (h : observations.Perm observations') :
    (observations.map f).min? = (observations'.map f).min? := by
  refine Option.ext fun a => ?_
  simp only [List.min?_eq_some_iff, (h.map f).mem_iff]

theorem reduce_congr (h : observations.Perm observations') :
    reduce registry feed observations = reduce registry feed observations' := by
  have hempty : observations.isEmpty = observations'.isEmpty := by
    rw [Bool.eq_iff_iff, List.isEmpty_iff, List.isEmpty_iff]
    exact ⟨fun he => (he ▸ h).nil_eq.symm, fun he => (he ▸ h).eq_nil⟩
  have hany (p : SourceObservation → Bool) : observations.any p = observations'.any p := by
    rw [Bool.eq_iff_iff, List.any_eq_true, List.any_eq_true]
    simp only [h.mem_iff]
  unfold reduce
  simp only [hempty, hany, median_congr h, min_congr h]

theorem exists_min {f : SourceObservation → UInt64} (hne : observations ≠ []) :
    ∃ least, (observations.map f).min? = some least ∧
      (∃ observation ∈ observations, least = f observation) ∧
      ∀ observation ∈ observations, least ≤ f observation := by
  have hne : observations.map f ≠ [] := by simpa using hne
  obtain ⟨least, hleast⟩ := Option.ne_none_iff_exists'.mp (mt List.min?_eq_none_iff.mp hne)
  obtain ⟨hmem, hle⟩ := List.min?_eq_some_iff.mp hleast
  obtain ⟨observation, hobs, rfl⟩ := List.mem_map.mp hmem
  exact ⟨_, hleast, ⟨observation, hobs, rfl⟩, fun o ho => hle _ (List.mem_map_of_mem ho)⟩

/-- Observations at the feed's decimals are reduced to their median, stamped with the earliest
of their stamps, and the order in which they are held does not matter. -/
theorem reduce_spec (hfeed : registry.get feed = some definition) (hne : observations ≠ [])
    (hdecimals : ∀ observation ∈ observations, observation.decimals = definition.decimals) :
    ∃ data, reduce registry feed observations = some data ∧ data.feedId = feed ∧
      Reduced definition observations data ∧
      ∀ observations', observations.Perm observations' →
        reduce registry feed observations' = some data := by
  obtain ⟨price, hprice, hmedian⟩ := isMedian_of_median hne
  obtain ⟨received, hreceived, hreceivedAt⟩ := @exists_min _ SourceObservation.receivedAt hne
  obtain ⟨valid, hvalid, hvalidUntil⟩ := @exists_min _ SourceObservation.validUntil hne
  have hscale : observations.any (fun observation => observation.decimals != definition.decimals) =
      false := by
    simpa using hdecimals
  have hempty : observations.isEmpty = false := by simpa using hne
  have hall := @IsMedian.between_trusted observations observations [] price hmedian (by simp)
    (by simpa using List.length_pos_iff.mpr hne)
  have hreduce : reduce registry feed observations =
      some ⟨feed, price, definition.decimals, received, valid⟩ := by
    simp only [reduce, hfeed, hempty, hscale, hprice, hreceived, hvalid, Option.bind_eq_bind,
      Option.bind_some, Bool.or_self, Bool.false_eq_true, if_false, pure]
  exact ⟨_, hreduce, rfl,
    ⟨rfl, hmedian, hall.1, hall.2, fun _ _ => hmedian.between_trusted, hreceivedAt, hvalidUntil⟩,
    fun observations' h => by rw [← reduce_congr h, hreduce]⟩

/-- Of the two largest prices half is odd, and is rounded up. -/
theorem reduce_spec_largest : ∃ data, reduce .default 0
    [.new (2 ^ 64 - 1) 8 1 1, .new (2 ^ 64 - 2) 8 2 2] = some data ∧ data.feedId = 0 ∧
      Reduced (.new 0 .lbtc .usd .direct)
        [.new (2 ^ 64 - 1) 8 1 1, .new (2 ^ 64 - 2) 8 2 2] data ∧
      ∀ observations', List.Perm [.new (2 ^ 64 - 1) 8 1 1, .new (2 ^ 64 - 2) 8 2 2] observations' →
        reduce .default 0 observations' = some data :=
  reduce_spec (by decide) (by simp) (by
    rintro observation hmem
    rcases List.mem_cons.mp hmem with rfl | hmem
    · rfl
    · rw [List.mem_singleton.mp hmem]
      rfl)

end Reduce

end MedianReducer

end PriceOracle
