import PriceOracle.Assets
import PriceOracle.PriceData

/-!
# Instructed rates

`price-feed/src/instruction.rs`: whether a signer accepts the rate of a round, judged by its own value for the feed and
its own clock.
-/

namespace PriceOracle

namespace PriceFeedData

/-- `VALIDITY_WINDOW` -/
def validityWindow : ℕ := 300

/-- `MAX_CLOCK_SKEW` -/
def maxClockSkew : ℕ := 5

/-- `MAX_ACCEPT_DEVIATION_FEED_BPS` -/
def maxAcceptDeviationFeedBps : ℕ := 100

def stampedAhead (data : PriceFeedData) (now : UInt64) : Bool :=
  Assets.saturatingAdd now.toNat maxClockSkew < data.receivedAt.toNat

def validityStretched (data : PriceFeedData) : Bool :=
  Assets.saturatingAdd data.receivedAt.toNat validityWindow < data.validUntil.toNat

end PriceFeedData

namespace PriceInstruction

open PriceFeedData (maxAcceptDeviationFeedBps)

inductive ValidationError where
  | unknownFeed
  | noLocalPrice
  | stale
  | implausibleTimestamp
  | stretchedValidity
  | wrongDecimals
  | deviationExceeded
  deriving DecidableEq

/-- Multiplied out in 128 bits, which the products fit in. -/
def withinDeviation (instructed own : UInt64) : Bool :=
  Int.natAbs (instructed.toNat - own.toNat) * 10000 < instructed.toNat * maxAcceptDeviationFeedBps

def validate (instructed : PriceFeedData) (registry : FeedRegistry) (own : Option PriceFeedData) (now : UInt64) :
    Except ValidationError Unit :=
  match registry.get instructed.feedId with
  | none => .error .unknownFeed
  | some definition =>
    match own with
    | none => .error .noLocalPrice
    | some own =>
      if instructed.validUntil ≤ now then .error .stale
      else if instructed.stampedAhead now then .error .implausibleTimestamp
      else if instructed.validityStretched then .error .stretchedValidity
      else if instructed.decimals ≠ definition.decimals then .error .wrongDecimals
      else if withinDeviation instructed.price own.price = false then .error .deviationExceeded
      else .ok ()

theorem validate_ok_iff {instructed : PriceFeedData} {registry : FeedRegistry} {own : Option PriceFeedData}
    {now : UInt64} : validate instructed registry own now = .ok () ↔
      ∃ definition held, registry.get instructed.feedId = some definition ∧ own = some held ∧
        now < instructed.validUntil ∧ instructed.stampedAhead now = false ∧ instructed.validityStretched = false ∧
        instructed.decimals = definition.decimals ∧ withinDeviation instructed.price held.price = true := by
  unfold validate
  rcases registry.get instructed.feedId with _ | definition
  · simp
  · rcases own with _ | held
    · simp
    · simp only [Option.some.injEq, ite_not]
      constructor
      · intro h
        split_ifs at h with hstale hahead hstretched hdecimals hdeviation
        simp only [Bool.not_eq_true, Bool.not_eq_false] at hahead hstretched hdeviation
        exact ⟨definition, held, rfl, rfl, UInt64.not_le.mp hstale, hahead, hstretched, hdecimals, hdeviation⟩
      · rintro ⟨_, _, rfl, rfl, hfresh, hahead, hstretched, hdecimals, hdeviation⟩
        rw [if_neg (UInt64.not_le.mpr hfresh), if_neg (by simp [hahead]), if_neg (by simp [hstretched]),
          if_pos hdecimals, if_neg (by simp [hdeviation])]

/-- A rate a signer accepts is valid no longer than the window. -/
theorem validate_ok_window {instructed : PriceFeedData} {registry : FeedRegistry} {own : Option PriceFeedData}
    {now : UInt64} (h : validate instructed registry own now = .ok ()) :
    instructed.validUntil.toNat ≤ instructed.receivedAt.toNat + PriceFeedData.validityWindow := by
  obtain ⟨-, -, -, -, -, -, hstretched, -⟩ := validate_ok_iff.mp h
  simp only [PriceFeedData.validityStretched, decide_eq_false_iff_not, not_lt] at hstretched
  exact hstretched.trans (min_le_left _ _)

end PriceInstruction

end PriceOracle
