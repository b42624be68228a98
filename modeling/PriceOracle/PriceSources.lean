import PriceOracle.Assets
import PriceOracle.PriceInstructions

/-!
# Price sources

`price-feed/src/source.rs`: what a source observed, and which observations are rejected.
-/

namespace PriceOracle

/-- `SOURCE_DATA_VALIDITY_DURATION` -/
def sourceDataValidityDuration : ℕ := 300

structure SourceObservation where
  price : UInt64
  decimals : UInt32
  observedAt : UInt64
  receivedAt : UInt64
  validUntil : UInt64
  deriving DecidableEq

/-- `u64::saturating_add` -/
def saturatingAddU64 (a b : UInt64) : UInt64 := UInt64.ofNat (Assets.saturatingAdd a.toNat b.toNat)

theorem toNat_saturatingAddU64 (a b : UInt64) :
    (saturatingAddU64 a b).toNat = min (a.toNat + b.toNat) (2 ^ 64 - 1) :=
  UInt64.toNat_ofNat_of_lt' (lt_of_le_of_lt (min_le_right _ _) (by decide))

def SourceObservation.new (price : UInt64) (decimals : UInt32) (observedAt receivedAt : UInt64) :
    SourceObservation :=
  ⟨price, decimals, observedAt, receivedAt, saturatingAddU64 receivedAt (UInt64.ofNat PriceFeedData.validityWindow)⟩

inductive ConnectionError where
  | requestFailure
  | malformedResponse
  deriving DecidableEq

inductive RejectionReason where
  | invalidPrice
  | expired
  | clockSkewExceeded
  | staleObservation
  deriving DecidableEq

inductive SourceState where
  | active
  | dropped
  | frozen
  deriving DecidableEq

namespace PriceSource

/-- `lastObservedAt` is the `observedAt` last recorded for the source. -/
def validate (obs : SourceObservation) (lastObservedAt : Option UInt64) :
    Except RejectionReason Unit :=
  let behind := obs.receivedAt.toNat - obs.observedAt.toNat
  let ahead := obs.observedAt.toNat - obs.receivedAt.toNat
  if obs.price = 0 then .error .invalidPrice
  else if sourceDataValidityDuration < behind then .error .expired
  else if PriceFeedData.maxClockSkew < ahead then .error .clockSkewExceeded
  else if lastObservedAt.any fun last => obs.observedAt ≤ last then .error .staleObservation
  else .ok ()

variable {obs : SourceObservation} {last : Option UInt64}

theorem validate_ok_iff : validate obs last = .ok () ↔
    obs.price ≠ 0 ∧ obs.receivedAt.toNat ≤ obs.observedAt.toNat + sourceDataValidityDuration ∧
      obs.observedAt.toNat ≤ obs.receivedAt.toNat + PriceFeedData.maxClockSkew ∧
      ∀ at_ ∈ last, at_ < obs.observedAt := by
  have hlast : (last.any fun at_ => decide (obs.observedAt ≤ at_)) = false ↔
      ∀ at_ ∈ last, at_ < obs.observedAt := by
    cases last <;> simp
  unfold validate
  dsimp only
  split_ifs with hprice hbehind hahead hstale
  · simp [hprice]
  · simp only [false_iff]
    rintro ⟨-, h, -⟩
    omega
  · simp only [false_iff]
    rintro ⟨-, -, h, -⟩
    omega
  · simp only [false_iff]
    rintro ⟨-, -, -, h⟩
    rw [hlast.mpr h] at hstale
    cases hstale
  · simp only [true_iff]
    exact ⟨hprice, by omega, by omega, hlast.mp (by simpa using hstale)⟩

end PriceSource

end PriceOracle
