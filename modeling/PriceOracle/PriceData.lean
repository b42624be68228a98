import Mathlib.Data.List.Sort
import PriceOracle.Sha256Digest

/-!
# Price feed data

`price-feed/src/price_data.rs`: the payload that is signed with a rate, and
`price-feed/src/registry.rs`: the feeds a rate can be given for.
-/

namespace PriceOracle

structure PriceFeedData where
  feedId : UInt32
  price : UInt64
  decimals : UInt32
  receivedAt : UInt64
  validUntil : UInt64
  deriving DecidableEq

namespace PriceFeedData

/-- Canonical: two nodes that sign the same value produce identical bytes. -/
def toBytes (data : PriceFeedData) : List UInt8 :=
  Sha256.bigEndianBytes 4 data.feedId.toNat ++ Sha256.bigEndianBytes 4 data.decimals.toNat ++
    Sha256.bigEndianBytes 8 data.price.toNat ++ Sha256.bigEndianBytes 8 data.receivedAt.toNat ++
    Sha256.bigEndianBytes 8 data.validUntil.toNat

/-- The bytes `start..start + count`, as a number. -/
def field (bytes : List UInt8) (start count : ℕ) : ℕ := Sha256.bigEndianValue ((bytes.drop start).take count)

/-- Fails on any other length. -/
def fromBytes (bytes : List UInt8) : Option PriceFeedData :=
  if bytes.length ≠ 32 then none
  else some {
    feedId := UInt32.ofNat (field bytes 0 4), decimals := UInt32.ofNat (field bytes 4 4)
    price := UInt64.ofNat (field bytes 8 8), receivedAt := UInt64.ofNat (field bytes 16 8)
    validUntil := UInt64.ofNat (field bytes 24 8) }

section Canonical

open Sha256 (bigEndianBytes bigEndianBytes_mod bigEndianBytes_bigEndianValue bigEndianValue_bigEndianBytes)

theorem length_toBytes (data : PriceFeedData) : data.toBytes.length = 32 := by
  simp [toBytes, bigEndianBytes]

theorem bigEndianBytes_field {bytes : List UInt8} {start count : ℕ} (h : start + count ≤ bytes.length) :
    bigEndianBytes count (field bytes start count % 256 ^ count) = (bytes.drop start).take count := by
  have hlength : ((bytes.drop start).take count).length = count := by
    rw [List.length_take, List.length_drop]
    omega
  have hvalue := bigEndianBytes_bigEndianValue ((bytes.drop start).take count)
  rwa [hlength, ← bigEndianBytes_mod] at hvalue

theorem toBytes_of_fromBytes {bytes : List UInt8} {data : PriceFeedData} (h : fromBytes bytes = some data) :
    data.toBytes = bytes := by
  unfold fromBytes at h
  split_ifs at h with hlength
  have hlength : bytes.length = 32 := not_not.mp hlength
  cases h
  have h32 : ∀ n : ℕ, (UInt32.ofNat n).toNat = n % 256 ^ 4 := fun n => UInt32.toNat_ofNat'
  have h64 : ∀ n : ℕ, (UInt64.ofNat n).toNat = n % 256 ^ 8 := fun n => UInt64.toNat_ofNat'
  simp only [toBytes, h32, h64]
  rw [bigEndianBytes_field (by omega), bigEndianBytes_field (by omega), bigEndianBytes_field (by omega),
    bigEndianBytes_field (by omega), bigEndianBytes_field (by omega)]
  have hcut : ∀ start count, (bytes.drop start).take count ++ bytes.drop (start + count) = bytes.drop start := by
    intro start count
    rw [← List.drop_drop, List.take_append_drop]
  have hlast : (bytes.drop 24).take 8 = bytes.drop 24 := List.take_of_length_le (by rw [List.length_drop]; omega)
  simp only [List.append_assoc]
  rw [hlast, hcut 16 8, hcut 8 8, hcut 4 4, hcut 0 4]
  rfl

theorem toBytes_injective {data data' : PriceFeedData} (h : data.toBytes = data'.toBytes) : data = data' := by
  have hvalues : ∀ count m n, bigEndianBytes count m = bigEndianBytes count n → m % 256 ^ count = n % 256 ^ count := by
    intro count m n hmn
    rw [← bigEndianValue_bigEndianBytes, hmn, bigEndianValue_bigEndianBytes]
  have hlen : ∀ count n, (bigEndianBytes count n).length = count := by
    intro count n
    simp [bigEndianBytes]
  simp only [toBytes, List.append_assoc] at h
  obtain ⟨hfeed, h⟩ := List.append_inj h (by rw [hlen, hlen])
  obtain ⟨hdecimals, h⟩ := List.append_inj h (by rw [hlen, hlen])
  obtain ⟨hprice, h⟩ := List.append_inj h (by rw [hlen, hlen])
  obtain ⟨hreceived, hvalid⟩ := List.append_inj h (by rw [hlen, hlen])
  have h32 : ∀ x y : UInt32, bigEndianBytes 4 x.toNat = bigEndianBytes 4 y.toNat → x = y := by
    intro x y hxy
    have hmod := hvalues 4 _ _ hxy
    have hx := x.toNat_lt
    have hy := y.toNat_lt
    rw [Nat.mod_eq_of_lt (by omega), Nat.mod_eq_of_lt (by omega)] at hmod
    exact UInt32.toNat_inj.mp hmod
  have h64 : ∀ x y : UInt64, bigEndianBytes 8 x.toNat = bigEndianBytes 8 y.toNat → x = y := by
    intro x y hxy
    have hmod := hvalues 8 _ _ hxy
    have hx := x.toNat_lt
    have hy := y.toNat_lt
    rw [Nat.mod_eq_of_lt (by omega), Nat.mod_eq_of_lt (by omega)] at hmod
    exact UInt64.toNat_inj.mp hmod
  cases data
  cases data'
  simp only [mk.injEq]
  exact ⟨h32 _ _ hfeed, h64 _ _ hprice, h32 _ _ hdecimals, h64 _ _ hreceived, h64 _ _ hvalid⟩

/-- What decodes are the bytes of the value it decodes to. -/
theorem fromBytes_eq_some_iff {bytes : List UInt8} {data : PriceFeedData} :
    fromBytes bytes = some data ↔ bytes = data.toBytes := by
  constructor
  · exact fun h => (toBytes_of_fromBytes h).symm
  · rintro rfl
    have hlength : ¬data.toBytes.length ≠ 32 := not_not.mpr (length_toBytes data)
    have hdecoded : ∃ decoded, fromBytes data.toBytes = some decoded := ⟨_, if_neg hlength⟩
    obtain ⟨decoded, hdecoded⟩ := hdecoded
    rw [hdecoded, toBytes_injective (toBytes_of_fromBytes hdecoded)]

end Canonical

end PriceFeedData

inductive Asset where
  | lbtc
  | usd
  | usdt
  | eurx
  | depix
  | usdc
  deriving DecidableEq

inductive FeedKind where
  | direct
  | cross
  deriving DecidableEq

structure FeedDefinition where
  id : UInt32
  base : Asset
  quote : Asset
  kind : FeedKind
  decimals : UInt32
  deriving DecidableEq

/-- `FEED_DECIMALS` -/
def feedDecimals : UInt32 := 8

def FeedDefinition.new (id : UInt32) (base quote : Asset) (kind : FeedKind) : FeedDefinition :=
  ⟨id, base, quote, kind, feedDecimals⟩

/-- `SUPPORTED_FEEDS` -/
def supportedFeeds : List FeedDefinition :=
  [.new 0 .lbtc .usd .direct, .new 1 .usdt .usd .direct, .new 2 .eurx .usd .direct, .new 3 .depix .usd .direct,
    .new 4 .lbtc .usdt .cross, .new 5 .eurx .usdt .cross, .new 6 .depix .usdt .cross, .new 7 .usdc .usd .direct]

structure FeedRegistry where
  feeds : List FeedDefinition

namespace FeedRegistry

/-- Ordered by feed id; feeds of one id keep their order. -/
def new (feeds : List FeedDefinition) : FeedRegistry := ⟨feeds.insertionSort fun a b => a.id ≤ b.id⟩

def get (registry : FeedRegistry) (feed : UInt32) : Option FeedDefinition :=
  registry.feeds.find? fun definition => definition.id == feed

def default : FeedRegistry := new supportedFeeds

end FeedRegistry

end PriceOracle
