import PriceOracle.SimplicityEnv

/-!
# SHA-256 over words

The digest of a message made of whole words and a shorter tail: the standard
padding, cut into words, then one compression for every two words.
-/

namespace PriceOracle

namespace Sha256

/-- The number a big-endian byte string denotes. -/
def bigEndianValue (bytes : List UInt8) : ℕ := bytes.foldl (fun acc b => acc * 256 + b.toNat) 0

def bigEndianBytes (count n : ℕ) : List UInt8 :=
  (List.range count).map fun k => UInt8.ofNat (n / 256 ^ (count - 1 - k))

/-- A one bit, zeros up to the last eight bytes of a block, the length in bits. -/
def padding (length : ℕ) : List UInt8 :=
  0x80 :: (List.replicate ((119 - length % 64) % 64) 0 ++ bigEndianBytes 8 (8 * length))

/-- The first `count` words of a byte string. -/
def toWords : ℕ → List UInt8 → List ℕ
  | 0, _ => []
  | count + 1, bytes => bigEndianValue (bytes.take 32) :: toWords count (bytes.drop 32)

/-- The padded words after `wordCount` whole words. -/
def paddedTail (wordCount : ℕ) (tail : List UInt8) : List ℕ :=
  let bytes := tail ++ padding (32 * wordCount + tail.length)
  toWords (bytes.length / 32) bytes

end Sha256

namespace Jets

variable {W Sig : Type} (J : Jets W Sig)

def compress (state : W) : List W → W
  | first :: second :: rest => compress (J.sha256Block state first second) rest
  | _ => state

def sha256Words (words : List W) (tail : List UInt8) : W :=
  J.compress J.sha256Iv (words ++ (Sha256.paddedTail words.length tail).map J.lit)

end Jets
end PriceOracle
