import PriceOracle.Sha256Digest
import PriceOracle.Transactions

/-!
# Words and their bytes

A word of 256 bits and its 32 bytes determine each other, and words are ordered as their bytes are.
-/

namespace PriceOracle

namespace Sha256

theorem bytes_injective {first second : Word256} (h : first.bytes = second.bytes) : first = second := by
  have hwords : first.words = second.words := by
    have hcut : ∀ word : Word256, toWords32 word.bytes = word.words := by
      intro word
      have hflat := toWords32_flatMap word.words []
      rw [List.append_nil] at hflat
      exact hflat.trans (List.append_nil _)
    rw [← hcut first, ← hcut second, h]
  cases first
  cases second
  simpa [Word256.words] using hwords

def toWord (bytes : Bytes32) : Word256 := Word256.ofNat (bigEndianValue bytes.toList)

def ofWord (word : Word256) : Bytes32 := ⟨word.bytes.toArray, by simpa using word.length_bytes⟩

theorem toList_ofWord (word : Word256) : (ofWord word).toList = word.bytes := rfl

theorem bytes_toWord (bytes : Bytes32) : (toWord bytes).bytes = bytes.toList := by
  have hbytes := bigEndianBytes_bigEndianValue bytes.toList
  rw [Vector.length_toList] at hbytes
  unfold toWord
  rw [Word256.bytes_ofNat, hbytes]

theorem toWord_ofWord (word : Word256) : toWord (ofWord word) = word := by
  apply bytes_injective
  rw [bytes_toWord, toList_ofWord]

theorem ofWord_injective : Function.Injective ofWord := Function.LeftInverse.injective toWord_ofWord

/-- Keys and leaves are compared byte by byte. -/
instance : LinearOrder Word256 := LinearOrder.lift' ofWord ofWord_injective

theorem exists_bytes {bytes : List UInt8} (h : bytes.length = 32) : ∃ word : Word256, word.bytes = bytes :=
  ⟨toWord ⟨bytes.toArray, by simpa using h⟩, bytes_toWord _⟩

end Sha256

end PriceOracle
