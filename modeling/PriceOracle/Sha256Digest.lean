import PriceOracle.Sha256

/-!
# The SHA-256 digest

The compression function over words of 32 bits, and the digest of a byte string: the padded
message in blocks of sixteen words, each compressed into the chaining value.
-/

namespace PriceOracle

namespace Sha256

/-- Eight words of 32 bits: a chaining value, or a number of 256 bits with its first word on top. -/
@[ext]
structure Word256 where
  a : UInt32
  b : UInt32
  c : UInt32
  d : UInt32
  e : UInt32
  f : UInt32
  g : UInt32
  h : UInt32
  deriving DecidableEq

namespace Word256

def words (word : Word256) : List UInt32 :=
  [word.a, word.b, word.c, word.d, word.e, word.f, word.g, word.h]

def ofNat (n : ℕ) : Word256 :=
  ⟨UInt32.ofNat (n / 2 ^ 224), UInt32.ofNat (n / 2 ^ 192), UInt32.ofNat (n / 2 ^ 160), UInt32.ofNat (n / 2 ^ 128),
    UInt32.ofNat (n / 2 ^ 96), UInt32.ofNat (n / 2 ^ 64), UInt32.ofNat (n / 2 ^ 32), UInt32.ofNat n⟩

def add (s t : Word256) : Word256 :=
  ⟨s.a + t.a, s.b + t.b, s.c + t.c, s.d + t.d, s.e + t.e, s.f + t.f, s.g + t.g, s.h + t.h⟩

def bytes (word : Word256) : List UInt8 := word.words.flatMap fun w => bigEndianBytes 4 w.toNat

end Word256

def rotateRight (x k : UInt32) : UInt32 := x >>> k ||| x <<< (32 - k)

def bigSigma0 (x : UInt32) : UInt32 := rotateRight x 2 ^^^ rotateRight x 13 ^^^ rotateRight x 22

def bigSigma1 (x : UInt32) : UInt32 := rotateRight x 6 ^^^ rotateRight x 11 ^^^ rotateRight x 25

def smallSigma0 (x : UInt32) : UInt32 := rotateRight x 7 ^^^ rotateRight x 18 ^^^ x >>> 3

def smallSigma1 (x : UInt32) : UInt32 := rotateRight x 17 ^^^ rotateRight x 19 ^^^ x >>> 10

def choose (x y z : UInt32) : UInt32 := (x &&& y) ^^^ (~~~x &&& z)

def majority (x y z : UInt32) : UInt32 := (x &&& y) ^^^ (x &&& z) ^^^ (y &&& z)

def roundConstants : List UInt32 :=
  [0x428a2f98, 0x71374491, 0xb5c0fbcf, 0xe9b5dba5, 0x3956c25b, 0x59f111f1, 0x923f82a4, 0xab1c5ed5,
    0xd807aa98, 0x12835b01, 0x243185be, 0x550c7dc3, 0x72be5d74, 0x80deb1fe, 0x9bdc06a7, 0xc19bf174,
    0xe49b69c1, 0xefbe4786, 0x0fc19dc6, 0x240ca1cc, 0x2de92c6f, 0x4a7484aa, 0x5cb0a9dc, 0x76f988da,
    0x983e5152, 0xa831c66d, 0xb00327c8, 0xbf597fc7, 0xc6e00bf3, 0xd5a79147, 0x06ca6351, 0x14292967,
    0x27b70a85, 0x2e1b2138, 0x4d2c6dfc, 0x53380d13, 0x650a7354, 0x766a0abb, 0x81c2c92e, 0x92722c85,
    0xa2bfe8a1, 0xa81a664b, 0xc24b8b70, 0xc76c51a3, 0xd192e819, 0xd6990624, 0xf40e3585, 0x106aa070,
    0x19a4c116, 0x1e376c08, 0x2748774c, 0x34b0bcb5, 0x391c0cb3, 0x4ed8aa4a, 0x5b9cca4f, 0x682e6ff3,
    0x748f82ee, 0x78a5636f, 0x84c87814, 0x8cc70208, 0x90befffa, 0xa4506ceb, 0xbef9a3f7, 0xc67178f2]

def initialValue : Word256 :=
  ⟨0x6a09e667, 0xbb67ae85, 0x3c6ef372, 0xa54ff53a, 0x510e527f, 0x9b05688c, 0x1f83d9ab, 0x5be0cd19⟩

/-- One round, with its constant and its word of the message schedule. -/
def round (k w : UInt32) (s : Word256) : Word256 :=
  let t1 := s.h + bigSigma1 s.e + choose s.e s.f s.g + k + w
  let t2 := bigSigma0 s.a + majority s.a s.b s.c
  ⟨t1 + t2, s.a, s.b, s.c, s.d + t1, s.e, s.f, s.g⟩

/-- The word of the schedule sixteen words after the first one of the window. -/
def nextWord (window : List UInt32) : UInt32 :=
  smallSigma1 (window.getD 14 0) + window.getD 9 0 + smallSigma0 (window.getD 1 0) + window.getD 0 0

/-- The rounds over a window of sixteen words of the message schedule. -/
def rounds : List UInt32 → List UInt32 → Word256 → Word256
  | [], _, s => s
  | k :: constants, window, s =>
    rounds constants (window.tail ++ [nextWord window]) (round k (window.headD 0) s)

/-- A block of sixteen words is compressed into the chaining value. -/
def compress (s : Word256) (block : List UInt32) : Word256 := s.add (rounds roundConstants block s)

/-- The words of 32 bits of a byte string. -/
def toWords32 : List UInt8 → List UInt32
  | b₀ :: b₁ :: b₂ :: b₃ :: bytes => UInt32.ofNat (bigEndianValue [b₀, b₁, b₂, b₃]) :: toWords32 bytes
  | _ => []

def hashBlocks : ℕ → Word256 → List UInt8 → Word256
  | 0, s, _ => s
  | blocks + 1, s, bytes => hashBlocks blocks (compress s (toWords32 (bytes.take 64))) (bytes.drop 64)

def sha256 (message : List UInt8) : Word256 :=
  let padded := message ++ padding message.length
  hashBlocks (padded.length / 64) initialValue padded

def digest (message : List UInt8) : List UInt8 := (sha256 message).bytes

/-- `tagged_hash`: `SHA256(SHA256(tag) || SHA256(tag) || message)`, over the digest of a byte string. -/
def taggedHash (digest : List UInt8 → List UInt8) (tag : String) (message : List UInt8) : List UInt8 :=
  let tagHash := digest tag.toUTF8.toList
  digest (tagHash ++ tagHash ++ message)

example : sha256 [0x61, 0x62, 0x63] =
    Word256.ofNat 0xba7816bf8f01cfea414140de5dae2223b00361a396177a9cb410ff61f20015ad := by
  decide +kernel

section Words

/-- The bytes of the upper part stand before those of the lower part. -/
theorem bigEndianBytes_add (upper lower n : ℕ) :
    bigEndianBytes (upper + lower) n = bigEndianBytes upper (n / 256 ^ lower) ++ bigEndianBytes lower n := by
  unfold bigEndianBytes
  rw [List.range_add, List.map_append, List.map_map]
  congr 1
  · apply List.map_congr_left
    intro k hk
    have hk' : k < upper := List.mem_range.mp hk
    rw [Nat.div_div_eq_div_mul, ← pow_add, show upper + lower - 1 - k = lower + (upper - 1 - k) by omega]
  · apply List.map_congr_left
    intro k hk
    rw [Function.comp_apply, show upper + lower - 1 - (upper + k) = lower - 1 - k by omega]

theorem bigEndianBytes_mod (count n : ℕ) : bigEndianBytes count (n % 256 ^ count) = bigEndianBytes count n := by
  unfold bigEndianBytes
  apply List.map_congr_left
  intro k hk
  have hk' : k < count := List.mem_range.mp hk
  obtain ⟨rest, hrest⟩ : ∃ rest, count = count - 1 - k + (rest + 1) := ⟨k, by omega⟩
  have hsplit : n = n % 256 ^ count + 256 ^ (count - 1 - k) * (256 * (256 ^ rest * (n / 256 ^ count))) := by
    have hmod := Nat.mod_add_div n (256 ^ count)
    have hpow : 256 ^ count = 256 ^ (count - 1 - k) * (256 * 256 ^ rest) := by
      rw [← pow_succ', ← pow_add, ← hrest]
    calc n = n % 256 ^ count + 256 ^ count * (n / 256 ^ count) := hmod.symm
      _ = _ := by rw [hpow]; ring
  apply UInt8.toNat_inj.mp
  conv_rhs => rw [hsplit, Nat.add_mul_div_left _ _ (by positivity)]
  simp [UInt8.toNat_ofNat']

theorem bigEndianBytes_append (upper lower m n : ℕ) (hn : n < 256 ^ lower) :
    bigEndianBytes upper m ++ bigEndianBytes lower n = bigEndianBytes (upper + lower) (m * 256 ^ lower + n) := by
  have hlower : (m * 256 ^ lower + n) % 256 ^ lower = n := by
    rw [Nat.mul_add_mod_self_right, Nat.mod_eq_of_lt hn]
  have hupper : (m * 256 ^ lower + n) / 256 ^ lower = m := by
    rw [mul_comm, Nat.mul_add_div (by positivity), Nat.div_eq_of_lt hn, Nat.add_zero]
  rw [bigEndianBytes_add, hupper, ← bigEndianBytes_mod lower (m * 256 ^ lower + n), hlower]

theorem bigEndianBytes_bigEndianValue (bytes : List UInt8) : bigEndianBytes bytes.length (bigEndianValue bytes) = bytes := by
  induction bytes using List.reverseRecOn with
  | nil => rfl
  | append_singleton bytes byte ih =>
    have hvalue : bigEndianValue (bytes ++ [byte]) = bigEndianValue bytes * 256 ^ 1 + byte.toNat := by
      simp [bigEndianValue, List.foldl_append]
    have hlast : bigEndianBytes 1 byte.toNat = [byte] := by simp [bigEndianBytes]
    rw [hvalue, List.length_append, List.length_singleton, ← bigEndianBytes_append _ 1 _ _ (by simpa using byte.toNat_lt), ih,
      hlast]

theorem bigEndianValue_bigEndianBytes (count n : ℕ) : bigEndianValue (bigEndianBytes count n) = n % 256 ^ count := by
  induction count generalizing n with
  | zero => simp [bigEndianValue, bigEndianBytes, Nat.mod_one]
  | succ count ih =>
    have hlast : bigEndianBytes 1 n = [UInt8.ofNat n] := by simp [bigEndianBytes]
    have hvalue : ∀ (bytes : List UInt8) (byte : UInt8),
        bigEndianValue (bytes ++ [byte]) = bigEndianValue bytes * 256 + byte.toNat := by
      intro bytes byte
      rw [bigEndianValue, List.foldl_append]
      rfl
    have hmod : n % 256 ^ (count + 1) = n % 256 + 256 * (n / 256 % 256 ^ count) := by
      rw [pow_succ', Nat.mod_mul]
    rw [bigEndianBytes_add, hlast, hvalue, ih, UInt8.toNat_ofNat', pow_one, hmod]
    omega

/-- The eight words of a number are its 32 bytes. -/
theorem Word256.bytes_ofNat (n : ℕ) : (ofNat n).bytes = bigEndianBytes 32 n := by
  have hword (m : ℕ) : bigEndianBytes 4 (UInt32.ofNat m).toNat = bigEndianBytes 4 m := by
    rw [UInt32.toNat_ofNat', show 2 ^ 32 = 256 ^ 4 from rfl, bigEndianBytes_mod]
  simp only [bytes, words, ofNat, List.flatMap_cons, List.flatMap_nil, List.append_nil, hword]
  rw [bigEndianBytes_add 4 28, bigEndianBytes_add 4 24, bigEndianBytes_add 4 20, bigEndianBytes_add 4 16,
    bigEndianBytes_add 4 12, bigEndianBytes_add 4 8, bigEndianBytes_add 4 4]
  rfl

theorem bigEndianBytes_four (n : ℕ) : bigEndianBytes 4 n =
    [UInt8.ofNat (n / 16777216), UInt8.ofNat (n / 65536), UInt8.ofNat (n / 256), UInt8.ofNat n] := by
  simp [bigEndianBytes, List.range_succ]

theorem toWords32_bytes (w : UInt32) (bytes : List UInt8) :
    toWords32 (bigEndianBytes 4 w.toNat ++ bytes) = w :: toWords32 bytes := by
  have hw := w.toNat_lt
  rw [bigEndianBytes_four]
  have hvalue : UInt32.ofNat (bigEndianValue [UInt8.ofNat (w.toNat / 16777216), UInt8.ofNat (w.toNat / 65536),
      UInt8.ofNat (w.toNat / 256), UInt8.ofNat w.toNat]) = w := by
    apply UInt32.toNat_inj.mp
    simp [bigEndianValue]
    omega
  exact congrArg (· :: toWords32 bytes) hvalue

theorem toWords32_flatMap (words : List UInt32) (bytes : List UInt8) :
    toWords32 ((words.flatMap fun w => bigEndianBytes 4 w.toNat) ++ bytes) = words ++ toWords32 bytes := by
  induction words with
  | nil => rfl
  | cons w words ih => rw [List.flatMap_cons, List.append_assoc, toWords32_bytes, ih, List.cons_append]

theorem Word256.length_bytes (word : Word256) : word.bytes.length = 32 := by
  simp [bytes, words, bigEndianBytes]

/-- The padded message is cut into blocks of two numbers of 256 bits. -/
theorem sha256_of_blocks {message : List UInt8} {blocks : List (Word256 × Word256)}
    (hpadded : message ++ padding message.length = blocks.flatMap fun block => block.1.bytes ++ block.2.bytes) :
    sha256 message = blocks.foldl (fun s block => compress s (block.1.words ++ block.2.words)) initialValue := by
  have hrun : ∀ (s : Word256), hashBlocks blocks.length s (blocks.flatMap fun block => block.1.bytes ++ block.2.bytes) =
      blocks.foldl (fun s block => compress s (block.1.words ++ block.2.words)) s := by
    clear hpadded
    induction blocks with
    | nil => exact fun _ => rfl
    | cons block blocks ih =>
      intro s
      obtain ⟨left, right⟩ := block
      have hlength : (left.bytes ++ right.bytes).length = 64 := by
        rw [List.length_append, left.length_bytes, right.length_bytes]
      have hwords : toWords32 (left.bytes ++ right.bytes) = left.words ++ right.words := by
        have hright := toWords32_flatMap right.words []
        rw [List.append_nil] at hright
        unfold Word256.bytes
        rw [toWords32_flatMap, hright]
        exact congrArg (left.words ++ ·) (List.append_nil _)
      rw [List.length_cons, List.flatMap_cons, List.foldl_cons, ← ih]
      unfold hashBlocks
      dsimp only
      rw [← hlength, List.take_left, List.drop_left, hwords]
      cases blocks <;> rfl
  have hcount : (message ++ padding message.length).length / 64 = blocks.length := by
    have hlength : ∀ block ∈ blocks, (block.1.bytes ++ block.2.bytes).length = 64 := by
      intro block _
      rw [List.length_append, block.1.length_bytes, block.2.length_bytes]
    rw [hpadded, List.length_flatMap, List.map_congr_left hlength, List.map_const', List.sum_replicate,
      smul_eq_mul, Nat.mul_div_cancel _ (by decide : 0 < 64)]
  unfold sha256
  dsimp only
  rw [hcount, hpadded]
  exact hrun initialValue

end Words

end Sha256

end PriceOracle
