import Mathlib.Algebra.Order.Ring.Nat
import Mathlib.Data.List.Basic

/-!
# The postcard wire format

Values are written without field names: integers in groups of seven bits, sequences after
their length, options after a tag. A codec is a writer with a reader that never reads
a written value as another one; it may refuse values that do not fit their width.
-/

structure Codec (A : Type) where
  encode : A → List UInt8
  decode : List UInt8 → Option (A × List UInt8)
  decode_encode : ∀ a rest, decode (encode a ++ rest) = some (a, rest) ∨ decode (encode a ++ rest) = none

namespace Codec

variable {A B : Type}

/-- `from_bytes`: what follows the value is ignored. -/
def fromBytes (c : Codec A) (bytes : List UInt8) : Option A := (c.decode bytes).map Prod.fst

section Varint

def encodeVarint : ℕ → ℕ → List UInt8
  | 0, _ => []
  | count + 1, n =>
    if n < 128 then [UInt8.ofNat n] else UInt8.ofNat (n % 128 + 128) :: encodeVarint count (n / 128)

/-- At most `count` groups, the last of them at most `lastMax`. -/
def decodeVarint : ℕ → ℕ → List UInt8 → Option (ℕ × List UInt8)
  | 0, _, _ => none
  | _ + 1, _, [] => none
  | count + 1, lastMax, byte :: rest =>
    if byte.toNat < 128 then
      if count = 0 ∧ lastMax < byte.toNat then none else some (byte.toNat, rest)
    else
      match decodeVarint count lastMax rest with
      | none => none
      | some (n, rest) => some (byte.toNat % 128 + 128 * n, rest)

theorem decodeVarint_encodeVarint (count lastMax n : ℕ) (rest : List UInt8) :
    decodeVarint count lastMax (encodeVarint count n ++ rest) = some (n, rest) ∨
      decodeVarint count lastMax (encodeVarint count n ++ rest) = none := by
  induction count generalizing n with
  | zero => exact Or.inr rfl
  | succ count ih =>
    unfold encodeVarint
    split_ifs with hn
    · have hbyte : (UInt8.ofNat n).toNat = n := by
        rw [UInt8.toNat_ofNat']
        omega
      simp only [List.cons_append, List.nil_append, decodeVarint, hbyte, hn, if_true]
      split_ifs
      · exact Or.inr rfl
      · exact Or.inl rfl
    · have hbyte : (UInt8.ofNat (n % 128 + 128)).toNat = n % 128 + 128 := by
        rw [UInt8.toNat_ofNat']
        omega
      have hhigh : ¬n % 128 + 128 < 128 := by omega
      simp only [List.cons_append, decodeVarint, hbyte, hhigh, if_false]
      rcases ih (n / 128) with hsome | hnone
      · left
        rw [hsome]
        have hvalue : (n % 128 + 128) % 128 + 128 * (n / 128) = n := by omega
        simp only [hvalue]
      · right
        rw [hnone]

def varint (count lastMax : ℕ) : Codec ℕ where
  encode := encodeVarint count
  decode := decodeVarint count lastMax
  decode_encode := decodeVarint_encodeVarint count lastMax

def u16 : Codec ℕ := varint 3 3

def u32 : Codec ℕ := varint 5 15

def u64 : Codec ℕ := varint 10 1

end Varint

def bool : Codec Bool where
  encode b := [if b then 1 else 0]
  decode
    | 0 :: rest => some (false, rest)
    | 1 :: rest => some (true, rest)
    | _ => none
  decode_encode b rest := by cases b <;> exact Or.inl rfl

def byte : Codec UInt8 where
  encode b := [b]
  decode
    | b :: rest => some (b, rest)
    | [] => none
  decode_encode _ _ := Or.inl rfl

/-- `[u8; n]`, without a length. -/
def array (n : ℕ) : Codec (Vector UInt8 n) where
  encode v := v.toList
  decode bytes :=
    if h : (bytes.take n).length = n then some (⟨(bytes.take n).toArray, h⟩, bytes.drop n) else none
  decode_encode v rest := by
    have hlength : v.toList.length = n := v.length_toList
    have htake : (v.toList ++ rest).take n = v.toList := by
      rw [List.take_append_of_le_length (Nat.le_of_eq hlength.symm), List.take_of_length_le (Nat.le_of_eq hlength)]
    have hdrop : (v.toList ++ rest).drop n = rest := by
      rw [List.drop_append_of_le_length (Nat.le_of_eq hlength.symm),
        List.drop_of_length_le (Nat.le_of_eq hlength), List.nil_append]
    left
    rw [dif_pos (by rw [htake, hlength])]
    simp only [hdrop, htake]
    rfl

def option (c : Codec A) : Codec (Option A) where
  encode
    | none => [0]
    | some a => 1 :: c.encode a
  decode
    | 0 :: rest => some (none, rest)
    | 1 :: rest =>
      match c.decode rest with
      | none => none
      | some (a, rest) => some (some a, rest)
    | _ => none
  decode_encode o rest := by
    cases o with
    | none => exact Or.inl rfl
    | some a =>
      simp only [List.cons_append]
      rcases c.decode_encode a rest with hsome | hnone
      · rw [hsome]
        exact Or.inl rfl
      · rw [hnone]
        exact Or.inr rfl

/-- The fields of a struct follow one another. -/
def pair (c : Codec A) (d : Codec B) : Codec (A × B) where
  encode p := c.encode p.1 ++ d.encode p.2
  decode bytes :=
    match c.decode bytes with
    | none => none
    | some (a, rest) =>
      match d.decode rest with
      | none => none
      | some (b, rest) => some ((a, b), rest)
  decode_encode p rest := by
    rw [List.append_assoc]
    rcases c.decode_encode p.1 (d.encode p.2 ++ rest) with hsome | hnone
    · rw [hsome]
      simp only
      rcases d.decode_encode p.2 rest with hsome' | hnone'
      · rw [hsome']
        exact Or.inl rfl
      · rw [hnone']
        exact Or.inr rfl
    · rw [hnone]
      exact Or.inr rfl

/-- The codec of a structure, by its fields. -/
def struct (c : Codec A) (fields : B → A) (mk : A → B) (hmk : ∀ b, mk (fields b) = b) : Codec B where
  encode b := c.encode (fields b)
  decode bytes := (c.decode bytes).map fun p => (mk p.1, p.2)
  decode_encode b rest := by
    rcases c.decode_encode (fields b) rest with hsome | hnone
    · left
      rw [hsome, Option.map_some, hmk]
    · right
      rw [hnone, Option.map_none]

theorem struct_fromBytes {c : Codec A} {fields : B → A} {mk : A → B} {hmk : ∀ b, mk (fields b) = b}
    (bytes : List UInt8) : (struct c fields mk hmk).fromBytes bytes = (c.fromBytes bytes).map mk := by
  unfold fromBytes struct
  dsimp only
  rw [Option.map_map, Option.map_map]
  rfl

section Vec

def decodeElements (c : Codec A) : ℕ → List UInt8 → Option (List A × List UInt8)
  | 0, bytes => some ([], bytes)
  | count + 1, bytes =>
    match c.decode bytes with
    | none => none
    | some (a, rest) =>
      match decodeElements c count rest with
      | none => none
      | some (as, rest) => some (a :: as, rest)

theorem decodeElements_flatMap (c : Codec A) (as : List A) (rest : List UInt8) :
    decodeElements c as.length (as.flatMap c.encode ++ rest) = some (as, rest) ∨
      decodeElements c as.length (as.flatMap c.encode ++ rest) = none := by
  induction as with
  | nil => exact Or.inl rfl
  | cons a as ih =>
    rw [List.flatMap_cons, List.append_assoc, List.length_cons, decodeElements]
    rcases c.decode_encode a (as.flatMap c.encode ++ rest) with hsome | hnone
    · rw [hsome]
      simp only
      rcases ih with hsome' | hnone'
      · rw [hsome']
        exact Or.inl rfl
      · rw [hnone']
        exact Or.inr rfl
    · rw [hnone]
      exact Or.inr rfl

/-- `Vec`, after its length. -/
def vec (c : Codec A) : Codec (List A) where
  encode as := u64.encode as.length ++ as.flatMap c.encode
  decode bytes :=
    match u64.decode bytes with
    | none => none
    | some (count, rest) => decodeElements c count rest
  decode_encode as rest := by
    rw [List.append_assoc]
    rcases u64.decode_encode as.length (as.flatMap c.encode ++ rest) with hsome | hnone
    · rw [hsome]
      exact decodeElements_flatMap c as rest
    · rw [hnone]
      exact Or.inr rfl

def bytes : Codec (List UInt8) := vec byte

end Vec

section Admits

/-- A value that is always read back, whatever follows it. -/
def Admits (c : Codec A) (a : A) : Prop := ∀ rest, c.decode (c.encode a ++ rest) = some (a, rest)

theorem varint_admits {count lastMax : ℕ} (hlast : lastMax < 128) :
    ∀ {n : ℕ}, n < 128 ^ count * (lastMax + 1) → (varint (count + 1) lastMax).Admits n := by
  induction count with
  | zero =>
    intro n hn rest
    rw [Nat.pow_zero, Nat.one_mul] at hn
    have hbyte : (UInt8.ofNat n).toNat = n := by
      rw [UInt8.toNat_ofNat']
      omega
    have hsmall : n < 128 := by omega
    have hle : ¬lastMax < n := by omega
    simp only [varint, encodeVarint, if_pos hsmall, List.cons_append, List.nil_append, decodeVarint, hbyte, true_and,
      if_neg hle]
  | succ count ih =>
    intro n hn rest
    rw [Nat.pow_succ] at hn
    by_cases hsmall : n < 128
    · have hbyte : (UInt8.ofNat n).toNat = n := by
        rw [UInt8.toNat_ofNat']
        omega
      simp only [varint, encodeVarint, if_pos hsmall, List.cons_append, List.nil_append, decodeVarint, hbyte,
        Nat.succ_ne_zero, false_and, if_false]
    · have hbyte : (UInt8.ofNat (n % 128 + 128)).toNat = n % 128 + 128 := by
        rw [UInt8.toNat_ofNat']
        omega
      have hhigh : ¬n % 128 + 128 < 128 := by omega
      have hrest := ih (n := n / 128) (by
        rw [Nat.mul_right_comm] at hn
        exact Nat.div_lt_of_lt_mul (by rw [Nat.mul_comm]; exact hn)) rest
      have hvalue : (n % 128 + 128) % 128 + 128 * (n / 128) = n := by omega
      simp only [varint] at hrest ⊢
      rw [encodeVarint, if_neg hsmall, List.cons_append, decodeVarint, hbyte, if_neg hhigh, hrest]
      simp only [hvalue]

theorem u16_admits {n : ℕ} (hn : n < 2 ^ 16) : u16.Admits n := varint_admits (by omega) (by omega)

theorem u32_admits {n : ℕ} (hn : n < 2 ^ 32) : u32.Admits n := varint_admits (by omega) (by omega)

theorem u64_admits {n : ℕ} (hn : n < 2 ^ 64) : u64.Admits n := varint_admits (by omega) (by omega)

theorem byte_admits (b : UInt8) : byte.Admits b := fun _ => rfl

theorem array_admits {n : ℕ} (v : Vector UInt8 n) : (array n).Admits v := by
  intro rest
  rcases (array n).decode_encode v rest with hsome | hnone
  · exact hsome
  · have htake : ((v.toList ++ rest).take n).length = n := by
      rw [List.length_take, List.length_append, v.length_toList]
      omega
    have hdecode : (array n).decode (v.toList ++ rest) = none := hnone
    rw [array] at hdecode
    dsimp only at hdecode
    rw [dif_pos htake] at hdecode
    cases hdecode

theorem pair_decode {c : Codec A} {d : Codec B} {a : A} (ha : c.Admits a) (rest : List UInt8) :
    (c.pair d).decode (c.encode a ++ rest) = (d.decode rest).map fun p => ((a, p.1), p.2) := by
  have hfirst := ha rest
  simp only [pair, hfirst]
  cases d.decode rest with
  | none => rfl
  | some p => rfl

theorem pair_decode_some {c : Codec A} {d : Codec B} {bytes rest : List UInt8} {a : A} {b : B} :
    (c.pair d).decode bytes = some ((a, b), rest) ↔
      ∃ middle, c.decode bytes = some (a, middle) ∧ d.decode middle = some (b, rest) := by
  cases hfirst : c.decode bytes with
  | none => simp only [pair, hfirst, reduceCtorEq, false_and, exists_false]
  | some p =>
    cases hsecond : d.decode p.2 with
    | none =>
      simp only [pair, hfirst, hsecond, reduceCtorEq, Option.some.injEq, false_iff]
      rintro ⟨middle, rfl, h⟩
      rw [hsecond] at h
      cases h
    | some q =>
      simp only [pair, hfirst, hsecond, Option.some.injEq, Prod.mk.injEq]
      constructor
      · rintro ⟨⟨rfl, rfl⟩, rfl⟩
        exact ⟨p.2, rfl, hsecond⟩
      · rintro ⟨middle, rfl, h⟩
        rw [hsecond] at h
        cases h
        exact ⟨⟨rfl, rfl⟩, rfl⟩

theorem pair_admits {c : Codec A} {d : Codec B} {a : A} {b : B} (ha : c.Admits a) (hb : d.Admits b) :
    (c.pair d).Admits (a, b) := by
  intro rest
  have hfirst := ha (d.encode b ++ rest)
  have hsecond := hb rest
  simp only [pair, List.append_assoc, hfirst, hsecond]

theorem struct_admits {c : Codec A} {fields : B → A} {mk : A → B} {hmk : ∀ b, mk (fields b) = b} {b : B}
    (h : c.Admits (fields b)) : (struct c fields mk hmk).Admits b := by
  intro rest
  have hfields := h rest
  simp only [struct, hfields, Option.map_some, hmk]

theorem decodeElements_of_admits {c : Codec A} {as : List A} (h : ∀ a ∈ as, c.Admits a) (rest : List UInt8) :
    decodeElements c as.length (as.flatMap c.encode ++ rest) = some (as, rest) := by
  induction as with
  | nil => rfl
  | cons a as ih =>
    have hrest := ih fun other hother => h other (List.mem_cons_of_mem a hother)
    rw [List.flatMap_cons, List.append_assoc, List.length_cons, decodeElements, h a List.mem_cons_self]
    simp only [hrest]

theorem vec_admits {c : Codec A} {as : List A} (hlength : as.length < 2 ^ 64) (h : ∀ a ∈ as, c.Admits a) :
    (vec c).Admits as := by
  intro rest
  have hcount := u64_admits hlength (as.flatMap c.encode ++ rest)
  simp only [vec, List.append_assoc, hcount]
  exact decodeElements_of_admits h rest

theorem bytes_admits {list : List UInt8} (hlength : list.length < 2 ^ 64) : bytes.Admits list :=
  vec_admits hlength fun b _ => byte_admits b

/-- What follows a value does not keep it from being read. -/
theorem fromBytes_append {c : Codec A} {a : A} (h : c.Admits a) (rest : List UInt8) :
    c.fromBytes (c.encode a ++ rest) = some a := by
  rw [fromBytes, h, Option.map_some]

theorem fromBytes_of_admits {c : Codec A} {a : A} (h : c.Admits a) : c.fromBytes (c.encode a) = some a := by
  have happend := fromBytes_append h []
  rwa [List.append_nil] at happend

end Admits

theorem fromBytes_encode {c : Codec A} {a a' : A} (h : c.fromBytes (c.encode a) = some a') : a' = a := by
  unfold fromBytes at h
  rw [← List.append_nil (c.encode a)] at h
  rcases c.decode_encode a [] with hsome | hnone
  · rw [hsome] at h
    exact (Option.some.inj h).symm
  · rw [hnone] at h
    cases h

end Codec
