import Mathlib.Algebra.Order.Ring.Nat
import Mathlib.Data.List.Basic

/-!
# Data in scripts

Numbers as bytes of a fixed width, and the pushes of a script: a push starts with the length of its
data in one of four forms, of which a minimal reader takes the shortest only. So a script that
consists of `OP_RETURN` and one push is the same as its data.
-/

namespace OpReturn

section Bytes

/-- The `count` lowest bytes of a number, the lowest first. -/
def littleEndian : ℕ → ℕ → List UInt8
  | 0, _ => []
  | count + 1, n => UInt8.ofNat n :: littleEndian count (n / 256)

def littleEndianValue : List UInt8 → ℕ
  | [] => 0
  | byte :: bytes => byte.toNat + 256 * littleEndianValue bytes

def bigEndian (count n : ℕ) : List UInt8 := (littleEndian count n).reverse

def bigEndianValue (bytes : List UInt8) : ℕ := littleEndianValue bytes.reverse

@[simp]
theorem length_littleEndian (count n : ℕ) : (littleEndian count n).length = count := by
  induction count generalizing n with
  | zero => rfl
  | succ count ih => rw [littleEndian, List.length_cons, ih]

@[simp]
theorem length_bigEndian (count n : ℕ) : (bigEndian count n).length = count := by
  rw [bigEndian, List.length_reverse, length_littleEndian]

theorem littleEndianValue_littleEndian (count : ℕ) : ∀ {n : ℕ}, n < 256 ^ count →
    littleEndianValue (littleEndian count n) = n := by
  induction count with
  | zero =>
    intro n hn
    rw [Nat.pow_zero] at hn
    rw [littleEndian, littleEndianValue]
    omega
  | succ count ih =>
    intro n hn
    rw [Nat.pow_succ] at hn
    have hrest := ih (n := n / 256) (by omega)
    rw [littleEndian, littleEndianValue, hrest, UInt8.toNat_ofNat']
    omega

theorem littleEndian_littleEndianValue (bytes : List UInt8) :
    littleEndian bytes.length (littleEndianValue bytes) = bytes := by
  induction bytes with
  | nil => rfl
  | cons byte bytes ih =>
    have hbyte := byte.toNat_lt
    have hlow : UInt8.ofNat (byte.toNat + 256 * littleEndianValue bytes) = byte := by
      apply UInt8.toNat_inj.mp
      rw [UInt8.toNat_ofNat']
      omega
    have hhigh : (byte.toNat + 256 * littleEndianValue bytes) / 256 = littleEndianValue bytes := by omega
    rw [List.length_cons, littleEndianValue, littleEndian, hlow, hhigh, ih]

theorem littleEndianValue_lt (bytes : List UInt8) : littleEndianValue bytes < 256 ^ bytes.length := by
  induction bytes with
  | nil => exact Nat.one_pos
  | cons byte bytes ih =>
    have hbyte := byte.toNat_lt
    rw [littleEndianValue, List.length_cons, Nat.pow_succ]
    omega

theorem bigEndianValue_bigEndian {count n : ℕ} (hn : n < 256 ^ count) : bigEndianValue (bigEndian count n) = n := by
  rw [bigEndianValue, bigEndian, List.reverse_reverse, littleEndianValue_littleEndian count hn]

theorem bigEndian_bigEndianValue (bytes : List UInt8) : bigEndian bytes.length (bigEndianValue bytes) = bytes := by
  rw [bigEndian, bigEndianValue, ← List.length_reverse, littleEndian_littleEndianValue, List.reverse_reverse]

theorem bigEndianValue_lt (bytes : List UInt8) : bigEndianValue bytes < 256 ^ bytes.length := by
  have hlt := littleEndianValue_lt bytes.reverse
  rwa [List.length_reverse] at hlt

end Bytes

section Pushes

inductive Instruction where
  | op (code : UInt8)
  | pushBytes (data : List UInt8)
  deriving DecidableEq

inductive ScriptError where
  | earlyEndOfScript
  | nonMinimalPush
  deriving DecidableEq

/-- `OP_RETURN` -/
def opReturn : UInt8 := 0x6a

/-- The prefix of a push of so many bytes. -/
def pushPrefix (length : ℕ) : List UInt8 :=
  if length < 0x4c then littleEndian 1 length
  else if length < 2 ^ 8 then 0x4c :: littleEndian 1 length
  else if length < 2 ^ 16 then 0x4d :: littleEndian 2 length
  else 0x4e :: littleEndian 4 length

/-- `push_slice` -/
def pushSlice (data : List UInt8) : List UInt8 := pushPrefix data.length ++ data

/-- `Script::new_op_return` -/
def newOpReturn (data : List UInt8) : List UInt8 := opReturn :: pushSlice data

/-- A push of so many bytes, or an error that ends the script. -/
def readPush (length : ℕ) (minimal : Bool) (bytes : List UInt8) : Except ScriptError Instruction × List UInt8 :=
  if bytes.length < length then (.error .earlyEndOfScript, [])
  else if !minimal then (.error .nonMinimalPush, [])
  else (.ok (.pushBytes (bytes.take length)), bytes.drop length)

/-- A push with its length in so many bytes; shorter data has a shorter form. -/
def readLongPush (width shortest : ℕ) (bytes : List UInt8) : Except ScriptError Instruction × List UInt8 :=
  if bytes.length < width then (.error .earlyEndOfScript, [])
  else
    let length := littleEndianValue (bytes.take width)
    readPush length (shortest ≤ length) (bytes.drop width)

/-- A single byte that has an opcode of its own. -/
def isPushNum (bytes : List UInt8) : Bool :=
  match bytes with
  | byte :: _ => byte = 0x81 || (0 < byte.toNat && byte.toNat ≤ 16)
  | [] => false

/-- `instructions_minimal`: the next instruction, and what follows it. -/
def nextInstruction : List UInt8 → Option (Except ScriptError Instruction × List UInt8)
  | [] => none
  | opcode :: bytes =>
    some <|
      if opcode.toNat < 0x4c then readPush opcode.toNat (!(opcode.toNat = 1 && isPushNum bytes)) bytes
      else if opcode = 0x4c then readLongPush 1 76 bytes
      else if opcode = 0x4d then readLongPush 2 (2 ^ 8) bytes
      else if opcode = 0x4e then readLongPush 4 (2 ^ 16) bytes
      else (.ok (.op opcode), bytes)

/-- The data of a script that is `OP_RETURN` and one push. -/
def opReturnData (script : List UInt8) : Option (List UInt8) :=
  match nextInstruction script with
  | some (.ok (.op code), bytes) =>
    if code = opReturn then
      match nextInstruction bytes with
      | some (.ok (.pushBytes data), rest) => if (nextInstruction rest).isSome then none else some data
      | _ => none
    else none
  | _ => none

theorem readPush_self {data : List UInt8} : readPush data.length true data = (.ok (.pushBytes data), []) := by
  unfold readPush
  rw [if_neg (Nat.lt_irrefl _), if_neg (by simp), List.take_length, List.drop_length]

theorem readLongPush_self {width shortest : ℕ} {data : List UInt8} (hshortest : shortest ≤ data.length)
    (hwidth : data.length < 256 ^ width) :
    readLongPush width shortest (littleEndian width data.length ++ data) = (.ok (.pushBytes data), []) := by
  have hlength := length_littleEndian width data.length
  unfold readLongPush
  dsimp only
  have hle := Nat.le_of_eq hlength
  have hge := Nat.le_of_eq hlength.symm
  rw [if_neg (by rw [List.length_append]; omega), List.take_append_of_le_length hge, List.take_of_length_le hle,
    littleEndianValue_littleEndian width hwidth, List.drop_append_of_le_length hge, List.drop_of_length_le hle,
    List.nil_append, decide_eq_true hshortest]
  exact readPush_self

theorem nextInstruction_long (bytes : List UInt8) : nextInstruction (0x4c :: bytes) = some (readLongPush 1 76 bytes) ∧
    nextInstruction (0x4d :: bytes) = some (readLongPush 2 (2 ^ 8) bytes) ∧
    nextInstruction (0x4e :: bytes) = some (readLongPush 4 (2 ^ 16) bytes) :=
  ⟨rfl, rfl, rfl⟩

/-- A minimal reader reads a push back. A single byte may have an opcode of its own. -/
theorem nextInstruction_pushSlice {data : List UInt8} (hlength : data.length < 2 ^ 32) (hone : data.length ≠ 1) :
    nextInstruction (pushSlice data) = some (.ok (.pushBytes data), []) := by
  unfold pushSlice pushPrefix
  by_cases hdirect : data.length < 0x4c
  · have hbyte : (UInt8.ofNat data.length).toNat = data.length := by
      rw [UInt8.toNat_ofNat']
      omega
    rw [if_pos hdirect, littleEndian, littleEndian, List.cons_append, List.nil_append, nextInstruction, hbyte,
      if_pos hdirect, decide_eq_false hone]
    exact congrArg some readPush_self
  · rw [if_neg hdirect]
    by_cases hshort : data.length < 2 ^ 8
    · rw [if_pos hshort, List.cons_append, (nextInstruction_long _).1]
      exact congrArg some (readLongPush_self (by omega) (by omega))
    · rw [if_neg hshort]
      by_cases hmiddle : data.length < 2 ^ 16
      · rw [if_pos hmiddle, List.cons_append, (nextInstruction_long _).2.1]
        exact congrArg some (readLongPush_self (by omega) (by omega))
      · rw [if_neg hmiddle, List.cons_append, (nextInstruction_long _).2.2]
        exact congrArg some (readLongPush_self (by omega) (by omega))

theorem opReturnData_newOpReturn {data : List UInt8} (hlength : data.length < 2 ^ 32) (hone : data.length ≠ 1) :
    opReturnData (newOpReturn data) = some data := by
  have hop : nextInstruction (newOpReturn data) = some (.ok (.op opReturn), pushSlice data) := rfl
  unfold opReturnData
  rw [hop]
  dsimp only
  rw [if_pos rfl, nextInstruction_pushSlice hlength hone]
  rfl

theorem readPush_ne_op {length : ℕ} {minimal : Bool} {bytes rest : List UInt8} {code : UInt8} :
    readPush length minimal bytes ≠ (.ok (.op code), rest) := by
  unfold readPush
  split_ifs <;> exact fun h => by cases h

/-- Only an opcode that is no push is read as one. -/
theorem nextInstruction_op {bytes rest : List UInt8} {code : UInt8}
    (h : nextInstruction bytes = some (.ok (.op code), rest)) : bytes = code :: rest := by
  have hlong {width shortest : ℕ} {bytes : List UInt8} :
      readLongPush width shortest bytes ≠ (.ok (.op code), rest) := by
    unfold readLongPush
    split_ifs
    · exact fun h => by cases h
    · exact readPush_ne_op
  cases bytes with
  | nil => cases h
  | cons opcode bytes =>
    rw [nextInstruction] at h
    have h := Option.some.inj h
    split_ifs at h with hdirect hone htwo hfour
    · exact absurd h readPush_ne_op
    · exact absurd h hlong
    · exact absurd h hlong
    · exact absurd h hlong
    · cases h
      rfl

theorem readPush_ok {length : ℕ} {minimal : Bool} {bytes data rest : List UInt8}
    (h : readPush length minimal bytes = (.ok (.pushBytes data), rest)) :
    minimal = true ∧ bytes = data ++ rest ∧ data.length = length := by
  unfold readPush at h
  by_cases hearly : bytes.length < length
  · rw [if_pos hearly] at h
    cases h
  · rw [if_neg hearly] at h
    cases minimal with
    | false => cases h
    | true =>
      cases h
      refine ⟨rfl, (List.take_append_drop length bytes).symm, ?_⟩
      rw [List.length_take]
      omega

theorem readLongPush_ok {width shortest : ℕ} {bytes data rest : List UInt8}
    (h : readLongPush width shortest bytes = (.ok (.pushBytes data), rest)) :
    bytes = littleEndian width data.length ++ (data ++ rest) ∧ shortest ≤ data.length ∧ data.length < 256 ^ width := by
  unfold readLongPush at h
  by_cases hearly : bytes.length < width
  · rw [if_pos hearly] at h
    cases h
  · rw [if_neg hearly] at h
    obtain ⟨hminimal, hrest, hlength⟩ := readPush_ok h
    have htake : (bytes.take width).length = width := by
      rw [List.length_take]
      omega
    have hvalue := littleEndian_littleEndianValue (bytes.take width)
    have hlt := littleEndianValue_lt (bytes.take width)
    rw [htake] at hvalue hlt
    refine ⟨?_, hlength ▸ of_decide_eq_true hminimal, hlength ▸ hlt⟩
    rw [hlength, hvalue, ← hrest, List.take_append_drop]

/-- What a minimal reader reads as a push starts as the builder starts it. -/
theorem nextInstruction_push {bytes data rest : List UInt8}
    (h : nextInstruction bytes = some (.ok (.pushBytes data), rest)) :
    bytes = pushSlice data ++ rest ∧ data.length < 2 ^ 32 := by
  cases bytes with
  | nil => cases h
  | cons opcode bytes =>
    rw [nextInstruction] at h
    have h := Option.some.inj h
    unfold pushSlice pushPrefix
    by_cases hdirect : opcode.toNat < 0x4c
    · rw [if_pos hdirect] at h
      obtain ⟨-, rfl, hlength⟩ := readPush_ok h
      have hopcode : UInt8.ofNat data.length = opcode := by rw [hlength, UInt8.ofNat_toNat]
      rw [if_pos (by omega), littleEndian, littleEndian, hopcode]
      exact ⟨rfl, by omega⟩
    · rw [if_neg hdirect] at h
      by_cases hone : opcode = 0x4c
      · subst hone
        rw [if_pos rfl] at h
        obtain ⟨rfl, hshortest, hlt⟩ := readLongPush_ok h
        rw [if_neg (by omega), if_pos (by omega), List.append_assoc]
        exact ⟨rfl, by omega⟩
      · rw [if_neg hone] at h
        by_cases htwo : opcode = 0x4d
        · subst htwo
          rw [if_pos rfl] at h
          obtain ⟨rfl, hshortest, hlt⟩ := readLongPush_ok h
          rw [if_neg (by omega), if_neg (by omega), if_pos (by omega), List.append_assoc]
          exact ⟨rfl, by omega⟩
        · rw [if_neg htwo] at h
          by_cases hfour : opcode = 0x4e
          · subst hfour
            rw [if_pos rfl] at h
            obtain ⟨rfl, hshortest, hlt⟩ := readLongPush_ok h
            rw [if_neg (by omega), if_neg (by omega), if_neg (by omega), List.append_assoc]
            exact ⟨rfl, by omega⟩
          · rw [if_neg hfour] at h
            cases h

/-- A script with data is the script that its data makes. -/
theorem eq_newOpReturn {script data : List UInt8} (h : opReturnData script = some data) :
    script = newOpReturn data ∧ data.length < 2 ^ 32 := by
  unfold opReturnData at h
  cases hfirst : nextInstruction script with
  | none =>
    rw [hfirst] at h
    cases h
  | some first =>
    obtain ⟨instruction, bytes⟩ := first
    rw [hfirst] at h
    cases instruction with
    | error error => cases h
    | ok instruction =>
      cases instruction with
      | pushBytes other => cases h
      | op code =>
        dsimp only at h
        split_ifs at h with hcode
        subst hcode
        cases hsecond : nextInstruction bytes with
        | none =>
          rw [hsecond] at h
          cases h
        | some second =>
          obtain ⟨instruction, rest⟩ := second
          rw [hsecond] at h
          cases instruction with
          | error error => cases h
          | ok instruction =>
            cases instruction with
            | op code => cases h
            | pushBytes pushed =>
              dsimp only at h
              split_ifs at h with hend
              cases h
              obtain ⟨hbytes, hlength⟩ := nextInstruction_push hsecond
              have hrest : rest = [] := by
                cases rest with
                | nil => rfl
                | cons byte rest => exact absurd rfl hend
              rw [hrest, List.append_nil] at hbytes
              rw [nextInstruction_op hfirst, hbytes]
              exact ⟨rfl, hlength⟩

end Pushes

end OpReturn
