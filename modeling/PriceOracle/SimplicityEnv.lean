import Mathlib.Data.UInt
import Mathlib.Data.Fintype.Basic
import Mathlib.Tactic

/-!
# Simplicity programs on a Liquid transaction

A covenant runs once for each input it guards, on the whole transaction and the
index of that input. The 256-bit word type stays a parameter, so that the hash
jets can be read either as the real functions or as ideal ones. A failed
assertion is `none`.
-/

namespace PriceOracle

/-- An asset id or an amount, as an input or output carries it. -/
inductive Confidential (α : Type*) where
  | explicit (value : α)
  | commitment
  deriving DecidableEq, Repr

namespace Confidential

def getExplicit {α : Type*} : Confidential α → Option α
  | .explicit a => some a
  | .commitment => none

/-- The satoshis a sum may count: a committed amount contributes none. -/
def toNat : Confidential UInt64 → ℕ
  | .explicit v => v.toNat
  | .commitment => 0

@[simp] theorem getExplicit_eq_some {α : Type*} (c : Confidential α) (a : α) :
    c.getExplicit = some a ↔ c = .explicit a := by
  cases c <;> simp [getExplicit]

@[simp] theorem toNat_explicit (v : UInt64) : (explicit v).toNat = v.toNat := rfl

end Confidential

instance neZero_four : NeZero (4 : ℕ) := ⟨by decide⟩

/-- One entry of a null-data script: pushed data with the way it was pushed, or
one of the opcodes that push a constant. -/
inductive NullDatum where
  | push (kind : Fin 4) (data : List UInt8)
  | opcode (code : Bool ⊕ Fin 16)
  deriving DecidableEq, Repr

/-- `nullData` is `some` exactly on an OP_RETURN script that parses as pushes. -/
structure TxOut (W : Type) where
  asset : Confidential W
  amount : Confidential UInt64
  scriptHash : W
  nullData : Option (List NullDatum)
  deriving DecidableEq

/-- An input together with the fields of the output it spends. -/
structure TxIn (W : Type) where
  asset : Confidential W
  amount : Confidential UInt64
  scriptHash : W
  sequence : UInt32
  deriving DecidableEq

/-- Input indices are 32-bit, so that the jet `current_index` is injective. -/
structure Tx (W : Type) where
  version : UInt32
  lockTime : UInt32
  inputs : List (TxIn W)
  outputs : List (TxOut W)
  inputs_lt : inputs.length < 2 ^ 32

/-- What a program sees: the transaction, the input it guards and its own leaf. -/
structure Env (W : Type) where
  tx : Tx W
  index : Fin tx.inputs.length
  tapleafHash : W

def TxOut.isNullData {W : Type} (o : TxOut W) : Bool := o.nullData.isSome

namespace Tx

variable {W : Type} (tx : Tx W)

def isFinal : Bool := tx.inputs.all fun i => i.sequence == 0xffffffff

/-- `jet::tx_lock_height`: zero unless the lock time is enabled and a height. -/
def lockHeight : UInt32 :=
  if tx.isFinal then 0 else if tx.lockTime < 500000000 then tx.lockTime else 0

def inputAmount (i : ℕ) : ℕ := (tx.inputs[i]?.map fun x => x.amount.toNat).getD 0

def outputAmount (o : ℕ) : ℕ := (tx.outputs[o]?.map fun x => x.amount.toNat).getD 0

theorem inputAmount_eq {i : ℕ} {input : TxIn W} {v : UInt64} (hi : tx.inputs[i]? = some input)
    (hv : input.amount = .explicit v) : tx.inputAmount i = v.toNat := by
  simp [inputAmount, hi, hv]

theorem outputAmount_eq {o : ℕ} {out : TxOut W} {v : UInt64} (ho : tx.outputs[o]? = some out)
    (hv : out.amount = .explicit v) : tx.outputAmount o = v.toNat := by
  simp [outputAmount, ho, hv]

/-- The outputs that carry the explicit `asset` and satisfy `p`. -/
def outputsWhere (asset : W) (p : TxOut W → Prop) : Set ℕ :=
  {o | ∃ out, tx.outputs[o]? = some out ∧ out.asset = .explicit asset ∧ p out}

theorem outputsWhere_finite (asset : W) (p : TxOut W → Prop) :
    (tx.outputsWhere asset p).Finite := by
  apply (Set.finite_lt_nat tx.outputs.length).subset
  rintro o ⟨out, ho, -⟩
  exact (List.getElem?_eq_some_iff.mp ho).1

/-- Total of the explicit `asset` over the outputs that satisfy `p`. -/
noncomputable def outputTotal (asset : W) (p : TxOut W → Prop) : ℕ :=
  ∑ o ∈ (tx.outputsWhere_finite asset p).toFinset, tx.outputAmount o

end Tx

namespace Env

variable {W : Type} (env : Env W)

def current : TxIn W := env.tx.inputs.get env.index

def currentIndex : UInt32 := UInt32.ofNat env.index

def currentScriptHash : W := env.current.scriptHash

def currentSequence : UInt32 := env.current.sequence

def version : UInt32 := env.tx.version

/-- `jet::check_lock_height` -/
def checkLockHeight (height : UInt32) : Option Unit :=
  guard (height ≤ env.tx.lockHeight)

theorem currentIndex_toNat : env.currentIndex.toNat = env.index := by
  have := env.tx.inputs_lt
  have := env.index.isLt
  simp only [currentIndex, UInt32.toNat_ofNat']
  omega

theorem inputAmount_index : env.tx.inputAmount env.index = env.current.amount.toNat := by
  simp [Tx.inputAmount, current]

end Env

/-- The cryptographic jets, and the word a hexadecimal literal denotes. A SHA-256
context is the byte string it has absorbed. -/
structure Jets (W Sig : Type) where
  lit : ℕ → W
  bytes : W → List UInt8
  sha256 : List UInt8 → W
  sha256Iv : W
  sha256Block : W → W → W → W
  buildTapbranch : W → W → W
  buildTaptweak : W → W → W
  sigAllHash : Env W → W
  bip0340Verify : W × W → Sig → Bool

abbrev Ctx8 := List UInt8

/-- Big-endian bytes of a 32-bit word. -/
def u32Bytes (x : UInt32) : List UInt8 :=
  [UInt8.ofNat (x.toNat / 2 ^ 24), UInt8.ofNat (x.toNat / 2 ^ 16),
    UInt8.ofNat (x.toNat / 2 ^ 8), UInt8.ofNat x.toNat]

@[simp] theorem u32Bytes_length (x : UInt32) : (u32Bytes x).length = 4 := rfl

theorem u32Bytes_injective : Function.Injective u32Bytes := by
  intro x y h
  simp only [u32Bytes, List.cons.injEq, and_true, ← UInt8.toNat_inj, UInt8.toNat_ofNat'] at h
  have hx := x.toNat_lt
  have hy := y.toNat_lt
  apply UInt32.toNat_inj.mp
  omega

namespace Jets

variable {W Sig : Type} (J : Jets W Sig)

def sha256Ctx8Init : Ctx8 := []

/-- The context of a tagged hash: the tag's hash absorbed twice. -/
def tapdataInit : Ctx8 :=
  let tag := J.bytes (J.sha256 "TapData".toUTF8.toList)
  tag ++ tag

def sha256Ctx8Add2 (ctx : Ctx8) (x : UInt16) : Ctx8 :=
  ctx ++ [UInt8.ofNat (x.toNat / 2 ^ 8), UInt8.ofNat x.toNat]

def sha256Ctx8Add4 (ctx : Ctx8) (x : UInt32) : Ctx8 := ctx ++ u32Bytes x

def sha256Ctx8Add32 (ctx : Ctx8) (w : W) : Ctx8 := ctx ++ J.bytes w

def sha256Ctx8Finalize (ctx : Ctx8) : W := J.sha256 ctx

def reportDatum : NullDatum → (Fin 4 × W) ⊕ (Bool ⊕ Fin 16)
  | .push kind data => .inl (kind, J.sha256 data)
  | .opcode code => .inr code

/-- `jet::output_null_datum`: `none` when the output does not exist or is not null
data, `some none` past its last entry; pushed data is reported by its hash. -/
def outputNullDatum (env : Env W) (output datum : UInt32) :
    Option (Option ((Fin 4 × W) ⊕ (Bool ⊕ Fin 16))) := do
  let out ← env.tx.outputs[output.toNat]?
  let entries ← out.nullData
  return entries[datum.toNat]?.map J.reportDatum

end Jets

/-- An injective encoding of byte strings. -/
def encodeBytes : List UInt8 → ℕ
  | [] => 1
  | b :: bs => b.toNat + 256 * encodeBytes bs

theorem encodeBytes_pos (bs : List UInt8) : 0 < encodeBytes bs := by
  induction bs with
  | nil => exact Nat.one_pos
  | cons b bs ih =>
    rw [encodeBytes]
    omega

theorem encodeBytes_injective : Function.Injective encodeBytes := by
  intro xs
  induction xs with
  | nil =>
    intro ys h
    cases ys with
    | nil => rfl
    | cons b bs =>
      have := encodeBytes_pos bs
      simp only [encodeBytes] at h
      omega
  | cons a as ih =>
    intro ys h
    cases ys with
    | nil =>
      have := encodeBytes_pos as
      simp only [encodeBytes] at h
      omega
    | cons b bs =>
      have ha := a.toNat_lt
      have hb := b.toNat_lt
      simp only [encodeBytes] at h
      have hab : a = b := UInt8.toNat_inj.mp (by omega)
      rw [hab, ih (show encodeBytes as = encodeBytes bs by omega)]

/-- Injective encodings in place of the hash functions, for concrete runs. -/
def idealJets : Jets ℕ Unit where
  lit n := 2 * n
  bytes w := (List.range 32).map fun k => UInt8.ofNat (w / 256 ^ (31 - k))
  sha256 := encodeBytes
  sha256Iv := 2 * 0x6a09e667bb67ae853c6ef372a54ff53a510e527f9b05688c1f83d9ab5be0cd19
  sha256Block h a b := 2 * Nat.pair h (Nat.pair a b) + 1
  buildTapbranch a b := Nat.pair (min a b) (max a b)
  buildTaptweak key node := Nat.pair key node
  sigAllHash env := env.index
  bip0340Verify _ _ := true

/-- The body of `for_while::<f>`: at most 256 rounds over a `u8` counter, `Left`
leaves the loop. -/
def forWhileFrom {A B C : Type} (f : A → C → UInt8 → Option (B ⊕ A)) (ctx : C) :
    ℕ → ℕ → A → Option (B ⊕ A)
  | 0, _, acc => some (.inr acc)
  | n + 1, k, acc => do
    match ← f acc ctx (UInt8.ofNat k) with
    | .inl out => some (.inl out)
    | .inr acc => forWhileFrom f ctx n (k + 1) acc

def forWhile {A B C : Type} (f : A → C → UInt8 → Option (B ⊕ A)) (acc : A) (ctx : C) :
    Option (B ⊕ A) := forWhileFrom f ctx 256 0 acc

def unwrapLeft {A B : Type} : B ⊕ A → Option B
  | .inl b => some b
  | .inr _ => none

end PriceOracle
