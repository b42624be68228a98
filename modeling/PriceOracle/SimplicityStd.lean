import PriceOracle.SimplicityEnv

/-!
# The SimplicityHL standard library the covenants import

The library is fetched by the build and is not part of the repository, so it is
a parameter: the functions the covenants call, each with the behaviour its name
documents. `Std.documented` is the library written from those laws.
-/

namespace PriceOracle

structure Std (W : Type) where
  assertEq32 : UInt32 → UInt32 → Option Unit
  assertEq64 : UInt64 → UInt64 → Option Unit
  assertEq256 : W → W → Option Unit
  gt8 : UInt8 → UInt8 → Bool
  u8ToU32 : UInt8 → UInt32
  u32ToU256 : UInt32 → W
  add32 : UInt32 → UInt32 → Option UInt32
  add64 : UInt64 → UInt64 → Option UInt64
  getExplicitCurrentAssetId : Env W → Option W
  getExplicitCurrentAssetIdWithAmount : Env W → Option (W × UInt64)
  getExplicitOutputAssetIdWithAmount : Env W → UInt32 → Option (W × UInt64)
  getExplicitInputAssetIdWithAmount : Env W → UInt32 → Option (W × UInt64)
  assertExplicitOutputAssetIdWithAmount : Env W → UInt32 → W → UInt64 → Option Unit
  assertExplicitInputAssetId : Env W → UInt32 → W → Option Unit
  getOutputScriptHash : Env W → UInt32 → Option W
  getInputScriptHash : Env W → UInt32 → Option W
  assertEq32_iff : ∀ a b, assertEq32 a b = some () ↔ a = b
  assertEq64_iff : ∀ a b, assertEq64 a b = some () ↔ a = b
  assertEq256_iff : ∀ a b, assertEq256 a b = some () ↔ a = b
  gt8_iff : ∀ a b, gt8 a b = true ↔ b < a
  u8ToU32_toNat : ∀ b, (u8ToU32 b).toNat = b.toNat
  /-- Addition asserts that it does not carry. -/
  add32_iff : ∀ a b c, add32 a b = some c ↔ a.toNat + b.toNat = c.toNat
  add64_iff : ∀ a b c, add64 a b = some c ↔ a.toNat + b.toNat = c.toNat
  getExplicitCurrentAssetId_iff : ∀ env a,
    getExplicitCurrentAssetId env = some a ↔ env.current.asset = .explicit a
  getExplicitCurrentAssetIdWithAmount_iff : ∀ env a v,
    getExplicitCurrentAssetIdWithAmount env = some (a, v) ↔
      env.current.asset = .explicit a ∧ env.current.amount = .explicit v
  getExplicitOutputAssetIdWithAmount_iff : ∀ env i a v,
    getExplicitOutputAssetIdWithAmount env i = some (a, v) ↔
      ∃ o, env.tx.outputs[i.toNat]? = some o ∧ o.asset = .explicit a ∧ o.amount = .explicit v
  getExplicitInputAssetIdWithAmount_iff : ∀ env i a v,
    getExplicitInputAssetIdWithAmount env i = some (a, v) ↔
      ∃ o, env.tx.inputs[i.toNat]? = some o ∧ o.asset = .explicit a ∧ o.amount = .explicit v
  assertExplicitOutputAssetIdWithAmount_iff : ∀ env i a v,
    assertExplicitOutputAssetIdWithAmount env i a v = some () ↔
      ∃ o, env.tx.outputs[i.toNat]? = some o ∧ o.asset = .explicit a ∧ o.amount = .explicit v
  assertExplicitInputAssetId_iff : ∀ env i a,
    assertExplicitInputAssetId env i a = some () ↔
      ∃ o, env.tx.inputs[i.toNat]? = some o ∧ o.asset = .explicit a
  getOutputScriptHash_eq : ∀ env i,
    getOutputScriptHash env i = (env.tx.outputs[i.toNat]?).map TxOut.scriptHash
  getInputScriptHash_eq : ∀ env i,
    getInputScriptHash env i = (env.tx.inputs[i.toNat]?).map TxIn.scriptHash

namespace Std

variable {W : Type}

def explicitPair (asset : Confidential W) (amount : Confidential UInt64) :
    Option (W × UInt64) := do
  let a ← asset.getExplicit
  let v ← amount.getExplicit
  return (a, v)

theorem explicitPair_iff (asset : Confidential W) (amount : Confidential UInt64) (a : W)
    (v : UInt64) : explicitPair asset amount = some (a, v) ↔
      asset = .explicit a ∧ amount = .explicit v := by
  cases asset <;> cases amount <;> simp [explicitPair, Confidential.getExplicit]

def checkedAdd32 (a b : UInt32) : Option UInt32 :=
  if a.toNat + b.toNat < 2 ^ 32 then some (a + b) else none

def checkedAdd64 (a b : UInt64) : Option UInt64 :=
  if a.toNat + b.toNat < 2 ^ 64 then some (a + b) else none

theorem checkedAdd32_iff (a b c : UInt32) :
    checkedAdd32 a b = some c ↔ a.toNat + b.toNat = c.toNat := by
  have hc := c.toNat_lt
  unfold checkedAdd32
  split_ifs with h
  · rw [Option.some.injEq, ← UInt32.toNat_inj, UInt32.toNat_add, Nat.mod_eq_of_lt h]
  · simp only [false_iff]
    omega

theorem checkedAdd64_iff (a b c : UInt64) :
    checkedAdd64 a b = some c ↔ a.toNat + b.toNat = c.toNat := by
  have hc := c.toNat_lt
  unfold checkedAdd64
  split_ifs with h
  · rw [Option.some.injEq, ← UInt64.toNat_inj, UInt64.toNat_add, Nat.mod_eq_of_lt h]
  · simp only [false_iff]
    omega

/-- The library as its documentation describes it. -/
def documented [DecidableEq W] (u32ToU256 : UInt32 → W) : Std W where
  assertEq32 a b := guard (a = b)
  assertEq64 a b := guard (a = b)
  assertEq256 a b := guard (a = b)
  gt8 a b := decide (b < a)
  u8ToU32 b := b.toUInt32
  u32ToU256 := u32ToU256
  add32 := checkedAdd32
  add64 := checkedAdd64
  getExplicitCurrentAssetId env := env.current.asset.getExplicit
  getExplicitCurrentAssetIdWithAmount env :=
    explicitPair env.current.asset env.current.amount
  getExplicitOutputAssetIdWithAmount env i :=
    env.tx.outputs[i.toNat]?.bind fun o => explicitPair o.asset o.amount
  getExplicitInputAssetIdWithAmount env i :=
    env.tx.inputs[i.toNat]?.bind fun o => explicitPair o.asset o.amount
  assertExplicitOutputAssetIdWithAmount env i a v :=
    env.tx.outputs[i.toNat]?.bind fun o => guard (explicitPair o.asset o.amount = some (a, v))
  assertExplicitInputAssetId env i a :=
    env.tx.inputs[i.toNat]?.bind fun o => guard (o.asset.getExplicit = some a)
  getOutputScriptHash env i := env.tx.outputs[i.toNat]?.map TxOut.scriptHash
  getInputScriptHash env i := env.tx.inputs[i.toNat]?.map TxIn.scriptHash
  assertEq32_iff a b := by simp
  assertEq64_iff a b := by simp
  assertEq256_iff a b := by simp
  gt8_iff a b := by simp
  u8ToU32_toNat b := UInt8.toNat_toUInt32 b
  add32_iff := checkedAdd32_iff
  add64_iff := checkedAdd64_iff
  getExplicitCurrentAssetId_iff env a := by simp
  getExplicitCurrentAssetIdWithAmount_iff env a v := explicitPair_iff _ _ a v
  getExplicitOutputAssetIdWithAmount_iff env i a v := by
    simp [Option.bind_eq_some_iff, explicitPair_iff]
  getExplicitInputAssetIdWithAmount_iff env i a v := by
    simp [Option.bind_eq_some_iff, explicitPair_iff]
  assertExplicitOutputAssetIdWithAmount_iff env i a v := by
    simp [Option.bind_eq_some_iff, explicitPair_iff]
  assertExplicitInputAssetId_iff env i a := by
    simp [Option.bind_eq_some_iff]
  getOutputScriptHash_eq env i := rfl
  getInputScriptHash_eq env i := rfl

end Std
end PriceOracle
