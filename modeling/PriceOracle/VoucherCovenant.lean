import PriceOracle.AuthCovenant
import PriceOracle.OutputCover

/-!
# The voucher covenant

`voucher.simf`: a voucher leaves along a user path, the network path or the
permissionless path. Every path but the network's burns it into a null-data
output whose first entry carries the voucher's own input index, so the burns of
a transaction are pairwise distinct outputs.
-/

namespace PriceOracle.VoucherCovenant

abbrev AssetAuthWit := UInt32 × UInt32
abbrev ScriptAuthWit := UInt32 × UInt32
abbrev SignAuthWit (Sig : Type) := Sig × UInt32
abbrev NetworkAuthWit := UInt32
abbrev PermissionlessBurnWit := UInt32
abbrev AuthKindLeft := AssetAuthWit ⊕ ScriptAuthWit
abbrev BurnKind := NetworkAuthWit ⊕ PermissionlessBurnWit
abbrev AuthKindRight (Sig : Type) := SignAuthWit Sig ⊕ BurnKind
abbrev Witness (Sig : Type) := AuthKindLeft ⊕ AuthKindRight Sig

/-- The covenant's compilation parameters. -/
structure Params (W : Type) where
  stormEyeAssetId : W
  authMethod : UInt32
  authAssetId : W
  authScriptHash : W
  authPubkey : W

variable {W Sig : Type} (J : Jets W Sig) (std : Std W) (param : Params W) (env : Env W)

/-- SHA-256 of the input index as 4 big-endian bytes. -/
def getBurnTagHash (voucherInputIndex : UInt32) : W :=
  J.sha256Ctx8Finalize (Jets.sha256Ctx8Add4 Jets.sha256Ctx8Init voucherInputIndex)

def assertVoucherUtxoBurned (voucherUtxoOutputIndex : UInt32) : Option Unit := do
  assertOutputPreservesUtxo std env voucherUtxoOutputIndex
  let tag ← (← J.outputNullDatum env voucherUtxoOutputIndex 0)
  let (_, tagHash) ← unwrapLeft tag
  std.assertEq256 tagHash (getBurnTagHash J env.currentIndex)

/-- 1. Asset authorisation. -/
def userSpendViaAssetAuth (assetAuthUtxoInputIndex voucherUtxoOutputIndex : UInt32) :
    Option Unit := do
  std.assertEq32 param.authMethod 0
  std.assertExplicitInputAssetId env assetAuthUtxoInputIndex param.authAssetId
  assertVoucherUtxoBurned J std env voucherUtxoOutputIndex

/-- 2. Script authorisation. -/
def userSpendViaScriptAuth (scriptAuthUtxoInputIndex voucherUtxoOutputIndex : UInt32) :
    Option Unit := do
  std.assertEq32 param.authMethod 1
  std.assertEq256 (← std.getInputScriptHash env scriptAuthUtxoInputIndex) param.authScriptHash
  assertVoucherUtxoBurned J std env voucherUtxoOutputIndex

/-- 3. Signature authorisation. -/
def userSpendViaSignAuth (authSignature : Sig) (voucherUtxoOutputIndex : UInt32) :
    Option Unit := do
  std.assertEq32 param.authMethod 2
  guard (J.bip0340Verify (param.authPubkey, J.sigAllHash env) authSignature)
  assertVoucherUtxoBurned J std env voucherUtxoOutputIndex

/-- 4. Network authorised spending. -/
def networkAuthSpend (stormEyeInputIndex : UInt32) : Option Unit :=
  std.assertExplicitInputAssetId env stormEyeInputIndex param.stormEyeAssetId

/-- 5. Burning by anyone once this input's own BIP68 delay of 9 units has passed. -/
def permissionlessBurn (voucherUtxoOutputIndex : UInt32) : Option Unit := do
  guard (2 ≤ env.version)
  guard (env.version ≤ 0x7fffffff)
  std.assertEq32 (env.currentSequence &&& 0x80400000) 0x00400000
  guard (9 ≤ env.currentSequence &&& 0x0000ffff)
  assertVoucherUtxoBurned J std env voucherUtxoOutputIndex

def main (witness : Witness Sig) : Option Unit :=
  match witness with
  | .inl (.inl (inputIndex, outputIndex)) =>
    userSpendViaAssetAuth J std param env inputIndex outputIndex
  | .inl (.inr (inputIndex, outputIndex)) =>
    userSpendViaScriptAuth J std param env inputIndex outputIndex
  | .inr (.inl (signature, outputIndex)) =>
    userSpendViaSignAuth J std param env signature outputIndex
  | .inr (.inr (.inl inputIndex)) => networkAuthSpend std param env inputIndex
  | .inr (.inr (.inr outputIndex)) => permissionlessBurn J std env outputIndex

/-- The burn output a witness names; the network path names none. -/
def burnIndex : Witness Sig → Option UInt32
  | .inl (.inl (_, o)) => some o
  | .inl (.inr (_, o)) => some o
  | .inr (.inl (_, o)) => some o
  | .inr (.inr (.inl _)) => none
  | .inr (.inr (.inr o)) => some o

/-- Every path but the network's ends in the same check of its burn output. -/
theorem main_burned (witness : Witness Sig) (o : UInt32) (ho : burnIndex witness = some o)
    (h : main J std param env witness = some ()) :
    assertVoucherUtxoBurned J std env o = some () := by
  rcases witness with (⟨i, o'⟩ | ⟨i, o'⟩) | (⟨sig, o'⟩ | (i | o')) <;>
    simp only [burnIndex, Option.some.injEq, reduceCtorEq] at ho
  all_goals
    subst ho
    simp only [main, userSpendViaAssetAuth, userSpendViaScriptAuth, userSpendViaSignAuth,
      permissionlessBurn, Option.bind_eq_bind, Option.bind_eq_some_iff] at h
  · obtain ⟨-, -, -, -, h⟩ := h
    exact h
  · obtain ⟨-, -, -, -, -, -, h⟩ := h
    exact h
  · obtain ⟨-, -, -, -, h⟩ := h
    exact h
  · obtain ⟨-, -, -, -, -, -, -, -, h⟩ := h
    exact h

/-- A burn output holds the voucher whole and reports the tag of its input index. -/
theorem assertVoucherUtxoBurned_spec (o : UInt32)
    (h : assertVoucherUtxoBurned J std env o = some ()) :
    ∃ out asset v, env.tx.outputs[o.toNat]? = some out ∧ out.isNullData = true ∧
      env.current.asset = .explicit asset ∧ env.current.amount = .explicit v ∧
      out.asset = .explicit asset ∧ out.amount = .explicit v ∧
      ∃ kind, J.outputNullDatum env o 0 =
        some (some (.inl (kind, getBurnTagHash J env.currentIndex))) := by
  simp only [assertVoucherUtxoBurned, Option.bind_eq_bind, Option.bind_eq_some_iff,
    Prod.exists, std.assertEq256_iff] at h
  obtain ⟨⟨⟩, hpres, entry, hentry, tag, rfl, kind, hash, htag, rfl⟩ := h
  obtain ⟨out, asset, v, hout, ha, hv, hoa, hov⟩ := (assertOutputPreservesUtxo_iff std env o).mp hpres
  cases tag with
  | inr code => simp [unwrapLeft] at htag
  | inl pair =>
    simp only [unwrapLeft, Option.some.injEq] at htag
    subst htag
    refine ⟨out, asset, v, hout, ?_, ha, hv, hoa, hov, kind, hentry⟩
    simp only [Jets.outputNullDatum, Option.bind_eq_bind, Option.bind_eq_some_iff] at hentry
    obtain ⟨out', hout', entries, hnull, -⟩ := hentry
    rw [hout] at hout'
    cases hout'
    simp [TxOut.isNullData, hnull]

section Transaction

variable (params : ℕ → Params W) (leaf : ℕ → W) (tx : Tx W)
  (wit : Fin tx.inputs.length → Witness Sig) (S : Finset (Fin tx.inputs.length))

/-- The environment of voucher input `i`; each voucher has its own leaf. -/
def voucherEnv (i : Fin tx.inputs.length) : Env W := ⟨tx, i, leaf i⟩

/-- The vouchers of `S` are accepted, none of them on the network path. -/
def AllBurned : Prop :=
  ∀ i ∈ S, main J std (params i) (voucherEnv leaf tx i) (wit i) = some () ∧
    (burnIndex (wit i)).isSome = true

/-- Output `o` burns exactly input `i`: an OP_RETURN with its asset and whole amount. -/
def Burns (i : Fin tx.inputs.length) (o : ℕ) : Prop :=
  ∃ out asset v, tx.outputs[o]? = some out ∧ out.isNullData = true ∧
    (tx.inputs.get i).asset = .explicit asset ∧ (tx.inputs.get i).amount = .explicit v ∧
    out.asset = .explicit asset ∧ out.amount = .explicit v

variable {J std params leaf tx wit S}

/-- Two inputs that burn into one output have one index: its tag is the hash of both. -/
theorem burnIndex_injective (hsha : Set.InjOn J.sha256 {b | b.length = 4})
    (hacc : AllBurned J std params leaf tx wit S) {i j : Fin tx.inputs.length} (hi : i ∈ S)
    (hj : j ∈ S) (hij : burnIndex (wit i) = burnIndex (wit j)) : i = j := by
  obtain ⟨hmi, hsi⟩ := hacc i hi
  obtain ⟨hmj, -⟩ := hacc j hj
  obtain ⟨o, hoi⟩ := Option.isSome_iff_exists.mp hsi
  have hoj : burnIndex (wit j) = some o := hij ▸ hoi
  obtain ⟨-, -, -, -, -, -, -, -, -, ki, hti⟩ :=
    assertVoucherUtxoBurned_spec J std _ o (main_burned J std _ _ _ o hoi hmi)
  obtain ⟨-, -, -, -, -, -, -, -, -, kj, htj⟩ :=
    assertVoucherUtxoBurned_spec J std _ o (main_burned J std _ _ _ o hoj hmj)
  have hsame : J.outputNullDatum (voucherEnv leaf tx i) o 0 =
      J.outputNullDatum (voucherEnv leaf tx j) o 0 := rfl
  rw [hti, htj] at hsame
  simp only [Option.some.injEq, Sum.inl.injEq, Prod.mk.injEq] at hsame
  have hbytes : u32Bytes (voucherEnv leaf tx i).currentIndex =
      u32Bytes (voucherEnv leaf tx j).currentIndex :=
    hsha (u32Bytes_length _) (u32Bytes_length _) hsame.2
  have hindex := congrArg UInt32.toNat (u32Bytes_injective hbytes)
  rw [Env.currentIndex_toNat, Env.currentIndex_toNat] at hindex
  exact Fin.ext hindex

/-- The burn output of an input, by the index its witness names. -/
def burnOutput (wit : Fin tx.inputs.length → Witness Sig) (i : Fin tx.inputs.length) : ℕ :=
  ((burnIndex (wit i)).map UInt32.toNat).getD 0

theorem burnOutput_burns (hacc : AllBurned J std params leaf tx wit S)
    {i : Fin tx.inputs.length} (hi : i ∈ S) : Burns tx i (burnOutput wit i) := by
  obtain ⟨hm, hs⟩ := hacc i hi
  obtain ⟨o, ho⟩ := Option.isSome_iff_exists.mp hs
  obtain ⟨out, asset, v, hout, hnull, ha, hv, hoa, hov, -⟩ :=
    assertVoucherUtxoBurned_spec J std _ o (main_burned J std _ _ _ o ho hm)
  have hindex : burnOutput wit i = o.toNat := by simp [burnOutput, ho]
  exact ⟨out, asset, v, hindex ▸ hout, hnull, ha, hv, hoa, hov⟩

theorem burnOutput_injOn (hsha : Set.InjOn J.sha256 {b | b.length = 4})
    (hacc : AllBurned J std params leaf tx wit S) : Set.InjOn (burnOutput wit) S := by
  intro i hi j hj hij
  apply burnIndex_injective hsha hacc hi hj
  obtain ⟨o, ho⟩ := Option.isSome_iff_exists.mp (hacc i hi).2
  obtain ⟨p, hp⟩ := Option.isSome_iff_exists.mp (hacc j hj).2
  simp only [burnOutput, ho, hp, Option.map_some, Option.getD_some] at hij
  rw [ho, hp, UInt32.toNat_inj.mp hij]

theorem Burns.inputAmount_eq {i : Fin tx.inputs.length} {o : ℕ} (h : Burns tx i o) :
    tx.inputAmount i = tx.outputAmount o := by
  obtain ⟨out, asset, v, hout, -, -, hv, -, hov⟩ := h
  have hin : tx.inputs[(i : ℕ)]? = some (tx.inputs.get i) := List.getElem?_eq_getElem i.isLt
  rw [tx.inputAmount_eq hin hv, tx.outputAmount_eq hout hov]

/-- Burn exclusivity: distinct vouchers burn into distinct outputs, and what a
transaction burns of an asset covers all its vouchers of that asset. -/
theorem burns_exclusive [DecidableEq W] (hsha : Set.InjOn J.sha256 {b | b.length = 4})
    (hacc : AllBurned J std params leaf tx wit S) :
    (∃ f : Fin tx.inputs.length → ℕ, Set.InjOn f S ∧ ∀ i ∈ S, Burns tx i (f i)) ∧
      ∀ asset, ∑ i ∈ S with (tx.inputs.get i).asset = .explicit asset, tx.inputAmount i ≤
        tx.outputTotal asset fun out => out.isNullData = true := by
  have hinj := burnOutput_injOn hsha hacc
  refine ⟨⟨burnOutput wit, hinj, fun i hi => burnOutput_burns hacc hi⟩, fun asset => ?_⟩
  apply OutputCover.sum_le_of_injOn _ _ (burnOutput wit)
  · intro i hi
    obtain ⟨hiS, hasset⟩ := Finset.mem_filter.mp hi
    obtain ⟨out, a, v, hout, hnull, ha, -, hoa, -⟩ := burnOutput_burns hacc hiS
    have hsame : a = asset := Confidential.explicit.inj (ha.symm.trans hasset)
    exact (Set.Finite.mem_toFinset _).mpr ⟨out, hout, hsame ▸ hoa, hnull⟩
  · intro i hi j hj hij
    exact hinj (Finset.mem_filter.mp hi).1 (Finset.mem_filter.mp hj).1 hij
  · intro i hi
    exact (burnOutput_burns hacc (Finset.mem_filter.mp hi).1).inputAmount_eq.le

end Transaction

section Burn

def burnStd : Std ℕ := Std.documented UInt32.toNat

def burnParams : Params ℕ := ⟨7, 2, 0, 0, 11⟩

def voucherInput : TxIn ℕ := ⟨.explicit 3, .explicit 10, 4, 0x00400009⟩

def taggedOutput (i : UInt32) : TxOut ℕ :=
  ⟨.explicit 3, .explicit 10, 0, some [.push 0 (u32Bytes i)]⟩

/-- Two equal vouchers past their delay, burnt by anyone into two outputs. -/
def burnTx : Tx ℕ := ⟨2, 0, [voucherInput, voucherInput], [taggedOutput 1, taggedOutput 0], by decide⟩

def burnWitness (i : Fin burnTx.inputs.length) : Witness Unit := .inr (.inr (.inr (1 - UInt32.ofNat i)))

theorem burnTx_accepted : ∀ i, main idealJets burnStd burnParams (voucherEnv (fun _ => 5) burnTx i)
    (burnWitness i) = some () := by decide

theorem burns_exclusive_burnTx :
    (∃ f : Fin burnTx.inputs.length → ℕ,
        Set.InjOn f (Finset.univ : Finset (Fin burnTx.inputs.length)) ∧
        ∀ i ∈ Finset.univ, Burns burnTx i (f i)) ∧
      ∀ asset, ∑ i ∈ Finset.univ with (burnTx.inputs.get i).asset = .explicit asset,
        burnTx.inputAmount i ≤ burnTx.outputTotal asset fun out => out.isNullData = true :=
  @burns_exclusive ℕ Unit idealJets burnStd (fun _ => burnParams) (fun _ => 5) burnTx burnWitness
    Finset.univ _ encodeBytes_injective.injOn fun i _ => ⟨burnTx_accepted i, rfl⟩

end Burn

end PriceOracle.VoucherCovenant
