import PriceOracle.AuthPaths

/-!
# What the Storm Eye covenant accepts

The converse of `AuthPaths`: with the signature and the proof in order, the outputs that a path demands are enough for
`main` to accept it.
-/

namespace PriceOracle

/-- `treasury.simf`: a Treasury UTXO is spent beside a Storm Eye. -/
def TreasuryCovenant.main {W : Type} (std : Std W) (stormEyeAssetId : W) (env : Env W) (stormEyeInputIndex : UInt32) :
    Option Unit :=
  std.assertExplicitInputAssetId env stormEyeInputIndex stormEyeAssetId

namespace AuthCovenant

open StormTreeCovenant

variable {W Sig : Type}

section Loop

variable (std : Std W) (get : UInt32 → Option (W × UInt64)) (getScriptHash : UInt32 → Option W)

/-- A slot before the last one is added. -/
theorem stepCollect_next {count : UInt8} {scriptHash asset : W} {acc amount : UInt64} {j : ℕ} (hj : j < count.toNat)
    (hget : get (loopIndex std j) = some (asset, amount)) (hscript : getScriptHash (loopIndex std j) = some scriptHash)
    (hfits : acc.toNat + amount.toNat < 2 ^ 64) :
    ∃ total, stepCollect std get getScriptHash acc (count, scriptHash, asset) (UInt8.ofNat j) = some (.inr total) ∧
      total.toNat = acc.toNat + amount.toNat := by
  have hcount := count.toNat_lt
  have htotal : (UInt64.ofNat (acc.toNat + amount.toNat)).toNat = acc.toNat + amount.toNat := by
    rw [UInt64.toNat_ofNat', Nat.mod_eq_of_lt hfits]
  have hadd := (std.add64_iff acc amount _).mpr htotal.symm
  have hlt : UInt8.ofNat j < count := by
    rw [UInt8.lt_iff_toNat_lt, UInt8.toNat_ofNat']
    omega
  refine ⟨_, ?_, htotal⟩
  unfold loopIndex at hget hscript
  unfold stepCollect
  dsimp only
  rw [if_pos hlt, hget, hscript]
  simp [hadd, (std.assertEq256_iff _ _).mpr]

theorem stepCollect_done {count : UInt8} {scriptHash asset : W} {acc : UInt64} :
    stepCollect std get getScriptHash acc (count, scriptHash, asset) (UInt8.ofNat count.toNat) = some (.inl acc) := by
  have hcount := count.toNat_lt
  have hlt : ¬UInt8.ofNat count.toNat < count := by
    rw [UInt8.lt_iff_toNat_lt, UInt8.toNat_ofNat']
    omega
  unfold stepCollect
  dsimp only
  rw [if_neg hlt]
  rfl

theorem forWhileFrom_stepCollect_ok {count : UInt8} {scriptHash asset : W} {amounts : ℕ → UInt64} (n : ℕ) :
    ∀ {k : ℕ} {acc : UInt64}, k + n = 256 → k ≤ count.toNat →
      (∀ j, k ≤ j → j < count.toNat → get (loopIndex std j) = some (asset, amounts j) ∧
        getScriptHash (loopIndex std j) = some scriptHash) →
      acc.toNat + ∑ j ∈ Finset.Ico k count.toNat, (amounts j).toNat < 2 ^ 64 →
      ∃ out, forWhileFrom (stepCollect std get getScriptHash) (count, scriptHash, asset) n k acc = some (.inl out) ∧
        out.toNat = acc.toNat + ∑ j ∈ Finset.Ico k count.toNat, (amounts j).toNat := by
  have hcount := count.toNat_lt
  induction n with
  | zero =>
    intro k acc hk hle
    omega
  | succ n ih =>
    intro k acc hk hle hslots hfits
    rw [forWhileFrom]
    rcases Nat.eq_or_lt_of_le hle with rfl | hlt
    · refine ⟨acc, ?_, by simp⟩
      rw [stepCollect_done]
      rfl
    · obtain ⟨hget, hscript⟩ := hslots k le_rfl hlt
      rw [Finset.sum_eq_sum_Ico_succ_bot hlt] at hfits
      have hnext : acc.toNat + (amounts k).toNat < 2 ^ 64 := by omega
      obtain ⟨total, hstep, htotal⟩ := stepCollect_next std get getScriptHash hlt hget hscript hnext
      have hrest : total.toNat + ∑ j ∈ Finset.Ico (k + 1) count.toNat, (amounts j).toNat < 2 ^ 64 := by omega
      obtain ⟨out, hrun, hout⟩ := ih (by omega) hlt (fun j hj => hslots j (by omega)) hrest
      refine ⟨out, ?_, ?_⟩
      · rw [hstep]
        exact hrun
      · rw [hout, htotal, Finset.sum_eq_sum_Ico_succ_bot hlt, Nat.add_assoc]

/-- A collecting loop over slots that are all in order carries their total. -/
theorem forWhile_stepCollect_ok {count : UInt8} {scriptHash asset : W} {amounts : ℕ → UInt64}
    (hslots : ∀ j < count.toNat, get (loopIndex std j) = some (asset, amounts j) ∧
      getScriptHash (loopIndex std j) = some scriptHash)
    (hfits : ∑ j ∈ Finset.range count.toNat, (amounts j).toNat < 2 ^ 64) :
    ∃ out, forWhile (stepCollect std get getScriptHash) 0 (count, scriptHash, asset) = some (.inl out) ∧
      out.toNat = ∑ j ∈ Finset.range count.toNat, (amounts j).toNat := by
  rw [← Nat.Ico_zero_eq_range] at hfits ⊢
  obtain ⟨out, hrun, hout⟩ := forWhileFrom_stepCollect_ok std get getScriptHash 256 (rfl : 0 + 256 = 256)
    (Nat.zero_le count.toNat) (fun j _ hj => hslots j hj) (show (0 : UInt64).toNat + _ < 2 ^ 64 by simpa using hfits)
  exact ⟨out, hrun, by simpa using hout⟩

end Loop

section Paths

variable (J : Jets W Sig) (std : Std W) (param : Params W) (env : Env W)

theorem assertNetworkAuthorization_iff {root : W} {bloom : StormTreeBloom W Sig} :
    assertNetworkAuthorization J std env root bloom = some () ↔
      arrayFold J bloom.2.2 (getStormTreeLeaf J bloom.2.1) = root ∧
        J.bip0340Verify (bloom.2.1, getSigningMessage J env) bloom.1 = true := by
  simp [assertNetworkAuthorization, Option.bind_eq_some_iff, std.assertEq256_iff]

/-- An output of the current asset, with its amount and its script. -/
def Pays (env : Env W) (index : ℕ) (amount : UInt64) (scriptHash : W) : Prop :=
  ∃ output asset, env.tx.outputs[index]? = some output ∧ env.current.asset = .explicit asset ∧
    output.asset = .explicit asset ∧ output.amount = .explicit amount ∧ output.scriptHash = scriptHash

variable {env} {storage : Storage W} {amount : UInt64} {scriptHash : W} {index : UInt32}

theorem Pays.preserves (h : Pays env index.toNat amount scriptHash) (hamount : env.current.amount = .explicit amount) :
    assertOutputPreservesUtxo std env index = some () := by
  obtain ⟨output, asset, houtput, hcurrent, hasset, hpaid, -⟩ := h
  exact (assertOutputPreservesUtxo_iff std env index).mpr ⟨output, asset, amount, houtput, hcurrent, hamount, hasset, hpaid⟩

theorem Pays.script (h : Pays env index.toNat amount scriptHash) : std.getOutputScriptHash env index = some scriptHash := by
  obtain ⟨output, asset, houtput, -, -, -, rfl⟩ := h
  rw [std.getOutputScriptHash_eq, houtput]
  rfl

theorem assertStorageWithCurrent_ok (h : env.currentScriptHash = scriptHashFor J std env storage) :
    assertStorageWithCurrent J std env storage = some () := (std.assertEq256_iff _ _).mpr h

theorem assertStorageWithOutput_ok (h : Pays env index.toNat amount (scriptHashFor J std env storage)) :
    assertStorageWithOutput J std env storage index = some () := by
  unfold assertStorageWithOutput
  rw [h.script std]
  exact (std.assertEq256_iff _ _).mpr rfl

theorem rootUpdate_ok {newMerkleRoot : W} (hcurrent : env.currentScriptHash = scriptHashFor J std env storage)
    (hamount : env.current.amount = .explicit amount)
    (hpays : Pays env index.toNat amount (scriptHashFor J std env (newMerkleRoot, storage.2))) :
    authWithUpdateStormTreeRoot J std env storage newMerkleRoot index = some () := by
  unfold authWithUpdateStormTreeRoot
  dsimp only
  rw [assertStorageWithCurrent_ok J std hcurrent, assertStorageWithOutput_ok J std hpays]
  exact hpays.preserves std hamount

theorem rescueUpdate_ok {newHeight : UInt32} (hcurrent : env.currentScriptHash = scriptHashFor J std env storage)
    (hheight : storage.2.toNat + 1576800 = newHeight.toNat) (hamount : env.current.amount = .explicit amount)
    (hpays : Pays env index.toNat amount (scriptHashFor J std env (storage.1, newHeight))) :
    authWithUpdateRescueBlock J std env storage newHeight index = some () := by
  have hadd : std.add32 storage.2 1576800 = some newHeight := (std.add32_iff _ _ _).mpr hheight
  have heq : std.assertEq32 newHeight newHeight = some () := (std.assertEq32_iff _ _).mpr rfl
  unfold authWithUpdateRescueBlock
  dsimp only
  rw [hadd]
  change (std.assertEq32 newHeight newHeight).bind _ = _
  rw [heq]
  change (assertStorageWithCurrent J std env storage).bind _ = _
  rw [assertStorageWithCurrent_ok J std hcurrent]
  change (assertStorageWithOutput J std env (storage.1, newHeight) index).bind _ = _
  rw [assertStorageWithOutput_ok J std hpays]
  exact hpays.preserves std hamount

theorem split_ok {count : UInt8} {amounts : ℕ → UInt64} (hindex : env.index.val = 0)
    (hcurrent : env.currentScriptHash = scriptHashFor J std env storage)
    (hmany : 1 < count.toNat) (hmax : count < param.maxSplitUtxosCount) (hamount : env.current.amount = .explicit amount)
    (hpays : ∀ j < count.toNat, Pays env j (amounts j) env.currentScriptHash)
    (htotal : ∑ j ∈ Finset.range count.toNat, (amounts j).toNat = amount.toNat) :
    authSplitStormEyeUtxoIntoMultipleUtxos J std param env storage count = some () := by
  obtain ⟨-, asset, -, hasset, -⟩ := hpays 0 (by omega)
  have hzero : env.currentIndex = 0 := by
    apply UInt32.toNat_inj.mp
    rw [env.currentIndex_toNat, hindex]
    rfl
  have hslots : ∀ j < count.toNat,
      std.getExplicitOutputAssetIdWithAmount env (loopIndex std j) = some (asset, amounts j) ∧
        std.getOutputScriptHash env (loopIndex std j) = some env.currentScriptHash := by
    intro j hj
    have hcount := count.toNat_lt
    have hnumber := loopIndex_toNat std j (by omega)
    have hpaid := hpays j hj
    rw [← hnumber] at hpaid
    have hscript := hpaid.script std
    obtain ⟨output, paid, houtput, hsame, hpaidAsset, hpaidAmount, -⟩ := hpaid
    obtain rfl := Confidential.explicit.inj (hasset.symm.trans hsame)
    rw [hnumber] at hpaidAmount
    exact ⟨(std.getExplicitOutputAssetIdWithAmount_iff _ _ _ _).mpr ⟨output, houtput, hpaidAsset, hpaidAmount⟩, hscript⟩
  obtain ⟨out, hrun, hout⟩ := forWhile_stepCollect_ok std _ _ hslots (by rw [htotal]; exact amount.toNat_lt)
  have hsum : out = amount := UInt64.toNat_inj.mp (hout.trans htotal)
  simp only [authSplitStormEyeUtxoIntoMultipleUtxos, Option.bind_eq_bind, Option.bind_eq_some_iff,
    std.assertEq32_iff, Option.guard_eq_some', std.gt8_iff, Prod.exists,
    std.getExplicitCurrentAssetIdWithAmount_iff, std.assertEq64_iff]
  exact ⟨(), hzero, (), assertStorageWithCurrent_ok J std hcurrent, (), UInt8.lt_iff_toNat_lt.mpr hmany, (), hmax,
    asset, amount, ⟨hasset, hamount⟩, .inl out, hrun, out, rfl, hsum.symm⟩

theorem merge_ok {count : UInt8} {total : UInt64} {amounts : ℕ → UInt64} (hindex : env.index.val < count.toNat)
    (hcurrent : env.currentScriptHash = scriptHashFor J std env storage)
    (hmany : 1 < count.toNat) (hmax : count < param.maxMergeUtxosCount)
    (hinputs : ∀ j < count.toNat, ∃ input, env.tx.inputs[j]? = some input ∧ input.asset = env.current.asset ∧
      input.amount = .explicit (amounts j) ∧ input.scriptHash = env.currentScriptHash)
    (hpays : Pays env 0 total env.currentScriptHash)
    (htotal : ∑ j ∈ Finset.range count.toNat, (amounts j).toNat = total.toNat) :
    authMergeMultipleStormEyesIntoSingleUtxo J std param env storage count = some () := by
  obtain ⟨output, asset, houtput, hasset, hpaidAsset, hpaidAmount, hscript⟩ := hpays
  have hslots : ∀ j < count.toNat,
      std.getExplicitInputAssetIdWithAmount env (loopIndex std j) = some (asset, amounts j) ∧
        std.getInputScriptHash env (loopIndex std j) = some env.currentScriptHash := by
    intro j hj
    have hcount := count.toNat_lt
    have hnumber := loopIndex_toNat std j (by omega)
    obtain ⟨input, hinput, hspentAsset, hspentAmount, hspentScript⟩ := hinputs j hj
    rw [← hnumber] at hinput
    refine ⟨(std.getExplicitInputAssetIdWithAmount_iff _ _ _ _).mpr ⟨input, hinput, hspentAsset.trans hasset, hspentAmount⟩, ?_⟩
    rw [std.getInputScriptHash_eq, hinput, Option.map_some, hspentScript]
  obtain ⟨out, hrun, hout⟩ := forWhile_stepCollect_ok std _ _ hslots (by rw [htotal]; exact total.toNat_lt)
  obtain rfl : out = total := UInt64.toNat_inj.mp (hout.trans htotal)
  have hfirst : std.getOutputScriptHash env 0 = some env.currentScriptHash := by
    rw [std.getOutputScriptHash_eq, show (0 : UInt32).toNat = 0 from rfl, houtput, Option.map_some, hscript]
  have hslot : env.currentIndex < std.u8ToU32 count := by
    rw [UInt32.lt_iff_toNat_lt, env.currentIndex_toNat, std.u8ToU32_toNat]
    exact hindex
  simp only [authMergeMultipleStormEyesIntoSingleUtxo, assertOutputScriptHashMatchesCurrent,
    Option.bind_eq_bind, Option.bind_eq_some_iff, Option.guard_eq_some', std.gt8_iff,
    std.getExplicitCurrentAssetId_iff, std.assertEq256_iff,
    std.assertExplicitOutputAssetIdWithAmount_iff]
  exact ⟨(), assertStorageWithCurrent_ok J std hcurrent, (), ⟨_, hfirst, rfl⟩, (), UInt8.lt_iff_toNat_lt.mpr hmany, (), hmax,
    (), hslot, asset, hasset, .inl out, hrun, out, rfl, output, houtput, hpaidAsset, hpaidAmount⟩

/-- The path of an authorised spend. -/
def dispatchKind (env : Env W) (storage : Storage W) : AuthKind W → Option Unit
  | .inl outputIndex => authWithoutStorageUpdating J std env storage outputIndex
  | .inr (.inl update) => dispatchUpdate J std env storage update
  | .inr (.inr reshape) => dispatchReshape J std param env storage reshape

theorem main_authorized {bloom : StormTreeBloom W Sig} {kind : AuthKind W}
    (h : assertNetworkAuthorization J std env storage.1 bloom = some ()) :
    main J std param env (.inl (storage, bloom, kind)) = dispatchKind J std param env storage kind := by
  change (assertNetworkAuthorization J std env storage.1 bloom).bind _ = _
  rw [h]
  rcases kind with _ | _ | _ <;> rfl

end Paths

end AuthCovenant

end PriceOracle
