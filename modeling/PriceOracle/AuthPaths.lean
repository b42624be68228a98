import PriceOracle.AuthCovenant

/-!
# What each spending path of the Storm Eye covenant settles

A spending path demands some outputs with one script. Acceptance of `main` says
that those outputs hold exactly the input's amount, or, for a merge, the amount
of every merged input together.
-/

namespace PriceOracle.AuthCovenant

open StormTreeCovenant

/-- The six arms of the witness. -/
inductive SpendPath (W : Type) where
  | inclusion (outputIndex : UInt32)
  | rootUpdate (newMerkleRoot : W) (outputIndex : UInt32)
  | rescueBlockUpdate (newRescueBlockNumber outputIndex : UInt32)
  | split (splitUtxosCount : UInt8)
  | merge (utxosToMerge : UInt8)
  | rescue (outputIndex : UInt32)
  deriving DecidableEq

variable {W Sig : Type}

def Witness.storage : Witness W Sig → Storage W
  | .inl (storage, _, _) => storage
  | .inr (storage, _) => storage

def Witness.path : Witness W Sig → SpendPath W
  | .inl (_, _, .inl o) => .inclusion o
  | .inl (_, _, .inr (.inl (.inl (root, o)))) => .rootUpdate root o
  | .inl (_, _, .inr (.inl (.inr (height, o)))) => .rescueBlockUpdate height o
  | .inl (_, _, .inr (.inr (.inl n))) => .split n
  | .inl (_, _, .inr (.inr (.inr n))) => .merge n
  | .inr (_, o) => .rescue o

namespace SpendPath

/-- The outputs a path inspects. -/
def outputs : SpendPath W → Finset ℕ
  | inclusion o => {o.toNat}
  | rootUpdate _ o => {o.toNat}
  | rescueBlockUpdate _ o => {o.toNat}
  | split n => Finset.range n.toNat
  | merge _ => {0}
  | rescue o => {o.toNat}

def IsMerge : SpendPath W → Prop
  | merge _ => True
  | _ => False

/-- How many inputs a merge takes. -/
def mergedCount : SpendPath W → ℕ
  | merge n => n.toNat
  | _ => 0

end SpendPath

section Loop

variable (std : Std W) (get : UInt32 → Option (W × UInt64))
  (getScriptHash : UInt32 → Option W)

/-- The index the loop visits in round `j`. -/
def loopIndex (j : ℕ) : UInt32 := std.u8ToU32 (UInt8.ofNat j)

theorem loopIndex_toNat (j : ℕ) (hj : j < 256) : (loopIndex std j).toNat = j := by
  simp only [loopIndex, std.u8ToU32_toNat, UInt8.toNat_ofNat']
  omega

def loopAmount (j : ℕ) : ℕ := ((get (loopIndex std j)).map fun p => p.2.toNat).getD 0

/-- A round either leaves the loop past the last slot or takes one more slot. -/
theorem stepCollect_cases (count : UInt8) (scriptHash asset : W) (acc : UInt64) (j : ℕ)
    (hj : j < 256) (r : UInt64 ⊕ UInt64)
    (h : stepCollect std get getScriptHash acc (count, scriptHash, asset) (UInt8.ofNat j) =
      some r) :
    (count.toNat ≤ j ∧ r = .inl acc) ∨
    (j < count.toNat ∧ (∃ v, get (loopIndex std j) = some (asset, v)) ∧
      getScriptHash (loopIndex std j) = some scriptHash ∧
      ∃ total, r = .inr total ∧ total.toNat = acc.toNat + loopAmount std get j) := by
  simp only [stepCollect] at h
  split_ifs at h with hlt
  · rw [UInt8.lt_iff_toNat_lt, UInt8.toNat_ofNat'] at hlt
    simp only [Option.bind_eq_bind, Option.bind_eq_some_iff, Prod.exists, std.assertEq256_iff,
      std.add64_iff, Option.pure_def, Option.some.injEq] at h
    obtain ⟨a, v, hget, s, hscript, -, rfl, -, rfl, total, htotal, rfl⟩ := h
    have hv : loopAmount std get j = v.toNat := by
      unfold loopAmount loopIndex
      rw [hget]
      rfl
    exact .inr ⟨by omega, ⟨v, hget⟩, hscript, total, rfl, by rw [hv, htotal]⟩
  · rw [UInt8.lt_iff_toNat_lt, UInt8.toNat_ofNat'] at hlt
    simp only [Option.pure_def, Option.some.injEq] at h
    exact .inl ⟨by omega, h.symm⟩

theorem forWhileFrom_stepCollect (count : UInt8) (scriptHash asset : W) (n k : ℕ)
    (acc out : UInt64) (hk : k + n = 256) (hle : k ≤ count.toNat)
    (h : forWhileFrom (stepCollect std get getScriptHash) (count, scriptHash, asset) n k acc =
      some (.inl out)) :
    (∀ j, k ≤ j → j < count.toNat → (∃ v, get (loopIndex std j) = some (asset, v)) ∧
        getScriptHash (loopIndex std j) = some scriptHash) ∧
      out.toNat = acc.toNat + ∑ j ∈ Finset.Ico k count.toNat, loopAmount std get j := by
  induction n generalizing k acc with
  | zero => simp [forWhileFrom] at h
  | succ n ih =>
    rw [forWhileFrom, Option.bind_eq_bind, Option.bind_eq_some_iff] at h
    obtain ⟨r, hr, h⟩ := h
    obtain ⟨hge, rfl⟩ | ⟨hlt, hget, hscript, total, rfl, htotal⟩ :=
      stepCollect_cases std get getScriptHash _ _ _ _ _ (by omega) _ hr
    · have heq : k = count.toNat := Nat.le_antisymm hle hge
      simp only [Option.some.injEq, Sum.inl.injEq] at h
      subst h heq
      exact ⟨fun j h₁ h₂ => absurd h₂ (by omega), by simp⟩
    · obtain ⟨hall, hsum⟩ := ih (k + 1) total (by omega) hlt h
      refine ⟨fun j h₁ h₂ => ?_, ?_⟩
      · rcases Nat.eq_or_lt_of_le h₁ with rfl | hkj
        · exact ⟨hget, hscript⟩
        · exact hall j hkj h₂
      · rw [hsum, htotal, Finset.sum_eq_sum_Ico_succ_bot hlt, Nat.add_assoc]

/-- A collecting loop that ends has visited exactly the first `count` slots and
carries their total without overflow. -/
theorem forWhile_stepCollect (count : UInt8) (scriptHash asset : W) (out : UInt64)
    (h : forWhile (stepCollect std get getScriptHash) 0 (count, scriptHash, asset) =
      some (.inl out)) :
    (∀ j < count.toNat, (∃ v, get (loopIndex std j) = some (asset, v)) ∧
        getScriptHash (loopIndex std j) = some scriptHash) ∧
      out.toNat = ∑ j ∈ Finset.range count.toNat, loopAmount std get j := by
  obtain ⟨hall, hsum⟩ := forWhileFrom_stepCollect std get getScriptHash count scriptHash asset
    256 0 0 out rfl (Nat.zero_le _) h
  refine ⟨fun j hj => hall j (Nat.zero_le j) hj, ?_⟩
  rw [hsum, Nat.Ico_zero_eq_range]
  simp

end Loop

section Settles

variable (J : Jets W Sig) (std : Std W) (param : Params W) (env : Env W)

/-- The script a path demands of its outputs. -/
def demandedScript (witness : Witness W Sig) : W :=
  match witness.path with
  | .inclusion _ => env.currentScriptHash
  | .rootUpdate root _ => scriptHashFor J std env (root, witness.storage.2)
  | .rescueBlockUpdate height _ => scriptHashFor J std env (witness.storage.1, height)
  | .split _ => env.currentScriptHash
  | .merge _ => env.currentScriptHash
  | .rescue _ => param.rescueOutputScriptHash

/-- What an accepted path guarantees about input `i` and the outputs it inspects. -/
structure Settles (tx : Tx W) (i : ℕ) (asset script : W) (path : SpendPath W) : Prop where
  carries : ∀ o ∈ path.outputs, ∃ out, tx.outputs[o]? = some out ∧
    out.asset = .explicit asset ∧ out.scriptHash = script
  conserves : ¬ path.IsMerge → tx.inputAmount i = ∑ o ∈ path.outputs, tx.outputAmount o
  split_bounds : ∀ n, path = .split n → i = 0 ∧ 1 < n.toNat
  merged : ∀ n, path = .merge n →
    i < n.toNat ∧ tx.outputAmount 0 = ∑ j ∈ Finset.range n.toNat, tx.inputAmount j

/-- A path that keeps the UTXO whole in one output. -/
theorem settles_of_preserved (path : SpendPath W) (o : UInt32) (script asset : W)
    (hpath : path.outputs = {o.toNat}) (hmerge : ¬ path.IsMerge)
    (hsplit : ∀ n, path ≠ .split n)
    (hasset : env.current.asset = .explicit asset)
    (hscript : std.getOutputScriptHash env o = some script)
    (h : assertOutputPreservesUtxo std env o = some ()) :
    Settles env.tx env.index asset script path := by
  obtain ⟨out, a, v, ho, ha, hv, hoa, hov⟩ := (assertOutputPreservesUtxo_iff std env o).mp h
  obtain rfl : asset = a := by
    rw [hasset] at ha
    exact Confidential.explicit.inj ha
  rw [std.getOutputScriptHash_eq, ho, Option.map_some, Option.some.injEq] at hscript
  refine ⟨?_, ?_, fun n hn => absurd hn (hsplit n), ?_⟩
  · intro o' ho'
    rw [hpath, Finset.mem_singleton] at ho'
    subst ho'
    exact ⟨out, ho, hoa, hscript⟩
  · intro _
    rw [hpath, Finset.sum_singleton, env.inputAmount_index, env.tx.outputAmount_eq ho hov, hv]
    rfl
  · rintro n rfl
    exact absurd trivial hmerge

theorem preserved_asset (o : UInt32) (h : assertOutputPreservesUtxo std env o = some ()) :
    ∃ asset, env.current.asset = .explicit asset := by
  obtain ⟨-, a, -, -, ha, -⟩ := (assertOutputPreservesUtxo_iff std env o).mp h
  exact ⟨a, ha⟩

theorem split_settles (storage : Storage W) (n : UInt8)
    (h : authSplitStormEyeUtxoIntoMultipleUtxos J std param env storage n = some ()) :
    ∃ asset, env.current.asset = .explicit asset ∧
      Settles env.tx env.index asset env.currentScriptHash (.split n) := by
  simp only [authSplitStormEyeUtxoIntoMultipleUtxos, Option.bind_eq_bind, Option.bind_eq_some_iff,
    std.assertEq32_iff, Option.guard_eq_some', std.gt8_iff, Prod.exists,
    std.getExplicitCurrentAssetIdWithAmount_iff, std.assertEq64_iff] at h
  obtain ⟨-, hindex, -, -, -, hgt, -, -, asset, v, ⟨hasset, hv⟩, r, hloop, total, hout, rfl⟩ := h
  cases r with
  | inr acc => simp [unwrapLeft] at hout
  | inl out =>
    simp only [unwrapLeft, Option.some.injEq] at hout
    subst hout
    obtain ⟨hall, hsum⟩ := forWhile_stepCollect std _ _ n _ asset out hloop
    have hslot (o : ℕ) (ho : o < n.toNat) : ∃ out, env.tx.outputs[o]? = some out ∧
        out.asset = .explicit asset ∧ out.scriptHash = env.currentScriptHash ∧
        env.tx.outputAmount o =
          loopAmount std (std.getExplicitOutputAssetIdWithAmount env) o := by
      obtain ⟨⟨w, hget⟩, hscript⟩ := hall o ho
      have hidx := loopIndex_toNat std o (ho.trans n.toNat_lt)
      obtain ⟨out, hout, ha, hw⟩ := (std.getExplicitOutputAssetIdWithAmount_iff _ _ _ _).mp hget
      rw [std.getOutputScriptHash_eq, hout, Option.map_some, Option.some.injEq] at hscript
      rw [hidx] at hout
      refine ⟨out, hout, ha, hscript, ?_⟩
      simp [env.tx.outputAmount_eq hout hw, loopAmount, hget]
    refine ⟨asset, hasset, ?_, ?_, ?_, ?_⟩
    · intro o ho
      obtain ⟨out, hout, ha, hscript, -⟩ := hslot o (Finset.mem_range.mp ho)
      exact ⟨out, hout, ha, hscript⟩
    · intro _
      rw [env.inputAmount_index, hv, Confidential.toNat_explicit, hsum]
      apply Finset.sum_congr rfl
      intro o ho
      obtain ⟨-, -, -, -, hamount⟩ := hslot o (Finset.mem_range.mp ho)
      exact hamount.symm
    · rintro m ⟨rfl⟩
      refine ⟨?_, UInt8.lt_iff_toNat_lt.mp hgt⟩
      rw [← env.currentIndex_toNat, hindex]
      rfl
    · rintro m ⟨⟩

theorem merge_settles (storage : Storage W) (n : UInt8)
    (h : authMergeMultipleStormEyesIntoSingleUtxo J std param env storage n = some ()) :
    ∃ asset, env.current.asset = .explicit asset ∧
      Settles env.tx env.index asset env.currentScriptHash (.merge n) := by
  simp only [authMergeMultipleStormEyesIntoSingleUtxo, assertOutputScriptHashMatchesCurrent,
    Option.bind_eq_bind, Option.bind_eq_some_iff, Option.guard_eq_some', std.gt8_iff,
    std.getExplicitCurrentAssetId_iff, std.assertEq256_iff,
    std.assertExplicitOutputAssetIdWithAmount_iff] at h
  obtain ⟨-, -, -, ⟨script, hscript, rfl⟩, -, -, -, -, -, hlt, asset, hasset, r, hloop,
    total, hout, out, ho, hoa, hov⟩ := h
  have hzero : (0 : UInt32).toNat = 0 := rfl
  rw [std.getOutputScriptHash_eq, ho, Option.map_some, Option.some.injEq] at hscript
  rw [hzero] at ho
  cases r with
  | inr acc => simp [unwrapLeft] at hout
  | inl sum =>
    simp only [unwrapLeft, Option.some.injEq] at hout
    subst hout
    obtain ⟨hall, hsum⟩ := forWhile_stepCollect std _ _ n _ asset sum hloop
    refine ⟨asset, hasset, ?_, fun hm => absurd trivial hm, ?_, ?_⟩
    · intro o ho'
      rw [SpendPath.outputs, Finset.mem_singleton] at ho'
      subst ho'
      exact ⟨out, ho, hoa, hscript⟩
    · rintro m ⟨⟩
    · rintro m ⟨rfl⟩
      refine ⟨?_, ?_⟩
      · rw [← env.currentIndex_toNat, ← std.u8ToU32_toNat]
        exact UInt32.lt_iff_toNat_lt.mp hlt
      · rw [env.tx.outputAmount_eq ho hov, hsum]
        apply Finset.sum_congr rfl
        intro j hj
        have hj' := Finset.mem_range.mp hj
        obtain ⟨⟨w, hget⟩, -⟩ := hall j hj'
        obtain ⟨input, hin, -, hw⟩ := (std.getExplicitInputAssetIdWithAmount_iff _ _ _ _).mp hget
        rw [loopIndex_toNat std j (hj'.trans n.toNat_lt)] at hin
        simp [env.tx.inputAmount_eq hin hw, loopAmount, hget]

/-- Whatever path `main` accepts, the outputs it inspects settle the input. -/
theorem main_settles (witness : Witness W Sig)
    (h : main J std param env witness = some ()) :
    ∃ asset, env.current.asset = .explicit asset ∧
      Settles env.tx env.index asset (demandedScript J std param env witness) witness.path := by
  rcases witness with ⟨storage, bloom, kind⟩ | ⟨storage, o⟩
  · simp only [main, dispatchAuthorized, Option.bind_eq_bind, Option.bind_eq_some_iff] at h
    obtain ⟨-, -, h⟩ := h
    rcases kind with o | (⟨root, o⟩ | ⟨height, o⟩) | (n | n)
    · simp only [authWithoutStorageUpdating, assertOutputScriptHashMatchesCurrent,
        Option.bind_eq_bind, Option.bind_eq_some_iff, std.assertEq256_iff] at h
      obtain ⟨-, -, -, ⟨script, hscript, rfl⟩, h⟩ := h
      obtain ⟨asset, hasset⟩ := preserved_asset std env o h
      exact ⟨asset, hasset, settles_of_preserved std env _ o _ asset rfl (fun hm => hm)
        (fun n hn => by cases hn) hasset hscript h⟩
    · simp only [dispatchUpdate, authWithUpdateStormTreeRoot, assertStorageWithOutput,
        Option.bind_eq_bind, Option.bind_eq_some_iff, std.assertEq256_iff] at h
      obtain ⟨-, -, -, ⟨script, hscript, rfl⟩, h⟩ := h
      obtain ⟨asset, hasset⟩ := preserved_asset std env o h
      exact ⟨asset, hasset, settles_of_preserved std env _ o _ asset rfl (fun hm => hm)
        (fun n hn => by cases hn) hasset hscript h⟩
    · simp only [dispatchUpdate, authWithUpdateRescueBlock, assertStorageWithOutput,
        Option.bind_eq_bind, Option.bind_eq_some_iff, std.assertEq256_iff] at h
      obtain ⟨-, -, -, -, -, -, -, ⟨script, hscript, rfl⟩, h⟩ := h
      obtain ⟨asset, hasset⟩ := preserved_asset std env o h
      exact ⟨asset, hasset, settles_of_preserved std env _ o _ asset rfl (fun hm => hm)
        (fun n hn => by cases hn) hasset hscript h⟩
    · exact split_settles J std param env storage n h
    · exact merge_settles J std param env storage n h
  · simp only [main, rescueAfterBlockNumber, Option.bind_eq_bind, Option.bind_eq_some_iff,
      std.assertEq256_iff] at h
    obtain ⟨-, -, -, -, script, hscript, -, rfl, h⟩ := h
    obtain ⟨asset, hasset⟩ := preserved_asset std env o h
    exact ⟨asset, hasset, settles_of_preserved std env _ o _ asset rfl (fun hm => hm)
      (fun n hn => by cases hn) hasset hscript h⟩

end Settles

end PriceOracle.AuthCovenant
