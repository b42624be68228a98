import PriceOracle.AuthPaths
import PriceOracle.OutputCover

/-!
# Conservation of a Storm Eye asset over a whole transaction

Every Storm Eye input is checked alone, against outputs it names itself. Their
total stays under the scripts the paths demand exactly when no two inputs name
the same output, merged inputs apart.
-/

namespace PriceOracle.AuthCovenant

open StormTreeCovenant

namespace SpendPath

variable {W : Type}

/-- The output index of the paths that keep the UTXO whole. -/
def singleOutput : SpendPath W → Option UInt32
  | inclusion o => some o
  | rootUpdate _ o => some o
  | rescueBlockUpdate _ o => some o
  | rescue o => some o
  | split _ => none
  | merge _ => none

/-- The outputs a split or a merge counts from index 0 on. -/
def leadingCount : SpendPath W → ℕ
  | split n => n.toNat
  | merge _ => 1
  | _ => 0

def isSplit : SpendPath W → Bool
  | split _ => true
  | _ => false

/-- Two witnesses name one output: equal indices, an index below the count of a split
or at the output of a merge, or a split beside a merge. -/
def Clashes (p q : SpendPath W) : Prop :=
  match p.singleOutput, q.singleOutput with
  | some i, some j => i = j
  | some i, none => i.toNat < q.leadingCount
  | none, some j => j.toNat < p.leadingCount
  | none, none => p.isSplit ≠ q.isSplit

theorem outputs_single {p : SpendPath W} {o : UInt32} (h : p.singleOutput = some o) :
    p.outputs = {o.toNat} ∧ ¬ p.IsMerge := by
  cases p <;> simp_all [singleOutput, outputs, IsMerge]

theorem outputs_leading {p : SpendPath W} (h : p.singleOutput = none) :
    p.outputs = Finset.range p.leadingCount ∧ (p.IsMerge ↔ p.isSplit = false) := by
  cases p <;> simp_all [singleOutput, outputs, leadingCount, IsMerge, isSplit]

theorem clashes_iff {p q : SpendPath W} (hp : p.singleOutput = none → 0 < p.leadingCount)
    (hq : q.singleOutput = none → 0 < q.leadingCount)
    (hsplit : ¬ (p.isSplit = true ∧ q.isSplit = true)) :
    p.Clashes q ↔ ¬ Disjoint p.outputs q.outputs ∧ ¬ (p.IsMerge ∧ q.IsMerge) := by
  unfold Clashes
  cases hi : p.singleOutput with
  | some i =>
    obtain ⟨hpo, hpm⟩ := outputs_single hi
    cases hj : q.singleOutput with
    | some j => simp [hpo, (outputs_single hj).1, hpm, UInt32.toNat_inj]
    | none => simp [hpo, (outputs_leading hj).1, hpm]
  | none =>
    obtain ⟨hpo, hpm⟩ := outputs_leading hi
    cases hj : q.singleOutput with
    | some j => simp [hpo, (outputs_single hj).1, (outputs_single hj).2]
    | none =>
      obtain ⟨hqo, hqm⟩ := outputs_leading hj
      have hmeet : ¬ Disjoint p.outputs q.outputs := by
        rw [hpo, hqo, Finset.not_disjoint_iff]
        exact ⟨0, Finset.mem_range.mpr (hp hi), Finset.mem_range.mpr (hq hj)⟩
      rw [hpm, hqm]
      cases hs : p.isSplit <;> cases ht : q.isSplit <;> simp_all

end SpendPath

section Transaction

variable {W Sig : Type} (J : Jets W Sig) (std : Std W) (param : Params W) (leaf : W) (tx : Tx W)
  (wit : Fin tx.inputs.length → Witness W Sig) (S : Finset (Fin tx.inputs.length)) (asset : W)

/-- The environment in which the covenant with leaf `leaf` guards input `i`. -/
def inputEnv (i : Fin tx.inputs.length) : Env W := ⟨tx, i, leaf⟩

def AllAccepted : Prop := ∀ i ∈ S, main J std param (inputEnv leaf tx i) (wit i) = some ()

def OneAsset : Prop := ∀ i ∈ S, (tx.inputs.get i).asset = .explicit asset

/-- A script some chosen path demands. -/
def ScriptDemanded (script : W) : Prop :=
  ∃ i ∈ S, demandedScript J std param (inputEnv leaf tx i) (wit i) = script

def Conserves : Prop :=
  ∑ i ∈ S, tx.inputAmount i ≤
    tx.outputTotal asset fun out => ScriptDemanded J std param leaf tx wit S out.scriptHash

/-- Only inputs merged together are settled by one and the same output. -/
def ExclusiveOutputs : Prop :=
  ∀ i ∈ S, ∀ j ∈ S, i ≠ j → ∀ o, o ∈ (wit i).path.outputs → o ∈ (wit j).path.outputs →
    (wit i).path.IsMerge ∧ (wit j).path.IsMerge

def NoClash : Prop :=
  ∀ i ∈ S, ∀ j ∈ S, i ≠ j → ¬ (wit i).path.Clashes (wit j).path

variable {J std param leaf tx wit S asset}

theorem settles_of_accepted (hacc : AllAccepted J std param leaf tx wit S)
    (hone : OneAsset tx S asset) {i : Fin tx.inputs.length} (hi : i ∈ S) :
    Settles tx i asset (demandedScript J std param (inputEnv leaf tx i) (wit i))
      (wit i).path := by
  obtain ⟨a, ha, hs⟩ := main_settles J std param (inputEnv leaf tx i) (wit i) (hacc i hi)
  have heq : a = asset := Confidential.explicit.inj (ha.symm.trans (hone i hi))
  exact heq ▸ hs

/-- Only input 0 can split. -/
theorem not_both_split (hacc : AllAccepted J std param leaf tx wit S)
    (hone : OneAsset tx S asset) {i j : Fin tx.inputs.length} (hi : i ∈ S) (hj : j ∈ S)
    (hij : i ≠ j) : ¬ ((wit i).path.isSplit = true ∧ (wit j).path.isSplit = true) := by
  rintro ⟨hsi, hsj⟩
  have hzero {k : Fin tx.inputs.length} (hk : k ∈ S) (hs : (wit k).path.isSplit = true) :
      (k : ℕ) = 0 := by
    cases hp : (wit k).path with
    | split n => exact ((settles_of_accepted hacc hone hk).split_bounds n hp).1
    | _ => simp [hp, SpendPath.isSplit] at hs
  exact hij (Fin.ext ((hzero hi hsi).trans (hzero hj hsj).symm))

theorem leadingCount_pos (hacc : AllAccepted J std param leaf tx wit S)
    (hone : OneAsset tx S asset) {i : Fin tx.inputs.length} (hi : i ∈ S)
    (h : (wit i).path.singleOutput = none) : 0 < (wit i).path.leadingCount := by
  cases hp : (wit i).path with
  | split n =>
    have := ((settles_of_accepted hacc hone hi).split_bounds n hp).2
    change 0 < n.toNat
    omega
  | merge n => exact Nat.one_pos
  | _ => simp [hp, SpendPath.singleOutput] at h

theorem noClash_iff_exclusive (hacc : AllAccepted J std param leaf tx wit S)
    (hone : OneAsset tx S asset) : NoClash tx wit S ↔ ExclusiveOutputs tx wit S := by
  have hpair {i j : Fin tx.inputs.length} (hi : i ∈ S) (hj : j ∈ S) (hij : i ≠ j) :=
    SpendPath.clashes_iff (leadingCount_pos hacc hone hi) (leadingCount_pos hacc hone hj)
      (not_both_split hacc hone hi hj hij)
  constructor
  · intro h i hi j hj hij o hoi hoj
    by_contra hm
    exact h i hi j hj hij
      ((hpair hi hj hij).mpr ⟨Finset.not_disjoint_iff.mpr ⟨o, hoi, hoj⟩, hm⟩)
  · intro h i hi j hj hij hc
    obtain ⟨hmeet, hm⟩ := (hpair hi hj hij).mp hc
    obtain ⟨o, hoi, hoj⟩ := Finset.not_disjoint_iff.mp hmeet
    exact hm (h i hi j hj hij o hoi hoj)

/-- The merge with the most inputs already covers every merged input. -/
theorem merged_sum_le (hacc : AllAccepted J std param leaf tx wit S) (hone : OneAsset tx S asset)
    (T : Finset (Fin tx.inputs.length)) (hTS : T ⊆ S) (hT : T.Nonempty)
    (hmerge : ∀ i ∈ T, (wit i).path.IsMerge) : ∑ i ∈ T, tx.inputAmount i ≤ tx.outputAmount 0 := by
  let count (i : Fin tx.inputs.length) : ℕ := (wit i).path.mergedCount
  have hspec (i : Fin tx.inputs.length) (hi : i ∈ T) : (i : ℕ) < count i ∧
      tx.outputAmount 0 = ∑ j ∈ Finset.range (count i), tx.inputAmount j := by
    have hm := hmerge i hi
    cases hp : (wit i).path with
    | merge n =>
      have := (settles_of_accepted hacc hone (hTS hi)).merged n hp
      simpa only [count, hp, SpendPath.mergedCount] using this
    | _ => simp [hp, SpendPath.IsMerge] at hm
  obtain ⟨m, hm, hmax⟩ := Finset.exists_max_image T count hT
  calc
    _ = ∑ j ∈ T.map Fin.valEmbedding, tx.inputAmount j := by rw [Finset.sum_map]; rfl
    _ ≤ ∑ j ∈ Finset.range (count m), tx.inputAmount j := by
      apply Finset.sum_le_sum_of_subset
      intro j hj
      obtain ⟨i, hi, rfl⟩ := Finset.mem_map.mp hj
      exact Finset.mem_range.mpr ((hspec i hi).1.trans_le (hmax i hi))
    _ = _ := (hspec m hm).2.symm

theorem conserves_of_exclusive (hacc : AllAccepted J std param leaf tx wit S)
    (hone : OneAsset tx S asset) (hexcl : ExclusiveOutputs tx wit S) :
    Conserves J std param leaf tx wit S asset := by
  classical
  let O := (tx.outputsWhere_finite asset fun out =>
    ScriptDemanded J std param leaf tx wit S out.scriptHash).toFinset
  let D (i : Fin tx.inputs.length) := (wit i).path.outputs
  have hsub (i : Fin tx.inputs.length) (hi : i ∈ S) : D i ⊆ O := by
    intro o ho
    obtain ⟨out, hout, ha, hs⟩ := (settles_of_accepted hacc hone hi).carries o ho
    exact (Set.Finite.mem_toFinset _).mpr ⟨out, hout, ha, i, hi, hs.symm⟩
  let whole := S.filter fun i => ¬ (wit i).path.IsMerge
  let merged := S.filter fun i => (wit i).path.IsMerge
  have hwhole : ∀ i ∈ whole, i ∈ S ∧ ¬ (wit i).path.IsMerge := fun i hi => Finset.mem_filter.mp hi
  have hmerged : ∀ i ∈ merged, i ∈ S ∧ (wit i).path.IsMerge := fun i hi => Finset.mem_filter.mp hi
  have hdisj : (whole : Set (Fin tx.inputs.length)).PairwiseDisjoint D := by
    intro i hi j hj hij
    refine Finset.disjoint_left.mpr fun o hoi hoj => (hwhole i hi).2 ?_
    exact (hexcl i (hwhole i hi).1 j (hwhole j hj).1 hij o hoi hoj).1
  have hle : ∀ i ∈ whole, tx.inputAmount i ≤ ∑ o ∈ D i, tx.outputAmount o := fun i hi =>
    ((settles_of_accepted hacc hone (hwhole i hi).1).conserves (hwhole i hi).2).le
  have hsplit : ∑ i ∈ S, tx.inputAmount i =
      ∑ i ∈ whole, tx.inputAmount i + ∑ i ∈ merged, tx.inputAmount i := by
    rw [Nat.add_comm]
    exact (Finset.sum_filter_add_sum_filter_not S (fun i => (wit i).path.IsMerge) _).symm
  change _ ≤ ∑ o ∈ O, tx.outputAmount o
  rw [hsplit]
  by_cases hne : merged.Nonempty
  · obtain ⟨m, hm⟩ := hne
    have hzero : 0 ∈ D m := by
      have := (hmerged m hm).2
      cases hp : (wit m).path <;> simp_all [SpendPath.IsMerge, SpendPath.outputs, D]
    apply OutputCover.sum_le_of_shared whole merged O D _ _ 0 (hsub m (hmerged m hm).1 hzero)
      (fun i hi => hsub i (hwhole i hi).1) hdisj _ hle
    · exact merged_sum_le hacc hone merged (Finset.filter_subset _ _) ⟨m, hm⟩
        fun i hi => (hmerged i hi).2
    · intro i hi h0
      have hne : i ≠ m := by
        rintro rfl
        exact (hwhole i hi).2 (hmerged i hm).2
      exact (hwhole i hi).2 (hexcl i (hwhole i hi).1 m (hmerged m hm).1 hne 0 h0 hzero).1
  · rw [Finset.not_nonempty_iff_eq_empty.mp hne, Finset.sum_empty, Nat.add_zero]
    exact OutputCover.sum_le_of_disjoint whole O D _ _ (fun i hi => hsub i (hwhole i hi).1)
      hdisj hle

/-- Conservation holds, with no output counted for two inputs, exactly when no two
witnesses name one output. -/
theorem conserves_exclusively_iff_noClash (hacc : AllAccepted J std param leaf tx wit S)
    (hone : OneAsset tx S asset) :
    (Conserves J std param leaf tx wit S asset ∧ ExclusiveOutputs tx wit S) ↔
      NoClash tx wit S := by
  rw [noClash_iff_exclusive hacc hone]
  exact ⟨And.right, fun h => ⟨conserves_of_exclusive hacc hone h, h⟩⟩

end Transaction

section Rescue

/-- A covenant whose rescue script is `9`, over the documented library. -/
def rescueParams : Params ℕ := ⟨6, 4, 9⟩

def rescueStd : Std ℕ := Std.documented UInt32.toNat

def rescueScript : ℕ := getScriptHashForStorage idealJets rescueStd 5 1 100

def rescueInput : TxIn ℕ := ⟨.explicit 3, .explicit 10, rescueScript, 0xfffffffe⟩

def rescueOutput (script : ℕ) : TxOut ℕ := ⟨.explicit 3, .explicit 10, script, none⟩

/-- Two Storm Eyes of one amount after the rescue height, the second output free. -/
def rescueTx (script : ℕ) : Tx ℕ :=
  ⟨2, 100, [rescueInput, rescueInput], [rescueOutput 9, rescueOutput script], by decide⟩

def rescueWitness (o : UInt32) : Witness ℕ Unit := .inr ((1, 100), o)

theorem rescue_accepted (script : ℕ) (i : Fin (rescueTx script).inputs.length) (o : UInt32)
    (ho : (rescueTx script).outputs[o.toNat]? = some (rescueOutput 9)) :
    main idealJets rescueStd rescueParams (inputEnv 5 (rescueTx script) i) (rescueWitness o) =
      some () := by
  have hcur : (inputEnv 5 (rescueTx script) i).current = rescueInput := by
    match i with
    | ⟨0, _⟩ => rfl
    | ⟨1, _⟩ => rfl
  have hlock : (inputEnv 5 (rescueTx script) i).tx.lockHeight = 100 := rfl
  have hpreserved : assertOutputPreservesUtxo rescueStd (inputEnv 5 (rescueTx script) i) o =
      some () :=
    (assertOutputPreservesUtxo_iff _ _ _).mpr
      ⟨rescueOutput 9, 3, 10, ho, by rw [hcur]; rfl, by rw [hcur]; rfl, rfl, rfl⟩
  have hscript : rescueStd.getOutputScriptHash (inputEnv 5 (rescueTx script) i) o = some 9 := by
    rw [rescueStd.getOutputScriptHash_eq]
    exact congrArg (Option.map TxOut.scriptHash) ho
  simp only [main, rescueWitness, rescueAfterBlockNumber, assertStorageWithCurrent,
    Env.checkLockHeight, hlock, hscript, hpreserved, Option.bind_eq_bind, Option.bind_some,
    Option.bind_eq_some_iff, rescueStd.assertEq256_iff, Option.guard_eq_some']
  exact ⟨(), by rw [Env.currentScriptHash, hcur]; rfl, (), by decide, (), rfl, trivial⟩

/-- Two rescues of equal size settled by one output: half of the asset leaves. -/
theorem two_rescues_share_an_output :
    AllAccepted idealJets rescueStd rescueParams 5 (rescueTx 8) (fun _ => rescueWitness 0)
        Finset.univ ∧
      OneAsset (rescueTx 8) Finset.univ 3 ∧
      ¬ Conserves idealJets rescueStd rescueParams 5 (rescueTx 8) (fun _ => rescueWitness 0)
        Finset.univ 3 := by
  refine ⟨fun i _ => rescue_accepted 8 i 0 rfl, ?_, ?_⟩
  · intro i _
    match i with
    | ⟨0, _⟩ => rfl
    | ⟨1, _⟩ => rfl
  · intro h
    have hsub : ((rescueTx 8).outputsWhere_finite 3 fun out => ScriptDemanded idealJets rescueStd
        rescueParams 5 (rescueTx 8) (fun _ => rescueWitness 0) Finset.univ
        out.scriptHash).toFinset ⊆ {0} := by
      intro o ho
      obtain ⟨out, hout, -, i, -, hs⟩ := (Set.Finite.mem_toFinset _).mp ho
      have hnine : out.scriptHash = 9 := hs.symm
      match o with
      | 0 => exact Finset.mem_singleton_self 0
      | 1 =>
        simp only [rescueTx, List.getElem?_cons_succ, List.getElem?_cons_zero,
          Option.some.injEq] at hout
        subst hout
        cases hnine
      | o + 2 => simp [rescueTx] at hout
    have hle := h.trans (Finset.sum_le_sum_of_subset hsub)
    exact absurd hle (by decide)

theorem conserves_two_rescues :
    (Conserves idealJets rescueStd rescueParams 5 (rescueTx 9)
        (fun i => rescueWitness (UInt32.ofNat i)) Finset.univ 3 ∧
      ExclusiveOutputs (rescueTx 9) (fun i => rescueWitness (UInt32.ofNat i)) Finset.univ) ↔
      NoClash (rescueTx 9) (fun i => rescueWitness (UInt32.ofNat i)) Finset.univ := by
  apply conserves_exclusively_iff_noClash
  · intro i _
    match i with
    | ⟨0, _⟩ => exact rescue_accepted 9 _ 0 rfl
    | ⟨1, _⟩ => exact rescue_accepted 9 _ 1 rfl
  · intro i _
    match i with
    | ⟨0, _⟩ => rfl
    | ⟨1, _⟩ => rfl

end Rescue

end PriceOracle.AuthCovenant
