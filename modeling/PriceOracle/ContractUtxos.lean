import Mathlib.Data.List.Sort
import Mathlib.Data.Prod.Lex
import PriceOracle.Psets

/-!
# Live UTXOs of a covenant

The RPC helpers of `user_requests.rs`: an output as the Elements node shows it, and the UTXO of a
script that a lane may spend. The node's answers are a parameter.
-/

namespace PriceOracle

/-- A line of `scantxoutset`. Text that does not parse is `none`. -/
structure ScannedUtxo (W : Type) where
  txid : Option W
  vout : ℕ
  asset : Option W
  deriving DecidableEq

/-- What the Elements node answers. -/
structure ElementsNode (W : Type) where
  /-- `gettxout` of an explicit output, with or without the mempool: its asset, amount and script. -/
  txout : Bool → W × ℕ → Except String (Option (W × ℕ × List UInt8))
  /-- `scantxoutset` for a script. -/
  scan : List UInt8 → Except String (List (ScannedUtxo W))

inductive StormEyePool where
  | userRequests (lane : ℕ)
  | networkLeader (lane : ℕ)
  | anyNetworkLeader
  deriving DecidableEq

def stormEyePoolIndex (candidateCount : ℕ) : StormEyePool → Option ℕ
  | .userRequests lane => if lane < candidateCount / 2 then some lane else none
  | .networkLeader lane =>
    if lane < candidateCount - candidateCount / 2 then some (candidateCount / 2 + lane) else none
  | .anyNetworkLeader => none

namespace ElementsNode

variable {W : Type} (node : ElementsNode W)

/-- `get_optional_explicit_outpoint_with_mempool` -/
def optionalOutpoint (includeMempool : Bool) (outpoint : W × ℕ) : Except String (Option (Utxo W)) := do
  let answer ← node.txout includeMempool outpoint
  return answer.map fun (asset, amount, script) => ⟨outpoint, asset, amount, script⟩

/-- `get_explicit_outpoint` -/
def explicitOutpoint (outpoint : W × ℕ) : Except String (Utxo W) := do
  match ← node.optionalOutpoint true outpoint with
  | some utxo => return utxo
  | none => throw "required UTXO is unavailable"

/-- A scan lists outputs of the script it was asked for. -/
def ScansScript : Prop :=
  ∀ (script : List UInt8) (unspents : List (ScannedUtxo W)), node.scan script = .ok unspents →
    ∀ unspent ∈ unspents, ∀ (txid asset : W) (amount : ℕ) (held : List UInt8), unspent.txid = some txid →
      node.txout false (txid, unspent.vout) = .ok (some (asset, amount, held)) → held = script

section Scan

variable [LinearOrder W]

def matchesScannedAsset (actual expected : Option W) : Bool := expected.all fun expected => actual = some expected

def matchesExpectedAsset (actual : W) (expected : Option W) : Bool := matchesScannedAsset (some actual) expected

/-- The confirmed outputs of the asset among the scanned ones, each flagged if spent in the mempool. -/
def scanCandidates (expectedAsset : Option W) : List (ScannedUtxo W) → Except String (List (Utxo W × Bool))
  | [] => .ok []
  | unspent :: unspents =>
    if matchesScannedAsset unspent.asset expectedAsset then
      match unspent.txid with
      | none => .error "invalid scanned UTXO txid"
      | some txid => do
        match ← node.optionalOutpoint false (txid, unspent.vout) with
        | none => scanCandidates expectedAsset unspents
        | some utxo =>
          if matchesExpectedAsset utxo.asset expectedAsset then do
            let live ← node.optionalOutpoint true (txid, unspent.vout)
            let candidates ← scanCandidates expectedAsset unspents
            return (utxo, live.isNone) :: candidates
          else scanCandidates expectedAsset unspents
    else scanCandidates expectedAsset unspents

/-- Confirmed contract UTXOs in outpoint order. -/
def scanContractUtxos (script : List UInt8) (expectedAsset : Option W) : Except String (List (Utxo W × Bool)) := do
  let unspents ← node.scan script
  let candidates ← node.scanCandidates expectedAsset unspents
  return candidates.insertionSort fun a b => toLex a.1.outpoint ≤ toLex b.1.outpoint

/-- Lanes index the block's confirmed Storm Eyes, so one lane's broadcast never shifts another's. -/
def findContractUtxo (script : List UInt8) (expectedAsset : Option W) (pool : StormEyePool) :
    Except String (Utxo W) := do
  let candidates ← node.scanContractUtxos script expectedAsset
  if pool = .anyNetworkLeader then
    match (candidates.drop (candidates.length / 2)).reverse.find? fun candidate => !candidate.2 with
    | some (utxo, _) => return utxo
    | none => throw "required Storm Eye pool is unavailable"
  else
    match (stormEyePoolIndex candidates.length pool).bind fun index => candidates[index]? with
    | none => throw "required Storm Eye pool is unavailable"
    | some (utxo, spentInMempool) =>
      if spentInMempool then throw "Storm Eye lane was already used in this block"
      else return utxo

variable {node}

theorem scanCandidates_ok {expectedAsset : Option W} {script : List UInt8} {unspents : List (ScannedUtxo W)}
    (hscript : ∀ unspent ∈ unspents, ∀ (txid asset : W) (amount : ℕ) (held : List UInt8), unspent.txid = some txid →
      node.txout false (txid, unspent.vout) = .ok (some (asset, amount, held)) → held = script) :
    ∀ candidates : List (Utxo W × Bool), node.scanCandidates expectedAsset unspents = .ok candidates →
      ∀ candidate ∈ candidates, matchesExpectedAsset candidate.1.asset expectedAsset ∧
        candidate.1.scriptPubkey = script := by
  induction unspents with
  | nil =>
    rintro candidates ⟨⟩ candidate hcandidate
    exact absurd hcandidate List.not_mem_nil
  | cons unspent unspents ih =>
    have hrest := ih fun u hu => hscript u (List.mem_cons_of_mem _ hu)
    intro candidates h
    rw [scanCandidates] at h
    by_cases hmatch : matchesScannedAsset unspent.asset expectedAsset = true
    · rw [if_pos hmatch] at h
      cases htxid : unspent.txid with
      | none =>
        rw [htxid] at h
        cases h
      | some txid =>
        rw [htxid] at h
        obtain ⟨answer, hanswer, h⟩ := Db.except_bind_ok.mp h
        cases answer with
        | none => exact hrest _ h
        | some utxo =>
          dsimp only at h
          by_cases hasset : matchesExpectedAsset utxo.asset expectedAsset = true
          · rw [if_pos hasset] at h
            obtain ⟨live, -, h⟩ := Db.except_bind_ok.mp h
            obtain ⟨rest, hcandidates, h⟩ := Db.except_bind_ok.mp h
            cases h
            intro candidate hcandidate
            rcases List.mem_cons.mp hcandidate with rfl | hcandidate
            · refine ⟨hasset, ?_⟩
              obtain ⟨shown, hshown, hutxo⟩ := Db.except_bind_ok.mp hanswer
              cases shown with
              | none => cases hutxo
              | some shown =>
                cases hutxo
                exact hscript unspent List.mem_cons_self txid _ _ _ htxid hshown
            · exact hrest _ hcandidates candidate hcandidate
          · rw [if_neg hasset] at h
            exact hrest _ h
    · rw [if_neg hmatch] at h
      exact hrest _ h

/-- A lane spends an output of its script and asset. -/
theorem findContractUtxo_ok (hscan : node.ScansScript) {script : List UInt8} {expectedAsset : Option W}
    {pool : StormEyePool} {utxo : Utxo W} (h : node.findContractUtxo script expectedAsset pool = .ok utxo) :
    matchesExpectedAsset utxo.asset expectedAsset ∧ utxo.scriptPubkey = script := by
  unfold findContractUtxo at h
  obtain ⟨sorted, hsorted, h⟩ := Db.except_bind_ok.mp h
  unfold scanContractUtxos at hsorted
  obtain ⟨unspents, hunspents, hsorted⟩ := Db.except_bind_ok.mp hsorted
  obtain ⟨candidates, hcandidates, hsorted⟩ := Db.except_bind_ok.mp hsorted
  cases hsorted
  have hall : ∀ candidate ∈ candidates.insertionSort fun a b => toLex a.1.outpoint ≤ toLex b.1.outpoint,
      matchesExpectedAsset candidate.1.asset expectedAsset ∧ candidate.1.scriptPubkey = script := by
    intro candidate hcandidate
    exact scanCandidates_ok (hscan script unspents hunspents) _ hcandidates candidate
      ((List.perm_insertionSort _ _).mem_iff.mp hcandidate)
  generalize candidates.insertionSort (fun a b => toLex a.1.outpoint ≤ toLex b.1.outpoint) = sorted at *
  by_cases hpool : pool = .anyNetworkLeader
  · rw [if_pos hpool] at h
    cases hfind : (sorted.drop (sorted.length / 2)).reverse.find? fun candidate => !candidate.2 with
    | none =>
      rw [hfind] at h
      cases h
    | some candidate =>
      rw [hfind] at h
      cases h
      exact hall candidate (List.mem_of_mem_drop (List.mem_reverse.mp (List.mem_of_find?_eq_some hfind)))
  · rw [if_neg hpool] at h
    cases hfind : (stormEyePoolIndex sorted.length pool).bind fun index => sorted[index]? with
    | none =>
      rw [hfind] at h
      cases h
    | some candidate =>
      rw [hfind] at h
      dsimp only at h
      split_ifs at h
      cases h
      obtain ⟨index, -, hindex⟩ := Option.bind_eq_some_iff.mp hfind
      exact hall candidate (List.mem_of_getElem? hindex)

end Scan

end ElementsNode

end PriceOracle
