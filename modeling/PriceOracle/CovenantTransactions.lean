import PriceOracle.Psets
import PriceOracle.SimplicityEnv

/-!
# Transactions as covenants see them

The environment a covenant runs in, made of a PSET: each script is reported by its hash, the inputs carry the outputs
they spend, and a null-data script is read entry by entry.
-/

namespace PriceOracle

section NullData

/-- The data of a push of `count` bytes, and what follows it. -/
def takePush (kind : Fin 4) (count : ℕ) (bytes : List UInt8) : Option (NullDatum × List UInt8) :=
  if count ≤ bytes.length then some (.push kind (bytes.take count), bytes.drop count) else none

/-- One entry of a null-data script: a push in one of its four forms, or an opcode that pushes a constant. -/
def nullDatum : List UInt8 → Option (NullDatum × List UInt8)
  | [] => none
  | code :: bytes =>
    if code.toNat < 0x4c then takePush 0 code.toNat bytes
    else if code = 0x4c then
      match bytes with
      | a :: bytes => takePush 1 a.toNat bytes
      | _ => none
    else if code = 0x4d then
      match bytes with
      | a :: b :: bytes => takePush 2 (a.toNat + 256 * b.toNat) bytes
      | _ => none
    else if code = 0x4e then
      match bytes with
      | a :: b :: c :: d :: bytes =>
        takePush 3 (a.toNat + 256 * b.toNat + 256 ^ 2 * c.toNat + 256 ^ 3 * d.toNat) bytes
      | _ => none
    else if code = 0x4f then some (.opcode (.inl false), bytes)
    else if code = 0x50 then some (.opcode (.inl true), bytes)
    else if code.toNat ≤ 0x60 then some (.opcode (.inr (Fin.ofNat 16 (code.toNat - 0x51))), bytes)
    else none

/-- Each entry takes a byte at least, so that a script has no more entries than bytes. -/
def nullDataEntries : ℕ → List UInt8 → Option (List NullDatum)
  | _, [] => some []
  | 0, _ :: _ => none
  | fuel + 1, byte :: bytes => do
    let (entry, rest) ← nullDatum (byte :: bytes)
    let entries ← nullDataEntries fuel rest
    return entry :: entries

/-- The entries behind `OP_RETURN`. -/
def nullData : List UInt8 → Option (List NullDatum)
  | [] => none
  | code :: bytes => if code = 0x6a then nullDataEntries bytes.length bytes else none

example : nullData [0x6a, 0x02, 7, 8, 0x51] = some [.push 0 [7, 8], .opcode (.inr 0)] := by decide

end NullData

/-- The fields of a transaction beside its inputs and outputs. All inputs have the default sequence. -/
structure TxHeader where
  version : UInt32
  lockTime : UInt32
  sequence : UInt32

variable {W Sig : Type} (J : Jets W Sig) (header : TxHeader)

def ChainField.toConfidential {α β : Type} (f : α → β) : ChainField α → Confidential β
  | .explicit value => .explicit (f value)
  | _ => .commitment

def ChainTxOut.txOut (output : ChainTxOut W) : TxOut W where
  asset := output.asset.toConfidential id
  amount := output.value.toConfidential UInt64.ofNat
  scriptHash := J.sha256 output.scriptPubkey
  nullData := nullData output.scriptPubkey

def ChainTxOut.txIn (output : ChainTxOut W) : TxIn W where
  asset := output.asset.toConfidential id
  amount := output.value.toConfidential UInt64.ofNat
  scriptHash := J.sha256 output.scriptPubkey
  sequence := header.sequence

/-- The environment of the program that guards an input. -/
def Pset.env (pset : Pset W) (tapleafHash : W) (index : ℕ) : Option (Env W) :=
  match pset.inputs.mapM fun input => input.witnessUtxo.map (ChainTxOut.txIn J header) with
  | none => none
  | some inputs =>
    if hinputs : inputs.length < 2 ^ 32 then
      if hindex : index < inputs.length then
        some ⟨⟨header.version, header.lockTime, inputs, pset.outputs.map fun output => output.toTxout.txOut J, hinputs⟩,
          ⟨index, hindex⟩, tapleafHash⟩
      else none
    else none

section Environments

variable {J header} {pset : Pset W} {tapleafHash : W} {index : ℕ} {env : Env W}

theorem mapM_getElem? {A B : Type} {f : A → Option B} {as : List A} : ∀ {bs : List B}, as.mapM f = some bs →
    ∀ i : ℕ, bs[i]? = as[i]?.bind f := by
  induction as with
  | nil =>
    rintro bs ⟨⟩ i
    rfl
  | cons a as ih =>
    intro bs h i
    rw [List.mapM_cons] at h
    obtain ⟨b, hb, h⟩ := Option.bind_eq_some_iff.mp h
    obtain ⟨rest, hrest, h⟩ := Option.bind_eq_some_iff.mp h
    cases h
    cases i with
    | zero => exact hb.symm
    | succ i => exact ih hrest i

/-- Built inputs carry the outputs they spend. -/
theorem mapM_txIn_new (utxos : List (Utxo W)) :
    (utxos.map PsetInput.new).mapM (fun input => input.witnessUtxo.map (ChainTxOut.txIn J header)) =
      some (utxos.map fun utxo => utxo.txout.txIn J header) := by
  induction utxos with
  | nil => rfl
  | cons utxo utxos ih =>
    rw [List.map_cons, List.mapM_cons, ih]
    rfl

theorem Pset.env_spec (h : pset.env J header tapleafHash index = some env) :
    env.tapleafHash = tapleafHash ∧ env.index.val = index ∧
      env.tx.outputs = pset.outputs.map (fun output => output.toTxout.txOut J) ∧
      pset.inputs.mapM (fun input => input.witnessUtxo.map (ChainTxOut.txIn J header)) = some env.tx.inputs := by
  unfold Pset.env at h
  split at h
  · cases h
  · split_ifs at h with hinputs hindex
    obtain rfl := Option.some.inj h
    exact ⟨rfl, rfl, rfl, by assumption⟩

/-- What a covenant sees of a built transaction. -/
theorem Pset.env_new {utxos : List (Utxo W)} (hinputs : pset.inputs = utxos.map .new)
    (h : pset.env J header tapleafHash index = some env) :
    env.tx.inputs = utxos.map fun utxo => utxo.txout.txIn J header := by
  obtain ⟨-, -, -, hspent⟩ := Pset.env_spec h
  rw [hinputs, mapM_txIn_new] at hspent
  exact (Option.some.inj hspent).symm

/-- If one input of a built transaction has an environment, every input has. -/
theorem Pset.env_exists {utxos : List (Utxo W)} (hinputs : pset.inputs = utxos.map .new)
    (h : pset.env J header tapleafHash index = some env) {other : ℕ} (leaf : W) (hother : other < utxos.length) :
    ∃ env, pset.env J header leaf other = some env := by
  have hcount := env.tx.inputs_lt
  rw [Pset.env_new hinputs h, List.length_map] at hcount
  unfold Pset.env
  rw [hinputs, mapM_txIn_new]
  dsimp only
  rw [dif_pos (by rwa [List.length_map]), dif_pos (by rwa [List.length_map])]
  exact ⟨_, rfl⟩

end Environments

end PriceOracle
