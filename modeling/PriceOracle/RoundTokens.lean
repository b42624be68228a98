import PriceOracle.IssuanceChecks

/-!
# The tokens of a round

`find_token_utxo` of `user_requests.rs`: the token of an asset is looked for in the UTXO set of the
node, and from there along the transactions of the mempool that spend it one after the other. What
the node answers and what blinds an output are parameters.
-/

namespace PriceOracle

/-- What a blinded output hides, with its blinding factors. -/
structure TxOutSecrets where
  asset : Bytes32
  assetBf : Bytes32
  value : ℕ
  valueBf : Bytes32
  deriving DecidableEq

/-- A UTXO with its secrets, as the SDK spends it. -/
structure SecretUtxo where
  outpoint : Bytes32 × ℕ
  txout : ChainTxOut Bytes32
  secrets : Option TxOutSecrets
  deriving DecidableEq

/-- What the leader of a round uses besides: the blinding of the Elements library, and the SDK's reissuance. -/
structure RoundLibraries extends IssuanceLibraries where
  /-- `unblind` with the Treasury's blinding secret, with all it finds. -/
  unblindSecrets : ChainTxOut Bytes32 → Option TxOutSecrets
  /-- The blinding factors of an asset and a value that are drawn for a token output. -/
  randomFactors : ℕ → Bytes32 × Bytes32
  treasuryBlindingKey : List UInt8
  /-- `with_txout_secrets`: a script, the secrets, and those of the inputs. -/
  withTxoutSecrets : List UInt8 → TxOutSecrets → List TxOutSecrets → Option (ChainTxOut Bytes32)
  /-- `new_last_confidential`: a value, an asset, a script, the secrets of the inputs and of the other outputs. -/
  newLastConfidential : ℕ → Bytes32 → List UInt8 → List TxOutSecrets → List TxOutSecrets → Option (ChainTxOut Bytes32)
  /-- `blind_asset_proof` of an asset and its blinding factor. -/
  blindAssetProof : Bytes32 → Bytes32 → Option (List UInt8)
  /-- `blind_value_proof` of a value, its commitment, that of its asset, and its blinding factor. -/
  blindValueProof : ℕ → List UInt8 → List UInt8 → Bytes32 → Option (List UInt8)
  /-- The input that reissues so much with a token and its entropy. -/
  reissuanceInput : SecretUtxo → ℕ → Bytes32 → IssuanceInput

/-- What the Elements node answers about tokens. -/
structure TokenNode where
  /-- `scantxoutset` of a script: ids, output indexes and heights. -/
  scanTxoutset : List UInt8 → Except RpcFailure (List (Bytes32 × ℕ × Option ℕ))
  /-- `getrawtransaction`, in the block at a height. -/
  getRawTransaction : Bytes32 → Option ℕ → Except RpcFailure Transaction
  getTxSpendingPrevout : Bytes32 × ℕ → Except RpcFailure (Option Bytes32)
  getRawMempool : Except RpcFailure (List Bytes32)

/-- A token a round spends and the amount it reissues. -/
structure RoundToken where
  asset : NetworkAsset Bytes32
  utxo : SecretUtxo
  secrets : TxOutSecrets
  issuanceAmount : ℕ

namespace IssuanceRound

open Issuance (okOr okOr_eq_ok_iff)

/-- `MAX_MEMPOOL_TOKEN_CHAIN_LENGTH` -/
def maxMempoolTokenChainLength : ℕ := 100

def rpcError : RpcFailure → IssuanceError := .rpc

section Search

variable (libraries : RoundLibraries) (node : TokenNode)

def Spends (transaction : Transaction) (outpoint : Bytes32 × ℕ) : Prop :=
  ∃ input ∈ transaction.input, input.previousOutput = outpoint

instance decidableSpends (transaction : Transaction) (outpoint : Bytes32 × ℕ) :
    Decidable (Spends transaction outpoint) :=
  inferInstanceAs (Decidable (∃ input ∈ transaction.input, input.previousOutput = outpoint))

/-- Transactions that have left the mempool since are passed over. -/
def mempoolSpender (outpoint : Bytes32 × ℕ) : List Bytes32 → Except IssuanceError (Option Bytes32)
  | [] => .ok none
  | txid :: mempool =>
    match node.getRawTransaction txid none with
    | .ok transaction =>
      if Spends transaction outpoint then .ok (some txid) else mempoolSpender outpoint mempool
    | .error (.rpc code) => if code = -5 then mempoolSpender outpoint mempool else .error (.rpc (.rpc code))
    | .error failure => .error (.rpc failure)

/-- A node without `gettxspendingprevout` is asked for its whole mempool. -/
def findMempoolSpender (outpoint : Bytes32 × ℕ) : Except IssuanceError (Option Bytes32) :=
  match node.getTxSpendingPrevout outpoint with
  | .ok spender => .ok spender
  | .error failure =>
    if failure = .rpc (-32601) then do
      let mempool ← node.getRawMempool.mapError rpcError
      mempoolSpender node outpoint mempool
    else .error (.rpc failure)

/-- The output as a token, if it holds what is expected of it. -/
def tokenCandidate (outpoint : Bytes32 × ℕ) (candidate : ChainTxOut Bytes32) (expected : TxOutSecrets)
    (expectedScript : List UInt8) : Option SecretUtxo :=
  match libraries.unblindSecrets candidate with
  | none => none
  | some secrets =>
    if secrets.asset ≠ expected.asset ∨ secrets.value ≠ expected.value ∨ candidate.scriptPubkey ≠ expectedScript ∨
        candidate.asset.isConfidential = false ∨ candidate.value.isConfidential = false then none
    else some ⟨outpoint, candidate, some secrets⟩

/-- The first output of a transaction that is the token. -/
def tokenOutput (txid : Bytes32) (expected : TxOutSecrets) (expectedScript : List UInt8)
    (outputs : List (ChainTxOut Bytes32)) : Option SecretUtxo :=
  outputs.zipIdx.findSome? fun item =>
    if item.2 < 2 ^ 32 then tokenCandidate libraries (txid, item.2) item.1 expected expectedScript else none

/-- One transaction of the mempool on. -/
def followToken (expected : TxOutSecrets) (expectedScript : List UInt8) (token : SecretUtxo) (spendingTxid : Bytes32) :
    Except IssuanceError SecretUtxo := do
  let transaction ← (node.getRawTransaction spendingTxid none).mapError rpcError
  require (Spends transaction token.outpoint)
    (.invalid "reported token transaction does not spend the current token")
  okOr (.invalid "token spender does not preserve the confidential token")
    (tokenOutput libraries spendingTxid expected expectedScript transaction.output)

/-- The token at the end of the mempool, within so many transactions. -/
def followMempoolTokenChain (expected : TxOutSecrets) (expectedScript : List UInt8) :
    ℕ → SecretUtxo → Except IssuanceError SecretUtxo
  | 0, _ => .error (.invalid s!"unconfirmed token chain exceeds {maxMempoolTokenChainLength} transactions")
  | remaining + 1, token => do
    match ← findMempoolSpender node token.outpoint with
    | none => return token
    | some spendingTxid =>
      let token ← followToken libraries node expected expectedScript token spendingTxid
      followMempoolTokenChain expected expectedScript remaining token

/-- The first of the scanned outputs that is the token. -/
def firstToken (expected : TxOutSecrets) (expectedScript : List UInt8) :
    List (Bytes32 × ℕ × Option ℕ) → Except IssuanceError (Option SecretUtxo)
  | [] => .ok none
  | (txid, vout, height) :: unspents => do
    let transaction ← (node.getRawTransaction txid height).mapError rpcError
    match transaction.output[vout]?.bind fun candidate =>
        tokenCandidate libraries (txid, vout) candidate expected expectedScript with
    | some token => return some token
    | none => firstToken expected expectedScript unspents

/-- The secrets of the output that first held the token of an asset. -/
def templateSecrets (asset : NetworkAsset Bytes32) : Except IssuanceError TxOutSecrets := do
  let name := asset.name
  let tokenId ← okOr (.invalid s!"{name} token id is missing") asset.reissuanceTokenId
  let template ← tokenTxout libraries.toIssuanceLibraries asset
  let secrets ← okOr (.invalid s!"failed to unblind {name} token") (libraries.unblindSecrets template)
  require (secrets.asset = tokenId ∧ template.scriptPubkey = asset.contractScript ∧
      template.asset.isConfidential = true ∧ template.value.isConfidential = true)
    (.invalid s!"invalid confidential {name} token template")
  return secrets

def findTokenUtxo (asset : NetworkAsset Bytes32) : Except IssuanceError SecretUtxo := do
  let name := asset.name
  let secrets ← templateSecrets libraries asset
  let unspents ← (node.scanTxoutset asset.contractScript).mapError rpcError
  let found ← firstToken libraries node secrets asset.contractScript unspents
  let token ← okOr (.invalid s!"confidential {name} token UTXO is unavailable") found
  followMempoolTokenChain libraries node secrets asset.contractScript maxMempoolTokenChainLength token

/-- `RoundToken::find` -/
def RoundToken.find (asset : NetworkAsset Bytes32) (issuanceAmount : ℕ) : Except IssuanceError RoundToken := do
  let name := asset.name
  let utxo ← findTokenUtxo libraries node asset
  let secrets ← okOr (.invalid s!"{name} token secrets are missing") utxo.secrets
  return ⟨asset, utxo, secrets, issuanceAmount⟩

end Search

section Chains

variable {libraries : RoundLibraries} {node : TokenNode} {expected : TxOutSecrets} {expectedScript : List UInt8}

/-- The UTXO holds the token that is expected. -/
structure HoldsToken (libraries : RoundLibraries) (expected : TxOutSecrets) (expectedScript : List UInt8)
    (token : SecretUtxo) : Prop where
  unblinds : ∃ secrets, libraries.unblindSecrets token.txout = some secrets ∧ token.secrets = some secrets ∧
    secrets.asset = expected.asset ∧ secrets.value = expected.value
  script : token.txout.scriptPubkey = expectedScript
  confidential : token.txout.asset.isConfidential = true ∧ token.txout.value.isConfidential = true

/-- One token is spent by a transaction of the mempool, whose first token output is the other. -/
def SpentInto (libraries : RoundLibraries) (node : TokenNode) (expected : TxOutSecrets) (expectedScript : List UInt8)
    (token next : SecretUtxo) : Prop :=
  ∃ spendingTxid transaction, findMempoolSpender node token.outpoint = .ok (some spendingTxid) ∧
    node.getRawTransaction spendingTxid none = .ok transaction ∧ Spends transaction token.outpoint ∧
    tokenOutput libraries spendingTxid expected expectedScript transaction.output = some next

/-- So many transactions of the mempool lead from one token to the other. -/
inductive TokenChain (libraries : RoundLibraries) (node : TokenNode) (expected : TxOutSecrets) (expectedScript : List UInt8) :
    ℕ → SecretUtxo → SecretUtxo → Prop where
  | here (token : SecretUtxo) : TokenChain libraries node expected expectedScript 0 token token
  | spent {length : ℕ} {token next last : SecretUtxo} (hspent : SpentInto libraries node expected expectedScript token next)
      (hchain : TokenChain libraries node expected expectedScript length next last) :
      TokenChain libraries node expected expectedScript (length + 1) token last

theorem tokenCandidate_eq_some {outpoint : Bytes32 × ℕ} {candidate : ChainTxOut Bytes32} {token : SecretUtxo} :
    tokenCandidate libraries outpoint candidate expected expectedScript = some token ↔
      token.outpoint = outpoint ∧ token.txout = candidate ∧ HoldsToken libraries expected expectedScript token := by
  unfold tokenCandidate
  cases hsecrets : libraries.unblindSecrets candidate with
  | none =>
    simp only [reduceCtorEq, false_iff]
    rintro ⟨-, rfl, hholds⟩
    obtain ⟨secrets, hunblinds, -⟩ := hholds.unblinds
    rw [hsecrets] at hunblinds
    cases hunblinds
  | some secrets =>
    dsimp only
    split_ifs with hother
    · simp only [false_iff]
      rintro ⟨-, rfl, hholds⟩
      obtain ⟨secrets', hunblinds, -, hasset, hvalue⟩ := hholds.unblinds
      obtain rfl : secrets = secrets' := Option.some.inj (hsecrets.symm.trans hunblinds)
      simp [hasset, hvalue, hholds.script, hholds.confidential.1, hholds.confidential.2] at hother
    · simp only [not_or, not_not, Bool.not_eq_false] at hother
      obtain ⟨hasset, hvalue, hscript, hconfidential⟩ := hother
      constructor
      · rintro ⟨⟩
        exact ⟨rfl, rfl, ⟨secrets, hsecrets, rfl, hasset, hvalue⟩, hscript, hconfidential⟩
      · rintro ⟨houtpoint, htxout, hholds⟩
        obtain ⟨secrets', hunblinds, hsome, -⟩ := hholds.unblinds
        rw [htxout, hsecrets] at hunblinds
        obtain rfl := Option.some.inj hunblinds
        rw [← houtpoint, ← htxout, ← hsome]

theorem tokenOutput_holds {txid : Bytes32} {outputs : List (ChainTxOut Bytes32)} {token : SecretUtxo}
    (h : tokenOutput libraries txid expected expectedScript outputs = some token) :
    HoldsToken libraries expected expectedScript token := by
  obtain ⟨item, -, hitem⟩ := List.exists_of_findSome?_eq_some h
  split_ifs at hitem
  exact (tokenCandidate_eq_some.mp hitem).2.2

theorem TokenChain.holds {length : ℕ} {token last : SecretUtxo}
    (hchain : TokenChain libraries node expected expectedScript length token last)
    (htoken : HoldsToken libraries expected expectedScript token) : HoldsToken libraries expected expectedScript last := by
  induction hchain with
  | here => exact htoken
  | spent hspent _ ih =>
    obtain ⟨_, _, -, -, -, hnext⟩ := hspent
    exact ih (tokenOutput_holds hnext)

theorem followToken_ok {token next : SecretUtxo} {spendingTxid : Bytes32}
    (hspender : findMempoolSpender node token.outpoint = .ok (some spendingTxid)) :
    followToken libraries node expected expectedScript token spendingTxid = .ok next ↔
      SpentInto libraries node expected expectedScript token next := by
  unfold followToken SpentInto
  rw [Db.except_bind_ok]
  constructor
  · rintro ⟨transaction, htransaction, h⟩
    obtain ⟨hspends, h⟩ := then_ok.mp h
    exact ⟨spendingTxid, transaction, hspender, mapError_ok.mp htransaction, require_ok.mp hspends,
      (okOr_eq_ok_iff _ _ _).mp h⟩
  · rintro ⟨txid, transaction, htxid, htransaction, hspends, hnext⟩
    obtain rfl : txid = spendingTxid := Option.some.inj (Except.ok.inj (htxid.symm.trans hspender))
    exact ⟨transaction, mapError_ok.mpr htransaction,
      then_ok.mpr ⟨require_ok.mpr hspends, (okOr_eq_ok_iff _ _ _).mpr hnext⟩⟩

/-- The walk ends at the token that no transaction spends, if it is near enough. -/
theorem followMempoolTokenChain_ok {remaining : ℕ} {token last : SecretUtxo} :
    followMempoolTokenChain libraries node expected expectedScript remaining token = .ok last ↔
      ∃ length < remaining, TokenChain libraries node expected expectedScript length token last ∧
        findMempoolSpender node last.outpoint = .ok none := by
  induction remaining generalizing token with
  | zero => simp [followMempoolTokenChain]
  | succ remaining ih =>
    rw [followMempoolTokenChain, Db.except_bind_ok]
    constructor
    · rintro ⟨spender, hspender, h⟩
      cases spender with
      | none =>
        cases h
        exact ⟨0, Nat.succ_pos _, .here _, hspender⟩
      | some spendingTxid =>
        obtain ⟨next, hnext, h⟩ := Db.except_bind_ok.mp h
        obtain ⟨length, hlength, hchain, hend⟩ := ih.mp h
        exact ⟨length + 1, Nat.succ_lt_succ hlength, .spent ((followToken_ok hspender).mp hnext) hchain, hend⟩
    · rintro ⟨length, hlength, hchain, hend⟩
      cases hchain with
      | here => exact ⟨none, hend, rfl⟩
      | @spent length _ next _ hspent hchain =>
        obtain ⟨spendingTxid, transaction, hspender, hrest⟩ := hspent
        refine ⟨some spendingTxid, hspender, Db.except_bind_ok.mpr ⟨next, ?_, ?_⟩⟩
        · exact (followToken_ok hspender).mpr ⟨spendingTxid, transaction, hspender, hrest⟩
        · exact ih.mpr ⟨length, Nat.lt_of_succ_lt_succ hlength, hchain, hend⟩

theorem firstToken_ok {unspents : List (Bytes32 × ℕ × Option ℕ)} {token : SecretUtxo}
    (h : firstToken libraries node expected expectedScript unspents = .ok (some token)) :
    HoldsToken libraries expected expectedScript token ∧ ∃ unspent ∈ unspents, token.outpoint = (unspent.1, unspent.2.1) ∧
      ∃ transaction, node.getRawTransaction unspent.1 unspent.2.2 = .ok transaction ∧
        transaction.output[unspent.2.1]? = some token.txout := by
  induction unspents with
  | nil => cases h
  | cons unspent unspents ih =>
    obtain ⟨txid, vout, height⟩ := unspent
    rw [firstToken] at h
    obtain ⟨transaction, htransaction, h⟩ := Db.except_bind_ok.mp h
    cases hcandidate : transaction.output[vout]?.bind fun candidate =>
        tokenCandidate libraries (txid, vout) candidate expected expectedScript with
    | some found =>
      rw [hcandidate] at h
      cases h
      obtain ⟨candidate, houtput, hfound⟩ := Option.bind_eq_some_iff.mp hcandidate
      obtain ⟨houtpoint, rfl, hholds⟩ := tokenCandidate_eq_some.mp hfound
      exact ⟨hholds, _, List.mem_cons_self, houtpoint, transaction, mapError_ok.mp htransaction, houtput⟩
    | none =>
      rw [hcandidate] at h
      obtain ⟨hholds, unspent, hunspent, hrest⟩ := ih h
      exact ⟨hholds, unspent, List.mem_cons_of_mem _ hunspent, hrest⟩

/-- The template of a token: an output that hides the token of the asset at its script. -/
theorem templateSecrets_ok {asset : NetworkAsset Bytes32} {secrets : TxOutSecrets} :
    templateSecrets libraries asset = .ok secrets ↔ asset.reissuanceTokenId = some secrets.asset ∧
      ∃ template, tokenTxout libraries.toIssuanceLibraries asset = .ok template ∧
        libraries.unblindSecrets template = some secrets ∧ template.scriptPubkey = asset.contractScript ∧
          template.asset.isConfidential = true ∧ template.value.isConfidential = true := by
  unfold templateSecrets
  constructor
  · intro h
    obtain ⟨tokenId, hid, h⟩ := Db.except_bind_ok.mp h
    obtain ⟨template, htemplate, h⟩ := Db.except_bind_ok.mp h
    obtain ⟨found, hfound, h⟩ := Db.except_bind_ok.mp h
    obtain ⟨hchecked, h⟩ := then_ok.mp h
    cases h
    obtain ⟨rfl, hrest⟩ := require_ok.mp hchecked
    rw [okOr_eq_ok_iff] at hid hfound
    exact ⟨hid, template, htemplate, hfound, hrest⟩
  · rintro ⟨hid, template, htemplate, hsecrets, hrest⟩
    refine Db.except_bind_ok.mpr ⟨_, (okOr_eq_ok_iff _ _ _).mpr hid, Db.except_bind_ok.mpr ⟨_, htemplate, ?_⟩⟩
    refine Db.except_bind_ok.mpr ⟨_, (okOr_eq_ok_iff _ _ _).mpr hsecrets, then_ok.mpr ⟨require_ok.mpr ⟨rfl, hrest⟩, rfl⟩⟩

/-- The token that a round spends stands at the end of the mempool, behind an output that the node has scanned. -/
structure TokenFound (libraries : RoundLibraries) (node : TokenNode) (asset : NetworkAsset Bytes32) (secrets : TxOutSecrets)
    (unspents : List (Bytes32 × ℕ × Option ℕ)) (first : SecretUtxo) (length : ℕ) (token : SecretUtxo) : Prop where
  template : templateSecrets libraries asset = .ok secrets
  scanned : node.scanTxoutset asset.contractScript = .ok unspents
  found : firstToken libraries node secrets asset.contractScript unspents = .ok (some first)
  near : length < maxMempoolTokenChainLength
  chain : TokenChain libraries node secrets asset.contractScript length first token
  unspent : findMempoolSpender node token.outpoint = .ok none

theorem TokenFound.holds {asset : NetworkAsset Bytes32} {secrets : TxOutSecrets}
    {unspents : List (Bytes32 × ℕ × Option ℕ)} {first token : SecretUtxo} {length : ℕ}
    (h : TokenFound libraries node asset secrets unspents first length token) :
    HoldsToken libraries secrets asset.contractScript token :=
  h.chain.holds (firstToken_ok h.found).1

theorem findTokenUtxo_ok {asset : NetworkAsset Bytes32} {token : SecretUtxo} :
    findTokenUtxo libraries node asset = .ok token ↔
      ∃ secrets unspents first length, TokenFound libraries node asset secrets unspents first length token := by
  unfold findTokenUtxo
  constructor
  · intro h
    obtain ⟨secrets, hsecrets, h⟩ := Db.except_bind_ok.mp h
    obtain ⟨unspents, hunspents, h⟩ := Db.except_bind_ok.mp h
    obtain ⟨found, hfound, h⟩ := Db.except_bind_ok.mp h
    obtain ⟨first, hfirst, h⟩ := Db.except_bind_ok.mp h
    rw [okOr_eq_ok_iff] at hfirst
    subst hfirst
    obtain ⟨length, hlength, hchain, hend⟩ := followMempoolTokenChain_ok.mp h
    exact ⟨secrets, unspents, first, length, hsecrets, mapError_ok.mp hunspents, hfound, hlength, hchain, hend⟩
  · rintro ⟨secrets, unspents, first, length, h⟩
    refine Db.except_bind_ok.mpr ⟨_, h.template, Db.except_bind_ok.mpr ⟨_, mapError_ok.mpr h.scanned, ?_⟩⟩
    refine Db.except_bind_ok.mpr ⟨_, h.found, Db.except_bind_ok.mpr ⟨first, rfl, ?_⟩⟩
    exact followMempoolTokenChain_ok.mpr ⟨length, h.near, h.chain, h.unspent⟩

end Chains

end IssuanceRound

end PriceOracle
