import PriceOracle.CovenantTransactions
import PriceOracle.OpReturn
import PriceOracle.SdkValues
import PriceOracle.VoucherCovenant

/-!
# Spending a Tick beside a prediction

`createTickSpendPlan` of the web SDK, and the burn output of `contracts/src/voucher/core.rs`. The covenant reads the
input index behind `OP_RETURN`, and the plan of the SDK ends at `OP_RETURN`.
-/

namespace PriceOracle

structure IssuedTick where
  asset : String
  timestamp : JsNumber
  deriving DecidableEq

structure PredictionResolution where
  predictionId : String
  occurredAt : JsNumber
  signature : String

structure TickBurnOutput where
  asset : String
  amount : JsNumber
  scriptPubKey : String
  deriving DecidableEq

structure TickWitness where
  path : String
  burnOutputIndex : UInt32
  signatureMessage : String
  deriving DecidableEq

structure PredictionWitness where
  predictionId : String
  occurredAt : JsNumber
  adminSignature : String
  tickInputIndex : ℕ
  payoutOutputIndex : ℕ
  deriving DecidableEq

structure TickSpendPlan where
  /-- The inputs of the position and of the Tick. -/
  predictionPosition : ℕ
  tick : ℕ
  /-- The outputs of the payout and of the burn. -/
  payout : ℕ
  tickBurn : ℕ
  tickBurnOutput : TickBurnOutput
  tickWitness : TickWitness
  predictionWitness : PredictionWitness
  deriving DecidableEq

namespace Sdk

def createTickSpendPlan (tick : IssuedTick) (resolution : PredictionResolution) : Except String TickSpendPlan :=
  if isHex 64 resolution.predictionId = false then .error "prediction id must be 32-byte hex"
  else if isHex 128 resolution.signature = false then .error "admin signature must be 64-byte hex"
  else if tick.timestamp.isSafeInteger = false ∨ tick.timestamp.lt resolution.occurredAt = true then
    .error "Tick timestamp must be at or after the signed occurrence time"
  else
    match assertHex tick.asset "Tick asset" with
    | .error error => .error error
    | .ok () => .ok {
        predictionPosition := 0, tick := 1, payout := 0, tickBurn := 1
        tickBurnOutput := ⟨tick.asset, tick.timestamp, "6a"⟩
        tickWitness := ⟨"signature-auth", 1, "sig_all_hash"⟩
        predictionWitness :=
          ⟨toLowerCase resolution.predictionId, resolution.occurredAt, toLowerCase resolution.signature, 1, 0⟩ }

end Sdk

namespace Voucher

/-- The script that burns pay into. -/
def getBurnScript (voucherInputIndex : UInt32) : List UInt8 := OpReturn.newOpReturn (u32Bytes voucherInputIndex)

variable {W : Type}

/-- `attach_voucher_output`: the whole voucher, into the script of its input. -/
def attachVoucherOutput (voucherUtxo : Utxo W) (voucherInputIndex : UInt32) : PsetOutput W :=
  .new (getBurnScript voucherInputIndex) voucherUtxo.amount voucherUtxo.asset

end Voucher

namespace TickSpend

variable {W Sig : Type}

/-- A transaction with the inputs and outputs of a plan, for a Tick of some amount; `assetId` reads an asset. -/
structure Follows (assetId : String → W) (plan : TickSpendPlan) (amount : ℕ) (script : List UInt8) (pset : Pset W) : Prop where
  issued : plan.tickBurnOutput.amount = .ofNat amount
  tick : ∃ input txout, pset.inputs[plan.tick]? = some input ∧ input.witnessUtxo = some txout ∧
    txout.asset = .explicit (assetId plan.tickBurnOutput.asset) ∧ txout.value = .explicit amount
  burn : ∃ output, pset.outputs[plan.tickBurn]? = some output ∧
    output.toTxout.asset = .explicit (assetId plan.tickBurnOutput.asset) ∧ output.toTxout.value = .explicit amount ∧
    output.scriptPubkey = script

section Environment

variable {J : Jets W Sig} {header : TxHeader} {std : Std W} {params : VoucherCovenant.Params W} {assetId : String → W}
  {plan : TickSpendPlan} {amount : ℕ} {script : List UInt8} {pset : Pset W} {leaf : W} {env : Env W}

/-- The covenant at the Tick of a plan sees the Tick, and at the burn output the same amount and the script. -/
theorem seen (h : Follows assetId plan amount script pset) (henv : pset.env J header leaf plan.tick = some env) :
    env.current.asset = .explicit (assetId plan.tickBurnOutput.asset) ∧
      env.current.amount = .explicit (UInt64.ofNat amount) ∧ ∃ out, env.tx.outputs[plan.tickBurn]? = some out ∧
        out.asset = .explicit (assetId plan.tickBurnOutput.asset) ∧ out.amount = .explicit (UInt64.ofNat amount) ∧
        out.nullData = nullData script := by
  obtain ⟨-, hindex, houtputs, hinputs⟩ := Pset.env_spec henv
  obtain ⟨input, txout, hinput, hwitness, hasset, hvalue⟩ := h.tick
  obtain ⟨output, houtput, hpaid, hamount, rfl⟩ := h.burn
  have hcurrent : env.tx.inputs[env.index.val]? = some env.current := List.getElem?_eq_getElem env.index.isLt
  rw [hindex, mapM_getElem? hinputs, hinput, Option.bind_some, hwitness, Option.map_some] at hcurrent
  have hcurrent := Option.some.inj hcurrent
  refine ⟨?_, ?_, output.toTxout.txOut J, ?_, ?_, ?_, rfl⟩
  · rw [← hcurrent]
    unfold ChainTxOut.txIn
    rw [hasset]
    rfl
  · rw [← hcurrent]
    unfold ChainTxOut.txIn
    rw [hvalue]
    rfl
  · rw [houtputs, List.getElem?_map, houtput]
    rfl
  · unfold ChainTxOut.txOut
    rw [hpaid]
    rfl
  · unfold ChainTxOut.txOut
    rw [hamount]
    rfl

/-- The signature path looks at the owner's signature and at what the burn script pushes first. -/
theorem signAuth_iff (h : Follows assetId plan amount script pset) (henv : pset.env J header leaf plan.tick = some env)
    {signature : Sig} {burnIndex : UInt32} (hburn : burnIndex.toNat = plan.tickBurn) :
    VoucherCovenant.main J std params env (.inr (.inl (signature, burnIndex))) = some () ↔
      params.authMethod = 2 ∧ J.bip0340Verify (params.authPubkey, J.sigAllHash env) signature = true ∧
        ∃ kind data rest, nullData script = some (.push kind data :: rest) ∧
          J.sha256 data = VoucherCovenant.getBurnTagHash J env.currentIndex := by
  obtain ⟨hasset, hamount, out, hout, houtAsset, houtAmount, hnull⟩ := seen h henv
  have hpreserved : assertOutputPreservesUtxo std env burnIndex = some () :=
    (assertOutputPreservesUtxo_iff std env burnIndex).mpr
      ⟨out, _, _, by rw [hburn]; exact hout, hasset, hamount, houtAsset, houtAmount⟩
  have hdatum : J.outputNullDatum env burnIndex 0 = (nullData script).map fun entries => entries[0]?.map J.reportDatum := by
    unfold Jets.outputNullDatum
    rw [hburn, hout]
    change (out.nullData.bind fun entries => some (entries[0]?.map J.reportDatum)) = _
    rw [hnull]
    cases nullData script <;> rfl
  have hburned : VoucherCovenant.assertVoucherUtxoBurned J std env burnIndex = some () ↔
      ∃ kind data rest, nullData script = some (.push kind data :: rest) ∧
        J.sha256 data = VoucherCovenant.getBurnTagHash J env.currentIndex := by
    unfold VoucherCovenant.assertVoucherUtxoBurned
    rw [hpreserved, hdatum]
    rcases nullData script with _ | _ | ⟨⟨kind, data⟩ | code, rest⟩
    · simp
    · simp
    · simp [Jets.reportDatum, unwrapLeft, std.assertEq256_iff]
    · simp [Jets.reportDatum, unwrapLeft]
  simp only [VoucherCovenant.main, VoucherCovenant.userSpendViaSignAuth, Option.bind_eq_bind, Option.bind_eq_some_iff,
    std.assertEq32_iff, Option.guard_eq_some', hburned]
  constructor
  · rintro ⟨-, hmethod, -, hverified, hentry⟩
    exact ⟨hmethod, hverified, hentry⟩
  · rintro ⟨hmethod, hverified, hentry⟩
    exact ⟨(), hmethod, (), hverified, hentry⟩

end Environment

section Plans

variable (J : Jets W Sig) (header : TxHeader) (std : Std W) (params : VoucherCovenant.Params W) (assetId : String → W)

/-- Every transaction that follows the plan and burns into a script is accepted under the owner's signature. -/
def Spendable (plan : TickSpendPlan) (amount : ℕ) (script : List UInt8) : Prop :=
  ∀ (pset : Pset W) (leaf : W) (env : Env W) (signature : Sig), Follows assetId plan amount script pset →
    pset.env J header leaf plan.tick = some env →
    J.bip0340Verify (params.authPubkey, J.sigAllHash env) signature = true →
    VoucherCovenant.main J std params env (.inr (.inl (signature, plan.tickWitness.burnOutputIndex))) = some ()

theorem createTickSpendPlan_ok {tick : IssuedTick} {resolution : PredictionResolution} {plan : TickSpendPlan}
    (h : Sdk.createTickSpendPlan tick resolution = .ok plan) :
    plan.tick = 1 ∧ plan.tickBurn = 1 ∧ plan.tickBurnOutput = ⟨tick.asset, tick.timestamp, "6a"⟩ ∧
      plan.tickWitness.burnOutputIndex = 1 := by
  unfold Sdk.createTickSpendPlan at h
  split_ifs at h
  cases hasset : Sdk.assertHex tick.asset "Tick asset" with
  | error error =>
    rw [hasset] at h
    cases h
  | ok =>
    rw [hasset] at h
    cases h
    exact ⟨rfl, rfl, rfl, rfl⟩

/-- A transaction for a plan, with a position and a payout of one unit. -/
def following (plan : TickSpendPlan) (amount : ℕ) (script : List UInt8) : Pset W :=
  let asset := assetId plan.tickBurnOutput.asset
  ⟨[.new ⟨(asset, 0), asset, 1, []⟩, .new ⟨(asset, 1), asset, amount, []⟩], [.new [] 1 asset, .new script amount asset]⟩

theorem following_follows {tick : IssuedTick} {resolution : PredictionResolution} {plan : TickSpendPlan} {amount : ℕ}
    (h : Sdk.createTickSpendPlan tick resolution = .ok plan) (hissued : tick.timestamp = .ofNat amount) (script : List UInt8) :
    Follows assetId plan amount script (following assetId plan amount script) := by
  obtain ⟨htick, hburn, houtput, -⟩ := createTickSpendPlan_ok h
  refine ⟨by rw [houtput]; exact hissued, ?_, ?_⟩
  · rw [htick]
    exact ⟨_, _, rfl, rfl, rfl, rfl⟩
  · rw [hburn]
    exact ⟨_, rfl, rfl, rfl, rfl⟩

/-- The burn script of an index pushes the index. -/
theorem nullData_getBurnScript (index : UInt32) : nullData (Voucher.getBurnScript index) = some [.push 0 (u32Bytes index)] := rfl

/-- No transaction that follows the plan for an issued Tick is accepted, whoever signs it, as the plan burns into a bare
`OP_RETURN`; in place of that script the one of `Voucher::get_burn_script` would be accepted. -/
theorem tick_plan_unspendable (hmethod : params.authMethod = 2)
    (hsigns : ∀ message, ∃ signature, J.bip0340Verify (params.authPubkey, message) signature = true)
    (tick : IssuedTick) (resolution : PredictionResolution) (plan : TickSpendPlan) (amount : ℕ)
    (hissued : tick.timestamp = .ofNat amount) (h : Sdk.createTickSpendPlan tick resolution = .ok plan) :
    ∃ script, Sdk.hexToBytes plan.tickBurnOutput.scriptPubKey = .ok script ∧
      ¬Spendable J header std params assetId plan amount script ∧
      (∀ (pset : Pset W) (leaf : W) (env : Env W) (signature : Sig), Follows assetId plan amount script pset →
        pset.env J header leaf plan.tick = some env →
        VoucherCovenant.main J std params env (.inr (.inl (signature, plan.tickWitness.burnOutputIndex))) = none) ∧
      script ≠ Voucher.getBurnScript (UInt32.ofNat plan.tick) ∧
      Spendable J header std params assetId plan amount (Voucher.getBurnScript (UInt32.ofNat plan.tick)) := by
  obtain ⟨htick, hburn, houtput, hindex⟩ := createTickSpendPlan_ok h
  have hburnIndex : plan.tickWitness.burnOutputIndex.toNat = plan.tickBurn := by
    rw [hindex, hburn]
    rfl
  have hnever : ∀ (pset : Pset W) (leaf : W) (env : Env W) (signature : Sig), Follows assetId plan amount [0x6a] pset →
      pset.env J header leaf plan.tick = some env →
      VoucherCovenant.main J std params env (.inr (.inl (signature, plan.tickWitness.burnOutputIndex))) = none := by
    intro pset leaf env signature hfollows henv
    apply Option.eq_none_iff_forall_ne_some.mpr
    rintro ⟨⟩ haccepted
    obtain ⟨-, -, kind, data, rest, hentries, -⟩ := (signAuth_iff hfollows henv hburnIndex).mp haccepted
    have hnone : nullData [0x6a] = some [] := rfl
    rw [hnone] at hentries
    cases hentries
  refine ⟨[0x6a], ?_, ?_, hnever, ?_, ?_⟩
  · have hbytes : Sdk.hexToBytes "6a" = .ok [0x6a] := by decide +kernel
    rw [houtput]
    exact hbytes
  · intro hspendable
    have henv : ∃ env, (following assetId plan amount [0x6a]).env J header (assetId "") plan.tick = some env := by
      rw [htick]
      exact ⟨_, rfl⟩
    obtain ⟨env, henv⟩ := henv
    obtain ⟨signature, hsigned⟩ := hsigns (J.sigAllHash env)
    have hfollows := following_follows assetId h hissued [0x6a]
    have haccepted := hspendable _ _ env signature hfollows henv hsigned
    rw [hnever _ _ env signature hfollows henv] at haccepted
    cases haccepted
  · rw [htick]
    decide
  · intro pset leaf env signature hfollows henv hsigned
    apply (signAuth_iff hfollows henv hburnIndex).mpr
    refine ⟨hmethod, hsigned, 0, u32Bytes (UInt32.ofNat plan.tick), [], nullData_getBurnScript _, ?_⟩
    unfold VoucherCovenant.getBurnTagHash Jets.sha256Ctx8Finalize Jets.sha256Ctx8Add4 Jets.sha256Ctx8Init Env.currentIndex
    rw [(Pset.env_spec henv).2.1, List.nil_append]

end Plans

section Example

def exampleTick : IssuedTick :=
  ⟨"0303030303030303030303030303030303030303030303030303030303030303", .ofNat 1700000000⟩

def exampleResolution : PredictionResolution where
  predictionId := "0404040404040404040404040404040404040404040404040404040404040404"
  occurredAt := .ofNat 1699999999
  signature := "05050505050505050505050505050505050505050505050505050505050505050505050505050505050505050505050505050505050505050505050505050505"

def examplePlan : TickSpendPlan where
  predictionPosition := 0
  tick := 1
  payout := 0
  tickBurn := 1
  tickBurnOutput := ⟨exampleTick.asset, exampleTick.timestamp, "6a"⟩
  tickWitness := ⟨"signature-auth", 1, "sig_all_hash"⟩
  predictionWitness := ⟨exampleResolution.predictionId, exampleResolution.occurredAt, exampleResolution.signature, 1, 0⟩

def exampleStd : Std ℕ := Std.documented UInt32.toNat

def exampleParams : VoucherCovenant.Params ℕ := ⟨1, 2, 0, 0, 7⟩

theorem toList_predictionId : exampleResolution.predictionId.toList = (List.replicate 32 ['0', '4']).flatten := by
  have htext : exampleResolution.predictionId = String.ofList (List.replicate 32 ['0', '4']).flatten := rfl
  rw [htext, String.toList_ofList]

set_option maxRecDepth 4000 in
theorem toList_signature : exampleResolution.signature.toList = (List.replicate 64 ['0', '5']).flatten := by
  have htext : exampleResolution.signature = String.ofList (List.replicate 64 ['0', '5']).flatten := rfl
  rw [htext, String.toList_ofList]

theorem toList_asset : exampleTick.asset.toList = (List.replicate 32 ['0', '3']).flatten := by
  have htext : exampleTick.asset = String.ofList (List.replicate 32 ['0', '3']).flatten := rfl
  rw [htext, String.toList_ofList]

theorem examplePlan_ok : Sdk.createTickSpendPlan exampleTick exampleResolution = .ok examplePlan := by
  have hid : Sdk.isHex 64 exampleResolution.predictionId = true := by
    rw [Sdk.isHex, toList_predictionId]
    decide +kernel
  have hsignature : Sdk.isHex 128 exampleResolution.signature = true := by
    rw [Sdk.isHex, toList_signature]
    decide +kernel
  have htime : ¬(exampleTick.timestamp.isSafeInteger = false ∨
      exampleTick.timestamp.lt exampleResolution.occurredAt = true) := by decide +kernel
  have hasset : Sdk.assertHex exampleTick.asset "Tick asset" = .ok () := by
    rw [Sdk.assertHex, toList_asset]
    decide +kernel
  unfold Sdk.createTickSpendPlan
  rw [hid, hsignature, if_neg htime, hasset, Sdk.toLowerCase_of_toList toList_predictionId (by decide +kernel),
    Sdk.toLowerCase_of_toList toList_signature (by decide +kernel)]
  rfl

/-- A Tick of 2023 whose owner signs. -/
theorem tick_plan_unspendable_signed : ¬Spendable idealJets ⟨2, 0, 0xffffffff⟩ exampleStd exampleParams String.length
    examplePlan 1700000000 [0x6a] := by
  obtain ⟨script, hscript, hnot, -⟩ := tick_plan_unspendable idealJets ⟨2, 0, 0xffffffff⟩ exampleStd exampleParams String.length
    rfl (fun _ => ⟨(), rfl⟩) exampleTick exampleResolution examplePlan 1700000000 rfl examplePlan_ok
  have hbytes : Sdk.hexToBytes examplePlan.tickBurnOutput.scriptPubKey = .ok [0x6a] := by decide +kernel
  rw [hbytes] at hscript
  cases hscript
  exact hnot

/-- The plan of a Tick of 2023 leads to no spend. -/
theorem tick_plan_refused : ¬∀ (tick : IssuedTick) (resolution : PredictionResolution) (plan : TickSpendPlan) (amount : ℕ)
    (script : List UInt8), tick.timestamp = .ofNat amount → Sdk.createTickSpendPlan tick resolution = .ok plan →
      Sdk.hexToBytes plan.tickBurnOutput.scriptPubKey = .ok script →
      Spendable idealJets ⟨2, 0, 0xffffffff⟩ exampleStd exampleParams String.length plan amount script := by
  intro hclaim
  have hspendable := hclaim exampleTick exampleResolution examplePlan 1700000000 [0x6a] rfl examplePlan_ok
    (by decide +kernel)
  have hfollows := following_follows String.length examplePlan_ok (show exampleTick.timestamp = .ofNat 1700000000 from rfl) [0x6a]
  obtain ⟨env, henv⟩ : ∃ env, (following String.length examplePlan 1700000000 [0x6a]).env idealJets ⟨2, 0, 0xffffffff⟩ 0
      examplePlan.tick = some env := ⟨_, rfl⟩
  have haccepted := hspendable _ 0 env () hfollows henv rfl
  obtain ⟨-, -, kind, data, rest, hentries, -⟩ := (signAuth_iff hfollows henv rfl).mp haccepted
  have hnone : nullData [0x6a] = some [] := rfl
  rw [hnone] at hentries
  cases hentries

end Example

end TickSpend

end PriceOracle
