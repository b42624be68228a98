import PriceOracle.DropletRuns
import PriceOracle.ExchangeLayout

/-!
# Signers and the indexer on an exchange

What `validate_layout` accepts and what the indexer makes of the transaction it is finalised to. The
signers match outputs by their scripts; the indexer takes any member marker and any marker of a
migration for the member that is charged, and the markers must all name one.
-/

namespace PriceOracle

open DropletStore Markers TreasuryScan

namespace ExchangeLayout

section Scripts

/-- A pay-to-taproot script is not a marker. -/
theorem opReturnData_taprootScript (key : Bytes32) : OpReturn.opReturnData (taprootScript key) = none := by
  rfl

theorem memberFromScript_of_no_data {script : List UInt8} (h : OpReturn.opReturnData script = none) :
    memberFromScript script = none := by
  unfold memberFromScript
  rw [h]

theorem migratedMembersProposerFromScript_of_no_data {script : List UInt8} (h : OpReturn.opReturnData script = none) :
    migratedMembersProposerFromScript script = none := by
  unfold migratedMembersProposerFromScript
  rw [h]

theorem marker_of_no_data {output : ChainTxOut Bytes32} (h : OpReturn.opReturnData output.scriptPubkey = none) :
    marker output = none := by
  unfold marker
  rw [memberFromScript_of_no_data h, migratedMembersProposerFromScript_of_no_data h]
  rfl

theorem marker_of_member (output : ChainTxOut Bytes32) {member : Bytes32}
    (h : memberFromScript output.scriptPubkey = some member) : marker output = some member := by
  unfold marker
  rw [h]
  rfl

theorem marker_of_migrated (output : ChainTxOut Bytes32) (h : memberFromScript output.scriptPubkey = none) :
    marker output = migratedMembersProposerFromScript output.scriptPubkey := by
  unfold marker
  rw [h]
  rfl

variable {script : List UInt8} {policyAsset : Bytes32} {output : ChainTxOut Bytes32} {amount : ℕ}

theorem treasuryOutputAmount_some : treasuryOutputAmount script policyAsset output = some amount ↔
    output.scriptPubkey = script ∧ output.asset = .explicit policyAsset ∧ output.value = .explicit amount := by
  unfold treasuryOutputAmount
  rw [← ChainField.getExplicit_eq_some, ← ChainField.getExplicit_eq_some]
  by_cases hscript : output.scriptPubkey = script
  · rw [if_neg (not_not.mpr hscript)]
    cases output.asset.getExplicit with
    | none => simp
    | some asset =>
      cases output.value.getExplicit with
      | none => simp
      | some value =>
        by_cases hasset : asset = policyAsset
        · simp [hscript, hasset]
        · simp [hasset]
  · rw [if_pos hscript]
    simp [hscript]

theorem treasuryOutputAmount_of_script (h : output.scriptPubkey ≠ script) :
    treasuryOutputAmount script policyAsset output = none := if_pos h

end Scripts

section Layout

variable {programs : ExchangePrograms} {pset : Pset Bytes32} {stormEye : NetworkAsset Bytes32}

theorem helper_ok {A : Type} {result : Except String A} {a : A} : helper result = .ok a ↔ result = .ok a :=
  mapError_ok

theorem addAmount_ok {total amount sum : ℕ} {message : String} :
    addAmount total amount message = .ok sum ↔ total + amount < 2 ^ 64 ∧ sum = total + amount := by
  unfold addAmount
  split_ifs with h
  · rw [Except.ok.injEq, eq_comm]
    exact ⟨fun hsum => ⟨h, hsum⟩, fun hsum => hsum.2⟩
  · exact ⟨fun hsum => (nomatch hsum), fun hsum => absurd hsum.1 h⟩

/-- A Treasury output of LBTC, as an input spends it. -/
def Funds (programs : ExchangePrograms) (stormEye : NetworkAsset Bytes32) (input : PsetInput Bytes32) (fund : ℕ) : Prop :=
  ∃ txout, input.witnessUtxo = some txout ∧
    treasuryOutputAmount (treasuryScript programs stormEye) programs.policyAsset txout = some fund

theorem addTreasuryInput_ok {total index next : ℕ} (h : addTreasuryInput programs pset stormEye total index = .ok next) :
    ∃ input fund, pset.inputs[index]? = some input ∧ Funds programs stormEye input fund ∧ next = total + fund ∧
      next < 2 ^ 64 := by
  obtain ⟨txout, hwitness, h⟩ := Db.except_bind_ok.mp h
  obtain ⟨input, hinput, htxout⟩ := Pset.witnessUtxo_ok.mp (helper_ok.mp hwitness)
  obtain ⟨hscript, h⟩ := then_ok.mp h
  obtain ⟨secrets, hsecrets, h⟩ := Db.except_bind_ok.mp h
  obtain ⟨hasset, h⟩ := then_ok.mp h
  obtain ⟨hlt, rfl⟩ := addAmount_ok.mp h
  refine ⟨input, secrets.2, hinput, ⟨txout, htxout, ?_⟩, rfl, hlt⟩
  unfold txoutSecrets at hsecrets
  cases hexplicit : txout.asset.getExplicit with
  | none =>
    rw [hexplicit] at hsecrets
    cases hsecrets
  | some asset =>
    cases hvalue : txout.value.getExplicit with
    | none =>
      rw [hexplicit, hvalue] at hsecrets
      cases hsecrets
    | some value =>
      rw [hexplicit, hvalue] at hsecrets
      cases hsecrets
      have hpolicy : asset = programs.policyAsset := require_ok.mp hasset
      rw [hpolicy] at hexplicit
      exact treasuryOutputAmount_some.mpr ⟨require_ok.mp hscript, ChainField.getExplicit_eq_some.mp hexplicit,
        ChainField.getExplicit_eq_some.mp hvalue⟩

theorem addTreasuryInputs_ok (inputs : List (PsetInput Bytes32)) : ∀ (before : List (PsetInput Bytes32)) (total last : ℕ),
    pset.inputs = before ++ inputs → total < 2 ^ 64 →
      (List.range' before.length inputs.length).foldlM (addTreasuryInput programs pset stormEye) total = .ok last →
        ∃ funds, List.Forall₂ (Funds programs stormEye) inputs funds ∧ last = total + funds.sum ∧ last < 2 ^ 64 := by
  induction inputs with
  | nil =>
    rintro before total _ - hlt ⟨⟩
    exact ⟨[], .nil, rfl, hlt⟩
  | cons input inputs ih =>
    intro before total last hinputs _ h
    rw [List.length_cons, List.range'_succ, List.foldlM_cons] at h
    obtain ⟨next, hnext, h⟩ := Db.except_bind_ok.mp h
    obtain ⟨found, fund, hfound, hfund, rfl, hlt⟩ := addTreasuryInput_ok hnext
    rw [hinputs, List.getElem?_append_right le_rfl, Nat.sub_self] at hfound
    obtain rfl : input = found := Option.some.inj hfound
    have hrest := ih (before ++ [input]) (total + fund) last
      (by rw [hinputs, List.append_assoc, List.singleton_append]) hlt
    rw [List.length_append, List.length_singleton] at hrest
    obtain ⟨funds, hfunds, hlast, hbound⟩ := hrest h
    exact ⟨fund :: funds, .cons hfund hfunds, by rw [hlast, List.sum_cons, Nat.add_assoc], hbound⟩

/-- What one output adds to the tally. -/
structure Tallied (programs : ExchangePrograms) (stormEye : NetworkAsset Bytes32) (expectedMember : Bytes32)
    (tally next : ExchangeTally) (output : PsetOutput Bytes32) : Prop where
  explicit : ∃ amount, output.toTxout.asset = .explicit programs.policyAsset ∧ output.toTxout.value = .explicit amount ∧
    next.totalOutputs = tally.totalOutputs + amount
  member : ∀ member, memberFromScript output.scriptPubkey = some member → member = expectedMember
  markers : next.markerCount = tally.markerCount + if (memberFromScript output.scriptPubkey).isSome then 1 else 0
  returned : next.treasuryReturn = tally.treasuryReturn +
    (treasuryOutputAmount (treasuryScript programs stormEye) programs.policyAsset output.toTxout).getD 0

theorem tallyScript_ok {expectedMember : Bytes32} {tally next : ExchangeTally} {output : PsetOutput Bytes32} {amount : ℕ}
    (hasset : output.toTxout.asset = .explicit programs.policyAsset) (hvalue : output.toTxout.value = .explicit amount)
    (h : tallyScript programs stormEye expectedMember tally output.scriptPubkey amount = .ok next) :
    next.totalOutputs = tally.totalOutputs ∧
      (∀ member, memberFromScript output.scriptPubkey = some member → member = expectedMember) ∧
      next.markerCount = tally.markerCount + (if (memberFromScript output.scriptPubkey).isSome then 1 else 0) ∧
      next.treasuryReturn = tally.treasuryReturn +
        (treasuryOutputAmount (treasuryScript programs stormEye) programs.policyAsset output.toTxout).getD 0 := by
  unfold tallyScript at h
  cases hmember : memberFromScript output.scriptPubkey with
  | some member =>
    rw [hmember] at h
    obtain ⟨hexpected, h⟩ := then_ok.mp h
    cases h
    obtain ⟨hexpected, -⟩ := require_ok.mp hexpected
    have hscript : output.toTxout.scriptPubkey ≠ treasuryScript programs stormEye := by
      intro heq
      have hnone := memberFromScript_of_no_data (opReturnData_taprootScript (programs.treasuryKey stormEye.assetId))
      change output.scriptPubkey = taprootScript _ at heq
      rw [heq, hnone] at hmember
      cases hmember
    rw [treasuryOutputAmount_of_script hscript]
    exact ⟨rfl, fun other hother => (Option.some.inj hother).symm.trans hexpected, rfl, rfl⟩
  | none =>
    rw [hmember] at h
    dsimp only at h
    by_cases htreasury : output.scriptPubkey = treasuryScript programs stormEye
    · rw [if_pos htreasury] at h
      obtain ⟨total, htotal, h⟩ := Db.except_bind_ok.mp h
      cases h
      obtain ⟨-, rfl⟩ := addAmount_ok.mp htotal
      rw [treasuryOutputAmount_some.mpr ⟨htreasury, hasset, hvalue⟩]
      exact ⟨rfl, fun _ hother => (Option.some_ne_none _ hother.symm).elim, rfl, rfl⟩
    · rw [if_neg htreasury] at h
      have hnone : treasuryOutputAmount (treasuryScript programs stormEye) programs.policyAsset output.toTxout = none :=
        treasuryOutputAmount_of_script htreasury
      rw [hnone]
      by_cases hempty : output.scriptPubkey ≠ []
      · rw [if_pos hempty] at h
        obtain ⟨total, htotal, h⟩ := Db.except_bind_ok.mp h
        cases h
        exact ⟨rfl, fun _ hother => (Option.some_ne_none _ hother.symm).elim, rfl, rfl⟩
      · rw [if_neg hempty] at h
        cases h
        exact ⟨rfl, fun _ hother => (Option.some_ne_none _ hother.symm).elim, rfl, rfl⟩

theorem tallyOutput_ok {expectedMember : Bytes32} {tally next : ExchangeTally} {output : PsetOutput Bytes32}
    (h : tallyOutput programs stormEye expectedMember tally output = .ok next) :
    Tallied programs stormEye expectedMember tally next output := by
  obtain ⟨hexplicit, h⟩ := then_ok.mp h
  obtain ⟨hasset, h⟩ := then_ok.mp h
  cases hamount : output.amount with
  | none =>
    rw [hamount] at h
    cases h
  | some amount =>
    rw [hamount] at h
    obtain ⟨total, htotal, h⟩ := Db.except_bind_ok.mp h
    obtain ⟨-, rfl⟩ := addAmount_ok.mp htotal
    have hplain := require_ok.mp hexplicit
    unfold PsetOutput.isFullyExplicit at hplain
    simp only [Bool.and_eq_true, Option.isNone_iff_eq_none] at hplain
    have hchain : output.toTxout.asset = .explicit programs.policyAsset :=
      PsetOutput.toTxout_asset.mpr ⟨hplain.1.1.1.1.1.1.1.2, require_ok.mp hasset⟩
    have hvalue : output.toTxout.value = .explicit amount :=
      PsetOutput.toTxout_value.mpr ⟨hplain.1.1.1.1.1.1.1.1.2, hamount⟩
    obtain ⟨htotals, hmember, hmarkers, hreturned⟩ := tallyScript_ok hchain hvalue h
    exact ⟨⟨amount, hchain, hvalue, htotals⟩, hmember, hmarkers, hreturned⟩

theorem tallyOutputs_ok {expectedMember : Bytes32} (outputs : List (PsetOutput Bytes32)) : ∀ {tally last : ExchangeTally},
    outputs.foldlM (tallyOutput programs stormEye expectedMember) tally = .ok last →
      (∀ output ∈ outputs, ∀ member, memberFromScript output.scriptPubkey = some member → member = expectedMember) ∧
      last.markerCount =
        tally.markerCount + outputs.countP (fun output => (memberFromScript output.scriptPubkey).isSome) ∧
      last.treasuryReturn = tally.treasuryReturn + ((outputs.map PsetOutput.toTxout).filterMap
        (treasuryOutputAmount (treasuryScript programs stormEye) programs.policyAsset)).sum := by
  induction outputs with
  | nil =>
    rintro tally last ⟨⟩
    exact ⟨fun output houtput => absurd houtput List.not_mem_nil, rfl, rfl⟩
  | cons output outputs ih =>
    intro tally last h
    rw [List.foldlM_cons] at h
    obtain ⟨next, hnext, h⟩ := Db.except_bind_ok.mp h
    have houtput := tallyOutput_ok hnext
    obtain ⟨hmembers, hmarkers, hreturned⟩ := ih h
    refine ⟨List.forall_mem_cons.mpr ⟨houtput.member, hmembers⟩, ?_, ?_⟩
    · rw [hmarkers, houtput.markers, List.countP_cons]
      omega
    · rw [hreturned, houtput.returned, List.map_cons]
      cases hamount : treasuryOutputAmount (treasuryScript programs stormEye) programs.policyAsset output.toTxout with
      | none => rw [List.filterMap_cons_none hamount, Option.getD_none, Nat.add_zero]
      | some amount => rw [List.filterMap_cons_some hamount, Option.getD_some, List.sum_cons, Nat.add_assoc]

/-- The parts of an exchange that is accepted: a Storm Eye that is preserved, funds of the Treasury, and
outputs with one marker that return less to the Treasury than they take. -/
structure Accepted (programs : ExchangePrograms) (stormEye : NetworkAsset Bytes32) (exchange : ValidatedExchange)
    (stormInput : PsetInput Bytes32) (inputs : List (PsetInput Bytes32)) (stormOutput : PsetOutput Bytes32)
    (outputs : List (PsetOutput Bytes32)) (funds : List ℕ) : Prop where
  spends : ∃ txout, stormInput.witnessUtxo = some txout ∧ txout.asset = .explicit stormEye.assetId
  preserved : stormOutput.toTxout.asset = .explicit stormEye.assetId
  covenant : stormOutput.scriptPubkey = stormEye.contractScript
  funded : List.Forall₂ (Funds programs stormEye) inputs funds
  fundsLt : funds.sum < 2 ^ 64
  members : ∀ output ∈ outputs, ∀ member, memberFromScript output.scriptPubkey = some member → member = exchange.member
  marked : ∃ output ∈ outputs, memberFromScript output.scriptPubkey = some exchange.member
  amount : exchange.amount + ((outputs.map PsetOutput.toTxout).filterMap
    (treasuryOutputAmount (treasuryScript programs stormEye) programs.policyAsset)).sum = funds.sum
  pos : 0 < exchange.amount

theorem exchangedAmount_ok {treasuryInputs treasuryReturn amount : ℕ}
    (h : exchangedAmount treasuryInputs treasuryReturn = .ok amount) : amount + treasuryReturn = treasuryInputs ∧ 0 < amount := by
  unfold exchangedAmount at h
  split_ifs at h with hlt
  cases h
  omega

theorem validateLayout_ok {requestSigningHash : Bytes32} {expectedLeader : List UInt8} {exchange : ValidatedExchange}
    (h : validateLayout programs pset requestSigningHash expectedLeader stormEye = .ok exchange) :
    ∃ stormInput inputs stormOutput outputs funds, pset.inputs = stormInput :: inputs ∧
      pset.outputs = stormOutput :: outputs ∧
        Accepted programs stormEye exchange stormInput inputs stormOutput outputs funds := by
  obtain ⟨-, h⟩ := then_ok.mp h
  obtain ⟨txout, hwitness, h⟩ := Db.except_bind_ok.mp h
  obtain ⟨hexplicit, h⟩ := then_ok.mp h
  obtain ⟨hpreserved, h⟩ := then_ok.mp h
  obtain ⟨total, hinputs, h⟩ := Db.except_bind_ok.mp h
  obtain ⟨expectedMember, hleader, h⟩ := Db.except_bind_ok.mp h
  obtain ⟨tally, htally, h⟩ := Db.except_bind_ok.mp h
  obtain ⟨hcounts, h⟩ := then_ok.mp h
  obtain ⟨amount, hamount, h⟩ := Db.except_bind_ok.mp h
  obtain ⟨hash, -, h⟩ := Db.except_bind_ok.mp h
  obtain ⟨-, h⟩ := then_ok.mp h
  cases h
  obtain ⟨stormInput, hstorm, htxout⟩ := Pset.witnessUtxo_ok.mp (helper_ok.mp hwitness)
  obtain ⟨hasset, hscript, -⟩ := requireExplicitUtxo_ok.mp (helper_ok.mp hexplicit)
  obtain ⟨stormOutput, houtput, hkept, -, hcovenant⟩ := requirePreservedOutput_ok.mp (helper_ok.mp hpreserved)
  obtain ⟨inputs, hin⟩ : ∃ inputs, pset.inputs = stormInput :: inputs := by
    cases hcase : pset.inputs with
    | nil => simp [hcase] at hstorm
    | cons first inputs =>
      rw [hcase, List.getElem?_cons_zero] at hstorm
      exact ⟨inputs, by rw [Option.some.inj hstorm]⟩
  obtain ⟨outputs, hout⟩ : ∃ outputs, pset.outputs = stormOutput :: outputs := by
    cases hcase : pset.outputs with
    | nil => simp [hcase] at houtput
    | cons first outputs =>
      rw [hcase, List.getElem?_cons_zero] at houtput
      exact ⟨outputs, by rw [Option.some.inj houtput]⟩
  have hlength : pset.inputs.length - 1 = inputs.length := by rw [hin, List.length_cons, Nat.add_sub_cancel]
  rw [hlength] at hinputs
  obtain ⟨funds, hfunds, hsum, hlt⟩ := addTreasuryInputs_ok inputs [stormInput] 0 total hin (by decide) hinputs
  rw [hout, List.tail_cons] at htally
  obtain ⟨hmembers, hmarkers, hreturned⟩ := tallyOutputs_ok outputs htally
  obtain ⟨hone, -, -⟩ := require_ok.mp hcounts
  obtain ⟨hsplit, hpos⟩ := exchangedAmount_ok hamount
  rw [Nat.zero_add] at hsum
  rw [hreturned, Nat.zero_add, hsum] at hsplit
  refine ⟨stormInput, inputs, stormOutput, outputs, funds, hin, hout, ⟨txout, htxout, hasset⟩, hkept.trans hasset,
    hcovenant.trans hscript, hfunds, hsum ▸ hlt, hmembers, ?_, hsplit, hpos⟩
  have hcount : 0 < outputs.countP fun output => (memberFromScript output.scriptPubkey).isSome := by
    rw [hone, Nat.zero_add] at hmarkers
    omega
  obtain ⟨output, hmem, hmarker⟩ := List.countP_pos_iff.mp hcount
  obtain ⟨member, hmember⟩ := Option.isSome_iff_exists.mp hmarker
  exact ⟨output, hmem, hmembers output hmem member hmember ▸ hmember⟩

end Layout

section Markers

theorem dedup_eq_singleton_iff {A : Type} [DecidableEq A] {list : List A} {a : A} :
    list.dedup = [a] ↔ a ∈ list ∧ ∀ b ∈ list, b = a := by
  constructor
  · intro h
    refine ⟨List.mem_dedup.mp (h ▸ List.mem_singleton_self a), fun b hb => ?_⟩
    have hmem := List.mem_dedup.mpr hb
    rw [h] at hmem
    exact List.mem_singleton.mp hmem
  · rintro ⟨ha, hall⟩
    refine List.perm_singleton.mp ((List.perm_ext_iff_of_nodup (List.nodup_dedup list) (List.nodup_singleton a)).mpr ?_)
    intro b
    rw [List.mem_dedup, List.mem_singleton]
    exact ⟨hall b, fun heq => heq ▸ ha⟩

theorem exchangeMember_some {outputs : List (ChainTxOut Bytes32)} {member : Bytes32} :
    exchangeMember outputs = some member ↔
      member ∈ outputs.filterMap marker ∧ ∀ other ∈ outputs.filterMap marker, other = member := by
  rw [← dedup_eq_singleton_iff]
  unfold exchangeMember
  split
  · next found heq => rw [heq, Option.some.injEq, List.cons.injEq, and_iff_left rfl]
  · next hne => exact ⟨fun h => (nomatch h), fun h => absurd h (hne member)⟩

variable {programs : ExchangePrograms} {stormEye : NetworkAsset Bytes32} {exchange : ValidatedExchange}
  {stormInput : PsetInput Bytes32} {inputs : List (PsetInput Bytes32)} {stormOutput : PsetOutput Bytes32}
  {outputs : List (PsetOutput Bytes32)} {funds : List ℕ}

/-- The indexer reads one member off the markers exactly when no recipient's script says otherwise. -/
theorem exchangeMember_iff (h : Accepted programs stormEye exchange stormInput inputs stormOutput outputs funds)
    {key : Bytes32} (hcovenant : stormEye.contractScript = taprootScript key) (member : Bytes32) :
    exchangeMember ((stormOutput :: outputs).map PsetOutput.toTxout) = some member ↔ member = exchange.member ∧
      ∀ output ∈ outputs, IsRecipient programs stormEye output →
        ∀ proposer, migratedMembersProposerFromScript output.scriptPubkey = some proposer → proposer = exchange.member := by
  have hstorm : marker stormOutput.toTxout = none := by
    apply marker_of_no_data
    change OpReturn.opReturnData stormOutput.scriptPubkey = none
    rw [h.covenant, hcovenant]
    exact opReturnData_taprootScript key
  have hmem : ∀ other, other ∈ ((stormOutput :: outputs).map PsetOutput.toTxout).filterMap marker ↔
      ∃ output ∈ outputs, marker output.toTxout = some other := by
    intro other
    rw [List.map_cons, List.filterMap_cons_none hstorm]
    simp [List.mem_filterMap]
  obtain ⟨marked, hmarked, hmarker⟩ := h.marked
  have hin : exchange.member ∈ ((stormOutput :: outputs).map PsetOutput.toTxout).filterMap marker :=
    (hmem exchange.member).mpr ⟨marked, hmarked, marker_of_member _ hmarker⟩
  rw [exchangeMember_some]
  constructor
  · rintro ⟨-, hall⟩
    have hmember := hall exchange.member hin
    refine ⟨hmember.symm, fun output houtput hrecipient proposer hproposer => ?_⟩
    have hother := hall proposer ((hmem proposer).mpr ⟨output, houtput, (marker_of_migrated _ hrecipient.1).trans hproposer⟩)
    exact hother.trans hmember.symm
  · rintro ⟨rfl, hrecipients⟩
    refine ⟨hin, fun other hother => ?_⟩
    obtain ⟨output, houtput, hother⟩ := (hmem other).mp hother
    cases hscript : memberFromScript output.scriptPubkey with
    | some found =>
      rw [marker_of_member output.toTxout hscript] at hother
      exact (Option.some.inj hother).symm.trans (h.members output houtput found hscript)
    | none =>
      rw [marker_of_migrated output.toTxout hscript] at hother
      -- Neither the Treasury's script nor the fee's is a marker, so what is left is a recipient's.
      refine hrecipients output houtput ⟨hscript, fun heq => ?_, fun heq => ?_⟩ other hother
      · have hnone := migratedMembersProposerFromScript_of_no_data
          (opReturnData_taprootScript (programs.treasuryKey stormEye.assetId))
        change migratedMembersProposerFromScript output.scriptPubkey = some other at hother
        rw [heq, treasuryScript, hnone] at hother
        cases hother
      · change migratedMembersProposerFromScript output.scriptPubkey = some other at hother
        rw [heq] at hother
        cases hother

end Markers

section Ledger

/-- The transaction that the PSET is finalised to. -/
structure Finalizes (pset : Pset Bytes32) (transaction : Transaction) : Prop where
  inputs : transaction.outpoints = pset.inputs.map PsetInput.outpoint
  outputs : transaction.output = pset.outputs.map PsetOutput.toTxout

def maxMoney : ℕ := 2100000000000000

/-- What consensus has of a transaction: distinct inputs, explicit values in the money range, and a number
of outputs that positions of 32 bits count. -/
structure Consensus (transaction : Transaction) : Prop where
  distinct : transaction.outpoints.Nodup
  money : ∀ output ∈ transaction.output, ∀ value, output.value = .explicit value → value ≤ maxMoney
  count : transaction.output.length ≤ 2 ^ 32

variable {Tx : Type}

/-- The ledger holds the Treasury outputs that the inputs spend, and none of the transaction yet. -/
structure Tracks (programs : ExchangePrograms) (stormEye : NetworkAsset Bytes32) (pset : Pset Bytes32)
    (transaction : Transaction) (store : DropletStore Bytes32 Tx) : Prop where
  spent : ∀ input ∈ pset.inputs, ∀ txout, input.witnessUtxo = some txout →
    (store.treasuryUtxos.lookup input.outpoint).map TreasuryUtxo.amount =
      treasuryOutputAmount (treasuryScript programs stormEye) programs.policyAsset txout
  unknown : ∀ index, (transaction.txid, index) ∉ store.treasuryUtxos

/-- The balance of the member, in columns that are `bigint`, covers the amount. -/
def Covers (store : DropletStore Bytes32 Tx) (member : Bytes32) (amount : ℕ) : Prop :=
  ∃ row, store.droplets.lookup member = some row ∧ amount ≤ row.amount ∧ row.amount < 2 ^ 63 ∧ row.deficit < 2 ^ 63

/-- The member pays the amount from its balance, and nobody else pays or gets anything. -/
structure Charged (member : Bytes32) (amount : ℕ) (s t : DropletStore Bytes32 Tx) : Prop where
  balance : ∃ row row', s.droplets.lookup member = some row ∧ t.droplets.lookup member = some row' ∧
    row'.amount + amount = row.amount ∧ row'.deficit = row.deficit
  others : ∀ other, other ≠ member → t.droplets.lookup other = s.droplets.lookup other

/-- Indexing the transaction succeeds and charges the exchange. -/
def Indexed (programs : ExchangePrograms) (stormEye : NetworkAsset Bytes32) (height : ℕ) (members : List Bytes32)
    (transaction : Transaction) (exchange : ValidatedExchange) (s : DropletStore Bytes32 Tx) : Prop :=
  ∃ readings t, treasuryTransactions (treasuryScript programs stormEye) programs.policyAsset [transaction] = .ok readings ∧
    (applyBlockIn height readings members).Returns s ⟨⟩ t ∧ Charged exchange.member exchange.amount s t

theorem debit_run {members : List Bytes32} {member : Bytes32} {spent output height : ℕ} {s : DropletStore Bytes32 Tx}
    (hmember : member ∈ members) (hle : output ≤ spent) (hheight : height < 2 ^ 63) (hcovers : Covers s member (spent - output)) :
    (debit members (some member) spent output height).Returns s ⟨⟩
      { s with droplets := s.droplets.insert member (debitedRow (s.droplets.lookup member) (spent - output) height) } := by
  obtain ⟨row, hrow, hamount, hlt, hdeficit⟩ := hcovers
  have hshort : spent - output - row.amount = 0 := Nat.sub_eq_zero_of_le hamount
  unfold debit
  simp only [hmember, not_true_eq_false, if_false, if_neg (Nat.not_lt.mpr hle), Db.returns_get_bind, hrow, debitedRow,
    Option.map_some, Option.getD_some, hshort, Nat.add_zero]
  rw [if_pos (by omega)]
  have hbalance : (encodeU64 (row.amount - (spent - output))).Returns s (row.amount - (spent - output)) s :=
    encodeU64_returns.mpr ⟨by omega, rfl, rfl⟩
  have hblock : (encodeU64 height).Returns s height s := encodeU64_returns.mpr ⟨hheight, rfl, rfl⟩
  have howed : (encodeU64 row.deficit).Returns s row.deficit s := encodeU64_returns.mpr ⟨hdeficit, rfl, rfl⟩
  exact Db.returns_bind.mpr ⟨_, s, hbalance, Db.returns_bind.mpr ⟨_, s, hblock,
    Db.returns_bind.mpr ⟨_, s, howed, Db.returns_set.mpr rfl⟩⟩⟩

theorem charged_debitedRow {member : Bytes32} {amount height : ℕ} {s t : DropletStore Bytes32 Tx}
    (hcovers : Covers s member amount)
    (ht : t.droplets = s.droplets.insert member (debitedRow (s.droplets.lookup member) amount height)) :
    Charged member amount s t := by
  obtain ⟨row, hrow, hle, -, -⟩ := hcovers
  refine ⟨⟨row, debitedRow (some row) amount height, hrow, ?_, ?_, ?_⟩, fun other hne => ?_⟩
  · rw [ht, AList.lookup_insert, hrow]
  · simp only [debitedRow, Option.map_some, Option.getD_some]
    omega
  · simp only [debitedRow, Option.map_some, Option.getD_some]
    omega
  · rw [ht, AList.lookup_insert_ne hne]

section Scan

variable {treasuryScript : List UInt8} {policyAsset : Bytes32}

theorem map_fst_deposits (outputs : List (ChainTxOut Bytes32)) :
    (deposits treasuryScript policyAsset outputs).map Prod.fst =
      outputs.filterMap (treasuryOutputAmount treasuryScript policyAsset) := by
  induction outputs with
  | nil => rfl
  | cons output outputs ih =>
    unfold deposits
    cases hamount : treasuryOutputAmount treasuryScript policyAsset output with
    | none =>
      rw [List.filterMap_cons_none hamount]
      exact ih
    | some amount => rw [List.filterMap_cons_some hamount, List.map_cons, ih]

theorem positions_scan (treasuryScript : List UInt8) (policyAsset : Bytes32) (outputs : List (ChainTxOut Bytes32)) (start : ℕ) :
    List.Sublist (((outputs.zipIdx start).filterMap (indexedOutput treasuryScript policyAsset)).map Prod.fst)
      (List.range' start outputs.length) := by
  induction outputs generalizing start with
  | nil => exact List.Sublist.refl _
  | cons output outputs ih =>
    rw [List.zipIdx_cons, List.length_cons, List.range'_succ]
    cases hamount : treasuryOutputAmount treasuryScript policyAsset output with
    | none =>
      have hindexed : indexedOutput treasuryScript policyAsset (output, start) = none := by
        rw [indexedOutput, hamount, Option.map_none]
      rw [List.filterMap_cons_none hindexed]
      exact (ih (start + 1)).cons _
    | some amount =>
      have hindexed : indexedOutput treasuryScript policyAsset (output, start) = some (start, amount) := by
        rw [indexedOutput, hamount, Option.map_some]
      rw [List.filterMap_cons_some hindexed, List.map_cons]
      exact (ih (start + 1)).cons_cons _

/-- What consensus has of a transaction is enough for the indexer to read it. -/
theorem treasuryTransaction_run (treasuryScript : List UInt8) (policyAsset : Bytes32) {transaction : Transaction} (hconsensus : Consensus transaction) :
    ∃ reading, treasuryTransaction treasuryScript policyAsset transaction = .ok reading ∧
      reading.txid = transaction.txid ∧ reading.exchangeMember = exchangeMember transaction.output ∧
        (reading.outputs.map Prod.fst).Nodup ∧ ∀ output ∈ reading.outputs, output.2 ≤ maxMoney := by
  have hpositions := positions_scan treasuryScript policyAsset transaction.output 0
  generalize hscan : transaction.output.zipIdx.filterMap (indexedOutput treasuryScript policyAsset) = scanned at hpositions
  have hindexes : ∀ output ∈ scanned, output.1 < 2 ^ 32 := by
    intro output houtput
    have hmem := hpositions.subset (List.mem_map_of_mem houtput)
    have hcount := hconsensus.count
    rw [List.mem_range'_1] at hmem
    omega
  refine ⟨⟨transaction.txid, transaction.outpoints, scanned, depositMember transaction.output scanned,
    exchangeMember transaction.output⟩, ?_, rfl, rfl, List.Nodup.sublist hpositions List.nodup_range', ?_⟩
  · unfold treasuryTransaction
    rw [hscan, mapM_requireIndex.mpr ⟨rfl, hindexes⟩]
    rfl
  · intro output houtput
    change output ∈ scanned at houtput
    rw [← hscan] at houtput
    obtain ⟨entry, hentry, hfound⟩ := List.mem_filterMap.mp houtput
    obtain ⟨amount, hamount, rfl⟩ := Option.map_eq_some_iff.mp hfound
    obtain ⟨-, -, hvalue⟩ := treasuryOutputAmount_some.mp hamount
    have hmem := List.fst_mem_of_mem_zipIdx hentry
    exact hconsensus.money entry.1 hmem amount hvalue

end Scan

section Agreement

variable {programs : ExchangePrograms} {stormEye : NetworkAsset Bytes32} {exchange : ValidatedExchange}
  {pset : Pset Bytes32} {transaction : Transaction} {s : DropletStore Bytes32 Tx}

/-- The inputs of the Treasury spend what funds the exchange. -/
theorem sum_funds {inputs : List (PsetInput Bytes32)} {funds : List ℕ}
    (hfunds : List.Forall₂ (Funds programs stormEye) inputs funds)
    (htracks : ∀ input ∈ inputs, ∀ txout, input.witnessUtxo = some txout →
      (s.treasuryUtxos.lookup input.outpoint).map TreasuryUtxo.amount =
        treasuryOutputAmount (treasuryScript programs stormEye) programs.policyAsset txout) :
    ((inputs.map PsetInput.outpoint).map fun outpoint =>
      ((s.treasuryUtxos.lookup outpoint).map TreasuryUtxo.amount).getD 0).sum = funds.sum := by
  induction hfunds with
  | nil => rfl
  | cons hfund _ ih =>
    obtain ⟨hfirst, hrest⟩ := List.forall_mem_cons.mp htracks
    obtain ⟨txout, hwitness, hamount⟩ := hfund
    rw [List.map_cons, List.map_cons, List.sum_cons, List.sum_cons, hfirst txout hwitness, hamount, Option.getD_some,
      ih hrest]

/-- What the ledger makes of a transaction that an accepted exchange is finalised to. -/
structure Read (programs : ExchangePrograms) (stormEye : NetworkAsset Bytes32) (exchange : ValidatedExchange)
    (transaction : Transaction) (s : DropletStore Bytes32 Tx) (height : ℕ) (reading : TreasuryTransaction Bytes32) : Prop where
  parsed : treasuryTransaction (treasuryScript programs stormEye) programs.policyAsset transaction = .ok reading
  insertable : Insertable s height reading
  amount : exchange.amount + reading.created = spentAmount s.treasuryUtxos reading.inputs
  member : reading.exchangeMember = exchangeMember transaction.output

theorem read_accepted {height : ℕ} (hheight : height < 2 ^ 63) {stormInput : PsetInput Bytes32}
    {inputs : List (PsetInput Bytes32)} {stormOutput : PsetOutput Bytes32} {outputs : List (PsetOutput Bytes32)} {funds : List ℕ}
    (hin : pset.inputs = stormInput :: inputs) (hout : pset.outputs = stormOutput :: outputs)
    (h : Accepted programs stormEye exchange stormInput inputs stormOutput outputs funds)
    (hasset : stormEye.assetId ≠ programs.policyAsset) (hfinal : Finalizes pset transaction)
    (hconsensus : Consensus transaction) (htracks : Tracks programs stormEye pset transaction s) :
    ∃ reading, Read programs stormEye exchange transaction s height reading := by
  obtain ⟨reading, hread, htxid, hmember, hpositions, hamounts⟩ :=
    treasuryTransaction_run (treasuryScript programs stormEye) programs.policyAsset hconsensus
  obtain ⟨hinputs, hcreated, -⟩ := treasuryTransaction_ok hread
  -- The Storm Eye is no output of the Treasury, neither the one spent nor the one left.
  have hforeign : ∀ txout : ChainTxOut Bytes32, txout.asset = .explicit stormEye.assetId →
      treasuryOutputAmount (treasuryScript programs stormEye) programs.policyAsset txout = none := by
    intro txout htxout
    by_contra hne
    obtain ⟨amount, hamount⟩ := Option.ne_none_iff_exists'.mp hne
    obtain ⟨-, hpolicy, -⟩ := treasuryOutputAmount_some.mp hamount
    rw [htxout, ChainField.explicit.injEq] at hpolicy
    exact hasset hpolicy
  have hspent : spentAmount s.treasuryUtxos reading.inputs = funds.sum := by
    rw [spentAmount_eq_sum (hinputs ▸ hconsensus.distinct), hinputs, hfinal.inputs, hin, List.map_cons, List.map_cons,
      List.sum_cons]
    have htail := sum_funds h.funded fun input hinput => htracks.spent input (hin ▸ List.mem_cons_of_mem stormInput hinput)
    obtain ⟨txout, hwitness, hstorm⟩ := h.spends
    have hhead := htracks.spent stormInput (hin ▸ List.mem_cons_self) txout hwitness
    rw [hforeign txout hstorm] at hhead
    rw [hhead, htail]
    exact Nat.zero_add _
  have hreturned : reading.created = ((outputs.map PsetOutput.toTxout).filterMap
      (treasuryOutputAmount (treasuryScript programs stormEye) programs.policyAsset)).sum := by
    rw [hcreated, Attribution.total, map_fst_deposits, hfinal.outputs, hout, List.map_cons,
      List.filterMap_cons_none (hforeign _ h.preserved)]
  have hamount : exchange.amount + reading.created = spentAmount s.treasuryUtxos reading.inputs := by
    rw [hspent, hreturned]
    exact h.amount
  have hlt := h.fundsLt
  rw [← hspent] at hlt
  refine ⟨reading, hread, ⟨hheight, hlt, by omega, hpositions, fun output houtput => ?_, fun output _ => ?_⟩, hamount, hmember⟩
  · have hmoney := hamounts output houtput
    unfold maxMoney at hmoney
    omega
  · rw [htxid]
    exact htracks.unknown output.1

theorem mem_sortedMembers {members : List Bytes32} {member : Bytes32} : member ∈ sortedMembers members ↔ member ∈ members := by
  unfold sortedMembers
  rw [List.mem_dedup, List.mem_insertionSort]

/-- The transaction charges the exchange exactly when its markers name one member. -/
theorem indexed_iff {height : ℕ} {members : List Bytes32} {reading : TreasuryTransaction Bytes32}
    (hread : Read programs stormEye exchange transaction s height reading) (hmember : exchange.member ∈ members)
    (hpos : 0 < exchange.amount) (hcovers : Covers s exchange.member exchange.amount)
    (hmarkers : ∀ member, exchangeMember transaction.output = some member → member = exchange.member) :
    Indexed programs stormEye height members transaction exchange s ↔
      exchangeMember transaction.output = some exchange.member := by
  have hreadings : treasuryTransactions (treasuryScript programs stormEye) programs.policyAsset [transaction] = .ok [reading] := by
    unfold treasuryTransactions
    rw [List.mapM_cons, hread.parsed]
    rfl
  have hne : members ≠ [] := List.ne_nil_of_mem hmember
  have hspent : spentAmount s.treasuryUtxos reading.inputs ≠ 0 := by
    have hamount := hread.amount
    omega
  have hturn : ∀ u (t : DropletStore Bytes32 Tx), (applyTransaction height (sortedMembers members) reading).Returns s u t ↔
      (debit (sortedMembers members) reading.exchangeMember (spentAmount s.treasuryUtxos reading.inputs)
        reading.created height).Returns (recorded s height reading) u t := by
    intro u t
    rw [applyTransaction_recorded hread.insertable, if_neg hspent]
  have hexchanged : spentAmount s.treasuryUtxos reading.inputs - reading.created = exchange.amount := by
    have hamount := hread.amount
    omega
  constructor
  · rintro ⟨readings, t, hfound, hblock, -⟩
    obtain rfl : [reading] = readings := Except.ok.inj (hreadings.symm.trans hfound)
    unfold applyBlockIn at hblock
    rw [if_neg hne] at hblock
    obtain ⟨u, t', hfirst, -⟩ := Db.returns_bind.mp hblock
    obtain ⟨member, -, hexchange, -, -⟩ := debit_returns ((hturn u t').mp hfirst)
    rw [hread.member] at hexchange
    rw [hexchange, hmarkers member hexchange]
  · intro hexchange
    have hcovers' : Covers (recorded s height reading) exchange.member
        (spentAmount s.treasuryUtxos reading.inputs - reading.created) := by
      rw [hexchanged]
      exact hcovers
    have hdebit := debit_run (mem_sortedMembers.mpr hmember) (by have := hread.amount; omega) hread.insertable.height hcovers'
    rw [hexchanged] at hdebit
    have hcharged : Charged exchange.member exchange.amount s { recorded s height reading with
        droplets := s.droplets.insert exchange.member
          (debitedRow (s.droplets.lookup exchange.member) exchange.amount height) } :=
      charged_debitedRow hcovers rfl
    refine ⟨[reading], _, hreadings, ?_, hcharged⟩
    unfold applyBlockIn
    rw [if_neg hne]
    refine Db.returns_bind.mpr ⟨⟨⟩, _, (hturn _ _).mpr ?_, Db.returns_pure.mpr ⟨rfl, rfl⟩⟩
    rw [hread.member, hexchange]
    exact hdebit

/-- A recipient's script that the indexer takes for something else. -/
def Misread (programs : ExchangePrograms) (stormEye : NetworkAsset Bytes32) (output : PsetOutput Bytes32) : Prop :=
  memberFromScript output.scriptPubkey ≠ none ∨ migratedMembersProposerFromScript output.scriptPubkey ≠ none ∨
    treasuryOutputAmount (treasuryScript programs stormEye) programs.policyAsset output.toTxout ≠ none

/-- The indexer charges every accepted exchange exactly when each migrated-members marker among the
recipients' scripts names the member itself, and reads no recipient as anything else exactly when there is no
such marker at all. -/
theorem exchange_indexed_iff {requestSigningHash : Bytes32} {expectedLeader : List UInt8} {height : ℕ} {key : Bytes32}
    {members : List Bytes32} (hvalid : validateLayout programs pset requestSigningHash expectedLeader stormEye = .ok exchange)
    (hcovenant : stormEye.contractScript = taprootScript key) (hasset : stormEye.assetId ≠ programs.policyAsset)
    (hfinal : Finalizes pset transaction) (hconsensus : Consensus transaction)
    (htracks : Tracks programs stormEye pset transaction s) (hheight : height < 2 ^ 63)
    (hmember : exchange.member ∈ members) (hcovers : Covers s exchange.member exchange.amount) :
    (Indexed programs stormEye height members transaction exchange s ↔
      ∀ output ∈ pset.outputs.tail, IsRecipient programs stormEye output →
        ∀ proposer, migratedMembersProposerFromScript output.scriptPubkey = some proposer → proposer = exchange.member) ∧
    ((Indexed programs stormEye height members transaction exchange s ∧
        ∀ output ∈ pset.outputs.tail, IsRecipient programs stormEye output → ¬Misread programs stormEye output) ↔
      ∀ output ∈ pset.outputs.tail, IsRecipient programs stormEye output →
        migratedMembersProposerFromScript output.scriptPubkey = none) := by
  obtain ⟨stormInput, inputs, stormOutput, outputs, funds, hin, hout, haccepted⟩ := validateLayout_ok hvalid
  obtain ⟨reading, hread⟩ := read_accepted (s := s) hheight hin hout haccepted hasset hfinal hconsensus htracks
  have hmarkers := exchangeMember_iff haccepted hcovenant
  rw [← hout, ← hfinal.outputs] at hmarkers
  have hindexed := indexed_iff hread hmember haccepted.pos hcovers fun member hfound => ((hmarkers member).mp hfound).1
  rw [hmarkers, and_iff_right rfl] at hindexed
  have htail : pset.outputs.tail = outputs := by rw [hout, List.tail_cons]
  rw [htail]
  refine ⟨hindexed, ?_⟩
  rw [hindexed]
  constructor
  · rintro ⟨-, hread⟩ output houtput hrecipient
    by_contra hmigrated
    exact hread output houtput hrecipient (Or.inr (Or.inl hmigrated))
  · intro hnone
    refine ⟨fun output houtput hrecipient proposer hproposer => ?_, fun output houtput hrecipient hmisread => ?_⟩
    · rw [hnone output houtput hrecipient] at hproposer
      cases hproposer
    · rcases hmisread with hfound | hfound | hfound
      · exact hfound hrecipient.1
      · exact hfound (hnone output houtput hrecipient)
      · exact hfound (treasuryOutputAmount_of_script hrecipient.2.1)

end Agreement

end Ledger

section Migration

def examplePrograms : ExchangePrograms where
  policyAsset := lbtc
  treasuryKey _ := Vector.replicate 32 3
  xOnlyPublicKey bytes := if bytes.length = 33 then some (toKey (bytes.drop 1)) else none
  signingHash _ _ := .ok zeroTweak

def exampleStormEye : NetworkAsset Bytes32 where
  kind := "storm-eye"
  name := "Storm Eye"
  assetId := Vector.replicate 32 4
  reissuanceTokenId := none
  entropy := none
  issuanceTxid := Vector.replicate 32 4
  contractScript := taprootScript (Vector.replicate 32 5)
  contractData := none
  supply := 10000
  createdAtBlock := 1

def leader : List UInt8 := 2 :: alice.toList

/-- An exchange of 600 out of 1000, with more outputs behind. -/
def exampleExchange (more : List (PsetOutput Bytes32)) : Pset Bytes32 where
  inputs := [
    .new ⟨(Vector.replicate 32 4, 0), exampleStormEye.assetId, 10000, exampleStormEye.contractScript⟩,
    .new ⟨(Vector.replicate 32 9, 0), lbtc, 1000, treasuryScript examplePrograms exampleStormEye⟩]
  outputs := [
    .new exampleStormEye.contractScript 10000 exampleStormEye.assetId,
    .new (taprootScript bob) 600 lbtc,
    .new (memberScript alice) 0 lbtc,
    .new (treasuryScript examplePrograms exampleStormEye) 400 lbtc] ++ more

/-- The transaction of an exchange. -/
def finalTransaction (pset : Pset Bytes32) : Transaction where
  txid := Vector.replicate 32 6
  input := pset.inputs.map fun input => ⟨input.outpoint, false, .null⟩
  output := pset.outputs.map PsetOutput.toTxout

def exampleLedger : DropletStore Bytes32 Unit where
  droplets := (∅ : Table Bytes32 (Droplet Unit)).insert alice ⟨700, 0, 3, true, some (), 600⟩
  treasuryUtxos := (∅ : Table (Bytes32 × ℕ) TreasuryUtxo).insert (Vector.replicate 32 9, 0) ⟨1000, 2⟩

theorem finalizes_finalTransaction (pset : Pset Bytes32) : Finalizes pset (finalTransaction pset) := by
  refine ⟨?_, rfl⟩
  unfold Transaction.outpoints finalTransaction
  rw [List.map_map]
  rfl

theorem tracks_exampleLedger (more : List (PsetOutput Bytes32)) : Tracks examplePrograms exampleStormEye
    (exampleExchange more) (finalTransaction (exampleExchange more)) exampleLedger := by
  constructor
  · intro input hinput txout hwitness
    rcases List.mem_cons.mp hinput with rfl | hinput
    · cases hwitness
      rfl
    · rw [List.mem_singleton.mp hinput] at hwitness ⊢
      cases hwitness
      rfl
  · intro index hmem
    rcases (AList.mem_insert _).mp hmem with heq | hempty
    · have htxid := (Prod.mk.injEq _ _ _ _ ▸ heq).1
      have hne : (Vector.replicate 32 6 : Bytes32) ≠ Vector.replicate 32 9 := by decide
      exact absurd htxid hne
    · exact absurd hempty (AList.notMem_empty _)

theorem covers_exampleLedger : Covers exampleLedger alice 600 :=
  ⟨⟨700, 0, 3, true, some (), 600⟩, rfl, by decide, by decide, by decide⟩

/-- Distinct inputs and amounts in range, whatever outputs of LBTC come behind. -/
theorem consensus_exampleExchange {more : List (PsetOutput Bytes32)} (hcount : more.length ≤ 8)
    (hmoney : ∀ output ∈ more, ∀ value, output.toTxout.value = .explicit value → value ≤ maxMoney) :
    Consensus (finalTransaction (exampleExchange more)) := by
  have hdistinct : [((Vector.replicate 32 4 : Bytes32), 0), (Vector.replicate 32 9, 0)].Nodup := by decide
  refine ⟨hdistinct, fun output houtput value hvalue => ?_, ?_⟩
  · obtain ⟨found, hfound, rfl⟩ := List.mem_map.mp houtput
    rcases List.mem_append.mp hfound with hfound | hfound
    · have hall : ∀ output ∈ (exampleExchange []).outputs, output.amountComm = none → ∀ amount ∈ output.amount, amount ≤ maxMoney := by
        decide
      obtain ⟨hplain, hamount⟩ := PsetOutput.toTxout_value.mp hvalue
      exact hall found (List.mem_append_left _ hfound) hplain value hamount
    · exact hmoney found hfound value hvalue
  · unfold finalTransaction exampleExchange
    simp only [List.length_map, List.length_append, List.length_cons, List.length_nil]
    omega

theorem validateLayout_example : validateLayout examplePrograms (exampleExchange []) zeroTweak leader exampleStormEye =
    .ok ⟨alice, 600⟩ := by
  rfl

theorem exchange_indexed_iff_example :
    (Indexed examplePrograms exampleStormEye 5 [alice, bob] (finalTransaction (exampleExchange [])) ⟨alice, 600⟩ exampleLedger ↔
      ∀ output ∈ (exampleExchange []).outputs.tail, IsRecipient examplePrograms exampleStormEye output →
        ∀ proposer, migratedMembersProposerFromScript output.scriptPubkey = some proposer → proposer = alice) ∧
    ((Indexed examplePrograms exampleStormEye 5 [alice, bob] (finalTransaction (exampleExchange [])) ⟨alice, 600⟩ exampleLedger ∧
        ∀ output ∈ (exampleExchange []).outputs.tail, IsRecipient examplePrograms exampleStormEye output →
          ¬Misread examplePrograms exampleStormEye output) ↔
      ∀ output ∈ (exampleExchange []).outputs.tail, IsRecipient examplePrograms exampleStormEye output →
        migratedMembersProposerFromScript output.scriptPubkey = none) :=
  exchange_indexed_iff validateLayout_example
    (rfl : exampleStormEye.contractScript = taprootScript (Vector.replicate 32 5)) (by decide)
    (finalizes_finalTransaction _) (consensus_exampleExchange (by decide) fun output houtput => absurd houtput List.not_mem_nil)
    (tracks_exampleLedger _) (by decide) (by decide) covers_exampleLedger

/-- `migratedMembersScript` of a migration to one member, which bob has proposed. -/
def migrationScript : List UInt8 :=
  OpReturn.newOpReturn (initialMembersMagic ++ [migratedMembersVersion] ++ OpReturn.bigEndian 2 1 ++ bob.toList ++ bob.toList)

def migrationExchange : Pset Bytes32 := exampleExchange [.new migrationScript 0 lbtc]

/-- An exchange with the marker of a migration among its recipients is accepted, and stops the ledger of
every node when it is indexed. -/
theorem migration_recipient_halts :
    validateLayout examplePrograms migrationExchange zeroTweak leader exampleStormEye = .ok ⟨alice, 600⟩ ∧
      Finalizes migrationExchange (finalTransaction migrationExchange) ∧ Consensus (finalTransaction migrationExchange) ∧
      Tracks examplePrograms exampleStormEye migrationExchange (finalTransaction migrationExchange) exampleLedger ∧
      Covers exampleLedger alice 600 ∧
      (∃ readings, treasuryTransactions (treasuryScript examplePrograms exampleStormEye) lbtc
          [finalTransaction migrationExchange] = .ok readings ∧
        ((applyBlockIn 5 readings [alice, bob]).exec exampleLedger).1 =
          .error (.invalid "Treasury spend has no member marker")) ∧
      ¬Indexed examplePrograms exampleStormEye 5 [alice, bob] (finalTransaction migrationExchange) ⟨alice, 600⟩ exampleLedger := by
  have hread : ∃ readings, treasuryTransactions (treasuryScript examplePrograms exampleStormEye) lbtc
      [finalTransaction migrationExchange] = .ok readings ∧
      ((applyBlockIn 5 readings [alice, bob]).exec exampleLedger).1 =
        .error (.invalid "Treasury spend has no member marker") := ⟨_, rfl, rfl⟩
  refine ⟨rfl, finalizes_finalTransaction _, consensus_exampleExchange (by decide) ?_, tracks_exampleLedger _,
    covers_exampleLedger, hread, ?_⟩
  · intro output houtput value hvalue
    rw [List.mem_singleton.mp houtput] at hvalue
    cases hvalue
    exact Nat.zero_le _
  · obtain ⟨readings, hreadings, herror⟩ := hread
    rintro ⟨found, t, hfound, hblock, -⟩
    obtain rfl : readings = found := Except.ok.inj (hreadings.symm.trans hfound)
    rw [hblock] at herror
    cases herror

end Migration

end ExchangeLayout

end PriceOracle
