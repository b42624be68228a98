import PriceOracle.VotingReshape

/-!
# What a signer of a vote accepts

The loops of `validate_layout` as facts about the transaction: the inputs with their amounts, the
outputs of the operation, and behind them one marker, one miner fee and what returns to the Treasury.
-/

namespace PriceOracle

section Loops

variable {A E : Type}

/-- A loop that adds an amount for every item. -/
theorem foldlM_sum {step : ℕ → A → Except E ℕ} {P : A → ℕ → Prop}
    (hstep : ∀ (total : ℕ) (a : A) (next : ℕ), step total a = .ok next → ∃ amount, next = total + amount ∧ P a amount)
    (items : List A) : ∀ {total next : ℕ}, items.foldlM step total = .ok next → ∃ pairs : List (A × ℕ),
      pairs.map Prod.fst = items ∧ next = total + (pairs.map Prod.snd).sum ∧ ∀ pair ∈ pairs, P pair.1 pair.2 := by
  induction items with
  | nil =>
    rintro total next ⟨⟩
    exact ⟨[], rfl, rfl, fun _ h => absurd h List.not_mem_nil⟩
  | cons a items ih =>
    intro total next h
    rw [List.foldlM_cons] at h
    obtain ⟨middle, hmiddle, h⟩ := Db.except_bind_ok.mp h
    obtain ⟨amount, rfl, hamount⟩ := hstep total a middle hmiddle
    obtain ⟨pairs, rfl, rfl, hpairs⟩ := ih h
    refine ⟨(a, amount) :: pairs, rfl, ?_, ?_⟩
    · rw [List.map_cons, List.sum_cons, Nat.add_assoc]
    · intro pair hpair
      rcases List.mem_cons.mp hpair with rfl | hpair
      · exact hamount
      · exact hpairs pair hpair

/-- The loop runs through when every step does. -/
theorem foldlM_sum_ok {step : ℕ → A → Except E ℕ} {P : A → ℕ → Prop}
    (hstep : ∀ (total : ℕ) (a : A) (amount : ℕ), P a amount → total + amount < 2 ^ 64 →
      step total a = .ok (total + amount)) (pairs : List (A × ℕ)) :
    ∀ total : ℕ, (∀ pair ∈ pairs, P pair.1 pair.2) → total + (pairs.map Prod.snd).sum < 2 ^ 64 →
      (pairs.map Prod.fst).foldlM step total = .ok (total + (pairs.map Prod.snd).sum) := by
  induction pairs with
  | nil => exact fun _ _ _ => rfl
  | cons pair pairs ih =>
    intro total hpairs hbound
    rw [List.map_cons, List.sum_cons, ← Nat.add_assoc] at hbound
    rw [List.map_cons, List.foldlM_cons, hstep total pair.1 pair.2 (hpairs pair List.mem_cons_self) (by omega)]
    rw [List.map_cons, List.sum_cons, ← Nat.add_assoc]
    exact ih _ (fun other hother => hpairs other (List.mem_cons_of_mem _ hother)) hbound

end Loops

namespace VotingReshape

variable {W : Type}

section Helpers

theorem helper_ok {A : Type} {result : Except String A} {a : A} : helper result = .ok a ↔ result = .ok a :=
  mapError_ok

theorem addAmount_ok {total amount next : ℕ} {message : String} :
    addAmount total amount message = .ok next ↔ next = total + amount ∧ total + amount < 2 ^ 64 := by
  unfold addAmount
  split_ifs with hfits
  · exact ⟨fun h => ⟨(Except.ok.inj h).symm, hfits⟩, fun h => by rw [h.1]⟩
  · exact ⟨fun h => absurd h (by simp), fun h => absurd h.2 hfits⟩

/-- A fully explicit output is on the chain what `PartialOutput::new` makes of its fields. -/
theorem toTxout_of_isFullyExplicit {output : PsetOutput W} {asset : W} {amount : ℕ} (h : output.isFullyExplicit = true)
    (hasset : output.asset = some asset) (hamount : output.amount = some amount) :
    output.toTxout = (PsetOutput.new output.scriptPubkey amount asset).toTxout := by
  unfold PsetOutput.isFullyExplicit at h
  simp only [Bool.and_eq_true, Option.isNone_iff_eq_none] at h
  obtain ⟨⟨⟨⟨⟨⟨⟨⟨⟨-, hamountComm⟩, hassetComm⟩, hrangeproof⟩, hsurjection⟩, -⟩, hecdh⟩, -⟩, -⟩, -⟩ := h
  unfold PsetOutput.toTxout PsetOutput.new
  rw [hamountComm, hassetComm, hrangeproof, hsurjection, hecdh, hasset, hamount]

end Helpers

variable [LinearOrder W] {programs : VotingPrograms W} {view : VotingView W} {pset : Pset W} {stormEye : NetworkAsset W}
  {allowSpent : Bool}

section Inputs

/-- An outpoint holds an explicit amount of an asset at a script. -/
def Holds (view : VotingView W) (allowSpent : Bool) (asset : W) (script : List UInt8) (outpoint : W × ℕ)
    (amount : ℕ) : Prop :=
  ∃ txout, votingInput view outpoint allowSpent = .ok txout ∧ txout.asset = .explicit asset ∧
    txout.value = .explicit amount ∧ txout.scriptPubkey = script

theorem checkInput_ok {input : PsetInput W} {index amount : ℕ} {asset : W} {script : List UInt8}
    {mismatch confidential : String} :
    checkInput view pset allowSpent input index asset script mismatch confidential = .ok amount ↔
      ∃ txout, pset.witnessUtxo index = .ok txout ∧ votingInput view input.outpoint allowSpent = .ok txout ∧
        txout.asset = .explicit asset ∧ txout.value = .explicit amount ∧ txout.scriptPubkey = script := by
  unfold checkInput
  constructor
  · intro h
    obtain ⟨witness, hwitness, h⟩ := Db.except_bind_ok.mp h
    obtain ⟨previous, hprevious, h⟩ := Db.except_bind_ok.mp h
    obtain ⟨hchecked, h⟩ := then_ok.mp h
    obtain ⟨rfl, hasset, hscript⟩ := require_ok.mp hchecked
    cases hvalue : witness.value.getExplicit with
    | none =>
      rw [hvalue] at h
      cases h
    | some value =>
      rw [hvalue] at h
      cases h
      exact ⟨witness, helper_ok.mp hwitness, hprevious, ChainField.getExplicit_eq_some.mp hasset,
        ChainField.getExplicit_eq_some.mp hvalue, hscript⟩
  · rintro ⟨txout, hwitness, hprevious, hasset, hvalue, hscript⟩
    refine Db.except_bind_ok.mpr ⟨txout, helper_ok.mpr hwitness, Db.except_bind_ok.mpr ⟨txout, hprevious, ?_⟩⟩
    refine then_ok.mpr ⟨require_ok.mpr ⟨rfl, ChainField.getExplicit_eq_some.mpr hasset, hscript⟩, ?_⟩
    rw [hvalue]
    rfl

/-- What the check of a Storm Eye input establishes. -/
def StormEyeInput (view : VotingView W) (pset : Pset W) (stormEye : NetworkAsset W) (allowSpent : Bool)
    (expected : (W × ℕ) × ℕ) (amount : ℕ) : Prop :=
  ∃ input, pset.inputs[expected.2]? = some input ∧ input.outpoint = expected.1 ∧
    Holds view allowSpent stormEye.assetId stormEye.contractScript expected.1 amount

theorem addStormEyeInput_ok (total : ℕ) (expected : (W × ℕ) × ℕ) (next : ℕ)
    (h : addStormEyeInput view pset stormEye allowSpent total expected = .ok next) :
    ∃ amount, next = total + amount ∧ StormEyeInput view pset stormEye allowSpent expected amount := by
  unfold addStormEyeInput at h
  cases hinput : pset.inputs[expected.2]? with
  | none =>
    rw [hinput] at h
    cases h
  | some input =>
    rw [hinput] at h
    dsimp only at h
    obtain ⟨houtpoint, h⟩ := then_ok.mp h
    obtain ⟨amount, hamount, h⟩ := Db.except_bind_ok.mp h
    obtain ⟨txout, -, hprevious, hheld⟩ := checkInput_ok.mp hamount
    have houtpoint := require_ok.mp houtpoint
    rw [houtpoint] at hprevious
    exact ⟨amount, (addAmount_ok.mp h).1, input, hinput, houtpoint, txout, hprevious, hheld⟩

/-- What the check of a Treasury input establishes. -/
def TreasuryInput (programs : VotingPrograms W) (view : VotingView W) (stormEye : NetworkAsset W)
    (allowSpent allowUnindexed : Bool) (outpoint : W × ℕ) (amount : ℕ) : Prop :=
  (allowUnindexed = true ∨ outpoint ∈ view.indexedTreasury.map Prod.fst) ∧
    Holds view allowSpent programs.policyAsset (treasuryScript programs stormEye) outpoint amount

theorem addTreasuryInput_ok {allowUnindexed : Bool} (total : ℕ) (item : PsetInput W × ℕ) (next : ℕ)
    (h : addTreasuryInput programs view pset stormEye allowSpent allowUnindexed total item = .ok next) :
    ∃ amount, next = total + amount ∧
      TreasuryInput programs view stormEye allowSpent allowUnindexed item.1.outpoint amount := by
  unfold addTreasuryInput at h
  obtain ⟨hindexed, h⟩ := then_ok.mp h
  obtain ⟨amount, hamount, h⟩ := Db.except_bind_ok.mp h
  obtain ⟨txout, -, hprevious, hheld⟩ := checkInput_ok.mp hamount
  exact ⟨amount, (addAmount_ok.mp h).1, require_ok.mp hindexed, txout, hprevious, hheld⟩

end Inputs

section Outputs

variable {operation : ReshapeOperation W} {proposer : Bytes32} {fee : ℕ}

/-- The marker script of a member update. -/
def membersMarker (proposer : Bytes32) : ReshapeOperation W → Option (List UInt8)
  | .updateMembers members _ =>
    match migratedMembersScript members proposer with
    | .ok script => some script
    | .error _ => none
  | _ => none

omit [LinearOrder W] in
theorem isMembersMarker_ok {amount : ℕ} {script : List UInt8} {answer : Bool}
    (h : isMembersMarker proposer amount script operation = .ok answer) :
    answer = true → amount = 0 ∧ membersMarker proposer operation = some script := by
  rintro rfl
  cases operation with
  | merge outpoints => cases h
  | split outpoint count => cases h
  | updateMembers members newRoot =>
    unfold isMembersMarker at h
    dsimp only at h
    by_cases hzero : amount = 0
    · rw [if_pos hzero] at h
      obtain ⟨marker, hmarker, h⟩ := Db.except_bind_ok.mp h
      have heq : marker = script := of_decide_eq_true (Except.ok.inj h)
      refine ⟨hzero, ?_⟩
      unfold membersMarker
      dsimp only
      rw [hmarker, heq]
    · rw [if_neg hzero] at h
      cases h

/-- An output of the policy asset. -/
def lbtc (programs : VotingPrograms W) (script : List UInt8) (amount : ℕ) : ChainTxOut W :=
  (PsetOutput.new script amount programs.policyAsset).toTxout

/-- One output is a change, a member marker, a marker of a member update, or the fee. -/
theorem tallyOutput_ok {tally next : VotingTally} {output : PsetOutput W}
    (h : tallyOutput programs stormEye operation proposer fee tally output = .ok next) :
    (∃ amount, output.toTxout = lbtc programs (treasuryScript programs stormEye) amount ∧
        next = { tally with treasuryReturn := tally.treasuryReturn + amount }) ∨
      (output.toTxout = lbtc programs (Markers.memberScript proposer) 0 ∧
        next = { tally with markers := tally.markers + 1 }) ∨
      (∃ script, membersMarker proposer operation = some script ∧ output.toTxout = lbtc programs script 0 ∧
        next = { tally with markers := tally.markers + 1, membersMarkers := tally.membersMarkers + 1 }) ∨
      (output.toTxout = lbtc programs [] fee ∧ next = { tally with fees := tally.fees + 1 }) := by
  unfold tallyOutput at h
  obtain ⟨hexplicit, h⟩ := then_ok.mp h
  obtain ⟨hexplicit, hasset⟩ := require_ok.mp hexplicit
  cases hamount : output.amount with
  | none =>
    rw [hamount] at h
    cases h
  | some amount =>
    rw [hamount] at h
    dsimp only at h
    have htxout : output.toTxout = lbtc programs output.scriptPubkey amount :=
      toTxout_of_isFullyExplicit hexplicit hasset hamount
    by_cases htreasury : output.scriptPubkey = treasuryScript programs stormEye
    · rw [if_pos htreasury] at h
      obtain ⟨total, htotal, h⟩ := Db.except_bind_ok.mp h
      cases h
      rw [(addAmount_ok.mp htotal).1]
      exact .inl ⟨amount, by rw [htxout, htreasury], rfl⟩
    · rw [if_neg htreasury] at h
      by_cases hmember : output.scriptPubkey = Markers.memberScript proposer ∧ amount = 0
      · rw [if_pos hmember] at h
        cases h
        exact .inr (.inl ⟨by rw [htxout, hmember.1, hmember.2], rfl⟩)
      · rw [if_neg hmember] at h
        obtain ⟨migrated, hmigrated, h⟩ := Db.except_bind_ok.mp h
        by_cases hmarker : migrated = true
        · rw [if_pos hmarker] at h
          cases h
          obtain ⟨hzero, hscript⟩ := isMembersMarker_ok hmigrated hmarker
          exact .inr (.inr (.inl ⟨_, hscript, by rw [htxout, hzero], rfl⟩))
        · rw [if_neg hmarker] at h
          by_cases hfee : output.scriptPubkey = [] ∧ amount = fee
          · rw [if_pos hfee] at h
            cases h
            exact .inr (.inr (.inr ⟨by rw [htxout, hfee.1, hfee.2], rfl⟩))
          · rw [if_neg hfee] at h
            cases h

/-- The outputs behind the Storm Eyes, sorted by what the validator takes them for. -/
theorem tallyOutputs_ok (outputs : List (PsetOutput W)) : ∀ {tally last : VotingTally},
    outputs.foldlM (tallyOutput programs stormEye operation proposer fee) tally = .ok last →
      ∃ (members migrated fees : ℕ) (changes : List ℕ),
        last = ⟨tally.markers + members + migrated, tally.membersMarkers + migrated, tally.fees + fees,
          tally.treasuryReturn + changes.sum⟩ ∧
        (migrated = 0 ∨ (membersMarker proposer operation).isSome) ∧
        (outputs.map PsetOutput.toTxout).Perm (List.replicate members (lbtc programs (Markers.memberScript proposer) 0) ++
          (List.replicate migrated (lbtc programs ((membersMarker proposer operation).getD []) 0) ++
            (List.replicate fees (lbtc programs [] fee) ++
              changes.map (lbtc programs (treasuryScript programs stormEye))))) := by
  induction outputs with
  | nil =>
    rintro tally last ⟨⟩
    exact ⟨0, 0, 0, [], rfl, .inl rfl, List.Perm.refl _⟩
  | cons output outputs ih =>
    intro tally last h
    rw [List.foldlM_cons] at h
    obtain ⟨next, hnext, h⟩ := Db.except_bind_ok.mp h
    obtain ⟨members, migrated, fees, changes, rfl, hsome, hperm⟩ := ih h
    rw [List.map_cons]
    rcases tallyOutput_ok hnext with ⟨amount, htxout, rfl⟩ | ⟨htxout, rfl⟩ | ⟨script, hscript, htxout, rfl⟩ | ⟨htxout, rfl⟩
    · refine ⟨members, migrated, fees, amount :: changes, ?_, hsome, ?_⟩
      · rw [List.sum_cons, ← Nat.add_assoc]
      · rw [htxout, List.map_cons]
        refine (hperm.cons _).trans ?_
        rw [← List.append_assoc, ← List.append_assoc, ← List.append_assoc, ← List.append_assoc]
        exact List.perm_middle.symm
    · refine ⟨members + 1, migrated, fees, changes, ?_, hsome, ?_⟩
      · rw [VotingTally.mk.injEq]
        refine ⟨?_, rfl, rfl, rfl⟩
        dsimp only
        omega
      · rw [htxout, List.replicate_succ]
        exact hperm.cons _
    · refine ⟨members, migrated + 1, fees, changes, ?_, .inr (by rw [hscript]; rfl), ?_⟩
      · rw [VotingTally.mk.injEq]
        refine ⟨?_, ?_, rfl, rfl⟩
        · dsimp only
          omega
        · dsimp only
          omega
      · rw [htxout, List.replicate_succ, hscript, Option.getD_some]
        rw [hscript, Option.getD_some] at hperm
        exact (hperm.cons _).trans List.perm_middle.symm
    · refine ⟨members, migrated, fees + 1, changes, ?_, hsome, ?_⟩
      · rw [VotingTally.mk.injEq]
        refine ⟨rfl, rfl, ?_, rfl⟩
        dsimp only
        omega
      · rw [htxout, List.replicate_succ]
        exact (hperm.cons _).trans (List.perm_middle.symm.trans (List.perm_middle.symm.append_left _))

end Outputs

section Soundness

/-- The parts of the transaction of a vote: inputs with their amounts, the script of the Storm Eyes it leaves,
and behind them the script of the marker and the amounts that return to the Treasury. -/
structure ReshapeParts (W : Type) where
  stormEyes : List ((W × ℕ) × ℕ)
  treasury : List ((W × ℕ) × ℕ)
  destination : List UInt8
  marker : List UInt8
  changes : List ℕ
  rest : List (ChainTxOut W)

/-- The Storm Eyes of an operation. A member update moves all live ones; where spent inputs are allowed and none
is live, any. -/
inductive OperationInputs (view : VotingView W) (stormEye : NetworkAsset W) (allowSpent : Bool) :
    ReshapeOperation W → List (W × ℕ) → Prop
  | merge (outpoints : List (W × ℕ)) : OperationInputs view stormEye allowSpent (.merge outpoints) outpoints
  | split (outpoint : W × ℕ) (count : ℕ) : OperationInputs view stormEye allowSpent (.split outpoint count) [outpoint]
  | live {members : List Bytes32} {newRoot : W} {utxos : List (Utxo W)} (hscan : scanStormEyeUtxos view stormEye = .ok utxos) :
    OperationInputs view stormEye allowSpent (.updateMembers members newRoot) (utxos.map Utxo.outpoint)
  | spent {members : List Bytes32} {newRoot : W} (outpoints : List (W × ℕ)) (hallowed : allowSpent = true)
    (hscan : scanStormEyeUtxos view stormEye = .error (.invalid "network has no live Storm Eye UTXOs to migrate")) :
    OperationInputs view stormEye allowSpent (.updateMembers members newRoot) outpoints

/-- The amounts that an operation makes of those of its Storm Eyes: one, equal shares, or the same again. -/
def reshapedAmounts : ReshapeOperation W → List ℕ → List ℕ
  | .merge _, amounts => [amounts.sum]
  | .split _ count, amounts => FairDivision.shares amounts.sum count
  | .updateMembers _ _, amounts => amounts

/-- The script that names the proposer, for a member update along with the members there are afterwards. -/
def Marks (operation : ReshapeOperation W) (proposer : Bytes32) (script : List UInt8) : Prop :=
  match operation with
  | .updateMembers members _ => migratedMembersScript members proposer = .ok script
  | _ => script = Markers.memberScript proposer

/-- What an approved operation may do. -/
structure SoundReshape (programs : VotingPrograms W) (view : VotingView W) (stormEye : NetworkAsset W)
    (operation : ReshapeOperation W) (proposer : Bytes32) (allowSpent allowUnindexed : Bool) (tx : ChainTx W)
    (parts : ReshapeParts W) : Prop where
  inputs : tx.inputs = parts.stormEyes.map Prod.fst ++ parts.treasury.map Prod.fst
  approved : OperationInputs view stormEye allowSpent operation (parts.stormEyes.map Prod.fst)
  stormEyes : ∀ input ∈ parts.stormEyes, Holds view allowSpent stormEye.assetId stormEye.contractScript input.1 input.2
  treasury : ∀ input ∈ parts.treasury, TreasuryInput programs view stormEye allowSpent allowUnindexed input.1 input.2
  outputs : tx.outputs = (reshapedAmounts operation (parts.stormEyes.map Prod.snd)).map (fun amount =>
    (PsetOutput.new parts.destination amount stormEye.assetId).toTxout) ++ parts.rest
  destination : destinationScript programs stormEye operation = .ok parts.destination
  kept : (reshapedAmounts operation (parts.stormEyes.map Prod.snd)).sum = (parts.stormEyes.map Prod.snd).sum
  rest : parts.rest.Perm (lbtc programs parts.marker 0 :: lbtc programs [] view.transactionFeeSats ::
    parts.changes.map (lbtc programs (treasuryScript programs stormEye)))
  marker : Marks operation proposer parts.marker
  fee : (parts.treasury.map Prod.snd).sum = parts.changes.sum + view.transactionFeeSats

omit [LinearOrder W] in
/-- No operation changes what the Storm Eyes hold together. -/
theorem sum_reshapedAmounts {operation : ReshapeOperation W} (amounts : List ℕ)
    (hcount : ∀ outpoint count, operation = .split outpoint count → 0 < count) :
    (reshapedAmounts operation amounts).sum = amounts.sum := by
  cases operation with
  | merge outpoints => exact List.sum_singleton
  | split outpoint count => exact FairDivision.sum_shares _ (hcount outpoint count rfl)
  | updateMembers members newRoot => rfl

omit [LinearOrder W] in
theorem length_reshapedAmounts (operation : ReshapeOperation W) (amounts : List ℕ) :
    (reshapedAmounts operation amounts).length = splitCount amounts.length operation := by
  cases operation with
  | merge outpoints => rfl
  | split outpoint count => exact FairDivision.length_shares _ _
  | updateMembers members newRoot => rfl

/-- A merge takes two or three Storm Eyes, a split makes as many. -/
def Bounded : ReshapeOperation W → Prop
  | .merge outpoints => 2 ≤ outpoints.length ∧ outpoints.length ≤ maxReshapeCount
  | .split _ count => 2 ≤ count ∧ count ≤ maxReshapeCount
  | .updateMembers _ _ => True

omit [LinearOrder W] in
theorem decodeOperation_bounded {message : Bytes} {currentMembers : List Bytes32} {operation : ReshapeOperation W}
    (h : decodeOperation programs message currentMembers = .ok operation) : Bounded operation := by
  unfold decodeOperation at h
  obtain ⟨decodedMessage, -, h⟩ := Db.except_bind_ok.mp h
  obtain ⟨request, -, h⟩ := Db.except_bind_ok.mp h
  cases hkind : NetworkVoteKind.fromId request.kind with
  | none =>
    rw [hkind] at h
    cases h
  | some kind =>
    rw [hkind] at h
    cases kind with
    | mergeStormEyes =>
      obtain ⟨merge, -, h⟩ := Db.except_bind_ok.mp h
      obtain ⟨-, h⟩ := then_ok.mp h
      obtain ⟨hbounds, h⟩ := then_ok.mp h
      cases h
      have hbounds := require_ok.mp hbounds
      rw [← List.length_map (outpoint programs)] at hbounds
      exact hbounds
    | splitStormEye =>
      obtain ⟨split, -, h⟩ := Db.except_bind_ok.mp h
      obtain ⟨-, h⟩ := then_ok.mp h
      obtain ⟨hbounds, h⟩ := then_ok.mp h
      cases h
      have hbounds := require_ok.mp hbounds
      exact hbounds
    | updateNetworkMembers =>
      obtain ⟨update, -, h⟩ := Db.except_bind_ok.mp h
      obtain ⟨kept, -, h⟩ := Db.except_bind_ok.mp h
      obtain ⟨members, -, h⟩ := Db.except_bind_ok.mp h
      obtain ⟨newRoot, -, h⟩ := Db.except_bind_ok.mp h
      cases h
      exact trivial

omit [LinearOrder W] in
/-- A decoded split has two or three parts. -/
theorem decodeOperation_split {message : Bytes} {currentMembers : List Bytes32} {operation : ReshapeOperation W}
    (h : decodeOperation programs message currentMembers = .ok operation) {outpoint : W × ℕ} {count : ℕ}
    (hsplit : operation = .split outpoint count) : 2 ≤ count ∧ count ≤ maxReshapeCount := by
  have hbounded := decodeOperation_bounded h
  rwa [hsplit] at hbounded

theorem expectedOutpoints_ok {operation : ReshapeOperation W} {outpoints : List (W × ℕ)}
    (h : expectedOutpoints view pset stormEye allowSpent operation = .ok outpoints) :
    OperationInputs view stormEye allowSpent operation outpoints := by
  cases operation with
  | merge merged =>
    cases h
    exact .merge _
  | split outpoint count =>
    cases h
    exact .split _ _
  | updateMembers members newRoot =>
    unfold expectedOutpoints at h
    obtain ⟨live, hlive, h⟩ := Db.except_bind_ok.mp h
    unfold updateOutpoints at hlive
    cases hscan : scanStormEyeUtxos view stormEye with
    | ok utxos =>
      rw [hscan] at hlive
      cases hlive
      by_cases hnone : allowSpent = true ∧ utxos.map Utxo.outpoint = []
      · -- A scan never succeeds without a Storm Eye.
        unfold scanStormEyeUtxos at hscan
        obtain ⟨unspents, -, hscan⟩ := Db.except_bind_ok.mp hscan
        obtain ⟨found, -, hscan⟩ := Db.except_bind_ok.mp hscan
        obtain ⟨hsome, hscan⟩ := then_ok.mp hscan
        cases hscan
        have hlength := congrArg List.length hnone.2
        rw [List.length_map, (List.perm_insertionSort _ _).length_eq] at hlength
        exact absurd (List.length_eq_zero_iff.mp hlength) (require_ok.mp hsome)
      · rw [if_neg hnone] at h
        cases h
        exact .live hscan
    | error error =>
      rw [hscan] at hlive
      dsimp only at hlive
      by_cases hallowed : allowSpent = true ∧ error = .invalid "network has no live Storm Eye UTXOs to migrate"
      · obtain ⟨hallowed, rfl⟩ := hallowed
        exact .spent outpoints hallowed hscan
      · rw [if_neg hallowed] at hlive
        cases hlive

omit [LinearOrder W] in
theorem Holds.amount_eq {asset : W} {script : List UInt8} {outpoint : W × ℕ} {amount : ℕ}
    (h : Holds view allowSpent asset script outpoint amount) {txout : ChainTxOut W}
    (htxout : votingInput view outpoint allowSpent = .ok txout) : txout.value.getExplicit = some amount := by
  obtain ⟨held, hheld, -, hamount, -⟩ := h
  rw [htxout] at hheld
  cases hheld
  exact ChainField.getExplicit_eq_some.mpr hamount

omit [LinearOrder W] in
/-- The amounts that a signer expects are those the operation makes. -/
theorem expectedAmount_ok {operation : ReshapeOperation W} {stormEyes : List ((W × ℕ) × ℕ)} {index expected : ℕ}
    (hheld : ∀ input ∈ stormEyes, Holds view allowSpent stormEye.assetId stormEye.contractScript input.1 input.2)
    (hindex : index < splitCount stormEyes.length operation)
    (h : expectedAmount view allowSpent operation (stormEyes.map Prod.fst) (stormEyes.map Prod.snd).sum
      (splitCount stormEyes.length operation) index = .ok expected) :
    (reshapedAmounts operation (stormEyes.map Prod.snd))[index]? = some expected := by
  cases operation with
  | merge outpoints =>
    obtain rfl : index = 0 := Nat.lt_one_iff.mp hindex
    cases h
    simp [FairDivision.share, splitCount, reshapedAmounts, Nat.mod_one]
  | split outpoint count =>
    cases h
    have hrange : index < count := hindex
    rw [reshapedAmounts, FairDivision.shares, List.getElem?_map, List.getElem?_range hrange, Option.map_some]
    rfl
  | updateMembers members newRoot =>
    unfold expectedAmount at h
    dsimp only at h
    rw [List.getElem?_map] at h
    rw [reshapedAmounts, List.getElem?_map]
    cases hinput : stormEyes[index]? with
    | none =>
      rw [hinput] at h
      cases h
    | some input =>
      rw [hinput] at h
      dsimp only [Option.map_some] at h
      obtain ⟨previous, hprevious, h⟩ := Db.except_bind_ok.mp h
      rw [(hheld input (List.mem_of_getElem? hinput)).amount_eq hprevious] at h
      cases h
      rfl

omit [LinearOrder W] in
/-- A marker count of one, of the kind the operation asks for. -/
theorem marks_of_counts {operation : ReshapeOperation W} {proposer : Bytes32} {members migrated : ℕ}
    (hmarkers : members + migrated = 1) (hmigrated : migrated = expectedMembersMarkers operation)
    (hsome : migrated = 0 ∨ (membersMarker proposer operation).isSome) :
    ∃ script, Marks operation proposer script ∧
      List.replicate members (lbtc programs (Markers.memberScript proposer) 0) ++
        List.replicate migrated (lbtc programs ((membersMarker proposer operation).getD []) 0) =
      [lbtc programs script 0] := by
  have hmember (hzero : expectedMembersMarkers operation = 0)
      (hmarks : Marks operation proposer (Markers.memberScript proposer)) :
      ∃ script, Marks operation proposer script ∧
        List.replicate members (lbtc programs (Markers.memberScript proposer) 0) ++
          List.replicate migrated (lbtc programs ((membersMarker proposer operation).getD []) 0) =
        [lbtc programs script 0] := by
    obtain rfl : migrated = 0 := hmigrated.trans hzero
    obtain rfl : members = 1 := hmarkers
    exact ⟨_, hmarks, rfl⟩
  cases operation with
  | merge outpoints => exact hmember rfl rfl
  | split outpoint count => exact hmember rfl rfl
  | updateMembers nextMembers newRoot =>
    obtain rfl : migrated = 1 := hmigrated
    obtain rfl : members = 0 := by omega
    obtain ⟨script, hscript⟩ := Option.isSome_iff_exists.mp (hsome.resolve_left one_ne_zero)
    refine ⟨script, ?_, by rw [hscript]; rfl⟩
    unfold membersMarker at hscript
    dsimp only at hscript
    cases hmarker : migratedMembersScript nextMembers proposer with
    | error error =>
      rw [hmarker] at hscript
      cases hscript
    | ok marker =>
      rw [hmarker] at hscript
      cases hscript
      exact hmarker

omit [LinearOrder W] in
/-- The Storm Eye inputs stand first, in the order of the expected outpoints. -/
theorem take_inputs {outpoints : List (W × ℕ)}
    (hinputs : ∀ (i : ℕ) (outpoint : W × ℕ), outpoints[i]? = some outpoint →
      ∃ input, pset.inputs[i]? = some input ∧ input.outpoint = outpoint) :
    (pset.inputs.take outpoints.length).map PsetInput.outpoint = outpoints := by
  apply List.ext_getElem?
  intro i
  rw [List.getElem?_map]
  cases houtpoint : outpoints[i]? with
  | none =>
    rw [List.getElem?_eq_none_iff] at houtpoint
    have hnone : (pset.inputs.take outpoints.length)[i]? = none := by
      rw [List.getElem?_eq_none_iff, List.length_take]
      omega
    rw [hnone]
    rfl
  | some outpoint =>
    obtain ⟨input, hinput, rfl⟩ := hinputs i outpoint houtpoint
    rw [List.getElem?_take_of_lt (List.getElem?_eq_some_iff.mp houtpoint).1, hinput]
    rfl

theorem stormEyeInputs_ok {outpoints : List (W × ℕ)} {total : ℕ}
    (h : outpoints.zipIdx.foldlM (addStormEyeInput view pset stormEye allowSpent) 0 = .ok total) :
    (pset.inputs.take outpoints.length).map PsetInput.outpoint = outpoints ∧
      ∃ stormEyes : List ((W × ℕ) × ℕ), stormEyes.map Prod.fst = outpoints ∧ total = (stormEyes.map Prod.snd).sum ∧
        ∀ input ∈ stormEyes, Holds view allowSpent stormEye.assetId stormEye.contractScript input.1 input.2 := by
  obtain ⟨pairs, hitems, rfl, hpairs⟩ := foldlM_sum addStormEyeInput_ok _ h
  refine ⟨take_inputs fun i outpoint houtpoint => ?_, pairs.map fun pair => (pair.1.1, pair.2), ?_, ?_, ?_⟩
  · have hmem : (outpoint, i) ∈ pairs.map Prod.fst := by
      rw [hitems]
      exact List.mem_zipIdx_iff_getElem?.mpr houtpoint
    obtain ⟨pair, hpair, heq⟩ := List.mem_map.mp hmem
    obtain ⟨input, hinput, hname, -⟩ := hpairs pair hpair
    rw [heq] at hinput hname
    exact ⟨input, hinput, hname⟩
  · have hnames := congrArg (List.map Prod.fst) hitems
    rw [List.zipIdx_map_fst, List.map_map] at hnames
    rw [List.map_map]
    exact hnames
  · rw [List.map_map, Nat.zero_add]
    rfl
  · intro input hinput
    obtain ⟨pair, hpair, rfl⟩ := List.mem_map.mp hinput
    obtain ⟨-, -, -, hheld⟩ := hpairs pair hpair
    exact hheld

theorem treasuryInputs_ok {allowUnindexed : Bool} {count total : ℕ}
    (h : (pset.inputs.zipIdx.drop count).foldlM
      (addTreasuryInput programs view pset stormEye allowSpent allowUnindexed) 0 = .ok total) :
    ∃ treasury : List ((W × ℕ) × ℕ), treasury.map Prod.fst = (pset.inputs.drop count).map PsetInput.outpoint ∧
      total = (treasury.map Prod.snd).sum ∧
      ∀ input ∈ treasury, TreasuryInput programs view stormEye allowSpent allowUnindexed input.1 input.2 := by
  obtain ⟨pairs, hitems, rfl, hpairs⟩ := foldlM_sum addTreasuryInput_ok _ h
  refine ⟨pairs.map fun pair => (pair.1.1.outpoint, pair.2), ?_, ?_, ?_⟩
  · have hnames := congrArg (List.map fun item : PsetInput W × ℕ => item.1.outpoint) hitems
    have hinputs : (pset.inputs.drop count).map PsetInput.outpoint =
        (pset.inputs.zipIdx.drop count).map fun item : PsetInput W × ℕ => item.1.outpoint := by
      rw [← List.zipIdx_map_fst 0 pset.inputs, ← List.map_drop, List.map_map, List.zipIdx_map_fst]
      rfl
    rw [hinputs, ← hnames, List.map_map, List.map_map]
    rfl
  · rw [List.map_map, Nat.zero_add]
    rfl
  · intro input hinput
    obtain ⟨pair, hpair, rfl⟩ := List.mem_map.mp hinput
    exact hpairs pair hpair

/-- The first outputs are the Storm Eyes the operation makes. -/
theorem stormEyeOutputs_ok {operation : ReshapeOperation W} {stormEyes : List ((W × ℕ) × ℕ)} {destination : List UInt8}
    (hheld : ∀ input ∈ stormEyes, Holds view allowSpent stormEye.assetId stormEye.contractScript input.1 input.2)
    (hlength : splitCount stormEyes.length operation + 2 ≤ pset.outputs.length)
    (h : (pset.outputs.take (splitCount stormEyes.length operation)).zipIdx.forM (checkStormEyeOutput view stormEye
      allowSpent operation (stormEyes.map Prod.fst) (stormEyes.map Prod.snd).sum (splitCount stormEyes.length operation)
        destination) = .ok ()) :
    (pset.outputs.take (splitCount stormEyes.length operation)).map PsetOutput.toTxout =
      (reshapedAmounts operation (stormEyes.map Prod.snd)).map fun amount =>
        (PsetOutput.new destination amount stormEye.assetId).toTxout := by
  rw [forM_zipIdx_ok] at h
  have hcount := length_reshapedAmounts operation (stormEyes.map Prod.snd)
  rw [List.length_map] at hcount
  apply List.ext_getElem?
  intro i
  rw [List.getElem?_map, List.getElem?_map]
  cases houtput : (pset.outputs.take (splitCount stormEyes.length operation))[i]? with
  | none =>
    have hnone : (reshapedAmounts operation (stormEyes.map Prod.snd))[i]? = none := by
      rw [List.getElem?_eq_none_iff, List.length_take] at houtput
      rw [List.getElem?_eq_none_iff]
      omega
    rw [hnone]
    rfl
  | some output =>
    obtain ⟨expected, hexpected, hchecked⟩ := Db.except_bind_ok.mp (h i output houtput)
    obtain ⟨hexplicit, hasset, hamount, hscript⟩ := require_ok.mp hchecked
    have hi : i < splitCount stormEyes.length operation := by
      have hlt := (List.getElem?_eq_some_iff.mp houtput).1
      rw [List.length_take] at hlt
      omega
    rw [expectedAmount_ok hheld hi hexpected, Option.map_some, Option.map_some,
      toTxout_of_isFullyExplicit hexplicit hasset hamount, hscript]

/-- A PSET that a signer accepts does what the operation may do, and nothing else. -/
theorem validateLayout_sound {message : Bytes} {currentMembers : List Bytes32} {operation : ReshapeOperation W} {proposer : Bytes32}
    {signingHashes : List W} {allowUnindexed : Bool}
    (hdecoded : decodeOperation programs message currentMembers = .ok operation)
    (h : validateLayout programs view pset stormEye allowSpent signingHashes proposer operation allowUnindexed = .ok ()) :
    ∃ parts, SoundReshape programs view stormEye operation proposer allowSpent allowUnindexed pset.extractTx parts := by
  unfold validateLayout at h
  obtain ⟨outpoints, houtpoints, h⟩ := Db.except_bind_ok.mp h
  obtain ⟨-, h⟩ := then_ok.mp h
  obtain ⟨-, h⟩ := then_ok.mp h
  obtain ⟨stormTotal, hstorm, h⟩ := Db.except_bind_ok.mp h
  obtain ⟨treasuryTotal, htreasury, h⟩ := Db.except_bind_ok.mp h
  obtain ⟨hlength, h⟩ := then_ok.mp h
  obtain ⟨destination, hdestination, h⟩ := Db.except_bind_ok.mp h
  obtain ⟨houtputs, h⟩ := then_ok.mp h
  obtain ⟨tally, htally, h⟩ := Db.except_bind_ok.mp h
  obtain ⟨haccounting, -⟩ := then_ok.mp h
  obtain ⟨hfirst, stormEyes, rfl, rfl, hheld⟩ := stormEyeInputs_ok hstorm
  obtain ⟨treasury, htreasuryNames, rfl, htreasuryHeld⟩ := treasuryInputs_ok htreasury
  obtain ⟨members, migrated, fees, changes, rfl, hsome, hperm⟩ := tallyOutputs_ok _ htally
  obtain ⟨hmarkers, hmigrated, hfees, hreturned, hfee⟩ := require_ok.mp haccounting
  dsimp only at hmarkers hmigrated hfees hreturned hfee
  rw [Nat.zero_add] at hmarkers hmigrated hfees hreturned hfee
  obtain rfl := hfees
  obtain ⟨marker, hmarker, hmarkerOutputs⟩ := @marks_of_counts _ programs _ _ _ _ hmarkers hmigrated hsome
  rw [← List.append_assoc, hmarkerOutputs] at hperm
  rw [List.length_map] at houtputs hlength hperm
  refine ⟨⟨stormEyes, treasury, destination, marker, changes,
    (pset.outputs.drop (splitCount stormEyes.length operation)).map PsetOutput.toTxout⟩, ?_⟩
  refine ⟨?_, expectedOutpoints_ok houtpoints, hheld, htreasuryHeld, ?_, hdestination, ?_, hperm, hmarker, ?_⟩
  · have hinputs : stormEyes.map Prod.fst ++ treasury.map Prod.fst =
        (pset.inputs.take (stormEyes.map Prod.fst).length).map PsetInput.outpoint ++
          (pset.inputs.drop (stormEyes.map Prod.fst).length).map PsetInput.outpoint := by
      rw [hfirst, htreasuryNames]
    rw [hinputs, ← List.map_append, List.take_append_drop]
    rfl
  · rw [← stormEyeOutputs_ok hheld (require_ok.mp hlength) houtputs, ← List.map_append, List.take_append_drop]
    rfl
  · exact sum_reshapedAmounts _ fun outpoint count hsplit => by
      have hbounds := decodeOperation_split hdecoded hsplit
      omega
  · dsimp only
    omega

end Soundness

end VotingReshape

end PriceOracle
