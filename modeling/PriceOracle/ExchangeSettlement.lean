import PriceOracle.ExchangeBuilder

/-!
# What becomes of a prepared exchange

The exchange that a member's node prepares passes the checks of every signer that sees the same chain, unless it would go
back to the Treasury, and its transaction charges the member for the amount and the fee when it is indexed.
-/

namespace PriceOracle

namespace ExchangeBuilder

open ExchangeLayout Markers

section Layout

variable {programs : ExchangePrograms} {Tx : Type} {view : ExchangeView Tx} {stormEye : NetworkAsset Bytes32}
  {stormEyeUtxo : Utxo Bytes32} {selected : List (Utxo Bytes32)} {address : Address} {member : Bytes32} {amount change : ℕ}

theorem addTreasuryInputs_run {pset : Pset Bytes32} (utxos : List (Utxo Bytes32)) : ∀ {before : List (PsetInput Bytes32)} {total : ℕ},
    pset.inputs = before ++ utxos.map PsetInput.new → total + (utxos.map Utxo.amount).sum < 2 ^ 64 →
    (∀ utxo ∈ utxos, utxo.asset = programs.policyAsset ∧ utxo.scriptPubkey = treasuryScript programs stormEye) →
      (List.range' before.length utxos.length).foldlM (addTreasuryInput programs pset stormEye) total =
        .ok (total + (utxos.map Utxo.amount).sum) := by
  induction utxos with
  | nil =>
    rintro before total - - -
    rfl
  | cons utxo utxos ih =>
    intro before total hinputs hlt hheld
    obtain ⟨⟨hasset, hscript⟩, hrest⟩ := List.forall_mem_cons.mp hheld
    rw [List.map_cons, List.sum_cons] at hlt ⊢
    have hwitness : pset.witnessUtxo before.length = .ok utxo.txout := by
      refine Pset.witnessUtxo_ok.mpr ⟨.new utxo, ?_, rfl⟩
      rw [hinputs, List.getElem?_append_right le_rfl, Nat.sub_self]
      rfl
    have hfirst : addTreasuryInput programs pset stormEye total before.length = .ok (total + utxo.amount) := by
      refine Db.except_bind_ok.mpr ⟨_, helper_ok.mpr hwitness, then_ok.mpr ⟨require_ok.mpr hscript, ?_⟩⟩
      refine Db.except_bind_ok.mpr ⟨(utxo.asset, utxo.amount), rfl, then_ok.mpr ⟨require_ok.mpr hasset, ?_⟩⟩
      exact addAmount_ok.mpr ⟨by omega, rfl⟩
    rw [List.length_cons, List.range'_succ, List.foldlM_cons, hfirst]
    have hlater := @ih (before ++ [.new utxo]) (total + utxo.amount)
      (by rw [hinputs, List.map_cons, List.append_assoc, List.singleton_append]) (by omega) hrest
    rw [List.length_append, List.length_singleton] at hlater
    rw [← Nat.add_assoc]
    exact hlater

theorem tallyOutput_new {tally : ExchangeTally} {script : List UInt8} {paid : ℕ} (hlt : tally.totalOutputs + paid < 2 ^ 64) :
    tallyOutput programs stormEye member tally (.new script paid programs.policyAsset) =
      tallyScript programs stormEye member { tally with totalOutputs := tally.totalOutputs + paid } script paid := by
  have hexplicit : require ((PsetOutput.new script paid programs.policyAsset).isFullyExplicit = true)
      (DropletsError.invalid "exchange LBTC output must be explicit") = .ok () := if_pos rfl
  have hasset : require ((PsetOutput.new script paid programs.policyAsset).asset = some programs.policyAsset)
      (DropletsError.invalid "exchange output is not LBTC") = .ok () := if_pos rfl
  have htotal : addAmount tally.totalOutputs paid "exchange output overflow" = .ok (tally.totalOutputs + paid) := if_pos hlt
  unfold tallyOutput
  rw [hexplicit, hasset]
  change (addAmount tally.totalOutputs paid "exchange output overflow" >>= _) = _
  rw [htotal]
  rfl

theorem memberFromScript_treasuryScript : memberFromScript (treasuryScript programs stormEye) = none :=
  memberFromScript_of_no_data (opReturnData_taprootScript _)

theorem tallyScript_treasury {tally : ExchangeTally} {paid : ℕ} (hlt : tally.treasuryReturn + paid < 2 ^ 64) :
    tallyScript programs stormEye member tally (treasuryScript programs stormEye) paid =
      .ok { tally with treasuryReturn := tally.treasuryReturn + paid } := by
  unfold tallyScript addAmount
  rw [memberFromScript_treasuryScript]
  dsimp only
  rw [if_pos rfl, if_pos hlt]
  rfl

theorem tallyScript_recipient {tally : ExchangeTally} {paid : ℕ} (hne : address.scriptPubkey ≠ treasuryScript programs stormEye)
    (hlt : tally.recipientAmount + paid < 2 ^ 64) : tallyScript programs stormEye member tally address.scriptPubkey paid =
      .ok { tally with recipientAmount := tally.recipientAmount + paid } := by
  obtain ⟨hdata, hnonempty⟩ := address_plain address
  unfold tallyScript addAmount
  rw [memberFromScript_of_no_data hdata]
  dsimp only
  rw [if_neg hne, if_pos hnonempty, if_pos hlt]
  rfl

theorem tallyScript_marker {tally : ExchangeTally} : tallyScript programs stormEye member tally (memberScript member) 0 =
    .ok { tally with markerCount := tally.markerCount + 1 } := by
  unfold tallyScript
  rw [memberFromScript_memberScript]
  exact then_ok.mpr ⟨require_ok.mpr ⟨rfl, rfl⟩, rfl⟩

theorem tallyScript_fee {tally : ExchangeTally} {paid : ℕ} : tallyScript programs stormEye member tally [] paid = .ok tally := by
  unfold tallyScript
  have hne : [] ≠ treasuryScript programs stormEye := (List.cons_ne_nil _ _).symm
  rw [memberFromScript_of_no_data (by rfl : OpReturn.opReturnData [] = none)]
  dsimp only
  rw [if_neg hne, if_neg (not_not.mpr rfl)]

/-- The change of an exchange. -/
theorem changeOutputs_run {tally : ExchangeTally} (hlt : tally.totalOutputs + change < 2 ^ 64)
    (hreturn : tally.treasuryReturn + change < 2 ^ 64) :
    (changeOutputs programs stormEye change).foldlM (tallyOutput programs stormEye member) tally =
      .ok { tally with treasuryReturn := tally.treasuryReturn + change, totalOutputs := tally.totalOutputs + change } := by
  unfold changeOutputs
  split_ifs with hchange
  · rw [List.foldlM_cons, tallyOutput_new hlt, tallyScript_treasury (by exact hreturn)]
    rfl
  · obtain rfl : change = 0 := by omega
    rfl

/-- The recipient's output counts as the Treasury's where the address is the Treasury's. -/
theorem tallyOutputs_run (hlt : amount + change + view.transactionFeeSats < 2 ^ 64) :
    (exchangePset programs view stormEye stormEyeUtxo selected address member amount change).outputs.tail.foldlM
        (tallyOutput programs stormEye member) ⟨0, 0, 0, 0⟩ =
      .ok ⟨1, if address.scriptPubkey = treasuryScript programs stormEye then amount + change else change,
        amount + change + view.transactionFeeSats,
        if address.scriptPubkey = treasuryScript programs stormEye then 0 else amount⟩ := by
  have hfirst : tallyOutput programs stormEye member ⟨0, 0, 0, 0⟩ (.new address.scriptPubkey amount programs.policyAsset) =
      .ok ⟨0, if address.scriptPubkey = treasuryScript programs stormEye then amount else 0, amount,
        if address.scriptPubkey = treasuryScript programs stormEye then 0 else amount⟩ := by
    rw [tallyOutput_new (by dsimp only; omega)]
    by_cases htreasury : address.scriptPubkey = treasuryScript programs stormEye
    · rw [if_pos htreasury, if_pos htreasury, htreasury, tallyScript_treasury (by dsimp only; omega)]
      simp
    · rw [if_neg htreasury, if_neg htreasury, tallyScript_recipient htreasury (by dsimp only; omega)]
      simp
  have hreturn : (if address.scriptPubkey = treasuryScript programs stormEye then amount else 0) + change < 2 ^ 64 := by
    split_ifs <;> omega
  unfold exchangePset
  rw [List.append_assoc, List.cons_append, List.tail_cons, List.singleton_append, List.foldlM_cons, hfirst]
  refine Db.except_bind_ok.mpr ⟨_, rfl, ?_⟩
  rw [List.foldlM_append, changeOutputs_run (by dsimp only; omega) hreturn]
  refine Db.except_bind_ok.mpr ⟨_, rfl, ?_⟩
  rw [List.foldlM_cons, tallyOutput_new (by dsimp only; omega), tallyScript_marker]
  refine Db.except_bind_ok.mpr ⟨_, rfl, ?_⟩
  rw [List.foldlM_cons, tallyOutput_new (by dsimp only; omega), tallyScript_fee]
  refine Db.except_bind_ok.mpr ⟨_, rfl, congrArg Except.ok ?_⟩
  rw [ExchangeTally.mk.injEq]
  refine ⟨rfl, ?_, rfl, rfl⟩
  dsimp only
  split_ifs <;> omega

/-- What an exchange is made of, where the node has shown it. -/
structure Prepared (programs : ExchangePrograms) (view : ExchangeView Tx) (stormEye : NetworkAsset Bytes32) (amount : ℕ)
    (expectedMember : List UInt8) (pset : Pset Bytes32) (hash : Bytes32) (stormEyeUtxo : Utxo Bytes32)
    (selected : List (Utxo Bytes32)) (address : Address) (member : Bytes32) (change : ℕ) : Prop where
  known : programs.xOnlyPublicKey expectedMember = some member
  eye : Shown view.node stormEyeUtxo ∧ stormEyeUtxo.asset = stormEye.assetId ∧ stormEyeUtxo.scriptPubkey = stormEye.contractScript
  treasury : ∀ utxo ∈ selected, Shown view.node utxo ∧ utxo.asset = programs.policyAsset ∧
    utxo.scriptPubkey = treasuryScript programs stormEye
  funded : (selected.map Utxo.amount).sum = amount + change + view.transactionFeeSats
  fits : amount + change + view.transactionFeeSats < 2 ^ 64
  built : pset = exchangePset programs view stormEye stormEyeUtxo selected address member amount change
  signed : programs.signingHash pset stormEye = .ok hash

section Prepared

variable {expectedMember : List UInt8} {pset : Pset Bytes32} {hash : Bytes32}

theorem localMember_ok : localMember programs expectedMember = .ok member ↔ programs.xOnlyPublicKey expectedMember = some member := by
  unfold localMember
  cases programs.xOnlyPublicKey expectedMember <;> simp

theorem leaderMember_ok : leaderMember programs expectedMember = .ok member ↔ programs.xOnlyPublicKey expectedMember = some member := by
  unfold leaderMember
  cases programs.xOnlyPublicKey expectedMember <;> simp

theorem droplets_ok {A : Type} {result : Except DropletsError A} {a : A} : droplets result = .ok a ↔ result = .ok a := mapError_ok

theorem prepareExchangeTransaction_ok {destination : String} {indexed : List ((Bytes32 × ℕ) × ℕ)} (hscan : view.node.ScansScript)
    (h : prepareExchangeTransaction programs view stormEye amount destination expectedMember
      (amount + view.transactionFeeSats) indexed = .ok (pset, hash)) :
    ∃ stormEyeUtxo selected address member change, destinationAddress view destination = .ok address ∧
      Prepared programs view stormEye amount expectedMember pset hash stormEyeUtxo selected address member change := by
  unfold prepareExchangeTransaction at h
  obtain ⟨address, haddress, h⟩ := Db.except_bind_ok.mp h
  obtain ⟨⟨selected, total⟩, hselected, h⟩ := Db.except_bind_ok.mp h
  obtain ⟨henough, h⟩ := then_ok.mp h
  obtain ⟨stormEyeUtxo, heye, h⟩ := Db.except_bind_ok.mp h
  obtain ⟨data, -, h⟩ := Db.except_bind_ok.mp h
  obtain ⟨member, hmember, h⟩ := Db.except_bind_ok.mp h
  obtain ⟨signed, hsigned, h⟩ := Db.except_bind_ok.mp h
  cases h
  have hcovers : amount + view.transactionFeeSats ≤ total := require_ok.mp (droplets_ok.mp henough)
  obtain ⟨hlt, more, hmore, htotal, htreasury⟩ := selectTreasuryUtxos_ok (by decide) (droplets_ok.mp hselected)
  obtain rfl : selected = more := hmore
  rw [Nat.zero_add] at htotal
  have hfound := helper_ok.mp (droplets_ok.mp heye)
  obtain ⟨hasset, hscript⟩ := ElementsNode.findContractUtxo_ok hscan hfound
  refine ⟨stormEyeUtxo, selected, address, member, total - (amount + view.transactionFeeSats), droplets_ok.mp haddress,
    localMember_ok.mp (droplets_ok.mp hmember), ⟨findContractUtxo_shown hfound, ?_, hscript⟩, htreasury, by omega, by omega,
    rfl, mapError_ok.mp (droplets_ok.mp hsigned)⟩
  simpa [ElementsNode.matchesExpectedAsset, ElementsNode.matchesScannedAsset] using hasset

variable (h : Prepared programs view stormEye amount expectedMember pset hash stormEyeUtxo selected address member change)
include h

theorem Prepared.inputs : pset.inputs = [.new stormEyeUtxo] ++ selected.map .new := by
  rw [h.built]
  rfl

theorem Prepared.selected_ne (hpos : amount ≠ 0) : selected ≠ [] := by
  rintro rfl
  have hfunded := h.funded
  rw [List.map_nil, List.sum_nil] at hfunded
  omega

theorem Prepared.funds : (List.range' 1 (pset.inputs.length - 1)).foldlM (addTreasuryInput programs pset stormEye) 0 =
    .ok (amount + change + view.transactionFeeSats) := by
  have hlt : 0 + (selected.map Utxo.amount).sum < 2 ^ 64 := by
    rw [Nat.zero_add, h.funded]
    exact h.fits
  have hrun : (List.range' 1 selected.length).foldlM (addTreasuryInput programs pset stormEye) 0 =
      .ok (0 + (selected.map Utxo.amount).sum) :=
    addTreasuryInputs_run selected h.inputs hlt fun utxo hutxo => (h.treasury utxo hutxo).2
  rw [Nat.zero_add, h.funded] at hrun
  rw [h.inputs, List.length_append, List.length_map, List.length_singleton, Nat.add_sub_cancel_left]
  exact hrun

/-- The signers take what the exchange costs off the balance of the member. -/
theorem Prepared.layout (hpos : amount ≠ 0) (haddress : address.scriptPubkey ≠ treasuryScript programs stormEye) :
    validateLayout programs pset hash expectedMember stormEye = .ok ⟨member, amount + view.transactionFeeSats⟩ := by
  have hlength := List.length_pos_iff.mpr (h.selected_ne hpos)
  have hinputs := congrArg List.length h.inputs
  rw [List.length_append, List.length_map, List.length_singleton] at hinputs
  have houtputs : 3 ≤ pset.outputs.length := by
    rw [h.built, exchangePset, List.length_append, List.length_append]
    simp only [List.length_cons, List.length_nil]
    omega
  have htally := @tallyOutputs_run programs Tx view stormEye stormEyeUtxo selected address member amount change h.fits
  rw [if_neg haddress, if_neg haddress, ← h.built] at htally
  have hwitness : pset.witnessUtxo 0 = .ok stormEyeUtxo.txout :=
    Pset.witnessUtxo_ok.mpr ⟨.new stormEyeUtxo, by rw [h.inputs]; rfl, rfl⟩
  have hkept : requirePreservedOutput pset 0 stormEyeUtxo.txout "Storm Eye" = .ok () :=
    requirePreservedOutput_ok.mpr ⟨.fromUtxo stormEyeUtxo, by rw [h.built]; rfl, rfl, rfl, rfl⟩
  obtain ⟨-, hasset, hscript⟩ := h.eye
  have hamount : exchangedAmount (amount + change + view.transactionFeeSats) change = .ok (amount + view.transactionFeeSats) := by
    unfold exchangedAmount
    rw [if_pos (by omega)]
    exact congrArg Except.ok (by omega)
  unfold validateLayout
  refine then_ok.mpr ⟨require_ok.mpr ⟨by omega, houtputs⟩, ?_⟩
  refine Db.except_bind_ok.mpr ⟨_, helper_ok.mpr hwitness, ?_⟩
  refine then_ok.mpr ⟨helper_ok.mpr (requireExplicitUtxo_ok.mpr ⟨by rw [← hasset]; rfl, hscript, _, rfl⟩), ?_⟩
  refine then_ok.mpr ⟨helper_ok.mpr hkept, Db.except_bind_ok.mpr ⟨_, h.funds, ?_⟩⟩
  refine Db.except_bind_ok.mpr ⟨member, leaderMember_ok.mpr h.known, Db.except_bind_ok.mpr ⟨_, htally, ?_⟩⟩
  refine then_ok.mpr ⟨require_ok.mpr ⟨rfl, hpos, rfl⟩, Db.except_bind_ok.mpr ⟨_, hamount, ?_⟩⟩
  exact Db.except_bind_ok.mpr ⟨hash, mapError_ok.mpr h.signed, then_ok.mpr ⟨require_ok.mpr rfl, rfl⟩⟩

/-- What would go back to the Treasury has no recipient. -/
theorem Prepared.layout_ne {exchange : ValidatedExchange} (hvalid : validateLayout programs pset hash expectedMember stormEye = .ok exchange) :
    address.scriptPubkey ≠ treasuryScript programs stormEye := by
  intro haddress
  obtain ⟨-, hvalid⟩ := then_ok.mp hvalid
  obtain ⟨txout, -, hvalid⟩ := Db.except_bind_ok.mp hvalid
  obtain ⟨-, hvalid⟩ := then_ok.mp hvalid
  obtain ⟨-, hvalid⟩ := then_ok.mp hvalid
  obtain ⟨total, -, hvalid⟩ := Db.except_bind_ok.mp hvalid
  obtain ⟨expected, hexpected, hvalid⟩ := Db.except_bind_ok.mp hvalid
  obtain ⟨tally, htally, hvalid⟩ := Db.except_bind_ok.mp hvalid
  obtain ⟨hcounts, -⟩ := then_ok.mp hvalid
  obtain rfl := Option.some.inj (h.known.symm.trans (leaderMember_ok.mp hexpected))
  have hrun := @tallyOutputs_run programs Tx view stormEye stormEyeUtxo selected address member amount change h.fits
  rw [if_pos haddress, if_pos haddress, ← h.built] at hrun
  obtain rfl := Except.ok.inj (hrun.symm.trans htally)
  exact (require_ok.mp hcounts).2.1 rfl

theorem Prepared.layout_iff (hpos : amount ≠ 0) {exchange : ValidatedExchange} :
    validateLayout programs pset hash expectedMember stormEye = .ok exchange ↔
      address.scriptPubkey ≠ treasuryScript programs stormEye ∧ exchange = ⟨member, amount + view.transactionFeeSats⟩ := by
  constructor
  · intro hvalid
    have haddress := h.layout_ne hvalid
    exact ⟨haddress, Except.ok.inj (hvalid.symm.trans (h.layout hpos haddress))⟩
  · rintro ⟨haddress, rfl⟩
    exact h.layout hpos haddress

/-- What is queued states the amount that was asked for. -/
theorem Prepared.recipient (hpos : amount ≠ 0) (haddress : address.scriptPubkey ≠ treasuryScript programs stormEye) :
    exchangeRecipientAmount pset = .ok amount := by
  obtain ⟨first, rest, rfl⟩ := List.exists_cons_of_ne_nil (h.selected_ne hpos)
  obtain ⟨-, -, hscript⟩ := h.treasury first List.mem_cons_self
  have hwitness : pset.witnessUtxo 1 = .ok first.txout :=
    Pset.witnessUtxo_ok.mpr ⟨.new first, by rw [h.inputs]; rfl, rfl⟩
  obtain ⟨hdata, hnonempty⟩ := address_plain address
  have hlt : 0 + amount < 2 ^ 64 := by
    have hfits := h.fits
    omega
  have hfirst : addRecipient (treasuryScript programs stormEye) 0 (.new address.scriptPubkey amount programs.policyAsset) = .ok amount := by
    unfold addRecipient
    rw [if_neg (by
      change ¬(address.scriptPubkey = [] ∨ address.scriptPubkey = _ ∨ (memberFromScript address.scriptPubkey).isSome = true)
      rw [memberFromScript_of_no_data hdata]
      simp [hnonempty, haddress])]
    exact addAmount_ok.mpr ⟨hlt, (Nat.zero_add amount).symm⟩
  have hchange : (changeOutputs programs stormEye change).foldlM (addRecipient (treasuryScript programs stormEye)) amount = .ok amount := by
    unfold changeOutputs
    split_ifs
    · exact Db.except_bind_ok.mpr ⟨amount, if_pos (Or.inr (Or.inl rfl)), rfl⟩
    · rfl
  have hmarker : addRecipient (treasuryScript programs stormEye) amount (.new (memberScript member) 0 programs.policyAsset) = .ok amount := by
    refine if_pos (Or.inr (Or.inr ?_))
    change (memberFromScript (memberScript member)).isSome = true
    rw [memberFromScript_memberScript]
    rfl
  have hrest : pset.outputs.tail.foldlM (addRecipient (treasuryScript programs stormEye)) 0 = .ok amount := by
    rw [h.built]
    unfold exchangePset
    rw [List.append_assoc, List.cons_append, List.tail_cons, List.singleton_append, List.foldlM_cons, hfirst]
    refine Db.except_bind_ok.mpr ⟨amount, rfl, ?_⟩
    rw [List.foldlM_append, hchange]
    refine Db.except_bind_ok.mpr ⟨amount, rfl, ?_⟩
    rw [List.foldlM_cons, hmarker]
    refine Db.except_bind_ok.mpr ⟨amount, rfl, ?_⟩
    exact Db.except_bind_ok.mpr ⟨amount, if_pos (Or.inl rfl), rfl⟩
  unfold exchangeRecipientAmount
  refine Db.except_bind_ok.mpr ⟨_, helper_ok.mpr hwitness, ?_⟩
  change (pset.outputs.tail.foldlM (addRecipient first.scriptPubkey) 0 >>= _) = _
  rw [hscript, hrest]
  exact then_ok.mpr ⟨require_ok.mpr hpos, rfl⟩

/-- The only recipient of an exchange is the address. -/
theorem Prepared.paid {output : PsetOutput Bytes32} (houtput : output ∈ pset.outputs.tail)
    (hrecipient : IsRecipient programs stormEye output) : output = .new address.scriptPubkey amount programs.policyAsset := by
  rw [h.built] at houtput
  unfold exchangePset at houtput
  rw [List.append_assoc, List.cons_append, List.tail_cons, List.singleton_append] at houtput
  rcases List.mem_cons.mp houtput with rfl | houtput
  · rfl
  · rcases List.mem_append.mp houtput with hchange | houtput
    · unfold changeOutputs at hchange
      split_ifs at hchange
      · obtain rfl := List.mem_singleton.mp hchange
        exact absurd rfl hrecipient.2.1
      · exact absurd hchange List.not_mem_nil
    · rcases List.mem_cons.mp houtput with rfl | houtput
      · have hmember := hrecipient.1
        change memberFromScript (memberScript member) = none at hmember
        rw [memberFromScript_memberScript] at hmember
        cases hmember
      · obtain rfl := List.mem_singleton.mp houtput
        exact absurd rfl hrecipient.2.2

/-- A node whose ledger holds what the exchange spends charges the member for it. -/
theorem Prepared.indexed {key : Bytes32} {height : ℕ} {members : List Bytes32} {transaction : Transaction}
    {s : DropletStore Bytes32 Tx} (hpos : amount ≠ 0) (haddress : address.scriptPubkey ≠ treasuryScript programs stormEye)
    (hcovenant : stormEye.contractScript = taprootScript key) (hasset : stormEye.assetId ≠ programs.policyAsset)
    (hheight : height < 2 ^ 63) (hmember : member ∈ members) (hfinal : Finalizes pset transaction) (hconsensus : Consensus transaction)
    (htracks : Tracks programs stormEye pset transaction s) (hcovers : Covers s member (amount + view.transactionFeeSats)) :
    Indexed programs stormEye height members transaction ⟨member, amount + view.transactionFeeSats⟩ s := by
  obtain ⟨stormInput, inputs, stormOutput, outputs, funds, hin, hout, haccepted⟩ := validateLayout_ok (h.layout hpos haddress)
  obtain ⟨reading, hread⟩ := read_accepted (s := s) hheight hin hout haccepted hasset hfinal hconsensus htracks
  have hmarkers := exchangeMember_iff haccepted hcovenant
  rw [← hout, ← hfinal.outputs] at hmarkers
  have hindexed := indexed_iff hread hmember haccepted.pos hcovers fun found hfound => ((hmarkers found).mp hfound).1
  refine hindexed.mpr ((hmarkers member).mpr ⟨rfl, fun output houtput hrecipient proposer hproposer => ?_⟩)
  have htail : output ∈ pset.outputs.tail := by
    rw [hout]
    exact houtput
  obtain rfl := h.paid htail hrecipient
  have hnone := migratedMembersProposerFromScript_of_no_data (address_plain address).1
  change migratedMembersProposerFromScript address.scriptPubkey = some proposer at hproposer
  rw [hnone] at hproposer
  cases hproposer

end Prepared

end Layout

section Settlement

variable {programs : ExchangePrograms} {Tx : Type} {view signer : ExchangeView Tx} {stormEye : NetworkAsset Bytes32} {amount : ℕ}
  {destination : String} {expectedMember : List UInt8} {indexed : List ((Bytes32 × ℕ) × ℕ)} {pset : Pset Bytes32} {hash : Bytes32}

/-- A signer of the same Storm Eye, for whom the outputs that the member's node shows are on the chain. -/
structure Sees (view signer : ExchangeView Tx) (stormEye : NetworkAsset Bytes32) : Prop where
  stormEye : signer.stormEye = some stormEye
  shown : ∀ utxo, Shown view.node utxo → previousOutput signer utxo.outpoint = .ok utxo.txout

theorem Sees.checkInputs (hsees : Sees view signer stormEye) {utxos : List (Utxo Bytes32)} (hinputs : pset.inputs = utxos.map .new)
    (hshown : ∀ utxo ∈ utxos, Shown view.node utxo) : pset.inputs.zipIdx.forM (checkInput signer pset) = .ok () := by
  refine forM_zipIdx_ok.mpr fun i input hinput => ?_
  have hlisted := hinput
  rw [hinputs, List.getElem?_map] at hlisted
  obtain ⟨utxo, hutxo, rfl⟩ := Option.map_eq_some_iff.mp hlisted
  have hlive := hsees.shown utxo (hshown utxo (List.mem_of_getElem? hutxo))
  have hwitness : pset.witnessUtxo i = .ok utxo.txout := Pset.witnessUtxo_ok.mpr ⟨_, hinput, rfl⟩
  unfold checkInput
  refine Db.except_bind_ok.mpr ⟨utxo.txout, hlive, Db.except_bind_ok.mpr ⟨utxo.txout, ?_, ?_⟩⟩
  · exact droplets_ok.mpr (helper_ok.mpr hwitness)
  · exact droplets_ok.mpr (require_ok.mpr rfl)

theorem validateTransaction_ok {leader : List UInt8} {exchange : ValidatedExchange} (hstorm : signer.stormEye = some stormEye) :
    validateTransaction programs signer pset hash leader = .ok exchange ↔ signer.ledgerHalt = none ∧
      pset.inputs.zipIdx.forM (checkInput signer pset) = .ok () ∧ validateLayout programs pset hash leader stormEye = .ok exchange ∧
        ∃ balance, signer.ledger.droplets.lookup exchange.member = some balance ∧ exchange.amount ≤ balance.amount := by
  unfold validateTransaction
  cases signer.ledgerHalt with
  | some halt => simp [invalid]
  | none =>
    rw [hstorm]
    dsimp only
    rw [then_ok, Db.except_bind_ok, and_iff_right rfl]
    refine and_congr_right fun _ => ?_
    constructor
    · rintro ⟨validated, hvalid, h⟩
      cases hbalance : signer.ledger.droplets.lookup validated.member with
      | none =>
        rw [hbalance] at h
        cases h
      | some balance =>
        rw [hbalance] at h
        obtain ⟨hcovers, h⟩ := then_ok.mp h
        cases h
        exact ⟨droplets_ok.mp hvalid, balance, hbalance, require_ok.mp (droplets_ok.mp hcovers)⟩
    · rintro ⟨hvalid, balance, hbalance, hcovers⟩
      refine ⟨exchange, droplets_ok.mpr hvalid, ?_⟩
      rw [hbalance]
      exact then_ok.mpr ⟨droplets_ok.mpr (require_ok.mpr hcovers), rfl⟩

theorem checkQueued_ok {exchange : ValidatedExchange} (h : checkQueued programs view pset hash expectedMember = .ok exchange) :
    validateTransaction programs view pset hash expectedMember = .ok exchange ∧
      ∃ balance, view.ledger.droplets.lookup exchange.member = some balance ∧ balance.exchangeLocked = false := by
  unfold checkQueued at h
  obtain ⟨validated, hvalid, h⟩ := Db.except_bind_ok.mp h
  cases hbalance : view.ledger.droplets.lookup validated.member with
  | none =>
    rw [hbalance] at h
    cases h
  | some balance =>
    rw [hbalance] at h
    obtain ⟨hlocked, h⟩ := then_ok.mp h
    cases h
    exact ⟨hvalid, balance, hbalance, require_ok.mp (droplets_ok.mp hlocked)⟩

theorem prepareAndQueueExchange_ok {exchange : ValidatedExchange}
    (h : prepareAndQueueExchange programs view amount destination expectedMember = .ok (pset, hash, exchange)) :
    amount ≠ 0 ∧ ∃ stormEye, view.stormEye = some stormEye ∧
      prepareExchangeTransaction programs view stormEye amount destination expectedMember (amount + view.transactionFeeSats)
        (treasuryUtxos view.ledger) = .ok (pset, hash) ∧ checkQueued programs view pset hash expectedMember = .ok exchange := by
  unfold prepareAndQueueExchange at h
  obtain ⟨hpos, h⟩ := then_ok.mp h
  obtain ⟨required, hrequired, h⟩ := Db.except_bind_ok.mp h
  obtain ⟨-, h⟩ := then_ok.mp h
  obtain ⟨-, rfl⟩ := addAmount_ok.mp (droplets_ok.mp hrequired)
  cases hstorm : view.stormEye with
  | none =>
    rw [hstorm] at h
    cases h
  | some stormEye =>
    rw [hstorm] at h
    obtain ⟨⟨built, signed⟩, hprepared, h⟩ := Db.except_bind_ok.mp h
    obtain ⟨queued, hqueued, h⟩ := Db.except_bind_ok.mp h
    cases h
    exact ⟨require_ok.mp (droplets_ok.mp hpos), stormEye, rfl, hprepared, hqueued⟩

/-- What a node queues pays the amount to the address and nobody else, and costs its member, whose balance is free and
covers it, the amount and the fee. Any signer that sees the same chain with a ledger that runs and covers it accepts it. -/
theorem queued_exchange_exact {exchange : ValidatedExchange} (hscan : view.node.ScansScript)
    (hqueued : prepareAndQueueExchange programs view amount destination expectedMember = .ok (pset, hash, exchange)) :
    ∃ stormEye address member balance, view.stormEye = some stormEye ∧ destinationAddress view destination = .ok address ∧
      programs.xOnlyPublicKey expectedMember = some member ∧ exchange = ⟨member, amount + view.transactionFeeSats⟩ ∧
        view.ledgerHalt = none ∧ view.ledger.droplets.lookup member = some balance ∧ balance.exchangeLocked = false ∧
          amount + view.transactionFeeSats ≤ balance.amount ∧ exchangeRecipientAmount pset = .ok amount ∧
            (∀ output ∈ pset.outputs.tail, IsRecipient programs stormEye output →
              output = .new address.scriptPubkey amount programs.policyAsset) ∧
            ∀ signer : ExchangeView Tx, Sees view signer stormEye →
              (validateTransaction programs signer pset hash expectedMember = .ok exchange ↔ signer.ledgerHalt = none ∧
                ∃ balance, signer.ledger.droplets.lookup member = some balance ∧ exchange.amount ≤ balance.amount) := by
  obtain ⟨hpos, stormEye, hstorm, hprepared, hchecked⟩ := prepareAndQueueExchange_ok hqueued
  obtain ⟨hvalid, held, hheld, hunlocked⟩ := checkQueued_ok hchecked
  obtain ⟨stormEyeUtxo, selected, address, member, change, haddress, h⟩ := prepareExchangeTransaction_ok hscan hprepared
  obtain ⟨hhalt, -, hlayout, balance, hbalance, hcovers⟩ := (validateTransaction_ok hstorm).mp hvalid
  obtain ⟨hne, rfl⟩ := (h.layout_iff hpos).mp hlayout
  obtain rfl := Option.some.inj (hheld.symm.trans hbalance)
  refine ⟨stormEye, address, member, held, hstorm, haddress, h.known, rfl, hhalt, hbalance, hunlocked, hcovers,
    h.recipient hpos hne, fun output houtput hrecipient => h.paid houtput hrecipient, fun signer hsees => ?_⟩
  have hlisted : pset.inputs = (stormEyeUtxo :: selected).map .new := h.inputs
  have hinputs := hsees.checkInputs hlisted
    (List.forall_mem_cons.mpr ⟨h.eye.1, fun utxo hutxo => (h.treasury utxo hutxo).1⟩)
  rw [validateTransaction_ok hsees.stormEye, and_iff_right hinputs, and_iff_right hlayout]

end Settlement

section Example

open TreasuryScan (alice bob lbtc)

def exchangeStormEye : NetworkAsset Bytes32 :=
  { exampleStormEye with
    contractData := some (StormEyeContractData.codec.encode ⟨Vector.replicate 32 7, 50000, Vector.replicate 32 7⟩) }

def exchangeEye : Utxo Bytes32 := ⟨(Vector.replicate 32 4, 0), exchangeStormEye.assetId, 10000, exchangeStormEye.contractScript⟩

def exchangeTreasury : Utxo Bytes32 := ⟨(Vector.replicate 32 9, 0), lbtc, 1000, treasuryScript examplePrograms exchangeStormEye⟩

/-- A node that knows the Storm Eye and one output of the Treasury. -/
def exchangeNode : ElementsNode Bytes32 where
  txout _ outpoint := .ok (if outpoint = exchangeEye.outpoint then
      some (exchangeEye.asset, exchangeEye.amount, exchangeEye.scriptPubkey)
    else if outpoint = exchangeTreasury.outpoint then
      some (exchangeTreasury.asset, exchangeTreasury.amount, exchangeTreasury.scriptPubkey)
    else none)
  scan script := .ok (if script = exchangeStormEye.contractScript then
      [⟨some exchangeEye.outpoint.1, 0, some exchangeEye.asset⟩]
    else [])

def bobAddress : Address := ⟨.elements, .witnessProgram ⟨1, by decide⟩ bob.toList, false⟩

def bobText : String := "ert1pqgpqyqszqgpqyqszqgpqyqszqgpqyqszqgpqyqszqgpqyqszqgpqzx2nkq"

def exchangeLedger : DropletStore Bytes32 Unit :=
  { exampleLedger with droplets := (∅ : Table Bytes32 (Droplet Unit)).insert alice ⟨700, 0, 3, false, none, 0⟩ }

def exchangeView : ExchangeView Unit where
  node := exchangeNode
  rawTransaction txid :=
    if txid = exchangeEye.outpoint.1 then .ok [exchangeEye.txout]
    else if txid = exchangeTreasury.outpoint.1 then .ok [exchangeTreasury.txout]
    else .error "No such mempool or blockchain transaction"
  addressParams := .elements
  parseAddress text := if text = bobText then some bobAddress else none
  stormEye := some exchangeStormEye
  ledger := exchangeLedger
  ledgerHalt := none
  transactionFeeSats := 10

theorem exchangeNode_shown {utxo : Utxo Bytes32} (h : Shown exchangeNode utxo) : utxo = exchangeEye ∨ utxo = exchangeTreasury := by
  obtain ⟨outpoint, asset, amount, script⟩ := utxo
  obtain ⟨includeMempool, h⟩ := h
  unfold ElementsNode.optionalOutpoint at h
  obtain ⟨answer, hanswer, h⟩ := Db.except_bind_ok.mp h
  cases hanswer
  obtain ⟨held, hheld, heq⟩ := Option.map_eq_some_iff.mp (Except.ok.inj h)
  dsimp only at hheld
  split_ifs at hheld with heye htreasury
  · cases hheld
    cases heq
    obtain rfl : outpoint = exchangeEye.outpoint := heye
    exact Or.inl rfl
  · cases hheld
    cases heq
    obtain rfl : outpoint = exchangeTreasury.outpoint := htreasury
    exact Or.inr rfl

theorem exchangeNode_scansScript : exchangeNode.ScansScript := by
  intro script unspents hscan unspent hunspent txid asset amount held htxid htxout
  obtain rfl := Except.ok.inj hscan
  split_ifs at hunspent with hscript
  · obtain rfl := List.mem_singleton.mp hunspent
    obtain rfl := Option.some.inj htxid
    cases htxout
    exact hscript.symm
  · exact absurd hunspent List.not_mem_nil

theorem exchangeView_sees : Sees exchangeView exchangeView exchangeStormEye := by
  refine ⟨rfl, fun utxo hshown => ?_⟩
  rcases exchangeNode_shown hshown with rfl | rfl <;> rfl

/-- That exchange in the queue of the node, which accepts it as a signer too. -/
theorem queued_exchange_exact_bob : ∃ pset hash,
    prepareAndQueueExchange examplePrograms exchangeView 590 bobText leader = .ok (pset, hash, ⟨alice, 600⟩) ∧
      exchangeRecipientAmount pset = .ok 590 ∧ validateTransaction examplePrograms exchangeView pset hash leader = .ok ⟨alice, 600⟩ := by
  have hok : (prepareAndQueueExchange examplePrograms exchangeView 590 bobText leader).isOk = true := by decide +kernel
  obtain ⟨⟨pset, hash, exchange⟩, hqueued⟩ := exists_of_isOk hok
  obtain ⟨stormEye, address, member, balance, hstorm, -, hmember, hexchange, hhalt, hbalance, -, hcovers, hamount, -, hsigners⟩ :=
    queued_exchange_exact exchangeNode_scansScript hqueued
  obtain rfl := Option.some.inj ((rfl : exchangeView.stormEye = some exchangeStormEye).symm.trans hstorm)
  have halice : examplePrograms.xOnlyPublicKey leader = some alice := rfl
  obtain rfl := Option.some.inj (halice.symm.trans hmember)
  obtain rfl : exchange = ⟨alice, 600⟩ := hexchange
  exact ⟨pset, hash, hqueued, hamount, (hsigners exchangeView exchangeView_sees).mpr ⟨hhalt, balance, hbalance, hcovers⟩⟩

end Example

end ExchangeBuilder

end PriceOracle
