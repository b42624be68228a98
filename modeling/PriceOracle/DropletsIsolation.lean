import PriceOracle.IndexerStatements
import PriceOracle.Runs

/-!
# A halted ledger leaves the other projections alone

Two databases with the same issued outputs, assets and journal, whatever is in their
ledgers, stay so while both index the same blocks. A block that the ledger refuses is
rolled back in the ledger alone and counts as indexed everywhere else.
-/

namespace PriceOracle

variable {W Tx B : Type}

namespace MonitoredUtxoStore

/-- The same vouchers and the same cursor, beside a cursor of the ledger. -/
structure SameIssued (dropletsCursor : Option (IndexedBlock W)) (a b : MonitoredUtxoStore W) : Prop where
  monitoredUtxos : a.monitoredUtxos = b.monitoredUtxos
  issuedCursor : a.indexerCursors.lookup Indexer.issuedUtxoRuleSet = b.indexerCursors.lookup Indexer.issuedUtxoRuleSet
  dropletsCursor : a.indexerCursors.lookup Indexer.dropletsRuleSet = dropletsCursor

section Pairs

variable {dropletsCursor : Option (IndexedBlock W)} {s s' : MonitoredUtxoStore W}

theorem paired_encodeU64 {S S' : Type} {R : S → S' → Prop} {s : S} {s' : S'} (value : ℕ) (hs : R s s') :
    Db.Paired Eq R (encodeU64 value) (encodeU64 value) s s' := by
  unfold encodeU64
  split_ifs
  · exact Db.paired_pure rfl hs
  · exact Db.paired_throw hs

theorem paired_updateRows (condition : W × ℕ → MonitoredUtxo W → Bool) (change : MonitoredUtxo W → MonitoredUtxo W)
    (hs : SameIssued dropletsCursor s s') : Db.Paired Eq (SameIssued dropletsCursor) (updateRows condition change) (updateRows condition change) s s' := by
  unfold updateRows
  apply Db.paired_get_bind
  rw [hs.monitoredUtxos]
  apply Db.paired_bind (Db.paired_set { hs with monitoredUtxos := rfl })
  intro _ _ t t' _ ht
  exact Db.paired_pure rfl ht

theorem paired_updateOverdue (status : MonitoredStatus) (since : MonitoredUtxo W → ℕ) (blocks height : ℕ)
    (change : MonitoredUtxo W → MonitoredUtxo W) (hs : SameIssued dropletsCursor s s') :
    Db.Paired Eq (SameIssued dropletsCursor) (updateOverdue status since blocks height change)
      (updateOverdue status since blocks height change) s s' := by
  unfold updateOverdue
  apply Db.paired_bind (paired_encodeU64 height hs)
  rintro height _ t t' rfl ht
  apply Db.paired_bind (paired_encodeU64 blocks ht)
  rintro blocks _ u u' rfl hu
  apply Db.paired_get_bind
  rw [hu.monitoredUtxos]
  split_ifs
  · exact Db.paired_throw hu
  · exact paired_updateRows _ change hu

theorem paired_recordCursor (block : IndexedBlock W) (hs : SameIssued dropletsCursor s s') :
    Db.Paired Eq (SameIssued dropletsCursor) (recordCursor Indexer.issuedUtxoRuleSet block) (recordCursor Indexer.issuedUtxoRuleSet block)
      s s' := by
  unfold recordCursor
  apply Db.paired_bind (paired_encodeU64 block.height hs)
  rintro _ _ t t' - ht
  apply Db.paired_modify
  refine ⟨ht.monitoredUtxos, ?_, ?_⟩
  · rw [AList.lookup_insert, AList.lookup_insert]
  · rw [AList.lookup_insert_ne (by decide)]
    exact ht.dropletsCursor

variable [DecidableEq W]

theorem paired_insertIssued (utxo : MonitoredUtxo W) (hs : SameIssued dropletsCursor s s') :
    Db.Paired Eq (SameIssued dropletsCursor) (insertIssued utxo) (insertIssued utxo) s s' := by
  unfold insertIssued
  apply Db.paired_bind (paired_encodeU64 utxo.amount hs)
  rintro _ _ t t' - ht
  apply Db.paired_bind (paired_encodeU64 utxo.blockHeight ht)
  rintro _ _ u u' - hu
  apply Db.paired_get_bind
  rw [hu.monitoredUtxos]
  split_ifs
  · exact Db.paired_pure rfl hu
  · exact Db.paired_set { hu with monitoredUtxos := rfl }

theorem paired_deleteSpent (spent : W × ℕ × W) (hs : SameIssued dropletsCursor s s') :
    Db.Paired Eq (SameIssued dropletsCursor) (deleteSpent spent) (deleteSpent spent) s s' := by
  unfold deleteSpent
  apply Db.paired_modify
  refine { hs with monitoredUtxos := ?_ }
  dsimp only
  rw [hs.monitoredUtxos]

theorem paired_applyBlockIn (block : IndexedBlock W) (issued : List (MonitoredUtxo W)) (spent : List (W × ℕ × W))
    (activeBlocks : ℕ) (hs : SameIssued dropletsCursor s s') :
    Db.Paired Eq (SameIssued dropletsCursor) (applyBlockIn block issued spent activeBlocks) (applyBlockIn block issued spent activeBlocks)
      s s' := by
  unfold applyBlockIn
  apply Db.paired_bind (Db.paired_forM (fun utxo s s' => paired_insertIssued utxo) issued hs)
  intro _ _ t t' _ ht
  apply Db.paired_bind (Db.paired_forM (fun outpoint s s' => paired_deleteSpent outpoint) spent ht)
  intro _ _ u u' _ hu
  apply Db.paired_bind (paired_updateOverdue .active _ activeBlocks block.height _ hu)
  intro _ _ v v' _ hv
  exact paired_updateOverdue .burning _ burningBlocks block.height _ hv

end Pairs

end MonitoredUtxoStore

namespace Indexer

/-- The projections of the issued outputs, the assets and the chain. -/
structure SameProjections (a b : IndexerDb W Tx) : Prop where
  monitoredUtxos : a.store.monitoredUtxos = b.store.monitoredUtxos
  issuedCursor : cursor issuedUtxoRuleSet a = cursor issuedUtxoRuleSet b
  networkAssets : a.networkAssets = b.networkAssets
  chainHistory : a.chainHistory = b.chainHistory
  memberMigrations : a.memberMigrations = b.memberMigrations
  canonicalBlocks : a.canonicalBlocks = b.canonicalBlocks
  recovery : { a.recovery with dropletsHalt := none } = { b.recovery with dropletsHalt := none }

/-- The same projections, with what the ledger of `origin` is in. -/
structure Beside (origin a b : IndexerDb W Tx) : Prop extends SameProjections a b where
  ledger : a.ledger = origin.ledger
  dropletsHalt : a.recovery.dropletsHalt = origin.recovery.dropletsHalt
  dropletsCursor : cursor dropletsRuleSet a = cursor dropletsRuleSet origin

section Pairs

variable {origin a b : IndexerDb W Tx}

theorem paired_encodeU64 (value : ℕ) (h : Beside origin a b) :
    Db.Paired Eq (Beside origin) (encodeU64 value) (encodeU64 value) a b := by
  unfold encodeU64
  split_ifs
  · exact Db.paired_pure rfl h
  · exact Db.paired_throw h

theorem paired_indexStormEyeRenewalIn (current renewed : NetworkAsset W) (h : Beside origin a b) :
    Db.Paired Eq (Beside origin) (indexStormEyeRenewalIn current renewed) (indexStormEyeRenewalIn current renewed) a b := by
  unfold indexStormEyeRenewalIn
  apply Db.paired_get_bind
  rw [h.networkAssets]
  cases b.networkAssets.lookup stormEyeKind with
  | none => exact Db.paired_pure rfl h
  | some row =>
    dsimp only
    split_ifs
    · apply Db.paired_bind (Db.paired_set { h with networkAssets := rfl })
      intro _ _ t t' _ ht
      exact Db.paired_pure rfl ht
    · exact Db.paired_pure rfl h

theorem paired_recordAssetTransition (block : CanonicalBlock W) (current renewed : NetworkAsset W)
    (h : Beside origin a b) : Db.Paired Eq (Beside origin) (recordAssetTransition block current renewed)
      (recordAssetTransition block current renewed) a b := by
  unfold recordAssetTransition
  apply Db.paired_bind (paired_encodeU64 block.height h)
  rintro height _ t t' rfl ht
  apply Db.paired_get_bind
  rw [ht.chainHistory]
  split_ifs
  · exact Db.paired_throw ht
  · exact Db.paired_set { ht with chainHistory := rfl }

theorem paired_onStore {A : Type} {prog : Db (MonitoredUtxoStore W) SqlError A}
    (hprog : ∀ s s', MonitoredUtxoStore.SameIssued (cursor dropletsRuleSet origin) s s' →
      Db.Paired Eq (MonitoredUtxoStore.SameIssued (cursor dropletsRuleSet origin)) prog prog s s')
    (h : Beside origin a b) : Db.Paired Eq (Beside origin) (onStore prog) (onStore prog) a b := by
  apply Db.paired_zoom (hprog a.store b.store ⟨h.monitoredUtxos, h.issuedCursor, h.dropletsCursor⟩)
  intro t t' ht
  exact { h with
    monitoredUtxos := ht.monitoredUtxos
    issuedCursor := ht.issuedCursor
    dropletsCursor := ht.dropletsCursor }

theorem paired_writeRenewal (loop : Loop W) (reading : Reading W) (h : Beside origin a b) :
    Db.Paired Eq (Beside origin) (writeRenewal loop reading) (writeRenewal loop reading) a b := by
  unfold writeRenewal
  cases reading.renewed with
  | none => exact Db.paired_pure rfl h
  | some renewed =>
    apply Db.paired_bind (paired_indexStormEyeRenewalIn loop.stormEye renewed h)
    rintro updated _ t t' rfl ht
    split_ifs
    · exact paired_recordAssetTransition reading.block loop.stormEye renewed ht
    · exact Db.paired_throw ht

theorem paired_writeMigrated (loop : Loop W) (reading : Reading W) (h : Beside origin a b) :
    Db.Paired Eq (Beside origin) (writeMigrated loop reading) (writeMigrated loop reading) a b := by
  unfold writeMigrated
  cases reading.migrated with
  | none => exact Db.paired_pure rfl h
  | some migrated =>
    apply Db.paired_bind (paired_indexStormEyeRenewalIn loop.stormEye migrated h)
    rintro updated _ t t' rfl ht
    split_ifs
    · exact Db.paired_pure rfl ht
    · exact Db.paired_throw ht

variable [DecidableEq W]

theorem paired_recordBlock (block : CanonicalBlock W) (h : Beside origin a b) :
    Db.Paired Eq (Beside origin) (recordBlock block) (recordBlock block) a b := by
  unfold recordBlock
  apply Db.paired_bind (paired_encodeU64 block.height h)
  rintro height _ t t' rfl ht
  apply Db.paired_get_bind
  rw [ht.canonicalBlocks]
  split_ifs
  · exact Db.paired_throw ht
  · apply Db.paired_set
    have hissued := ht.issuedCursor
    have hdroplets := ht.dropletsCursor
    unfold cursor at hissued hdroplets
    exact ⟨⟨ht.monitoredUtxos, hissued, ht.networkAssets, ht.chainHistory, ht.memberMigrations, rfl, ht.recovery⟩,
      ht.ledger, ht.dropletsHalt, hdroplets⟩

theorem paired_writeIssued (rules : IndexerRules W B) (reading : Reading W) (h : Beside origin a b) :
    Db.Paired Eq (Beside origin) (writeIssued rules reading) (writeIssued rules reading) a b := by
  unfold writeIssued
  cases reading.issued with
  | none => exact Db.paired_pure rfl h
  | some entry =>
    obtain ⟨issued, spent⟩ := entry
    apply paired_onStore _ h
    intro s s' hs
    apply Db.paired_bind (MonitoredUtxoStore.paired_applyBlockIn reading.indexedBlock issued spent _ hs)
    intro _ _ t t' _ ht
    exact MonitoredUtxoStore.paired_recordCursor reading.indexedBlock ht

theorem paired_writeAssets (rules : IndexerRules W B) (loop : Loop W) (reading : Reading W) (h : Beside origin a b) :
    Db.Paired Eq (Beside origin) (writeAssets rules loop reading) (writeAssets rules loop reading) a b := by
  unfold writeAssets
  apply Db.paired_bind (paired_writeRenewal loop reading h)
  intro _ _ t t' _ ht
  apply Db.paired_bind (paired_writeMigrated loop reading ht)
  intro _ _ u u' _ hu
  exact paired_writeIssued rules reading hu

end Pairs

section Blocks

variable [LinearOrder W]

/-- The loop, and what it reads, without the ledger. -/
def Loop.withoutLedger (loop : Loop W) : Loop W := { loop with dropletsHeight := none }

def Reading.withoutLedger (reading : Reading W) : Reading W := { reading with treasuryTransactions := none }

/-- Without the ledger a block is read alike. -/
theorem readBlock_withoutLedger {context : Context W B} {loop : Loop W} {height : ℕ} {reading : Reading W}
    (h : readBlock context loop height = .ok reading) :
    readBlock context loop.withoutLedger height = .ok reading.withoutLedger := by
  obtain ⟨block, renewal, hreads⟩ := readBlock_ok.mp h
  exact readBlock_ok.mpr ⟨block, renewal, { hreads with treasury := rfl }⟩

theorem readBlock_treasury {context : Context W B} {loop : Loop W} {height : ℕ} {reading : Reading W}
    (h : readBlock context loop height = .ok reading) (hloop : loop.dropletsHeight = none) :
    reading.treasuryTransactions = none := by
  obtain ⟨block, renewal, hreads⟩ := readBlock_ok.mp h
  have htreasury := hreads.treasury
  unfold readTreasury at htreasury
  rw [hloop, if_neg (by simp)] at htreasury
  exact (Except.ok.inj htreasury).symm

theorem readBlock_height {context : Context W B} {loop : Loop W} {height : ℕ} {reading : Reading W}
    (h : readBlock context loop height = .ok reading) : reading.block.height = height := by
  obtain ⟨block, renewal, hreads⟩ := readBlock_ok.mp h
  rw [hreads.canonical]

variable {origin a b : IndexerDb W Tx}

/-- A block that the ledger has no part in. -/
theorem paired_writeBlock (rules : IndexerRules W B) (loop : Loop W) {reading : Reading W}
    (htreasury : reading.treasuryTransactions = none) (h : Beside origin a b) :
    Db.Paired Eq (Beside origin) (writeBlock rules loop reading) (writeBlock rules loop reading) a b := by
  unfold writeBlock
  apply Db.paired_bind (paired_writeAssets rules loop reading h)
  intro _ _ t t' _ ht
  unfold writeLedger
  rw [htreasury]
  apply Db.paired_bind (Db.paired_pure rfl ht)
  rintro halted _ u u' rfl hu
  apply Db.paired_bind (paired_recordBlock reading.block hu)
  intro _ _ v v' _ hv
  exact Db.paired_pure rfl hv

theorem paired_indexBlock (context : Context W B) (loop : Loop W) (height : ℕ) (hloop : loop.dropletsHeight = none)
    (h : Beside origin a b) :
    Db.Paired (fun l l' => l = l' ∧ l.dropletsHeight = none) (Beside origin) (indexBlock context loop height)
      (indexBlock context loop height) a b := by
  unfold indexBlock
  have hread : ∀ reading, readBlock context loop height = .ok reading →
      reading = reading ∧ reading.treasuryTransactions = none :=
    fun reading hreading => ⟨rfl, readBlock_treasury hreading hloop⟩
  apply Db.paired_bind (Db.paired_check (Q := fun x y => x = y ∧ x.treasuryTransactions = none) hread h)
  rintro reading _ t t' ⟨rfl, htreasury⟩ ht
  apply Db.paired_bind (Db.paired_atomic ht (paired_writeBlock context.rules loop htreasury ht))
  rintro halted _ u u' rfl hu
  apply Db.paired_pure _ hu
  refine ⟨rfl, ?_⟩
  unfold Loop.next
  dsimp only
  split_ifs
  · rfl
  · exact hloop

theorem paired_indexBlocks (context : Context W B) {loop : Loop W} (heights : List ℕ) (hloop : loop.dropletsHeight = none)
    (h : Beside origin a b) :
    Db.Paired (fun l l' => l = l' ∧ l.dropletsHeight = none) (Beside origin) (indexBlocks context loop heights)
      (indexBlocks context loop heights) a b := by
  apply Db.paired_foldlM _ heights ⟨rfl, hloop⟩ h
  rintro height l _ s s' ⟨rfl, hl⟩ hs
  exact paired_indexBlock context l height hl hs

end Blocks

section Halt

/-- The same projections, and the ledger as it was. -/
def BesideLedger (ledger : DropletStore W Tx) (a b : IndexerDb W Tx) : Prop := SameProjections a b ∧ a.ledger = ledger

theorem Beside.besideLedger {origin a b : IndexerDb W Tx} (h : Beside origin a b) : BesideLedger origin.ledger a b :=
  ⟨h.toSameProjections, h.ledger⟩

theorem SameProjections.beside {a b : IndexerDb W Tx} (h : SameProjections a b) : Beside a a b :=
  { h with ledger := rfl, dropletsHalt := rfl, dropletsCursor := rfl }

variable [LinearOrder W] {ledger : DropletStore W Tx} {origin a b : IndexerDb W Tx} {context : Context W B} {loop : Loop W} {height : ℕ} {reading : Reading W}
  {treasuryTransactions : List (TreasuryTransaction W)} {reason : String}

/-- A ledger that refuses a block is rolled back, and the block is recorded as its halt. -/
theorem exec_writeLedger_invalid (htreasury : reading.treasuryTransactions = some treasuryTransactions)
    (hinvalid : ((DropletStore.applyBlockIn reading.block.height treasuryTransactions loop.activeMembers).exec
      a.ledger).1 = .error (.invalid reason)) :
    (writeLedger loop reading).exec a =
      (haltLedgerIn reading.block.height reason >>= fun _ => pure true : Db (IndexerDb W Tx) IndexerError Bool).exec a := by
  have hattempt : (Db.attempt (onLedger (DropletStore.applyBlockIn reading.block.height treasuryTransactions
      loop.activeMembers)) : Db (IndexerDb W Tx) IndexerError _).exec a = (.ok (.error (.invalid reason)), a) := by
    change ((.ok (Db.exec _ a).1, (Db.exec _ a).2) : Except IndexerError _ × IndexerDb W Tx) = _
    unfold onLedger
    rw [Db.exec_atomic, Db.exec_zoom]
    cases hexec : (DropletStore.applyBlockIn reading.block.height treasuryTransactions loop.activeMembers).exec a.ledger with
    | mk r t =>
      rw [hexec] at hinvalid
      cases hinvalid
      rfl
  unfold writeLedger
  rw [htreasury]
  dsimp only
  rw [Db.exec_bind, hattempt]

/-- The halt is written with the block, or both fail on the height. -/
theorem paired_halt (reading : Reading W) (reason : String) (h : BesideLedger ledger a b) :
    Db.Paired (fun halted halted' => halted = true ∧ halted' = false) (BesideLedger ledger)
      ((haltLedgerIn reading.block.height reason >>= fun _ => pure true) >>= fun halted => do
        recordBlock reading.block
        pure halted)
      (pure false >>= fun halted => do
        recordBlock reading.block
        pure halted) a b := by
  unfold haltLedgerIn recordBlock encodeU64
  by_cases hheight : reading.block.height < 2 ^ 63
  · rw [if_pos hheight]
    let halted := { a with recovery := { a.recovery with dropletsHalt := some (reading.block.height, reason) } }
    have hhalt : Beside halted halted b := { h.1 with recovery := h.1.recovery, ledger := rfl, dropletsHalt := rfl, dropletsCursor := rfl }
    have hrecord := paired_recordBlock reading.block hhalt
    unfold recordBlock encodeU64 at hrecord
    rw [if_pos hheight] at hrecord
    apply Db.paired_bind (hrecord.weaken (fun _ _ h => h) fun t t' ht => ⟨ht.toSameProjections, ht.ledger.trans h.2⟩)
    intro _ _ v v' _ hv
    exact Db.paired_pure ⟨rfl, rfl⟩ hv
  · rw [if_neg hheight]
    exact Db.paired_throw h

/-- A block that the ledger refuses, beside a run that has no ledger. -/
theorem paired_writeBlock_halt (rules : IndexerRules W B)
    (htreasury : reading.treasuryTransactions = some treasuryTransactions)
    (hinvalid : ((DropletStore.applyBlockIn reading.block.height treasuryTransactions loop.activeMembers).exec
      a.ledger).1 = .error (.invalid reason)) (h : SameProjections a b) :
    Db.Paired (fun halted halted' => halted = true ∧ halted' = false) (BesideLedger a.ledger)
      (writeBlock rules loop reading) (writeBlock rules loop.withoutLedger reading.withoutLedger) a b := by
  unfold writeBlock
  apply Db.paired_bind ((paired_writeAssets rules loop reading h.beside).weaken (fun _ _ h => h) fun _ _ => Beside.besideLedger)
  intro _ _ t t' _ ht
  rw [← ht.2] at hinvalid
  exact Db.Paired.congr (Db.exec_bind_congr _ (exec_writeLedger_invalid htreasury hinvalid)) rfl
    (paired_halt reading reason ht)

theorem paired_indexBlock_halt (hread : readBlock context loop height = .ok reading)
    (htreasury : reading.treasuryTransactions = some treasuryTransactions)
    (hinvalid : ((DropletStore.applyBlockIn height treasuryTransactions loop.activeMembers).exec
      a.ledger).1 = .error (.invalid reason)) (h : SameProjections a b) :
    Db.Paired (fun l l' => l = l' ∧ l.dropletsHeight = none) (BesideLedger a.ledger) (indexBlock context loop height)
      (indexBlock context loop.withoutLedger height) a b := by
  unfold indexBlock
  rw [readBlock_withoutLedger hread, hread]
  rw [← readBlock_height hread] at hinvalid
  have hstart : BesideLedger a.ledger a b := ⟨h, rfl⟩
  apply Db.paired_bind (Db.paired_pure (Q := fun x y => x = reading ∧ y = reading.withoutLedger) ⟨rfl, rfl⟩ hstart)
  rintro _ _ t t' ⟨rfl, rfl⟩ ht
  rw [← ht.2] at hinvalid
  have hwrite := paired_writeBlock_halt context.rules htreasury hinvalid ht.1
  rw [ht.2] at hwrite
  apply Db.paired_bind (Db.paired_atomic ht hwrite)
  rintro halted halted' u u' ⟨rfl, rfl⟩ hu
  exact Db.paired_pure ⟨rfl, rfl⟩ hu

/-- The block itself: the ledger is as before, and the halt names the block. -/
theorem indexBlock_halt (hread : readBlock context loop height = .ok reading)
    (htreasury : reading.treasuryTransactions = some treasuryTransactions)
    (hinvalid : ((DropletStore.applyBlockIn height treasuryTransactions loop.activeMembers).exec
      a.ledger).1 = .error (.invalid reason)) {loop' : Loop W} (h : (indexBlock context loop height).Returns a loop' b) :
    b.ledger = a.ledger ∧ b.recovery.dropletsHalt = some (height, reason) ∧ loop'.dropletsHeight = none := by
  have hsame : SameProjections a a := ⟨rfl, rfl, rfl, rfl, rfl, rfl, rfl⟩
  obtain ⟨l, b', -, ⟨rfl, hloop⟩, hb⟩ := (paired_indexBlock_halt hread htreasury hinvalid hsame).returns h
  refine ⟨hb.2, ?_, hloop⟩
  obtain ⟨reading', halted, hread', hwrite, rfl⟩ := returns_indexBlock h
  rw [hread] at hread'
  cases hread'
  obtain ⟨v, w, hassets, hledger, hrecord⟩ := returns_writeBlock hwrite
  obtain ⟨-, v', -, -, hv⟩ := (paired_writeAssets context.rules loop reading hsame.beside).returns hassets
  rw [← readBlock_height hread, ← hv.ledger] at hinvalid
  obtain ⟨-, -, rfl⟩ := returns_recordBlock hrecord
  obtain ⟨hnone, -⟩ | ⟨accounted, ledger, haccounted, -, happlied, -⟩ | ⟨refused, reason', hrefused, -, herror, rfl⟩ :=
    returns_writeLedger hledger
  · rw [htreasury] at hnone
    cases hnone
  · rw [htreasury] at haccounted
    cases haccounted
    rw [happlied] at hinvalid
    cases hinvalid
  · rw [htreasury] at hrefused
    cases hrefused
    rw [hinvalid] at herror
    cases herror
    rw [readBlock_height hread]

end Halt

end Indexer

end PriceOracle
