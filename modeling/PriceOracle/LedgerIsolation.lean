import PriceOracle.DropletsIsolation
import PriceOracle.Runs

/-!
# Walks beside the ledger

A walk over any blocks and one that leaves the ledger out write the same projections, wherever the first one stops. From
the block that the ledger refuses its tables stay as they are, in that walk and in the syncs after it.
-/

namespace Db

/-- A program that goes on with what another one has returned, where that one has left it. -/
theorem paired_bind_returns {S S' E A A' C C' : Type} {Q : A → A' → Prop} {Q' : C → C' → Prop} {R : S → S' → Prop} {s : S}
    {s' : S'} {x : Db S E C} {x' : Db S' E C'} {f : C → Db S E A} {f' : C' → Db S' E A'} (hx : Paired Q' R x x' s s')
    (hf : ∀ c c' t t', x.Returns s c t → x'.Returns s' c' t' → Q' c c' → R t t' → Paired Q R (f c) (f' c') t t') :
    Paired Q R (x >>= f) (x' >>= f') s s' := by
  unfold Paired at hx ⊢
  rw [exec_bind, exec_bind]
  cases hrun : x.exec s with
  | mk r t =>
    cases hrun' : x'.exec s' with
    | mk r' t' =>
      rw [hrun, hrun'] at hx
      cases r with
      | ok c =>
        cases r' with
        | ok c' => exact hf c c' t t' hrun hrun' hx.1 hx.2
        | error e' => exact absurd hx id
      | error e =>
        cases r' with
        | ok c' => exact absurd hx id
        | error e' => exact hx

theorem Paired.result_eq {S S' E A : Type} {R : S → S' → Prop} {s : S} {s' : S'} {prog : Db S E A} {prog' : Db S' E A}
    (h : Paired Eq R prog prog' s s') : (prog.exec s).1 = (prog'.exec s').1 := by
  unfold Paired at h
  cases hrun : prog.exec s with
  | mk r t =>
    cases hrun' : prog'.exec s' with
    | mk r' t' =>
      rw [hrun, hrun'] at h
      cases r with
      | ok a =>
        cases r' with
        | ok a' => exact congrArg Except.ok h.1
        | error e' => exact absurd h id
      | error e =>
        cases r' with
        | ok a' => exact absurd h id
        | error e' => exact congrArg Except.error h.1

end Db

namespace PriceOracle

namespace Indexer

variable {W Tx B : Type} [LinearOrder W] {context : Context W B} {loop loop' : Loop W} {height : ℕ} {a b a' : IndexerDb W Tx}

section Walk

/-- The ledger refuses a block. -/
def Refuses (context : Context W B) (loop : Loop W) (height : ℕ) (reason : String) (a : IndexerDb W Tx) : Prop :=
  ∃ reading treasuryTransactions, readBlock context loop height = .ok reading ∧
    reading.treasuryTransactions = some treasuryTransactions ∧
    ((DropletStore.applyBlockIn height treasuryTransactions loop.activeMembers).exec a.ledger).1 = .error (.invalid reason)

/-- What the ledger does with a block is in no other projection. -/
theorem writeLedger_projections {reading : Reading W} {halted : Bool} (h : (writeLedger loop reading).Returns a halted a') :
    SameProjections a' a := by
  obtain ⟨-, -, rfl⟩ | ⟨_, ledger, -, -, -, rfl⟩ | ⟨_, reason, -, -, -, rfl⟩ := returns_writeLedger h
  · exact ⟨rfl, rfl, rfl, rfl, rfl, rfl, rfl⟩
  · exact ⟨rfl, AList.lookup_insert_ne (by decide), rfl, rfl, rfl, rfl, rfl⟩
  · exact ⟨rfl, rfl, rfl, rfl, rfl, rfl, rfl⟩

omit [LinearOrder W] in
theorem SameProjections.symm (h : SameProjections a b) : SameProjections b a :=
  ⟨h.monitoredUtxos.symm, h.issuedCursor.symm, h.networkAssets.symm, h.chainHistory.symm, h.memberMigrations.symm,
    h.canonicalBlocks.symm, h.recovery.symm⟩

omit [LinearOrder W] in
theorem SameProjections.trans {c : IndexerDb W Tx} (h : SameProjections a b) (h' : SameProjections b c) : SameProjections a c :=
  ⟨h.monitoredUtxos.trans h'.monitoredUtxos, h.issuedCursor.trans h'.issuedCursor, h.networkAssets.trans h'.networkAssets,
    h.chainHistory.trans h'.chainHistory, h.memberMigrations.trans h'.memberMigrations,
    h.canonicalBlocks.trans h'.canonicalBlocks, h.recovery.trans h'.recovery⟩

/-- A block that is indexed is indexed alike without the ledger. -/
theorem indexBlock_beside (h : SameProjections a b) (hrun : (indexBlock context loop height).Returns a loop' a') :
    ∃ b', (indexBlock context loop.withoutLedger height).Returns b loop'.withoutLedger b' ∧ SameProjections a' b' := by
  obtain ⟨reading, halted, hread, hwrite, rfl⟩ := returns_indexBlock hrun
  obtain ⟨v, w, hassets, hledger, hrecord⟩ := returns_writeBlock hwrite
  obtain ⟨⟨⟩, v', hassets', -, hv⟩ := (paired_writeAssets context.rules loop reading h.beside).returns hassets
  have hw : SameProjections w v' := (writeLedger_projections hledger).trans hv.toSameProjections
  obtain ⟨⟨⟩, b', hrecord', -, hb⟩ := (paired_recordBlock reading.block hw.beside).returns hrecord
  refine ⟨b', ?_, hb.toSameProjections⟩
  have hwrite' : (writeBlock context.rules loop.withoutLedger reading.withoutLedger).Returns b false b' :=
    Db.returns_bind.mpr ⟨(), v', hassets', Db.returns_bind.mpr ⟨false, v', Db.returns_pure.mpr ⟨rfl, rfl⟩,
      Db.returns_bind.mpr ⟨(), b', hrecord', Db.returns_pure.mpr ⟨rfl, rfl⟩⟩⟩⟩
  exact Db.returns_bind.mpr ⟨reading.withoutLedger, b, Db.returns_check.mpr ⟨readBlock_withoutLedger hread, rfl⟩,
    Db.returns_bind.mpr ⟨false, b', Db.returns_atomic.mpr hwrite', Db.returns_pure.mpr ⟨rfl, rfl⟩⟩⟩

/-- A block that is not indexed changes nothing. -/
theorem indexBlock_error {e : IndexerError} (h : (indexBlock context loop height).exec a = (.error e, a')) : a' = a := by
  unfold indexBlock at h
  rw [Db.exec_bind] at h
  cases hread : readBlock context loop height with
  | error e' =>
    rw [hread] at h
    exact (congrArg Prod.snd h).symm
  | ok reading =>
    rw [hread] at h
    change (_ >>= _ : Db (IndexerDb W Tx) IndexerError (Loop W)).exec a = _ at h
    rw [Db.exec_bind] at h
    cases hwrite : (writeBlock context.rules loop reading).atomic.exec a with
    | mk r t =>
      rw [hwrite] at h
      cases r with
      | ok halted => cases congrArg Prod.fst h
      | error e' =>
        have hsame := Db.exec_atomic_error (congrArg Prod.fst hwrite)
        rw [hwrite] at hsame
        exact (congrArg Prod.snd h).symm.trans hsame

/-- The walks over the same blocks, up to where the one with the ledger stops. -/
theorem indexBlocks_beside (heights : List ℕ) : ∀ {loop : Loop W} {a b : IndexerDb W Tx}, SameProjections a b →
    ∃ walked rest mid b', heights = walked ++ rest ∧ (indexBlocks context loop.withoutLedger walked).Returns b mid b' ∧
      SameProjections ((indexBlocks context loop heights).exec a).2 b' ∧
      ∀ loop', ((indexBlocks context loop heights).exec a).1 = .ok loop' → rest = [] ∧ mid = loop'.withoutLedger := by
  induction heights with
  | nil =>
    intro loop a b h
    refine ⟨[], [], loop.withoutLedger, b, rfl, Db.returns_pure.mpr ⟨rfl, rfl⟩, h, ?_⟩
    rintro loop' ⟨⟩
    exact ⟨rfl, rfl⟩
  | cons height heights ih =>
    intro loop a b h
    unfold indexBlocks
    rw [List.foldlM_cons, Db.exec_bind]
    cases hblock : (indexBlock context loop height).exec a with
    | mk r t =>
      cases r with
      | error e =>
        refine ⟨[], height :: heights, loop.withoutLedger, b, rfl, Db.returns_pure.mpr ⟨rfl, rfl⟩, ?_, ?_⟩
        · rw [indexBlock_error hblock]
          exact h
        · rintro loop' ⟨⟩
      | ok next =>
        obtain ⟨u, hu, hsame⟩ := indexBlock_beside h hblock
        obtain ⟨walked, rest, mid, b', rfl, hwalk, hend, hok⟩ := @ih next t u hsame
        exact ⟨height :: walked, rest, mid, b', rfl, Db.returns_bind.mpr ⟨next.withoutLedger, u, hu, hwalk⟩, hend, hok⟩

/-- The ledger at the start of a run, and at a state of it. -/
structure Frozen (origin a : IndexerDb W Tx) : Prop where
  ledger : a.ledger = origin.ledger
  dropletsHalt : a.recovery.dropletsHalt = origin.recovery.dropletsHalt
  dropletsCursor : cursor dropletsRuleSet a = cursor dropletsRuleSet origin

omit [LinearOrder W] in
theorem Frozen.trans {origin : IndexerDb W Tx} (h : Frozen a a') (h' : Frozen origin a) : Frozen origin a' :=
  ⟨h.ledger.trans h'.ledger, h.dropletsHalt.trans h'.dropletsHalt, h.dropletsCursor.trans h'.dropletsCursor⟩

/-- A walk without the ledger, wherever it stops. -/
theorem indexBlocks_frozen (heights : List ℕ) (hloop : loop.dropletsHeight = none) :
    Frozen a ((indexBlocks context loop heights).exec a).2 := by
  have hsame : SameProjections a a := ⟨rfl, rfl, rfl, rfl, rfl, rfl, rfl⟩
  have hend := (paired_indexBlocks context heights hloop hsame.beside).exec
  exact ⟨hend.ledger, hend.dropletsHalt, hend.dropletsCursor⟩

/-- A block leaves the halt as it is, or the ledger has refused it. -/
theorem indexBlock_halts (h : (indexBlock context loop height).Returns a loop' a') :
    (a'.recovery.dropletsHalt = a.recovery.dropletsHalt ∧ loop'.dropletsHeight = loop.dropletsHeight) ∨
      ∃ reason, Refuses context loop height reason a ∧ a'.recovery.dropletsHalt = some (height, reason) ∧
        a'.ledger = a.ledger ∧ cursor dropletsRuleSet a' = cursor dropletsRuleSet a ∧ loop'.dropletsHeight = none := by
  have hindexed := h
  have hsame : SameProjections a a := ⟨rfl, rfl, rfl, rfl, rfl, rfl, rfl⟩
  obtain ⟨reading, halted, hread, hwrite, rfl⟩ := returns_indexBlock h
  obtain ⟨v, w, hassets, hledger, hrecord⟩ := returns_writeBlock hwrite
  obtain ⟨-, v', -, -, hv⟩ := (paired_writeAssets context.rules loop reading hsame.beside).returns hassets
  have hledgered : SameProjections w w := ⟨rfl, rfl, rfl, rfl, rfl, rfl, rfl⟩
  obtain ⟨-, w', -, -, hw⟩ := (paired_recordBlock reading.block hledgered.beside).returns hrecord
  obtain ⟨-, rfl, rfl⟩ | ⟨_, ledger, -, rfl, -, rfl⟩ | ⟨treasuryTransactions, reason, htreasury, rfl, hinvalid, rfl⟩ :=
    returns_writeLedger hledger
  · exact .inl ⟨hw.dropletsHalt.trans hv.dropletsHalt, rfl⟩
  · exact .inl ⟨hw.dropletsHalt.trans hv.dropletsHalt, rfl⟩
  · rw [readBlock_height hread, hv.ledger] at hinvalid
    obtain ⟨hkept, hhalt, hnone⟩ := indexBlock_halt hread htreasury hinvalid hindexed
    exact .inr ⟨reason, ⟨reading, treasuryTransactions, hread, htreasury, hinvalid⟩, hhalt, hkept,
      hw.dropletsCursor.trans hv.dropletsCursor, hnone⟩

/-- Where a walk ends with a halt, the ledger is as it was before the block that it refused. -/
theorem indexBlocks_halts (heights : List ℕ) : ∀ {loop : Loop W} {a : IndexerDb W Tx}, a.recovery.dropletsHalt = none →
    ((indexBlocks context loop heights).exec a).2.recovery.dropletsHalt = none ∨
      ∃ before height after mid s reason, heights = before ++ height :: after ∧
        (indexBlocks context loop before).Returns a mid s ∧ Refuses context mid height reason s ∧
        ((indexBlocks context loop heights).exec a).2.recovery.dropletsHalt = some (height, reason) ∧
        ((indexBlocks context loop heights).exec a).2.ledger = s.ledger ∧
        cursor dropletsRuleSet ((indexBlocks context loop heights).exec a).2 = cursor dropletsRuleSet s := by
  induction heights with
  | nil => exact fun h => .inl h
  | cons height heights ih =>
    intro loop a h
    have hcons : (indexBlocks context loop (height :: heights)).exec a =
        (indexBlock context loop height >>= fun next => indexBlocks context next heights).exec a := by
      unfold indexBlocks
      rw [List.foldlM_cons]
    rw [hcons, Db.exec_bind]
    cases hblock : (indexBlock context loop height).exec a with
    | mk r t =>
      cases r with
      | error e =>
        left
        rw [indexBlock_error hblock]
        exact h
      | ok next =>
        obtain ⟨hsame, -⟩ | ⟨reason, hrefused, hhalt, hledger, hcursor, hnone⟩ := indexBlock_halts hblock
        · obtain hend | ⟨before, height', after, mid, s, reason, rfl, hbefore, hrest⟩ := @ih next t (hsame.trans h)
          · exact .inl hend
          · exact .inr ⟨height :: before, height', after, mid, s, reason, rfl,
              Db.returns_bind.mpr ⟨next, t, hblock, hbefore⟩, hrest⟩
        · have hfrozen := @indexBlocks_frozen _ _ _ _ context next t heights hnone
          exact .inr ⟨[], height, heights, loop, a, reason, rfl, Db.returns_pure.mpr ⟨rfl, rfl⟩, hrefused,
            hfrozen.dropletsHalt.trans hhalt, hfrozen.ledger.trans hledger, hfrozen.dropletsCursor.trans hcursor⟩

/-- A walk over any blocks does in the other projections what it does without the ledger, up to the block where it stops.
Where it leaves the ledger halted, the ledger is as it was before the block that it refused. -/
theorem ledger_failure_isolated (heights : List ℕ) (hsame : SameProjections a b) (hnone : a.recovery.dropletsHalt = none) :
    (∃ walked rest mid b', heights = walked ++ rest ∧ (indexBlocks context loop.withoutLedger walked).Returns b mid b' ∧
      SameProjections ((indexBlocks context loop heights).exec a).2 b' ∧
      ∀ loop', ((indexBlocks context loop heights).exec a).1 = .ok loop' → rest = [] ∧ mid = loop'.withoutLedger) ∧
    (((indexBlocks context loop heights).exec a).2.recovery.dropletsHalt = none ∨
      ∃ before height after mid s reason, heights = before ++ height :: after ∧
        (indexBlocks context loop before).Returns a mid s ∧ Refuses context mid height reason s ∧
        ((indexBlocks context loop heights).exec a).2.recovery.dropletsHalt = some (height, reason) ∧
        ((indexBlocks context loop heights).exec a).2.ledger = s.ledger ∧
        cursor dropletsRuleSet ((indexBlocks context loop heights).exec a).2 = cursor dropletsRuleSet s) :=
  ⟨indexBlocks_beside heights hsame, indexBlocks_halts heights hnone⟩

end Walk

section Syncs

/-- A sync, with the chain that it finds and the one when it ends. -/
structure SyncCall (W B : Type) where
  rules : IndexerRules W B
  view : ChainView W B
  current : ChainView W B

section Run

variable [DecidableEq Tx]

/-- The database after a sync, whether or not the sync succeeds. -/
def afterSync (db : IndexerDb W Tx) (call : SyncCall W B) : IndexerDb W Tx := ((sync call.rules call.view call.current).exec db).2

/-- A sync that finds no reason to rebuild. -/
def KeepsProjections (db : IndexerDb W Tx) (call : SyncCall W B) : Prop :=
  ∀ stormEye, db.networkAssets.lookup stormEyeKind = some stormEye → requiresRecovery call.view stormEye db ≠ .ok true

end Run

/-- Two databases that differ in what their halted ledgers hold. -/
structure SameHalted (a b : IndexerDb W Tx) : Prop extends SameProjections a b where
  haltedLeft : a.recovery.dropletsHalt.isSome = true
  haltedRight : b.recovery.dropletsHalt.isSome = true
  dropletsCursor : cursor dropletsRuleSet a = cursor dropletsRuleSet b

omit [LinearOrder W] in
theorem SameProjections.recovery_fields (h : SameProjections a b) :
    a.recovery.recovering = b.recovery.recovering ∧ a.recovery.forkHeight = b.recovery.forkHeight ∧
      a.recovery.safeHalted = b.recovery.safeHalted ∧ a.recovery.haltReason = b.recovery.haltReason := by
  have hrecovery := h.recovery
  rw [RecoveryState.mk.injEq] at hrecovery
  exact ⟨hrecovery.1, hrecovery.2.1, hrecovery.2.2.1, hrecovery.2.2.2.1⟩

theorem SameHalted.migrations_eq (h : SameHalted a b) : finalizedMemberMigrations a = finalizedMemberMigrations b := by
  unfold finalizedMemberMigrations
  rw [h.memberMigrations]

theorem SameHalted.requiresRecovery_eq (h : SameHalted a b) (view : ChainView W B) (stormEye : NetworkAsset W) :
    requiresRecovery view stormEye a = requiresRecovery view stormEye b := by
  unfold requiresRecovery blocksDescending
  rw [h.canonicalBlocks, h.issuedCursor, h.dropletsCursor, h.migrations_eq, h.recovery_fields.1, h.haltedLeft, h.haltedRight]

theorem SameHalted.start_eq (h : SameHalted a b) (rules : IndexerRules W B) (view : ChainView W B)
    (stormEye tickAsset verifierAsset : NetworkAsset W) (recovering : Bool) :
    start rules view stormEye tickAsset verifierAsset recovering a =
      start rules view stormEye tickAsset verifierAsset recovering b := by
  unfold start blocksDescending
  rw [h.canonicalBlocks, h.issuedCursor, h.dropletsCursor, h.migrations_eq, h.haltedLeft, h.haltedRight]

theorem start_dropletsHeight (h : a.recovery.dropletsHalt.isSome = true) (rules : IndexerRules W B) (view : ChainView W B)
    (stormEye tickAsset verifierAsset : NetworkAsset W) (recovering : Bool) :
    (start rules view stormEye tickAsset verifierAsset recovering a).loop.dropletsHeight = none := if_pos h

omit [LinearOrder W] in
theorem returns_getAsset {kind : String} {asset : NetworkAsset W} :
    (getAsset kind).Returns a asset a' ↔ a.networkAssets.lookup kind = some asset ∧ a' = a := by
  unfold getAsset
  rw [Db.returns_get_bind]
  cases a.networkAssets.lookup kind with
  | none => simp
  | some found => simp [eq_comm]

omit [LinearOrder W] in
theorem paired_getAsset {origin : IndexerDb W Tx} (kind : String) (h : Beside origin a b) :
    Db.Paired Eq (Beside origin) (getAsset kind) (getAsset kind) a b := by
  unfold getAsset
  apply Db.paired_get_bind
  rw [h.networkAssets]
  cases b.networkAssets.lookup kind with
  | none => exact Db.paired_throw h
  | some asset => exact Db.paired_pure rfl h

theorem returns_checkMemberMigration {rules : IndexerRules W B} {view : ChainView W B}
    {migration : FinalizedMemberMigration W} {u : Unit} (h : (checkMemberMigration rules view migration).Returns a u a') :
    a' = a := by
  unfold checkMemberMigration at h
  split_ifs at h with htip
  · exact absurd h Db.returns_throw
  · obtain ⟨hash, t, hread, hrest⟩ := Db.returns_bind.mp h
    obtain ⟨-, rfl⟩ := Db.returns_check.mp hread
    split_ifs at hrest with hhash
    · obtain ⟨_, v, -, hthrow⟩ := Db.returns_bind.mp hrest
      exact absurd hthrow Db.returns_throw
    · exact (Db.returns_pure.mp hrest).2

theorem paired_checkMemberMigration {origin : IndexerDb W Tx} (rules : IndexerRules W B) (view : ChainView W B)
    (migration : FinalizedMemberMigration W) (h : Beside origin a b) :
    Db.Paired Eq (Beside origin) (checkMemberMigration rules view migration) (checkMemberMigration rules view migration) a b := by
  unfold checkMemberMigration
  split_ifs with htip
  · exact Db.paired_throw h
  · apply Db.paired_bind (Db.paired_check (fun _ _ => rfl) h)
    rintro hash _ t t' rfl ht
    split_ifs
    · apply Db.paired_bind (Db.paired_modify (f := _) (R := Beside origin) ?_)
      · intro _ _ v v' _ hv
        exact Db.paired_throw hv
      · refine { ht with recovery := ?_ }
        dsimp only
        rw [ht.recovery_fields.2.1]
    · exact Db.paired_pure rfl ht

variable [DecidableEq Tx] {call : SyncCall W B} {calls : List (SyncCall W B)}

/-- Two halted databases stay alike through a sync that has nothing to rebuild. -/
theorem paired_sync (h : SameHalted a b) (hkeeps : KeepsProjections a call) :
    Db.Paired Eq (Beside a) (sync call.rules call.view call.current) (sync call.rules call.view call.current) a b := by
  unfold sync
  apply Db.paired_bind_returns (paired_getAsset stormEyeKind h.beside)
  rintro stormEye _ t t' hrun hrun' rfl -
  obtain ⟨hstormEye, rfl⟩ := returns_getAsset.mp hrun
  obtain ⟨-, rfl⟩ := returns_getAsset.mp hrun'
  apply Db.paired_bind_returns (paired_getAsset tickAssetKind h.beside)
  rintro tickAsset _ t t' hrun hrun' rfl -
  obtain ⟨-, rfl⟩ := returns_getAsset.mp hrun
  obtain ⟨-, rfl⟩ := returns_getAsset.mp hrun'
  apply Db.paired_bind_returns (paired_getAsset oracleVerifierKind h.beside)
  rintro verifierAsset _ t t' hrun hrun' rfl -
  obtain ⟨-, rfl⟩ := returns_getAsset.mp hrun
  obtain ⟨-, rfl⟩ := returns_getAsset.mp hrun'
  apply Db.paired_bind_returns (Db.paired_check (Q := Eq) (fun _ _ => rfl) h.beside)
  rintro targetTipHash _ t t' hrun hrun' rfl -
  obtain ⟨-, rfl⟩ := Db.returns_check.mp hrun
  obtain ⟨-, rfl⟩ := Db.returns_check.mp hrun'
  apply Db.paired_get_bind
  rw [h.recovery_fields.2.2.1, h.recovery_fields.2.2.2]
  split_ifs with hsafe
  · exact Db.paired_throw h.beside
  rw [h.migrations_eq]
  apply Db.paired_bind_returns (Db.paired_forM (fun migration _ _ => paired_checkMemberMigration call.rules call.view migration) _ h.beside)
  rintro _ _ u u' hrun hrun' - -
  obtain rfl : t = u := (Db.returns_forM (P := fun u => u = t)
    (fun _ _ _ _ _ hu hcheck => (returns_checkMemberMigration hcheck).trans hu) rfl hrun).symm
  obtain rfl : t' = u' := (Db.returns_forM (P := fun u => u = t')
    (fun _ _ _ _ _ hu hcheck => (returns_checkMemberMigration hcheck).trans hu) rfl hrun').symm
  rw [h.requiresRecovery_eq call.view stormEye]
  apply Db.paired_bind_returns (Db.paired_check (Q := Eq) (fun _ _ => rfl) h.beside)
  rintro recovering _ t t' hrun hrun' rfl -
  obtain ⟨hrequired, rfl⟩ := Db.returns_check.mp hrun
  obtain ⟨-, rfl⟩ := Db.returns_check.mp hrun'
  obtain rfl : recovering = false := by
    cases recovering with
    | false => rfl
    | true => exact absurd ((h.requiresRecovery_eq call.view stormEye).trans hrequired) (hkeeps stormEye hstormEye)
  simp only [Bool.false_eq_true, if_false, pure_bind]
  apply Db.paired_get_bind
  have hstart := h.start_eq call.rules call.view stormEye tickAsset verifierAsset false
  have hloop := start_dropletsHeight h.haltedLeft call.rules call.view stormEye tickAsset verifierAsset false
  rw [hstart] at hloop ⊢
  apply Db.paired_bind (paired_indexBlocks _ _ hloop h.beside)
  rintro _ _ u u' - hu
  apply Db.paired_bind (Db.paired_check (Q := Eq) (fun _ _ => rfl) hu)
  rintro currentTargetHash _ v v' rfl hv
  split_ifs
  · exact Db.paired_throw hv
  · exact Db.paired_pure rfl hv

omit [LinearOrder W] [DecidableEq Tx] in
theorem SameHalted.right (h : SameHalted a b) : SameHalted b b :=
  ⟨⟨rfl, rfl, rfl, rfl, rfl, rfl, rfl⟩, h.haltedRight, h.haltedRight, rfl⟩

theorem SameHalted.afterSync (h : SameHalted a b) (hkeeps : KeepsProjections a call) :
    SameHalted (afterSync a call) (afterSync b call) ∧ Frozen a (Indexer.afterSync a call) ∧ Frozen b (Indexer.afterSync b call) ∧
      ((sync call.rules call.view call.current).exec a).1 = ((sync call.rules call.view call.current).exec b).1 := by
  have hpair := paired_sync h hkeeps
  have hleft := hpair.exec
  have hright := (paired_sync h.right fun stormEye hstormEye => by
    rw [← h.requiresRecovery_eq]
    rw [← h.networkAssets] at hstormEye
    exact hkeeps stormEye hstormEye).exec
  have hfrozen : Frozen a (Indexer.afterSync a call) := ⟨hleft.ledger, hleft.dropletsHalt, hleft.dropletsCursor⟩
  have hfrozen' : Frozen b (Indexer.afterSync b call) := ⟨hright.ledger, hright.dropletsHalt, hright.dropletsCursor⟩
  refine ⟨⟨hleft.toSameProjections, ?_, ?_, ?_⟩, hfrozen, hfrozen', hpair.result_eq⟩
  · rw [hfrozen.dropletsHalt]
    exact h.haltedLeft
  · rw [hfrozen'.dropletsHalt]
    exact h.haltedRight
  · rw [hfrozen.dropletsCursor, hfrozen'.dropletsCursor]
    exact h.dropletsCursor

/-- In every run of syncs that have nothing to rebuild, a halted ledger stays as it is, and what it holds is in no answer
and in no other projection. -/
theorem halted_ledger_inert (h : SameHalted a b) (hkeeps : Runs.EachStep afterSync KeepsProjections a calls) :
    SameProjections (calls.foldl afterSync a) (calls.foldl afterSync b) ∧ Frozen a (calls.foldl afterSync a) ∧
      Frozen b (calls.foldl afterSync b) ∧ ∀ before call after, calls = before ++ call :: after →
        ((sync call.rules call.view call.current).exec (before.foldl afterSync a)).1 =
          ((sync call.rules call.view call.current).exec (before.foldl afterSync b)).1 := by
  induction calls generalizing a b with
  | nil =>
    refine ⟨h.toSameProjections, ⟨rfl, rfl, rfl⟩, ⟨rfl, rfl, rfl⟩, fun before call after heq => ?_⟩
    simp at heq
  | cons first calls ih =>
    obtain ⟨hnext, hleft, hright, hanswer⟩ := h.afterSync hkeeps.1
    obtain ⟨hsame, hfrozen, hfrozen', hanswers⟩ := ih hnext hkeeps.2
    refine ⟨hsame, hfrozen.trans hleft, hfrozen'.trans hright, fun before call after heq => ?_⟩
    cases before with
    | nil =>
      cases heq
      exact hanswer
    | cons _ before =>
      obtain ⟨rfl, rfl⟩ := List.cons.inj heq
      exact hanswers before call after rfl

end Syncs

section Example

def exampleAsset (kind : String) : NetworkAsset ℕ where
  kind := kind
  name := kind
  assetId := 1
  reissuanceTokenId := none
  entropy := none
  issuanceTxid := 40
  contractScript := [0x51]
  contractData := none
  supply := 10000
  createdAtBlock := 1

def exampleRules : IndexerRules ℕ (List (TreasuryTransaction ℕ)) where
  indexedStormEyeRenewal _ _ := .ok none
  issuedUtxos _ _ _ _ := .ok []
  spentMonitoredOutpoints _ := []
  verifyInitialMembers _ _ _ := .ok ()
  treasuryTransactions txdata _ := .ok txdata
  tickLifetimeBlocks := 10
  initialMembers := [7, 8]
  hex := toString

/-- A deposit for two members, a spend that names nobody, and another deposit. -/
def exampleView : ChainView ℕ (List (TreasuryTransaction ℕ)) where
  tip := 3
  block height := [[], [⟨51, [], [(0, 1000)], none, none⟩], [⟨52, [(51, 0)], [(0, 900)], none, none⟩],
    [⟨53, [], [(0, 500)], none, none⟩]][height]?.map fun txdata => ⟨100 + height, 99 + height, txdata⟩

def exampleDb : IndexerDb ℕ ℕ where
  store := .empty
  ledger := .empty
  networkAssets := ((AList.singleton stormEyeKind (exampleAsset stormEyeKind)).insert tickAssetKind
    (exampleAsset tickAssetKind)).insert oracleVerifierKind (exampleAsset oracleVerifierKind)
  chainHistory := ∅
  memberMigrations := ∅
  canonicalBlocks := ∅
  recoveryLocks := ∅
  recovery := ⟨false, none, false, none, none⟩

def exampleStart : Start ℕ (List (TreasuryTransaction ℕ)) :=
  start exampleRules exampleView (exampleAsset stormEyeKind) (exampleAsset tickAssetKind) (exampleAsset oracleVerifierKind)
    false exampleDb

/-- The database after the second block. -/
def exampleHalted : IndexerDb ℕ ℕ := ((indexBlocks exampleStart.context exampleStart.loop [1, 2]).exec exampleDb).2

/-- The ledger is halted at the second block, and the third one is indexed as it is without a ledger. -/
theorem ledger_failure_isolated_deposit :
    ((indexBlocks exampleStart.context exampleStart.loop [1, 2, 3]).exec exampleDb).2.recovery.dropletsHalt =
      some (2, "Treasury spend has no member marker") ∧
    ∃ mid b', (indexBlocks exampleStart.context exampleStart.loop.withoutLedger [1, 2, 3]).Returns exampleDb mid b' ∧
      SameProjections ((indexBlocks exampleStart.context exampleStart.loop [1, 2, 3]).exec exampleDb).2 b' := by
  refine ⟨by decide +kernel, ?_⟩
  obtain ⟨⟨walked, rest, mid, b', hwalked, hwalk, hsame, hend⟩, -⟩ := @ledger_failure_isolated _ _ _ _
    exampleStart.context exampleStart.loop exampleDb exampleDb [1, 2, 3] ⟨rfl, rfl, rfl, rfl, rfl, rfl, rfl⟩ rfl
  cases hresult : ((indexBlocks exampleStart.context exampleStart.loop [1, 2, 3]).exec exampleDb).1 with
  | error e =>
    have hok : ((indexBlocks exampleStart.context exampleStart.loop [1, 2, 3]).exec exampleDb).1.isOk = true := by
      decide +kernel
    rw [hresult] at hok
    cases hok
  | ok loop' =>
    obtain ⟨rfl, -⟩ := hend loop' hresult
    rw [List.append_nil] at hwalked
    subst hwalked
    exact ⟨mid, b', hwalk, hsame⟩

theorem exampleHalted_keeps : KeepsProjections exampleHalted ⟨exampleRules, exampleView, exampleView⟩ := by
  intro stormEye hstormEye hrequired
  have hlookup : exampleHalted.networkAssets.lookup stormEyeKind = some (exampleAsset stormEyeKind) := by decide +kernel
  have hblocks : exampleHalted.canonicalBlocks.entries.map Sigma.snd = [⟨2, 102, 101⟩, ⟨1, 101, 100⟩] := by decide +kernel
  have hjournal : blocksDescending exampleHalted = [⟨2, 102, 101⟩, ⟨1, 101, 100⟩] := by
    unfold blocksDescending
    rw [hblocks]
    exact List.mergeSort_of_pairwise (by decide)
  have hmigrations : finalizedMemberMigrations exampleHalted = [] := by
    have hrows : exampleHalted.memberMigrations.entries.map Sigma.snd = [] := by decide +kernel
    unfold finalizedMemberMigrations
    rw [hrows, List.mergeSort_nil]
  have hnone : (requiresRecovery exampleView (exampleAsset stormEyeKind) exampleHalted).toOption = some false := by
    unfold requiresRecovery
    rw [hjournal, hmigrations]
    decide +kernel
  cases Option.some.inj (hstormEye.symm.trans hlookup)
  rw [hrequired] at hnone
  cases hnone

/-- A sync after the halt, on a ledger with two members' deposits and on an empty one. -/
theorem halted_ledger_inert_empty :
    SameProjections (afterSync exampleHalted ⟨exampleRules, exampleView, exampleView⟩)
      (afterSync { exampleHalted with ledger := .empty } ⟨exampleRules, exampleView, exampleView⟩) ∧
    (afterSync exampleHalted ⟨exampleRules, exampleView, exampleView⟩).ledger = exampleHalted.ledger := by
  have hhalted : exampleHalted.recovery.dropletsHalt.isSome = true := by decide +kernel
  have hempty : SameHalted exampleHalted { exampleHalted with ledger := .empty } :=
    ⟨⟨rfl, rfl, rfl, rfl, rfl, rfl, rfl⟩, hhalted, hhalted, rfl⟩
  obtain ⟨hsame, hfrozen, -, -⟩ := halted_ledger_inert hempty
    (show Runs.EachStep afterSync KeepsProjections exampleHalted [⟨exampleRules, exampleView, exampleView⟩] from
      ⟨exampleHalted_keeps, trivial⟩)
  exact ⟨hsame, hfrozen.ledger⟩

end Example

end Indexer

end PriceOracle
