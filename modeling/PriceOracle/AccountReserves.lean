import Mathlib.Data.List.Forall2
import Mathlib.Algebra.BigOperators.Group.List.Basic
import Mathlib.Algebra.Order.BigOperators.Group.List
import Mathlib.Tactic.Ring
import Mathlib.Tactic.Linarith
import PriceOracle.IssuanceRounds

/-!
# The burn-fee reserves of a round's accounts

A round pays one transaction fee. `allocate_account_reserves` takes it greedily from the
accounts that have a surplus over their operational fee and their burn reserve; what is left
of an account becomes its reserve output. Amounts are `u64` and two of the subtractions are
not checked, so the arithmetic is that of `UInt64` and the results are stated in `ℕ`.
-/

namespace PriceOracle.Issuance

/-- The fields of `ProtocolConfig` that an issuance round reads. -/
structure ProtocolConfig where
  operationalFeeSats : UInt64
  tickBurnReserveSats : UInt64
  issuanceTransactionFeeSats : UInt64
deriving DecidableEq

inductive FeeUtxoValidationError where
  | policyOverflow

section CheckedArithmetic

def checkedAdd (a b : UInt64) : Option UInt64 :=
  if a.toNat + b.toNat < 2 ^ 64 then some (a + b) else none

def checkedMul (a b : UInt64) : Option UInt64 :=
  if a.toNat * b.toNat < 2 ^ 64 then some (a * b) else none

def checkedSub (a b : UInt64) : Option UInt64 :=
  if b.toNat ≤ a.toNat then some (a - b) else none

theorem checkedAdd_eq_some_iff (a b c : UInt64) :
    checkedAdd a b = some c ↔ c.toNat = a.toNat + b.toNat := by
  have hc := c.toNat_lt
  unfold checkedAdd
  split_ifs with h
  · rw [Option.some.injEq, ← UInt64.toNat_inj, UInt64.toNat_add, Nat.mod_eq_of_lt h, eq_comm]
  · simp only [false_iff]
    omega

theorem checkedMul_eq_some_iff (a b c : UInt64) :
    checkedMul a b = some c ↔ c.toNat = a.toNat * b.toNat := by
  have hc := c.toNat_lt
  unfold checkedMul
  split_ifs with h
  · rw [Option.some.injEq, ← UInt64.toNat_inj, UInt64.toNat_mul, Nat.mod_eq_of_lt h, eq_comm]
  · simp only [false_iff]
    omega

theorem checkedSub_eq_some_iff (a b c : UInt64) :
    checkedSub a b = some c ↔ c.toNat + b.toNat = a.toNat := by
  unfold checkedSub
  split_ifs with h
  · rw [Option.some.injEq, ← UInt64.toNat_inj, UInt64.toNat_sub_of_le a b (UInt64.le_iff_toNat_le.mpr h)]
    omega
  · simp only [false_iff]
    omega

theorem toNat_ofNat {n : ℕ} (h : n < 2 ^ 64) : (UInt64.ofNat n).toNat = n :=
  UInt64.toNat_ofNat_of_lt' h

theorem toNat_min (a b : UInt64) : (min a b).toNat = min a.toNat b.toNat := by
  change (if a ≤ b then a else b).toNat = _
  split_ifs with h
  · rw [min_eq_left (UInt64.le_iff_toNat_le.mp h)]
  · rw [min_eq_right (by have := mt UInt64.le_iff_toNat_le.mpr h; omega)]

end CheckedArithmetic

/-- `ok_or` -/
def okOr {ε α : Type} (error : ε) : Option α → Except ε α
  | some value => .ok value
  | none => .error error

@[simp] theorem okOr_eq_ok_iff {ε α : Type} (error : ε) (value : Option α) (result : α) :
    okOr error value = .ok result ↔ value = some result := by
  cases value <;> simp [okOr]

/-- An account of a round: how many Vouchers it asked for, and what its fee UTXOs hold. -/
abbrev Account := UInt64 × UInt64

section Allocation

/-- What an account owes for its Vouchers, and what it can give to the transaction fee. -/
def availableForFee (config : ProtocolConfig) (account : Account) :
    Except UserRequestError (UInt64 × UInt64) := do
  let operationalFee ← okOr (.invalid "operational fee overflow")
    (checkedMul config.operationalFeeSats account.1)
  let minimumReserve ← okOr (.invalid "burn reserve overflow")
    (checkedMul config.tickBurnReserveSats account.1)
  let available ← okOr (.invalid "insufficient user fee funds")
    ((checkedSub account.2 operationalFee).bind fun amount => checkedSub amount minimumReserve)
  return (operationalFee, available)

/-- The loop over the accounts, with what remains to be paid of the transaction fee. -/
def allocate (config : ProtocolConfig) : List Account → UInt64 → Except UserRequestError (List UInt64 × UInt64)
  | [], remaining => .ok ([], remaining)
  | account :: accounts, remaining => do
    let (operationalFee, available) ← availableForFee config account
    let transactionFee := min available remaining
    let (reserves, left) ← allocate config accounts (remaining - transactionFee)
    return ((account.2 - operationalFee - transactionFee) :: reserves, left)

def allocateAccountReserves (accounts : List Account) (config : ProtocolConfig) :
    Except UserRequestError (List UInt64) := do
  let (reserves, remaining) ← allocate config accounts config.issuanceTransactionFeeSats
  if remaining ≠ 0 then
    .error (.invalid "insufficient funds for the issuance transaction fee")
  else
    return reserves

/-- The least that the fee UTXOs of one request must hold. -/
def minimumFeeValue (requestCount : UInt64) (config : ProtocolConfig) :
    Except FeeUtxoValidationError UInt64 :=
  okOr .policyOverflow <|
    ((checkedAdd config.operationalFeeSats config.tickBurnReserveSats).bind
      fun perRequest => checkedMul perRequest requestCount).bind
        fun requestFees => checkedAdd requestFees config.issuanceTransactionFeeSats

end Allocation

section Accounts

/-- The operational fee of an account's Vouchers. -/
def Account.operationalFee (config : ProtocolConfig) (account : Account) : ℕ :=
  config.operationalFeeSats.toNat * account.1.toNat

/-- The burn reserve of an account's Vouchers. -/
def Account.burnReserve (config : ProtocolConfig) (account : Account) : ℕ :=
  config.tickBurnReserveSats.toNat * account.1.toNat

def Account.Covered (config : ProtocolConfig) (account : Account) : Prop :=
  account.operationalFee config + account.burnReserve config ≤ account.2.toNat

def Account.surplus (config : ProtocolConfig) (account : Account) : ℕ :=
  account.2.toNat - (account.operationalFee config + account.burnReserve config)

/-- Every account covers its own Vouchers, and their surpluses the transaction fee. -/
def Covered (config : ProtocolConfig) (accounts : List Account) : Prop :=
  (∀ account ∈ accounts, account.Covered config) ∧
    config.issuanceTransactionFeeSats.toNat ≤ (accounts.map (Account.surplus config)).sum

variable {config : ProtocolConfig} {account : Account} {accounts : List Account}
  {remaining left : UInt64} {reserves : List UInt64}

theorem availableForFee_eq_ok_iff {fee available : UInt64} :
    availableForFee config account = .ok (fee, available) ↔
      fee.toNat = account.operationalFee config ∧
        available.toNat + account.operationalFee config + account.burnReserve config =
          account.2.toNat := by
  unfold availableForFee Account.operationalFee Account.burnReserve
  simp only [Db.except_bind_ok, okOr_eq_ok_iff, checkedMul_eq_some_iff, Option.bind_eq_some_iff,
    checkedSub_eq_some_iff, pure, Except.pure, Except.ok.injEq, Prod.mk.injEq]
  constructor
  · rintro ⟨fee', hfee, reserve, hreserve, available', ⟨amount, hamount, havailable⟩, rfl, rfl⟩
    exact ⟨hfee, by omega⟩
  · rintro ⟨hfee, havailable⟩
    have hlt := account.2.toNat_lt
    have hreserve : (UInt64.ofNat (account.burnReserve config)).toNat = account.burnReserve config :=
      toNat_ofNat (by unfold Account.burnReserve; omega)
    have hamount : (UInt64.ofNat (available.toNat + account.burnReserve config)).toNat =
        available.toNat + account.burnReserve config :=
      toNat_ofNat (by unfold Account.burnReserve; omega)
    unfold Account.burnReserve at hreserve hamount
    exact ⟨fee, hfee, _, hreserve, available,
      ⟨UInt64.ofNat (available.toNat + account.burnReserve config), by
        unfold Account.burnReserve; omega, by unfold Account.burnReserve; omega⟩, rfl, rfl⟩

theorem availableForFee_ok (h : account.Covered config) :
    ∃ fee available, availableForFee config account = .ok (fee, available) := by
  have hlt := account.2.toNat_lt
  unfold Account.Covered at h
  refine ⟨UInt64.ofNat (account.operationalFee config), UInt64.ofNat (account.surplus config),
    availableForFee_eq_ok_iff.mpr ⟨toNat_ofNat (by omega), ?_⟩⟩
  rw [toNat_ofNat (by unfold Account.surplus; omega)]
  unfold Account.surplus
  omega

/-- What the loop leaves of the fee, and what it makes of the accounts. -/
structure Allocated (config : ProtocolConfig) (accounts : List Account) (remaining left : UInt64)
    (reserves : List UInt64) : Prop where
  covered : ∀ account ∈ accounts, account.Covered config
  remains : left.toNat = remaining.toNat - (accounts.map (Account.surplus config)).sum
  total : (reserves.map UInt64.toNat).sum + (accounts.map (Account.operationalFee config)).sum +
    (remaining.toNat - left.toNat) = (accounts.map fun account => account.2.toNat).sum
  reserved : List.Forall₂ (fun account reserve => account.burnReserve config ≤ reserve.toNat)
    accounts reserves

theorem allocate_allocated (h : allocate config accounts remaining = .ok (reserves, left)) :
    Allocated config accounts remaining left reserves := by
  induction accounts generalizing remaining left reserves with
  | nil =>
    simp only [allocate, Except.ok.injEq, Prod.mk.injEq] at h
    obtain ⟨rfl, rfl⟩ := h
    exact ⟨by simp, by simp, by simp, .nil⟩
  | cons account accounts ih =>
    simp only [allocate, Db.except_bind_ok, Prod.exists] at h
    obtain ⟨fee, available, hfee, reserves, left, hrest, heq⟩ := h
    cases heq
    obtain ⟨hfee, havailable⟩ := availableForFee_eq_ok_iff.mp hfee
    have rest := ih hrest
    -- Neither of the unchecked subtractions wraps.
    have hmin := toNat_min available remaining
    have hremaining : (remaining - min available remaining).toNat =
        remaining.toNat - (min available remaining).toNat :=
      UInt64.toNat_sub_of_le _ _ (UInt64.le_iff_toNat_le.mpr (by omega))
    have howed : (account.2 - fee).toNat = account.2.toNat - fee.toNat :=
      UInt64.toNat_sub_of_le _ _ (UInt64.le_iff_toNat_le.mpr (by omega))
    have hreserve : (account.2 - fee - min available remaining).toNat =
        (account.2 - fee).toNat - (min available remaining).toNat :=
      UInt64.toNat_sub_of_le _ _ (UInt64.le_iff_toNat_le.mpr (by omega))
    have hsurplus : account.surplus config = available.toNat := by
      unfold Account.surplus
      omega
    refine ⟨?_, ?_, ?_, .cons (by omega) rest.reserved⟩
    · rintro a (_ | ⟨_, ha⟩)
      · unfold Account.Covered
        omega
      · exact rest.covered a ha
    · have := rest.remains
      simp only [List.map_cons, List.sum_cons]
      omega
    · have := rest.total
      have := rest.remains
      simp only [List.map_cons, List.sum_cons]
      omega

theorem allocate_ok (h : ∀ account ∈ accounts, account.Covered config) :
    ∃ reserves left, allocate config accounts remaining = .ok (reserves, left) := by
  induction accounts generalizing remaining with
  | nil => exact ⟨_, _, rfl⟩
  | cons account accounts ih =>
    obtain ⟨fee, available, hfee⟩ := availableForFee_ok (h account List.mem_cons_self)
    obtain ⟨reserves, left, hrest⟩ := @ih (remaining - min available remaining)
      fun a ha => h a (List.mem_cons_of_mem _ ha)
    refine ⟨(account.2 - fee - min available remaining) :: reserves, left, ?_⟩
    simp only [allocate, hfee, hrest, bind, Except.bind, pure, Except.pure]

/-- It succeeds exactly where the loop runs through and leaves nothing of the fee. -/
theorem allocateAccountReserves_eq_ok_iff :
    allocateAccountReserves accounts config = .ok reserves ↔
      allocate config accounts config.issuanceTransactionFeeSats = .ok (reserves, 0) := by
  unfold allocateAccountReserves
  rw [Db.except_bind_ok]
  constructor
  · rintro ⟨⟨reserves', left⟩, hloop, h⟩
    dsimp only at h
    split_ifs at h with hleft
    rw [hloop]
    cases h
    rw [not_not.mp hleft]
  · intro h
    exact ⟨_, h, by simp [pure, Except.pure]⟩

theorem allocateAccountReserves_ok_iff :
    (∃ reserves, allocateAccountReserves accounts config = .ok reserves) ↔
      Covered config accounts := by
  simp only [allocateAccountReserves_eq_ok_iff]
  constructor
  · rintro ⟨reserves, h⟩
    have allocated := allocate_allocated h
    have := allocated.remains
    exact ⟨allocated.covered, by simp only [UInt64.toNat_zero] at this; omega⟩
  · rintro ⟨hcovered, hfee⟩
    obtain ⟨reserves, left, h⟩ :=
      @allocate_ok config accounts config.issuanceTransactionFeeSats hcovered
    have hleft := (allocate_allocated h).remains
    have : left = 0 := UInt64.toNat_inj.mp (by rw [hleft, UInt64.toNat_zero]; omega)
    exact ⟨reserves, this ▸ h⟩

end Accounts

section MinimumFee

/-- The fee UTXOs of a batch passed the API's check. -/
def MeetsMinimum (config : ProtocolConfig) (account : Account) : Prop :=
  ∃ minimum, minimumFeeValue account.1 config = .ok minimum ∧ minimum ≤ account.2

variable {config : ProtocolConfig} {account : Account} {accounts : List Account}

theorem minimumFeeValue_ok {minimum : UInt64} (h : minimumFeeValue account.1 config = .ok minimum) :
    minimum.toNat = account.operationalFee config + account.burnReserve config +
      config.issuanceTransactionFeeSats.toNat := by
  simp only [minimumFeeValue, okOr_eq_ok_iff, Option.bind_eq_some_iff, checkedAdd_eq_some_iff,
    checkedMul_eq_some_iff] at h
  obtain ⟨fees, ⟨perRequest, hper, hfees⟩, hminimum⟩ := h
  rw [hminimum, hfees, hper, Nat.add_mul]
  rfl

theorem MeetsMinimum.covered (h : MeetsMinimum config account) :
    account.Covered config ∧
      config.issuanceTransactionFeeSats.toNat ≤ account.surplus config := by
  obtain ⟨minimum, hminimum, hle⟩ := h
  have := minimumFeeValue_ok hminimum
  have := UInt64.le_iff_toNat_le.mp hle
  unfold Account.Covered Account.surplus
  omega

/-- The fee is that of one transaction, so the first account alone could pay it. -/
theorem covered_of_minimum (h : ∀ account ∈ accounts, MeetsMinimum config account)
    (hne : accounts ≠ []) : Covered config accounts := by
  obtain ⟨account, rest, rfl⟩ := List.exists_cons_of_ne_nil hne
  have hfirst := (h account List.mem_cons_self).covered.2
  refine ⟨fun a ha => (h a ha).covered.1, ?_⟩
  rw [List.map_cons, List.sum_cons]
  omega

/-- It succeeds exactly where every account covers its Vouchers and the surpluses cover the
transaction fee; nothing is lost, and every reserve is at least the burn reserve. Batches that
passed the API's check are therefore never refused, whichever of them the round keeps. -/
theorem allocateAccountReserves_spec (config : ProtocolConfig) (accounts : List Account) :
    ((∃ reserves, allocateAccountReserves accounts config = .ok reserves) ↔
      Covered config accounts) ∧
    (∀ reserves, allocateAccountReserves accounts config = .ok reserves →
      (reserves.map UInt64.toNat).sum + (accounts.map (Account.operationalFee config)).sum +
          config.issuanceTransactionFeeSats.toNat =
        (accounts.map fun account => account.2.toNat).sum ∧
      List.Forall₂ (fun account reserve => account.burnReserve config ≤ reserve.toNat)
        accounts reserves) ∧
    (∀ kept, (∀ account ∈ accounts, MeetsMinimum config account) →
      kept.Subperm accounts → kept ≠ [] →
      ∃ reserves, allocateAccountReserves kept config = .ok reserves) := by
  refine ⟨allocateAccountReserves_ok_iff, fun reserves h => ?_, fun kept h hkept hne => ?_⟩
  · have allocated := allocate_allocated (allocateAccountReserves_eq_ok_iff.mp h)
    exact ⟨by simpa using allocated.total, allocated.reserved⟩
  · exact allocateAccountReserves_ok_iff.mpr
      (covered_of_minimum (fun account ha => h account (hkept.subset ha)) hne)

/-- Two batches of one Voucher, in the other order than they came. -/
theorem allocateAccountReserves_spec_two :
    ∃ reserves, allocateAccountReserves [(1, 500), (1, 460)] ⟨100, 200, 150⟩ = .ok reserves := by
  refine (allocateAccountReserves_spec ⟨100, 200, 150⟩ [(1, 460), (1, 500)]).2.2 _ ?_
    (List.Perm.swap _ _ _).subperm (by simp)
  rintro account ha
  refine ⟨450, ?_, ?_⟩
  · simp only [List.mem_cons, List.not_mem_nil, or_false] at ha
    rcases ha with rfl | rfl <;> rfl
  · simp only [List.mem_cons, List.not_mem_nil, or_false] at ha
    rcases ha with rfl | rfl <;> decide

example : (allocateAccountReserves [(1, 400), (1, 500)] ⟨100, 200, 150⟩).toOption = some [200, 350] := by
  decide

end MinimumFee

end PriceOracle.Issuance
