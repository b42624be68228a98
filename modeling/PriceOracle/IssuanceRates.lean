import PriceOracle.IssuanceCoordinator
import PriceOracle.SignedPrices

/-!
# Ticks beside the rate of their round

A leader carries only a rate that outlives the signing session of its round, so that every Tick it issues is
fresh for the rate that is signed with it.
-/

namespace PriceOracle

namespace IssuanceRound

variable {libraries : RoundLibraries} {programs : IssuancePrograms} {config : Issuance.ProtocolConfig} {leader : Leader}

/-- Wherever a Verifier authenticates the rate, a Tick of that time is spent beside it. -/
def SpendableBeside (time : ℕ) (rate : PriceFeedData) : Prop :=
  ∀ (W Sig : Type) (J : Jets W Sig) (std : InputStd W) (env : Env W) (tickInputIndex verifierInputIndex : UInt32)
    (tickAssetId verifierAssetId tapleafHash signer : W) (signature : Sig),
    VoucherVerifier.verifyTick std env tickInputIndex tickAssetId = some (UInt64.ofNat time) →
    VoucherVerifier.verifyVerifierUtxo J std env verifierInputIndex verifierAssetId tapleafHash signer = some () →
    J.bip0340Verify (signer, VoucherVerifier.getPriceMessage J rate) signature = true →
      VoucherVerifier.verifyTickWithPrice J std env tickInputIndex tickAssetId verifierInputIndex verifierAssetId tapleafHash
        signer signature rate = some (UInt64.ofNat time, rate)

theorem spendableBeside_of_lt {time : ℕ} {rate : PriceFeedData} (h : time < rate.validUntil.toNat) :
    SpendableBeside time rate := by
  intro W Sig J std env tickInputIndex verifierInputIndex tickAssetId verifierAssetId tapleafHash signer signature htick
    hverifier hsigned
  have htime : (UInt64.ofNat time).toNat = time := Issuance.toNat_ofNat (h.trans rate.validUntil.toNat_lt)
  have hfresh : UInt64.ofNat time < rate.validUntil := by rwa [UInt64.lt_iff_toNat_lt, htime]
  simp [VoucherVerifier.verifyTickWithPrice, VoucherVerifier.verifyPrice, htick, hverifier, hsigned, hfresh, guard]

/-- Every Tick of the round is of the leader's time, and the rate outlives it by a signing session. -/
def TicksOutlived (libraries : RoundLibraries) (programs : IssuancePrograms) (leader : Leader) (round : LeaderRound) : Prop :=
  ∀ rate, round.instructed = some rate → ∀ branch request, messageFor libraries programs round branch = .ok request →
    ∀ descriptor ∈ round.transaction.descriptors, descriptor.isVerifier = false →
      ∃ output, request.tx.outputs[descriptor.outputIndex.toNat]? = some output ∧
        output.asset = leader.tickAsset.map NetworkAsset.assetId ∧ output.amount = some leader.timestamp ∧
        leader.timestamp + Issuance.signingSessionTimeout < rate.validUntil.toNat ∧ SpendableBeside leader.timestamp rate

theorem candidate_outlived (hlaws : LawfulBlinding libraries) :
    Candidates libraries programs config (TicksOutlived libraries programs) := by
  intro leader requestLimit store considered rest included rate failed next round hleads hfiled hfilled _ hbuild own hown branch
    request hrequest descriptor hdescriptor htick
  obtain ⟨stormEye, stormEyeUtxo, batches, issued, parts, -, -, -, -, hbuilt⟩ :=
    candidate_built hlaws hleads hfiled hfilled hbuild
  obtain ⟨committed, script, hmessage⟩ := messageFor_ok hbuilt hrequest
  rw [hbuilt.descriptors] at hdescriptor
  obtain ⟨voucher, hvoucher, rfl⟩ := List.mem_map.mp hdescriptor
  obtain ⟨i, hi⟩ := List.getElem?_of_mem hvoucher
  obtain ⟨next, hnext, hcommitted⟩ := Loops.forall₂_get hmessage.commits.flip hi
  obtain ⟨requested, -, hanswer⟩ := Loops.forall₂_get hbuilt.answers hi
  obtain ⟨-, output, houtput, hasset, hamount, -⟩ := hmessage.stands hbuilt i next hnext
  have husable := hfilled.walked.usable own (hbuilt.instructed ▸ hown)
  have hlimit := own.validUntil.toNat_lt
  have hlate : leader.timestamp + Issuance.signingSessionTimeout < own.validUntil.toNat := by
    simp only [leaderView] at husable
    omega
  refine ⟨output, ?_, ?_, ?_, hlate, spendableBeside_of_lt (by omega)⟩
  · rw [hbuilt.places i voucher hi]
    exact houtput
  · have hkind : ¬issuesVerifier requested.request.kind = true := by
      intro hverifier
      have hsigner := hanswer.signer
      rw [if_pos hverifier] at hsigner
      rw [IssuedUtxoDescriptor.isVerifier, hsigner] at htick
      cases htick
    have htickAsset := hanswer.asset
    rw [if_neg hkind] at htickAsset
    rw [hasset, hcommitted.asset, htickAsset]
    rfl
  · rw [hamount, hcommitted.amount, hbuilt.amounts voucher hvoucher, htick]
    rfl

/-- In every run of a coordinator, each Tick of a round that carries a rate can be spent beside it. -/
theorem prepared_ticks_outlived (hlaws : LawfulBlinding libraries) (payload : LeaderRound → Bytes32 → List UInt8)
    (finalBytes : LeaderRound → List UInt8) (actions : List (IssuanceNode.Action Bytes32 LeaderRound))
    (hactions : ∀ action ∈ actions, Coordinates libraries programs config action) :
    Runs.EachStep (IssuanceNode.step payload finalBytes) (fun node action =>
      Prepares libraries programs config (TicksOutlived libraries programs) (node.step payload finalBytes action) action)
      IssuanceNode.initial actions :=
  prepared_rounds (candidate_outlived hlaws) hactions

theorem prepared_ticks_outlived_priced : ∃ round, pricedNode.prepared = some round ∧
    round.transaction.instructed = some plainRate ∧
      TicksOutlived pricedLibraries plainPrograms plainLeader round.transaction := by
  obtain ⟨round, hround, hrate⟩ := Option.map_eq_some_iff.mp pricedNode_prepared
  have hrun := prepared_ticks_outlived priced_lawful (fun _ _ => []) (fun _ => []) [submitPriced, preparePriced]
    priced_coordinates
  obtain ⟨turn, houtlived⟩ := hrun.2.1 (fun _ => plainLeader) (fun _ => plain_leads) rfl round hround
  exact ⟨round, hround, hrate, houtlived⟩

end IssuanceRound

end PriceOracle
