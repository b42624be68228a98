import PriceOracle.Voting

/-!
# Voting forms

A vote travels as a request alone, as a proposal with its height, or as a proposal that its
proposer signed. Nothing says which of them a payload is: each form starts as the form before it,
and a reader that is tried first fails where a shorter form ends.
-/

namespace PriceOracle

/-- A payload of a voting request, by what it carries. -/
inductive VotingForm where
  | bare (request : NetworkVoteRequest)
  | unsigned (proposal : VotingProposal)
  | signed (proposal : SignedVotingProposal)

namespace VotingForm

section Contents

def encode : VotingForm → Bytes
  | bare request => NetworkVoteRequest.codec.encode request
  | unsigned proposal => VotingProposal.codec.encode proposal
  | signed proposal => SignedVotingProposal.codec.encode proposal

def request : VotingForm → NetworkVoteRequest
  | bare request => request
  | unsigned proposal => proposal.request
  | signed proposal => proposal.request

def createdAtBlockHeight : VotingForm → Option ℕ
  | bare _ => none
  | unsigned proposal => some proposal.createdAtBlockHeight
  | signed proposal => some proposal.createdAtBlockHeight

/-- The form as which a payload is taken. -/
def ofBytes (payload : Bytes) : Option VotingForm :=
  match SignedVotingProposal.codec.fromBytes payload with
  | some proposal => some (signed proposal)
  | none =>
    match VotingProposal.codec.fromBytes payload with
    | some proposal => some (unsigned proposal)
    | none => (NetworkVoteRequest.codec.fromBytes payload).map bare

theorem decodeVotingProposal_eq (message : NodeMessage) :
    message.decodeVotingProposal = (ofBytes message.payload).map fun form => (form.request, form.createdAtBlockHeight) := by
  unfold NodeMessage.decodeVotingProposal ofBytes NodeMessage.decodePayload
  cases SignedVotingProposal.codec.fromBytes message.payload with
  | some proposal => rfl
  | none =>
    cases VotingProposal.codec.fromBytes message.payload with
    | some proposal => rfl
    | none => cases NetworkVoteRequest.codec.fromBytes message.payload <;> rfl

end Contents

end VotingForm

/-- The lists of an instruction fit a `Vec`, its numbers `u32` and `u64`. -/
def VotingInstruction.Fits : VotingInstruction → Prop
  | .updateNetworkMembers update => update.toAccept.length < 2 ^ 64 ∧ update.toRemove.length < 2 ^ 64
  | .mergeStormEyes merge => merge.utxosToMerge.length < 2 ^ 64 ∧ ∀ utxo ∈ merge.utxosToMerge, utxo.outputIndex < 2 ^ 32
  | .splitStormEye split => split.utxoToSplit.outputIndex < 2 ^ 32 ∧ split.numberOfSplits < 2 ^ 64

namespace VotingForm

section Decoding

/-- The kind fits `u16` and the height `u64`, the payload and the signature a `Vec`. -/
def Fits (form : VotingForm) : Prop :=
  form.request.kind < 2 ^ 16 ∧ form.request.payload.length < 2 ^ 64 ∧
    (∀ height, form.createdAtBlockHeight = some height → height < 2 ^ 64) ∧
    ∀ proposal, form = signed proposal → proposal.signature.length < 2 ^ 64

theorem request_admits {request : NetworkVoteRequest} (hkind : request.kind < 2 ^ 16)
    (hpayload : request.payload.length < 2 ^ 64) : NetworkVoteRequest.codec.Admits request :=
  Codec.struct_admits (Codec.pair_admits (Codec.u16_admits hkind) (Codec.bytes_admits hpayload))

/-- After a request alone there is no height. -/
theorem ofBytes_bare {request : NetworkVoteRequest} (hfits : (bare request).Fits) :
    ofBytes (bare request).encode = some (bare request) := by
  have hrequest : NetworkVoteRequest.codec.Admits request := request_admits hfits.1 hfits.2.1
  have hproposal : VotingProposal.codec.fromBytes (NetworkVoteRequest.codec.encode request ++ []) = none := by
    rw [VotingProposal.codec, Codec.struct_fromBytes, Codec.fromBytes, Codec.pair_decode hrequest]
    rfl
  have hsigned : SignedVotingProposal.codec.fromBytes (NetworkVoteRequest.codec.encode request ++ []) = none := by
    rw [SignedVotingProposal.codec, Codec.struct_fromBytes, Codec.fromBytes, Codec.pair_decode hrequest]
    rfl
  rw [List.append_nil] at hproposal hsigned
  have hbare : NetworkVoteRequest.codec.fromBytes (NetworkVoteRequest.codec.encode request) = some request :=
    Codec.fromBytes_of_admits hrequest
  unfold ofBytes
  dsimp only [encode]
  rw [hsigned, hproposal, hbare]
  rfl

/-- After the height of a proposal without signature there is no key. -/
theorem ofBytes_unsigned {proposal : VotingProposal} (hfits : (unsigned proposal).Fits) :
    ofBytes (unsigned proposal).encode = some (unsigned proposal) := by
  have hrequest : NetworkVoteRequest.codec.Admits proposal.request := request_admits hfits.1 hfits.2.1
  have hheight := Codec.u64_admits (hfits.2.2.1 proposal.createdAtBlockHeight rfl)
  have hsigned : SignedVotingProposal.codec.fromBytes (NetworkVoteRequest.codec.encode proposal.request ++
      (Codec.u64.encode proposal.createdAtBlockHeight ++ [])) = none := by
    rw [SignedVotingProposal.codec, Codec.struct_fromBytes, Codec.fromBytes, Codec.pair_decode hrequest,
      Codec.pair_decode hheight]
    rfl
  rw [List.append_nil] at hsigned
  have hproposal_encode : (unsigned proposal).encode =
      NetworkVoteRequest.codec.encode proposal.request ++ Codec.u64.encode proposal.createdAtBlockHeight := rfl
  have hproposal : VotingProposal.codec.fromBytes (unsigned proposal).encode = some proposal :=
    Codec.fromBytes_of_admits (Codec.struct_admits (Codec.pair_admits hrequest hheight))
  unfold ofBytes
  rw [hproposal_encode, hsigned, ← hproposal_encode, hproposal]

theorem fromBytes_signed {proposal : SignedVotingProposal} (hfits : (signed proposal).Fits) :
    SignedVotingProposal.codec.fromBytes (signed proposal).encode = some proposal := by
  have hrequest := request_admits hfits.1 hfits.2.1
  have hheight := Codec.u64_admits (hfits.2.2.1 proposal.createdAtBlockHeight rfl)
  have hsignature := Codec.bytes_admits (hfits.2.2.2 proposal rfl)
  exact Codec.fromBytes_of_admits (Codec.struct_admits (Codec.pair_admits hrequest (Codec.pair_admits hheight
    (Codec.pair_admits (Codec.array_admits proposal.proposerPublicKey) hsignature))))

theorem ofBytes_signed {proposal : SignedVotingProposal} (hfits : (signed proposal).Fits) :
    ofBytes (signed proposal).encode = some (signed proposal) := by
  rw [ofBytes, fromBytes_signed hfits]

theorem ofBytes_encode {form : VotingForm} (hfits : form.Fits) : ofBytes form.encode = some form := by
  cases form with
  | bare request => exact ofBytes_bare hfits
  | unsigned proposal => exact ofBytes_unsigned hfits
  | signed proposal => exact ofBytes_signed hfits

/-- Whatever follows it, a longer form is never taken as a shorter one with other contents. -/
theorem forms_nested (payload : Bytes) :
    (∀ proposal, SignedVotingProposal.codec.fromBytes payload = some proposal →
      VotingProposal.codec.fromBytes payload = some ⟨proposal.request, proposal.createdAtBlockHeight⟩) ∧
      ∀ proposal, VotingProposal.codec.fromBytes payload = some proposal →
        NetworkVoteRequest.codec.fromBytes payload = some proposal.request := by
  have hfirst {A : Type} {c : Codec A} {pair : NetworkVoteRequest × A}
      (h : (NetworkVoteRequest.codec.pair c).fromBytes payload = some pair) :
      ∃ middle, NetworkVoteRequest.codec.decode payload = some (pair.1, middle) ∧ c.fromBytes middle = some pair.2 := by
    obtain ⟨⟨⟨request, second⟩, rest⟩, hdecode, rfl⟩ := Option.map_eq_some_iff.mp h
    obtain ⟨middle, hrequest, hsecond⟩ := Codec.pair_decode_some.mp hdecode
    exact ⟨middle, hrequest, by rw [Codec.fromBytes, hsecond]; rfl⟩
  constructor
  · intro proposal h
    rw [SignedVotingProposal.codec, Codec.struct_fromBytes] at h
    obtain ⟨⟨request, height, key⟩, hpair, rfl⟩ := Option.map_eq_some_iff.mp h
    obtain ⟨middle, hrequest, hheight⟩ := hfirst hpair
    obtain ⟨⟨⟨height', key'⟩, rest⟩, hdecode, hsame⟩ := Option.map_eq_some_iff.mp hheight
    cases hsame
    obtain ⟨last, hu64, -⟩ := Codec.pair_decode_some.mp hdecode
    rw [VotingProposal.codec, Codec.struct_fromBytes, Codec.fromBytes,
      Codec.pair_decode_some.mpr ⟨middle, hrequest, hu64⟩]
    rfl
  · intro proposal h
    rw [VotingProposal.codec, Codec.struct_fromBytes] at h
    obtain ⟨pair, hpair, rfl⟩ := Option.map_eq_some_iff.mp h
    obtain ⟨middle, hrequest, -⟩ := hfirst hpair
    rw [Codec.fromBytes, hrequest]
    rfl

end Decoding

section Instructions

theorem instruction_request {instruction : VotingInstruction} (hfits : instruction.Fits) :
    instruction.request.instruction = some instruction := by
  have hutxo {utxo : StormEyeUtxo} (hindex : utxo.outputIndex < 2 ^ 32) : StormEyeUtxo.codec.Admits utxo :=
    Codec.struct_admits (Codec.pair_admits (Codec.array_admits utxo.txid) (Codec.u32_admits hindex))
  cases instruction with
  | updateNetworkMembers update =>
    have hupdate : UpdateNetworkMembers.codec.Admits update :=
      Codec.struct_admits (Codec.pair_admits (Codec.vec_admits hfits.1 fun key _ => Codec.array_admits key)
        (Codec.vec_admits hfits.2 fun key _ => Codec.array_admits key))
    exact congrArg (Option.map VotingInstruction.updateNetworkMembers) (Codec.fromBytes_of_admits hupdate)
  | mergeStormEyes merge =>
    have hmerge : MergeStormEyes.codec.Admits merge :=
      Codec.struct_admits (Codec.vec_admits hfits.1 fun utxo hmem => hutxo (hfits.2 utxo hmem))
    exact congrArg (Option.map VotingInstruction.mergeStormEyes) (Codec.fromBytes_of_admits hmerge)
  | splitStormEye split =>
    have hsplit : SplitStormEye.codec.Admits split :=
      Codec.struct_admits (Codec.pair_admits (hutxo hfits.1) (Codec.u64_admits hfits.2))
    exact congrArg (Option.map VotingInstruction.splitStormEye) (Codec.fromBytes_of_admits hsplit)

end Instructions

section Proposer

variable (C : VotingCrypto)

/-- The proposer's key is a key and signed the unsigned proposal. -/
def Verifies (proposal : SignedVotingProposal) : Prop :=
  C.isXOnlyPublicKey proposal.proposerPublicKey = true ∧ proposal.signature.length = 64 ∧
    C.verify proposal.signature
      ((NodeMessage.newVotingRequest proposal.request proposal.createdAtBlockHeight).hash C.digest)
      proposal.proposerPublicKey = true

theorem verifiedProposer_some {message : NodeMessage} {proposer : Bytes32} :
    Voting.verifiedProposer C message = .ok (some proposer) ↔
      ∃ proposal, SignedVotingProposal.codec.fromBytes message.payload = some proposal ∧ Verifies C proposal ∧
        proposal.proposerPublicKey = proposer := by
  unfold Voting.verifiedProposer NodeMessage.decodePayload
  cases hsigned : SignedVotingProposal.codec.fromBytes message.payload with
  | none =>
    refine ⟨fun h => (nomatch h), ?_⟩
    rintro ⟨proposal, h, -⟩
    cases h
  | some proposal =>
    dsimp only
    constructor
    · intro h
      split_ifs at h with hkey hlength hverify
      rw [Bool.not_eq_true', Bool.not_eq_false] at hkey
      cases h
      exact ⟨proposal, rfl, ⟨hkey, not_not.mp hlength, hverify⟩, rfl⟩
    · rintro ⟨other, hother, ⟨hkey, hlength, hverify⟩, rfl⟩
      cases hother
      rw [if_neg (by rw [hkey]; decide), if_neg (not_not.mpr hlength), if_pos hverify]
      rfl

theorem signed_of_encode {form : VotingForm} (hfits : form.Fits) {proposal : SignedVotingProposal} :
    SignedVotingProposal.codec.fromBytes form.encode = some proposal ↔ form = signed proposal := by
  have hform := ofBytes_encode hfits
  constructor
  · intro h
    rw [ofBytes, h] at hform
    exact (Option.some.inj hform).symm
  · rintro rfl
    exact fromBytes_signed hfits

/-- Every form is read back as itself, only the signed one names a proposer, and no payload is read
as two forms with different contents. -/
theorem forms_unambiguous :
    (∀ (form : VotingForm) (message : NodeMessage), form.Fits → message.payload = form.encode →
      message.decodeVotingProposal = some (form.request, form.createdAtBlockHeight) ∧
        ∀ proposer, Voting.verifiedProposer C message = .ok (some proposer) ↔
          ∃ proposal, form = signed proposal ∧ Verifies C proposal ∧ proposal.proposerPublicKey = proposer) ∧
      (∀ instruction : VotingInstruction, instruction.Fits →
        instruction.request.instruction = some instruction) ∧
      (∀ form other : VotingForm, form.Fits → other.Fits → form.encode = other.encode → form = other) ∧
      ∀ message : NodeMessage,
        (∀ proposer, Voting.verifiedProposer C message = .ok (some proposer) ↔
          ∃ proposal, SignedVotingProposal.codec.fromBytes message.payload = some proposal ∧ Verifies C proposal ∧
            proposal.proposerPublicKey = proposer) ∧
        (∀ proposal, SignedVotingProposal.codec.fromBytes message.payload = some proposal →
          VotingProposal.codec.fromBytes message.payload = some ⟨proposal.request, proposal.createdAtBlockHeight⟩) ∧
        ∀ proposal, VotingProposal.codec.fromBytes message.payload = some proposal →
          NetworkVoteRequest.codec.fromBytes message.payload = some proposal.request := by
  refine ⟨?_, fun instruction => instruction_request, ?_, fun message => ⟨fun proposer => verifiedProposer_some C, ?_⟩⟩
  · intro form message hfits hpayload
    refine ⟨?_, fun proposer => ?_⟩
    · rw [decodeVotingProposal_eq, hpayload, ofBytes_encode hfits]
      rfl
    · rw [verifiedProposer_some, hpayload]
      simp only [signed_of_encode hfits]
  · intro form other hform hother h
    have hbytes := ofBytes_encode hform
    rw [h, ofBytes_encode hother] at hbytes
    exact (Option.some.inj hbytes).symm
  · exact forms_nested message.payload

end Proposer

end VotingForm

end PriceOracle
