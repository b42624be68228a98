import Mathlib.Data.List.DropRight
import PriceOracle.Database
import PriceOracle.UserBatches

/-!
# A signature binds its batch

The signed message is payloads and fee UTXOs without separators. A payload is one object or
array, which ends where its bracket closes; a fee UTXO starts 64 digits before its colon. So the
message has one reading, up to space between payloads.
-/

namespace PriceOracle

open JsonText

/-- What reading JSON rests on: a struct is read from one object or array, and the space around
it is skipped. -/
structure ReadsJson (fromStr : String → Except String TickUtxoRequestDetails) : Prop where
  accepted : ∀ text details, fromStr text = .ok details →
    ∃ before value after, text.toList = before ++ (value ++ after) ∧ Spaces before ∧ Spaces after ∧
      Structured value ∧ fromStr (String.ofList value) = .ok details

namespace UserApi

section FeeUtxos

theorem hexValue_not_bracket {c : Char} (hc : (hexValue c).isSome) : isSpace c = false ∧ isOpening c = false := by
  by_contra hbad
  rw [not_and_or, Bool.not_eq_false, Bool.not_eq_false] at hbad
  unfold isSpace isOpening at hbad
  simp only [Bool.or_eq_true, beq_iff_eq] at hbad
  rcases hbad with (((rfl | rfl) | rfl) | rfl) | rfl | rfl <;> exact absurd hc (by decide)

/-- Every byte is read from two digits. -/
theorem hexDecode_digits (encoded : List Char) : ∀ bytes, hexDecode encoded = some bytes →
    encoded.length = 2 * bytes.length ∧ ∀ c ∈ encoded, (hexValue c).isSome := by
  induction encoded using hexDecode.induct with
  | case1 =>
    rintro bytes ⟨⟩
    exact ⟨rfl, fun c hc => absurd hc List.not_mem_nil⟩
  | case2 c => exact fun bytes hbytes => nomatch hbytes
  | case3 high low encoded ih =>
    intro bytes hbytes
    rw [hexDecode] at hbytes
    simp only [Option.bind_eq_bind, Option.bind_eq_some_iff, Option.pure_def, Option.some.injEq] at hbytes
    obtain ⟨highValue, hhigh, lowValue, hlow, rest, hrest, rfl⟩ := hbytes
    obtain ⟨hlength, hdigits⟩ := ih rest hrest
    refine ⟨by simp only [List.length_cons]; omega, fun c hc => ?_⟩
    rcases List.mem_cons.mp hc with rfl | hc
    · rw [hhigh]
      rfl
    · rcases List.mem_cons.mp hc with rfl | hc
      · rw [hlow]
        rfl
      · exact hdigits c hc

theorem parseHexArray_ok {count : ℕ} {encoded : List Char} {name : String} {bytes : List UInt8}
    (h : parseHexArray count encoded name = .ok bytes) : hexDecode encoded = some bytes ∧ bytes.length = count := by
  unfold parseHexArray at h
  cases hdecode : hexDecode encoded with
  | none =>
    rw [hdecode] at h
    cases h
  | some decoded =>
    rw [hdecode] at h
    dsimp only at h
    split_ifs at h with hlength
    cases h
    exact ⟨rfl, hlength⟩

theorem parseU32_digits {text : List Char} {value : UInt32} (h : parseU32 text = some value) :
    ∀ c ∈ text, c = '+' ∨ c.isDigit = true := by
  unfold parseU32 at h
  dsimp only at h
  split_ifs at h with hplus hdigits hvalue hdigits hvalue
  · intro c hc
    cases text with
    | nil => cases hc
    | cons sign digits =>
      rcases List.mem_cons.mp hc with rfl | hc
      · exact .inl (Option.some.inj hplus)
      · exact .inr (List.all_eq_true.mp hdigits.2 c hc)
  · exact fun c hc => .inr (List.all_eq_true.mp hdigits.2 c hc)

theorem splitOnce_eq {delimiter : Char} {text front back : List Char}
    (h : splitOnce delimiter text = some (front, back)) :
    text = front ++ delimiter :: back ∧ delimiter ∉ front := by
  unfold splitOnce at h
  cases hdrop : text.dropWhile (· != delimiter) with
  | nil =>
    rw [hdrop] at h
    cases h
  | cons c rest =>
    rw [hdrop] at h
    obtain ⟨rfl, rfl⟩ := Prod.mk.inj (Option.some.inj h)
    have hc := List.head?_dropWhile_not (· != delimiter) text
    rw [hdrop] at hc
    obtain rfl : c = delimiter := by simpa using hc
    refine ⟨?_, fun hmem => ?_⟩
    · rw [← hdrop, List.takeWhile_append_dropWhile]
    · have hne := List.all_eq_true.mp List.all_takeWhile c hmem
      simp at hne

/-- A transaction id of 64 digits, a colon, and an index without one. -/
def FeeUtxoText (utxo : List Char) : Prop :=
  ∃ txid index, utxo = txid ++ ':' :: index ∧ txid.length = 64 ∧ (∀ c ∈ txid, (hexValue c).isSome) ∧
    ':' ∉ txid ∧ ':' ∉ index

theorem validateFeeUtxo_ok {parsed parsed' : List (FeeUtxo (List UInt8))} {utxo : String}
    (h : validateFeeUtxo parsed utxo = .ok parsed') : FeeUtxoText utxo.toList := by
  unfold validateFeeUtxo at h
  cases hsplit : splitOnce ':' utxo.toList with
  | none =>
    rw [hsplit] at h
    cases h
  | some parts =>
    obtain ⟨txid, index⟩ := parts
    rw [hsplit] at h
    obtain ⟨bytes, hbytes, h⟩ := Db.except_bind_ok.mp h
    obtain ⟨hdecode, hlength⟩ := parseHexArray_ok hbytes
    obtain ⟨heq, hcolon⟩ := splitOnce_eq hsplit
    obtain ⟨hdigits, hhex⟩ := hexDecode_digits txid bytes hdecode
    refine ⟨txid, index, heq, by rw [hdigits, hlength], hhex, hcolon, fun hmem => ?_⟩
    cases hindex : parseU32 index with
    | none =>
      rw [hindex] at h
      cases h
    | some value =>
      have hchar := parseU32_digits hindex ':' hmem
      exact absurd hchar (by decide)

end FeeUtxos

section Folds

/-- A fold that goes through goes through at each of its elements. -/
theorem foldlM_ok_mem {E A X : Type} {f : A → X → Except E A} {xs : List X} :
    ∀ {a b : A}, xs.foldlM f a = .ok b → ∀ x ∈ xs, ∃ a' b', f a' x = .ok b' := by
  induction xs with
  | nil => exact fun _ x hx => absurd hx List.not_mem_nil
  | cons y ys ih =>
    intro a b h x hx
    rw [List.foldlM_cons] at h
    obtain ⟨a', ha', h⟩ := Db.except_bind_ok.mp h
    rcases List.mem_cons.mp hx with rfl | hx
    · exact ⟨a, a', ha'⟩
    · exact ih h x hx

end Folds

section Texts

theorem asBytes_injective : Function.Injective asBytes := by
  intro first second h
  exact String.toByteArray_inj.mp (ByteArray.ext (Array.toList_inj.mp h))

theorem flatMap_asBytes (texts : List String) :
    texts.flatMap asBytes = asBytes (String.ofList (texts.flatMap String.toList)) := by
  induction texts with
  | nil => rfl
  | cons text texts ih =>
    rw [List.flatMap_cons, List.flatMap_cons, ih, String.ofList_append, String.ofList_toList]
    unfold asBytes
    rw [String.toByteArray_append, ByteArray.toList_data_append]

/-- The characters of the signed message. -/
def signedText (request : NetworkUserRequests) : List Char :=
  (request.requests.flatMap fun userRequest => userRequest.payload.toList) ++
    request.header.feeUtxos.flatMap String.toList

theorem signedText_eq {first second : NetworkUserRequests} (h : signedMessage first = signedMessage second) :
    signedText first = signedText second := by
  have hbytes (request : NetworkUserRequests) : signedMessage request = asBytes (String.ofList (signedText request)) := by
    unfold signedMessage signedText
    rw [← List.flatMap_map, ← List.flatMap_map UserRequest.payload String.toList, ← List.flatMap_append, flatMap_asBytes,
      List.flatMap_append]
  rw [hbytes, hbytes] at h
  exact String.ofList_injective (asBytes_injective h)

end Texts

section Decoding

theorem takeWhile_colon {front : List Char} (hfront : ':' ∉ front) (back : List Char) :
    (front ++ ':' :: back).takeWhile (· != ':') = front := by
  have hpos : ∀ c ∈ front, (c != ':') = true := by
    intro c hc
    rw [bne_iff_ne]
    rintro rfl
    exact hfront hc
  rw [List.takeWhile_append_of_pos hpos, List.takeWhile_cons_of_neg (by simp), List.append_nil]

/-- The index before the next fee UTXO, if there is one, ends 64 digits before its colon. -/
theorem index_eq {index index' : List Char} (hindex : ':' ∉ index) (hindex' : ':' ∉ index') {rest rest' : List String}
    (hrest : ∀ utxo ∈ rest, FeeUtxoText utxo.toList) (hrest' : ∀ utxo ∈ rest', FeeUtxoText utxo.toList)
    (heq : index ++ rest.flatMap String.toList = index' ++ rest'.flatMap String.toList) : index = index' := by
  have hnext {utxo : String} {rest : List String} (hutxo : FeeUtxoText utxo.toList) (index : List Char)
      (hindex : ':' ∉ index) : ∃ txid back, txid.length = 64 ∧ ':' ∉ index ++ txid ∧
        index ++ (utxo :: rest).flatMap String.toList = (index ++ txid) ++ ':' :: back := by
    obtain ⟨txid, next, hutxo, hlength, -, hcolon, -⟩ := hutxo
    refine ⟨txid, next ++ rest.flatMap String.toList, hlength, ?_, ?_⟩
    · rw [List.mem_append, not_or]
      exact ⟨hindex, hcolon⟩
    · rw [List.flatMap_cons, hutxo, List.append_assoc, List.append_assoc, List.cons_append]
  cases rest with
  | nil =>
    cases rest' with
    | nil => simpa using heq
    | cons utxo' rest' =>
      obtain ⟨txid', back', -, -, hback'⟩ := @hnext utxo' rest' (hrest' utxo' List.mem_cons_self) index' hindex'
      rw [hback', List.flatMap_nil, List.append_nil] at heq
      exact absurd (heq ▸ List.mem_append_right _ List.mem_cons_self) hindex
  | cons utxo rest =>
    obtain ⟨txid, back, hlength, hcolon, hback⟩ := @hnext utxo rest (hrest utxo List.mem_cons_self) index hindex
    cases rest' with
    | nil =>
      rw [hback, List.flatMap_nil, List.append_nil] at heq
      exact absurd (heq ▸ List.mem_append_right _ List.mem_cons_self) hindex'
    | cons utxo' rest' =>
      obtain ⟨txid', back', hlength', hcolon', hback'⟩ := @hnext utxo' rest' (hrest' utxo' List.mem_cons_self) index' hindex'
      rw [hback, hback'] at heq
      have hfront := congrArg (List.takeWhile (· != ':')) heq
      rw [takeWhile_colon hcolon, takeWhile_colon hcolon'] at hfront
      exact (List.append_inj' hfront (by rw [hlength, hlength'])).1

/-- Fee UTXOs are read back from the front: the next colon is 64 digits past the next start. -/
theorem feeUtxos_eq (first : List String) : ∀ second : List String, (∀ utxo ∈ first, FeeUtxoText utxo.toList) →
    (∀ utxo ∈ second, FeeUtxoText utxo.toList) → first.flatMap String.toList = second.flatMap String.toList →
      first = second := by
  have hhead {utxo : String} {rest : List String} (hutxo : FeeUtxoText utxo.toList) :
      (utxo :: rest).flatMap String.toList ≠ [] := by
    obtain ⟨txid, index, heq, -⟩ := hutxo
    rw [List.flatMap_cons, heq]
    simp
  induction first with
  | nil =>
    intro second _ hsecond heq
    cases second with
    | nil => rfl
    | cons utxo rest => exact absurd heq.symm (hhead (hsecond utxo List.mem_cons_self))
  | cons utxo rest ih =>
    intro second hfirst hsecond heq
    cases second with
    | nil => exact absurd heq (hhead (hfirst utxo List.mem_cons_self))
    | cons utxo' rest' =>
      obtain ⟨txid, index, hutxo, hlength, -, -, hindex⟩ := hfirst utxo List.mem_cons_self
      obtain ⟨txid', index', hutxo', hlength', -, -, hindex'⟩ := hsecond utxo' List.mem_cons_self
      rw [List.flatMap_cons, List.flatMap_cons, hutxo, hutxo', List.append_assoc, List.append_assoc] at heq
      obtain ⟨rfl, htail⟩ := List.append_inj heq (by rw [hlength, hlength'])
      have htail := (List.cons.inj htail).2
      have hrest := fun u hu => hfirst u (List.mem_cons_of_mem _ hu)
      have hrest' := fun u hu => hsecond u (List.mem_cons_of_mem _ hu)
      obtain rfl := index_eq hindex hindex' hrest hrest' htail
      rw [ih rest' hrest hrest' (List.append_cancel_left htail), String.toList_inj.mp (hutxo.trans hutxo'.symm)]

/-- What acceptance says of one request: its payload is read, and its kind is the one that
names a feed or the one that names none. -/
def RequestRead (libraries : UserLibraries) (request : UserRequest) : Prop :=
  ∃ details, libraries.fromStr request.payload = .ok details ∧
    (request.kind = tickRequestKind ∧ details.priceFeedId = none ∨
      request.kind = priceRequestKind ∧ details.priceFeedId.isSome)

theorem validateUserRequest_ok {libraries : UserLibraries} {request : UserRequest} {feed : Option UInt32}
    (h : validateUserRequest libraries request = .ok feed) : RequestRead libraries request := by
  unfold validateUserRequest at h
  dsimp only at h
  split_ifs at h with hkind hsize
  cases hdetails : libraries.fromStr request.payload with
  | error error =>
    rw [hdetails] at h
    cases h
  | ok details =>
    rw [hdetails] at h
    obtain ⟨-, -, h⟩ := Db.except_bind_ok.mp h
    refine ⟨details, hdetails, ?_⟩
    unfold namedFeed at h
    by_cases htick : request.kind = tickRequestKind
    · rw [if_pos htick] at h
      cases hfeed : details.priceFeedId with
      | none => exact .inl ⟨htick, rfl⟩
      | some feed =>
        rw [hfeed] at h
        cases h
    · rw [if_neg htick] at h
      cases hfeed : details.priceFeedId with
      | none =>
        rw [hfeed] at h
        cases h
      | some feed =>
        refine .inr ⟨?_, rfl⟩
        by_contra hprice
        exact hkind ⟨htick, hprice⟩

/-- Two requests with one payload value ask for the same: kind, authorisation method and feed. -/
def SameRequest (libraries : UserLibraries) (first second : UserRequest) : Prop :=
  first.kind = second.kind ∧
    ∃ details, libraries.fromStr first.payload = .ok details ∧ libraries.fromStr second.payload = .ok details

theorem sameRequest_of_details {libraries : UserLibraries} {first second : UserRequest}
    (hfirst : RequestRead libraries first) (hsecond : RequestRead libraries second)
    {details : TickUtxoRequestDetails} (hdetails : libraries.fromStr first.payload = .ok details)
    (hdetails' : libraries.fromStr second.payload = .ok details) : SameRequest libraries first second := by
  obtain ⟨d, hd, hkind⟩ := hfirst
  obtain ⟨d', hd', hkind'⟩ := hsecond
  rw [hdetails] at hd
  rw [hdetails'] at hd'
  cases hd
  cases hd'
  refine ⟨?_, details, hdetails, hdetails'⟩
  rcases hkind with ⟨htick, hnone⟩ | ⟨hprice, hsome⟩
  · rcases hkind' with ⟨htick', -⟩ | ⟨-, hsome'⟩
    · rw [htick, htick']
    · rw [hnone] at hsome'
      cases hsome'
  · rcases hkind' with ⟨-, hnone'⟩ | ⟨hprice', -⟩
    · rw [hnone'] at hsome
      cases hsome
    · rw [hprice, hprice']

/-- Payloads are read back from the front: space, a value, and then the next bracket or the first
digit of a fee UTXO. The space after a payload goes to what follows it. -/
theorem requests_eq {libraries : UserLibraries} (hjson : ReadsJson libraries.fromStr) (first : List UserRequest) :
    ∀ (second : List UserRequest) (before before' : List Char) (c c' : Char) (utxos utxos' : List Char),
      (∀ request ∈ first, RequestRead libraries request) → (∀ request ∈ second, RequestRead libraries request) →
      Spaces before → Spaces before' → (hexValue c).isSome → (hexValue c').isSome →
      before ++ ((first.flatMap fun request => request.payload.toList) ++ c :: utxos) =
        before' ++ ((second.flatMap fun request => request.payload.toList) ++ c' :: utxos') →
      List.Forall₂ (SameRequest libraries) first second ∧ c :: utxos = c' :: utxos' := by
  have hopen {request : UserRequest} (hread : RequestRead libraries request) (before : List Char)
      (hbefore : Spaces before) (rest : List Char) : ∃ space value after details, Spaces space ∧ Spaces after ∧
        Structured value ∧ libraries.fromStr request.payload = .ok details ∧
        libraries.fromStr (String.ofList value) = .ok details ∧
        before ++ (request.payload.toList ++ rest) = space ++ (value ++ (after ++ rest)) := by
    obtain ⟨details, hdetails, -⟩ := hread
    obtain ⟨space, value, after, htext, hspace, hafter, hvalue, hfrom⟩ := hjson.accepted _ _ hdetails
    refine ⟨before ++ space, value, after, details, ?_, hafter, hvalue, hdetails, hfrom, ?_⟩
    · intro d hd
      rcases List.mem_append.mp hd with hd | hd
      · exact hbefore d hd
      · exact hspace d hd
    · rw [htext]
      simp only [List.append_assoc]
  have hclash {space space' value rest : List Char} {c : Char} {utxos : List Char} (hspace : Spaces space)
      (hspace' : Spaces space') (hvalue : Structured value) (hc : (hexValue c).isSome)
      (heq : space ++ (value ++ rest) = space' ++ c :: utxos) : False := by
    obtain ⟨d, tail, rfl, hopening, hd⟩ := hvalue.not_space
    have hhex := hexValue_not_bracket hc
    have hsame := hspace.eq_of_append_eq hspace' hd hhex.1 heq
    obtain ⟨rfl, -⟩ := List.cons.inj hsame
    rw [hhex.2] at hopening
    cases hopening
  induction first with
  | nil =>
    intro second before before' c c' utxos utxos' _ hsecond hbefore hbefore' hc hc' heq
    cases second with
    | nil =>
      refine ⟨.nil, ?_⟩
      exact hbefore.eq_of_append_eq hbefore' (hexValue_not_bracket hc).1 (hexValue_not_bracket hc').1 heq
    | cons request second =>
      rw [List.flatMap_cons, List.append_assoc] at heq
      obtain ⟨space, value, after, details, hspace, -, hvalue, -, -, htext⟩ :=
        hopen (hsecond request List.mem_cons_self) before' hbefore' _
      rw [htext] at heq
      exact (hclash hspace hbefore hvalue hc heq.symm).elim
  | cons request first ih =>
    intro second before before' c c' utxos utxos' hfirst hsecond hbefore hbefore' hc hc' heq
    rw [List.flatMap_cons, List.append_assoc] at heq
    obtain ⟨space, value, after, details, hspace, hafter, hvalue, hdetails, hfrom, htext⟩ :=
      hopen (hfirst request List.mem_cons_self) before hbefore _
    rw [htext] at heq
    cases second with
    | nil => exact (hclash hspace hbefore' hvalue hc' heq).elim
    | cons request' second =>
      rw [List.flatMap_cons, List.append_assoc] at heq
      obtain ⟨space', value', after', details', hspace', hafter', hvalue', hdetails', hfrom', htext'⟩ :=
        hopen (hsecond request' List.mem_cons_self) before' hbefore' _
      rw [htext'] at heq
      obtain ⟨rfl, hrest⟩ := hvalue.eq_of_spaces hspace hspace' hvalue' heq
      obtain ⟨hrequests, hutxos⟩ := ih second after after' c c' utxos utxos'
        (fun r hr => hfirst r (List.mem_cons_of_mem _ hr)) (fun r hr => hsecond r (List.mem_cons_of_mem _ hr))
        hafter hafter' hc hc' hrest
      rw [hfrom] at hfrom'
      cases hfrom'
      refine ⟨.cons ?_ hrequests, hutxos⟩
      exact sameRequest_of_details (hfirst request List.mem_cons_self) (hsecond request' List.mem_cons_self)
        hdetails hdetails'

end Decoding

section Batches

theorem validateRequest_ok {libraries : UserLibraries} {request : NetworkUserRequests}
    {accepted : List (FeeUtxo (List UInt8)) × Option UInt32} (h : validateRequest libraries request = .ok accepted) :
    (∀ userRequest ∈ request.requests, RequestRead libraries userRequest) ∧ request.header.feeUtxos ≠ [] ∧
      ∀ utxo ∈ request.header.feeUtxos, FeeUtxoText utxo.toList := by
  unfold validateRequest at h
  split_ifs at h with hempty hcount
  obtain ⟨feeUtxos, hutxos, h⟩ := Db.except_bind_ok.mp h
  obtain ⟨instructed, hinstructed, -⟩ := Db.except_bind_ok.mp h
  unfold validateFeeUtxos at hutxos
  split_ifs at hutxos with hnone hmany
  refine ⟨fun userRequest hmem => ?_, hnone, fun utxo hmem => ?_⟩
  · obtain ⟨_, _, hnext⟩ := foldlM_ok_mem hinstructed userRequest hmem
    obtain ⟨feed, hfeed, -⟩ := Db.except_bind_ok.mp hnext
    exact validateUserRequest_ok hfeed
  · obtain ⟨_, _, hstep⟩ := foldlM_ok_mem hutxos utxo hmem
    exact validateFeeUtxo_ok hstep

/-- The first fee UTXO starts with a digit. -/
theorem feeUtxos_head {feeUtxos : List String} (hne : feeUtxos ≠ [])
    (htext : ∀ utxo ∈ feeUtxos, FeeUtxoText utxo.toList) :
    ∃ c rest, (hexValue c).isSome ∧ feeUtxos.flatMap String.toList = c :: rest := by
  cases feeUtxos with
  | nil => exact absurd rfl hne
  | cons utxo feeUtxos =>
    obtain ⟨txid, index, hutxo, hlength, hhex, -, -⟩ := htext utxo List.mem_cons_self
    cases txid with
    | nil => cases hlength
    | cons c txid =>
      refine ⟨c, txid ++ ':' :: index ++ feeUtxos.flatMap String.toList, hhex c List.mem_cons_self, ?_⟩
      rw [List.flatMap_cons, hutxo]
      rfl

/-- Two accepted batches with one signing hash are one batch, whoever signs them. -/
theorem signature_binds_batch {libraries : UserLibraries} (hjson : ReadsJson libraries.fromStr)
    (htagged : Function.Injective (Sha256.taggedHash libraries.sha256 userRequestTag))
    {first second : NetworkUserRequests} {accepted accepted' : List (FeeUtxo (List UInt8)) × Option UInt32}
    (hfirst : validateRequest libraries first = .ok accepted)
    (hsecond : validateRequest libraries second = .ok accepted')
    (hhash : signingHash libraries first = signingHash libraries second) :
    first.header.feeUtxos = second.header.feeUtxos ∧
      List.Forall₂ (SameRequest libraries) first.requests second.requests := by
  obtain ⟨hread, hne, htext⟩ := validateRequest_ok hfirst
  obtain ⟨hread', hne', htext'⟩ := validateRequest_ok hsecond
  obtain ⟨c, utxos, hc, hutxos⟩ := feeUtxos_head hne htext
  obtain ⟨c', utxos', hc', hutxos'⟩ := feeUtxos_head hne' htext'
  have hsigned := signedText_eq (htagged hhash)
  unfold signedText at hsigned
  rw [hutxos, hutxos'] at hsigned
  have hspace : Spaces [] := fun _ h => absurd h List.not_mem_nil
  obtain ⟨hrequests, hfee⟩ := requests_eq hjson first.requests second.requests [] [] c c' utxos utxos' hread hread'
    hspace hspace hc hc' hsigned
  rw [← hutxos, ← hutxos'] at hfee
  exact ⟨feeUtxos_eq _ _ htext htext' hfee, hrequests⟩

/-- A script authorisation, as a client writes it. -/
def scriptPayload : List Char :=
  "\x7b\"utxo_auth_method\":\x7b\"kind\":\"scriptPubKey-auth\",\"auth_data\":\"51\"\x7d\x7d".toList

def scriptDetails : TickUtxoRequestDetails := ⟨⟨"scriptPubKey-auth", "51"⟩, none⟩

theorem scriptPayload_structured : Structured scriptPayload := by
  have hkey (key : String) (h : (key.toList.all fun c => c ≠ '"' && c ≠ '\\') = true) : StringBody key.toList :=
    stringBody_of_plain fun c hc => by simpa using List.all_eq_true.mp h c hc
  have hspace : Spaces [] := fun _ h => absurd h List.not_mem_nil
  have hkind := Grammar.lastMember hspace (hkey "kind" (by decide)) hspace
    (.element hspace (.string (hkey "scriptPubKey-auth" (by decide))) hspace)
  have hdata := Grammar.lastMember hspace (hkey "auth_data" (by decide)) hspace
    (.element hspace (.string (hkey "51" (by decide))) hspace)
  have hmethod := Grammar.lastMember hspace (hkey "utxo_auth_method" (by decide)) hspace
    (.element hspace (.object (.nextMember hkind hdata)) hspace)
  exact ⟨.object hmethod, _, _, rfl, rfl⟩

/-- Reads the one payload, with any space around it. -/
def scriptLibraries : UserLibraries where
  fromStr text :=
    if (text.toList.dropWhile isSpace).rdropWhile isSpace = scriptPayload then .ok scriptDetails
    else .error "expected value at line 1 column 1"
  toJson _ _ _ _ := none
  sha256 bytes := bytes
  xOnlyPublicKey _ := true
  schnorrVerify _ _ _ := true
  PublicKey := Unit
  publicKeyEq := inferInstance
  publicKeyFromSlice _ := none
  xOnly _ := []
  RecoverableSignature := Unit
  recoverableFromCompact _ _ := none
  signedMsgHash _ := []
  recoverEcdsa _ _ := none

theorem scriptLibraries_readsJson : ReadsJson scriptLibraries.fromStr where
  accepted text details h := by
    have hvalue : (text.toList.dropWhile isSpace).rdropWhile isSpace = scriptPayload := by
      by_contra hne
      have herror : scriptLibraries.fromStr text = .error "expected value at line 1 column 1" := if_neg hne
      rw [herror] at h
      cases h
    have hdetails : scriptLibraries.fromStr text = .ok scriptDetails := if_pos hvalue
    obtain rfl : scriptDetails = details := Except.ok.inj (hdetails.symm.trans h)
    refine ⟨text.toList.takeWhile isSpace, scriptPayload, (text.toList.dropWhile isSpace).rtakeWhile isSpace, ?_, ?_,
      ?_, scriptPayload_structured, by decide +kernel⟩
    · rw [← hvalue, List.rdropWhile_append_rtakeWhile, List.takeWhile_append_dropWhile]
    · exact fun c hc => List.all_eq_true.mp List.all_takeWhile c hc
    · exact fun c hc => List.mem_rtakeWhile_imp hc

def scriptBatch (payloads : List String) : NetworkUserRequests where
  header :=
    { signature := String.ofList (List.replicate 128 '0')
      publicKey := String.ofList (List.replicate 64 'a')
      feeUtxos := [String.ofList (List.replicate 64 'b') ++ ":7"]
      signatureScheme := none
      signingPublicKey := none }
  requests := payloads.map fun payload => ⟨tickRequestKind, payload⟩

theorem verifySignature_script (payloads : List String) : verifySignature scriptLibraries (scriptBatch payloads) = .ok () := by
  have hkey : parseHexArray 32 (List.replicate 64 'a') "user public key" = .ok (List.replicate 32 0xaa) := by decide +kernel
  have hsignature : parseHexArray 64 (List.replicate 128 '0') "user signature" = .ok (List.replicate 64 0) := by
    decide +kernel
  unfold verifySignature scriptBatch
  dsimp only
  rw [String.toList_ofList, String.toList_ofList, hkey, hsignature]
  rfl

theorem validateFeeUtxos_script : validateFeeUtxos [String.ofList (List.replicate 64 'b') ++ ":7"] =
    .ok [⟨List.replicate 32 0xbb, 7⟩] := by
  have htext : (String.ofList (List.replicate 64 'b') ++ ":7").toList = List.replicate 64 'b' ++ [':', '7'] := by
    rw [String.toList_append, String.toList_ofList]
    rfl
  have hsplit : splitOnce ':' (List.replicate 64 'b' ++ [':', '7']) = some (List.replicate 64 'b', ['7']) := by
    decide +kernel
  have hid : parseHexArray 32 (List.replicate 64 'b') "fee UTXO transaction id" = .ok (List.replicate 32 0xbb) := by
    decide +kernel
  have hindex : parseU32 ['7'] = some 7 := by decide +kernel
  have hone : validateFeeUtxo [] (String.ofList (List.replicate 64 'b') ++ ":7") = .ok [⟨List.replicate 32 0xbb, 7⟩] := by
    unfold validateFeeUtxo
    rw [htext, hsplit]
    dsimp only
    rw [hid, hindex]
    rfl
  unfold validateFeeUtxos
  rw [if_neg (List.cons_ne_nil _ _), if_neg (by decide), List.foldlM_cons, hone]
  rfl

/-- Payloads that read as the script's authorisation make a batch. -/
theorem validateRequest_script {payloads : List String} (hne : payloads ≠ []) (hcount : payloads.length ≤ maxRequestsPerBatch)
    (hpayloads : ∀ payload ∈ payloads, validateUserRequest scriptLibraries ⟨tickRequestKind, payload⟩ = .ok none) :
    validateRequest scriptLibraries (scriptBatch payloads) = .ok ([⟨List.replicate 32 0xbb, 7⟩], none) := by
  have hnext : ∀ request ∈ (scriptBatch payloads).requests, validateNext scriptLibraries none request = .ok none := by
    intro request hrequest
    obtain ⟨payload, hpayload, rfl⟩ := List.mem_map.mp hrequest
    unfold validateNext
    rw [hpayloads payload hpayload]
    rfl
  have hfold : ∀ requests : List UserRequest, (∀ request ∈ requests, validateNext scriptLibraries none request = .ok none) →
      requests.foldlM (validateNext scriptLibraries) none = .ok none := by
    intro requests hall
    induction requests with
    | nil => rfl
    | cons request requests ih =>
      rw [List.foldlM_cons, hall request List.mem_cons_self]
      exact ih fun other hother => hall other (List.mem_cons_of_mem request hother)
  have hfee : validateFeeUtxos (scriptBatch payloads).header.feeUtxos = .ok [⟨List.replicate 32 0xbb, 7⟩] :=
    validateFeeUtxos_script
  have hrequests : (scriptBatch payloads).requests ≠ [] := mt List.map_eq_nil_iff.mp hne
  have hlength : (scriptBatch payloads).requests.length = payloads.length := List.length_map _
  unfold validateRequest
  rw [if_neg hrequests, if_neg (by rwa [hlength, not_lt]), hfee, hfold _ hnext, verifySignature_script]
  rfl

theorem validateUserRequest_script {text : List Char} (hsize : (String.ofList text).utf8ByteSize ≤ maxPayloadBytes)
    (htrim : (text.dropWhile isSpace).rdropWhile isSpace = scriptPayload) :
    validateUserRequest scriptLibraries ⟨tickRequestKind, String.ofList text⟩ = .ok none := by
  have hread : scriptLibraries.fromStr (String.ofList text) = .ok scriptDetails := by
    unfold scriptLibraries
    dsimp only
    rw [String.toList_ofList, if_pos htrim]
  have hauth : validateAuthMethod scriptLibraries scriptDetails.utxoAuthMethod = .ok () := by decide +kernel
  unfold validateUserRequest
  dsimp only
  rw [if_neg (fun hkind => hkind.1 rfl), if_neg (Nat.not_lt.mpr hsize), hread]
  dsimp only
  rw [hauth]
  rfl

/-- Two batches that differ in which payload holds the space between them. -/
theorem signature_binds_batch_space :
    List.Forall₂ (SameRequest scriptLibraries)
      (scriptBatch [String.ofList (scriptPayload ++ [' ']), String.ofList scriptPayload]).requests
      (scriptBatch [String.ofList scriptPayload, String.ofList (' ' :: scriptPayload)]).requests := by
  have htagged : Function.Injective (Sha256.taggedHash scriptLibraries.sha256 userRequestTag) :=
    fun _ _ h => List.append_cancel_left h
  have hplain : validateUserRequest scriptLibraries ⟨tickRequestKind, String.ofList scriptPayload⟩ = .ok none :=
    validateUserRequest_script (by decide +kernel) (by decide +kernel)
  have haccepted : validateRequest scriptLibraries
      (scriptBatch [String.ofList (scriptPayload ++ [' ']), String.ofList scriptPayload]) =
        .ok ([⟨List.replicate 32 0xbb, 7⟩], none) := by
    apply validateRequest_script (List.cons_ne_nil _ _) (by simp [maxRequestsPerBatch])
    rintro payload (_ | ⟨_, _ | ⟨_, _ | _⟩⟩)
    · exact validateUserRequest_script (by decide +kernel) (by decide +kernel)
    · exact hplain
  have haccepted' : validateRequest scriptLibraries
      (scriptBatch [String.ofList scriptPayload, String.ofList (' ' :: scriptPayload)]) =
        .ok ([⟨List.replicate 32 0xbb, 7⟩], none) := by
    apply validateRequest_script (List.cons_ne_nil _ _) (by simp [maxRequestsPerBatch])
    rintro payload (_ | ⟨_, _ | ⟨_, _ | _⟩⟩)
    · exact hplain
    · exact validateUserRequest_script (by decide +kernel) (by decide +kernel)
  exact (signature_binds_batch scriptLibraries_readsJson htagged haccepted haccepted' (by decide +kernel)).2

end Batches

end UserApi

end PriceOracle
