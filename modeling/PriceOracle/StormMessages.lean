import PriceOracle.Database
import PriceOracle.OpReturn
import PriceOracle.Postcard
import PriceOracle.Streams

/-!
# Framed messages

`message.rs` of Storm: a message is sent after its length, and the receive loop hands the decoder
whatever a record of the transport holds. A record may end within a length or within a message.
-/

namespace PriceOracle

open OpReturn Streams

structure StormMessageHeader where
  payloadId : UInt32
  timestamp : UInt64
  protocolVersion : UInt32
  deriving DecidableEq

structure StormMessage where
  header : StormMessageHeader
  payload : List UInt8
  deriving DecidableEq

inductive MessageError where
  | tooLarge (size max : ℕ)
  | postcard
  deriving DecidableEq

namespace StormMessage

def maxMessageSize : ℕ := 10 * 1024 * 1024

def messageLengthSize : ℕ := 4

section Encoding

theorem ofNat_toNat_header (h : StormMessageHeader) :
    (⟨UInt32.ofNat h.payloadId.toNat, UInt64.ofNat h.timestamp.toNat, UInt32.ofNat h.protocolVersion.toNat⟩ :
      StormMessageHeader) = h := by
  rw [UInt32.ofNat_toNat, UInt64.ofNat_toNat, UInt32.ofNat_toNat]

def headerCodec : Codec StormMessageHeader :=
  Codec.struct (Codec.u32.pair (Codec.u64.pair Codec.u32))
    (fun h => (h.payloadId.toNat, h.timestamp.toNat, h.protocolVersion.toNat))
    (fun p => ⟨UInt32.ofNat p.1, UInt64.ofNat p.2.1, UInt32.ofNat p.2.2⟩) ofNat_toNat_header

def codec : Codec StormMessage :=
  Codec.struct (headerCodec.pair Codec.bytes) (fun m => (m.header, m.payload)) (fun p => ⟨p.1, p.2⟩) fun _ => rfl

def validateMessageSize (size : ℕ) : Except MessageError Unit :=
  if maxMessageSize < size then .error (.tooLarge size maxMessageSize) else .ok ()

def toBytes (message : StormMessage) : Except MessageError (List UInt8) := do
  let bytes := codec.encode message
  validateMessageSize bytes.length
  return bytes

def fromBytes (bytes : List UInt8) : Except MessageError StormMessage := do
  validateMessageSize bytes.length
  match codec.fromBytes bytes with
  | some message => return message
  | none => .error .postcard

def toFramedBytes (message : StormMessage) : Except MessageError (List UInt8) := do
  let bytes ← message.toBytes
  if 2 ^ 32 ≤ bytes.length then .error (.tooLarge bytes.length maxMessageSize)
  else return bigEndian messageLengthSize bytes.length ++ bytes

end Encoding

end StormMessage

open StormMessage

/-- The bytes of a length until it is complete (`expected_length` is `None`), then those of a
message until it is. -/
inductive MessageDecoder where
  | readingLength (lengthBytes : List UInt8) (incomplete : lengthBytes.length < messageLengthSize)
  | readingMessage (expectedLength : ℕ) (messageBytes : List UInt8) (incomplete : messageBytes.length < expectedLength)

namespace MessageDecoder

section Push

def new : MessageDecoder := .readingLength [] (by decide)

/-- What one turn of the loop leaves: the decoder, a message that ended, and the bytes after it. -/
abbrev Turn := MessageDecoder × Option StormMessage × List UInt8

/-- The bytes of a message, as many as are needed. -/
def readMessage (expectedLength : ℕ) (messageBytes : List UInt8) (hlength : messageBytes.length ≤ expectedLength)
    (bytes : List UInt8) : Except MessageError Turn :=
  let needed := expectedLength - messageBytes.length
  let message := messageBytes ++ bytes.take needed
  if hcomplete : message.length = expectedLength then do
    let decoded ← StormMessage.fromBytes message
    return (new, some decoded, bytes.drop needed)
  else
    have hle : message.length ≤ expectedLength := by
      rw [List.length_append, List.length_take]
      omega
    .ok (.readingMessage expectedLength message (Nat.lt_of_le_of_ne hle hcomplete), none, bytes.drop needed)

/-- One turn of the loop over bytes that are not empty. -/
def turn (decoder : MessageDecoder) (bytes : List UInt8) : Except MessageError Turn :=
  match decoder with
  | .readingLength lengthBytes _ =>
    let needed := messageLengthSize - lengthBytes.length
    let read := lengthBytes ++ bytes.take needed
    if hincomplete : read.length < messageLengthSize then
      .ok (.readingLength read hincomplete, none, bytes.drop needed)
    else do
      validateMessageSize (bigEndianValue read)
      readMessage (bigEndianValue read) [] (Nat.zero_le _) (bytes.drop needed)
  | .readingMessage expectedLength messageBytes incomplete =>
    readMessage expectedLength messageBytes (Nat.le_of_lt incomplete) bytes

/-- `while !bytes.is_empty()`; each turn takes a byte at least. -/
def pushLoop : ℕ → MessageDecoder → List UInt8 → List StormMessage →
    Except MessageError (MessageDecoder × List StormMessage)
  | 0, decoder, _, messages => .ok (decoder, messages)
  | turns + 1, decoder, bytes, messages =>
    if bytes = [] then .ok (decoder, messages)
    else do
      let (decoder, message, rest) ← decoder.turn bytes
      pushLoop turns decoder rest (messages ++ message.toList)

def push (decoder : MessageDecoder) (bytes : List UInt8) : Except MessageError (MessageDecoder × List StormMessage) :=
  pushLoop bytes.length decoder bytes []

/-- The receive loop over the records of a connection. -/
def receive (records : List (List UInt8)) : List StormMessage × Except MessageError MessageDecoder :=
  run push new records

end Push

section Turns

/-- The decoder on a stream in records of one byte. -/
def readByte (decoder : MessageDecoder) (byte : UInt8) : Except MessageError (MessageDecoder × List StormMessage) := do
  let (decoder, message, _) ← decoder.turn [byte]
  return (decoder, message.toList)

theorem readMessage_short {expectedLength : ℕ} {messageBytes bytes : List UInt8}
    (hlength : messageBytes.length ≤ expectedLength) (hshort : (messageBytes ++ bytes).length < expectedLength) :
    readMessage expectedLength messageBytes hlength bytes =
      .ok (.readingMessage expectedLength (messageBytes ++ bytes) hshort, none, []) := by
  have hle : bytes.length ≤ expectedLength - messageBytes.length := by
    rw [List.length_append] at hshort
    omega
  have htake := List.take_of_length_le hle
  have hdrop := List.drop_of_length_le hle
  unfold readMessage
  simp only [htake, hdrop]
  rw [dif_neg (Nat.ne_of_lt hshort)]

/-- The bytes that complete a message decide about it; what follows them is left. -/
theorem readMessage_complete {expectedLength : ℕ} {messageBytes taken : List UInt8} (rest : List UInt8)
    (hlength : messageBytes.length ≤ expectedLength) (hcomplete : (messageBytes ++ taken).length = expectedLength) :
    readMessage expectedLength messageBytes hlength (taken ++ rest) = (do
      let decoded ← StormMessage.fromBytes (messageBytes ++ taken)
      return (new, some decoded, rest)) := by
  have hneeded : expectedLength - messageBytes.length = taken.length := by
    rw [List.length_append] at hcomplete
    omega
  unfold readMessage
  simp only [hneeded, List.take_left, List.drop_left]
  rw [dif_pos hcomplete]

theorem readMessage_start {expectedLength : ℕ} (hpos : 0 < expectedLength) :
    readMessage expectedLength [] (Nat.zero_le expectedLength) [] =
      .ok (.readingMessage expectedLength [] hpos, none, []) :=
  @readMessage_short expectedLength [] [] (Nat.zero_le expectedLength) hpos

/-- A message of no bytes is complete at once. -/
theorem readMessage_zero (rest : List UInt8) : readMessage 0 [] (Nat.zero_le 0) rest = (do
    let decoded ← StormMessage.fromBytes []
    return (new, some decoded, rest)) :=
  @readMessage_complete 0 [] [] rest (Nat.zero_le 0) rfl

theorem turn_length_short {lengthBytes bytes : List UInt8} {incomplete : lengthBytes.length < messageLengthSize}
    (hshort : (lengthBytes ++ bytes).length < messageLengthSize) :
    turn (.readingLength lengthBytes incomplete) bytes = .ok (.readingLength (lengthBytes ++ bytes) hshort, none, []) := by
  have hle : bytes.length ≤ messageLengthSize - lengthBytes.length := by
    rw [List.length_append] at hshort
    omega
  have htake := List.take_of_length_le hle
  have hdrop := List.drop_of_length_le hle
  simp only [turn, htake, hdrop]
  rw [dif_pos hshort]

theorem turn_length_complete {lengthBytes taken : List UInt8} (incomplete : lengthBytes.length < messageLengthSize)
    (rest : List UInt8) (hcomplete : (lengthBytes ++ taken).length = messageLengthSize) :
    turn (.readingLength lengthBytes incomplete) (taken ++ rest) = (do
      validateMessageSize (bigEndianValue (lengthBytes ++ taken))
      readMessage (bigEndianValue (lengthBytes ++ taken)) [] (Nat.zero_le _) rest) := by
  have hneeded : messageLengthSize - lengthBytes.length = taken.length := by
    rw [List.length_append] at hcomplete
    omega
  simp only [turn, hneeded, List.take_left, List.drop_left]
  rw [dif_neg (by omega)]

theorem readByte_length_short {lengthBytes : List UInt8} {incomplete : lengthBytes.length < messageLengthSize}
    {byte : UInt8} (hshort : (lengthBytes ++ [byte]).length < messageLengthSize) :
    readByte (.readingLength lengthBytes incomplete) byte = .ok (.readingLength (lengthBytes ++ [byte]) hshort, []) := by
  rw [readByte, turn_length_short hshort]
  rfl

theorem readByte_message_short {expectedLength : ℕ} {messageBytes : List UInt8}
    {incomplete : messageBytes.length < expectedLength} {byte : UInt8}
    (hshort : (messageBytes ++ [byte]).length < expectedLength) :
    readByte (.readingMessage expectedLength messageBytes incomplete) byte =
      .ok (.readingMessage expectedLength (messageBytes ++ [byte]) hshort, []) := by
  rw [readByte, turn, readMessage_short _ hshort]
  rfl

/-- What the last byte of a message makes of the decoder. -/
def completed (messageBytes : List UInt8) : List StormMessage × Except MessageError MessageDecoder :=
  match StormMessage.fromBytes messageBytes with
  | .ok message => ([message], .ok new)
  | .error error => ([], .error error)

theorem run_length_short {bytes : List UInt8} : ∀ {lengthBytes : List UInt8}
    {incomplete : lengthBytes.length < messageLengthSize} (hshort : (lengthBytes ++ bytes).length < messageLengthSize),
    run readByte (.readingLength lengthBytes incomplete) bytes =
      ([], .ok (.readingLength (lengthBytes ++ bytes) hshort)) := by
  induction bytes with
  | nil =>
    intro lengthBytes incomplete hshort
    simp only [run, List.append_nil]
  | cons byte bytes ih =>
    intro lengthBytes incomplete hshort
    have hfirst : (lengthBytes ++ [byte]).length < messageLengthSize := by
      rw [List.length_append, List.length_cons] at hshort
      rw [List.length_append, List.length_singleton]
      omega
    have hlast : (lengthBytes ++ [byte] ++ bytes).length < messageLengthSize := by
      rwa [List.append_assoc, List.singleton_append]
    rw [run_cons_ok (readByte_length_short hfirst), deliver_nil, ih hlast]
    simp only [List.append_assoc, List.singleton_append]

theorem run_message_short {expectedLength : ℕ} {bytes : List UInt8} : ∀ {messageBytes : List UInt8}
    {incomplete : messageBytes.length < expectedLength} (hshort : (messageBytes ++ bytes).length < expectedLength),
    run readByte (.readingMessage expectedLength messageBytes incomplete) bytes =
      ([], .ok (.readingMessage expectedLength (messageBytes ++ bytes) hshort)) := by
  induction bytes with
  | nil =>
    intro messageBytes incomplete hshort
    simp only [run, List.append_nil]
  | cons byte bytes ih =>
    intro messageBytes incomplete hshort
    have hfirst : (messageBytes ++ [byte]).length < expectedLength := by
      rw [List.length_append, List.length_cons] at hshort
      rw [List.length_append, List.length_singleton]
      omega
    have hlast : (messageBytes ++ [byte] ++ bytes).length < expectedLength := by
      rwa [List.append_assoc, List.singleton_append]
    rw [run_cons_ok (readByte_message_short hfirst), deliver_nil, ih hlast]
    simp only [List.append_assoc, List.singleton_append]

theorem completed_of_byte {decoder : MessageDecoder} {byte : UInt8} {messageBytes : List UInt8}
    (h : decoder.turn [byte] = (do
      let decoded ← StormMessage.fromBytes messageBytes
      return (new, some decoded, []))) :
    run readByte decoder [byte] = completed messageBytes := by
  cases hdecoded : StormMessage.fromBytes messageBytes with
  | error error =>
    rw [hdecoded] at h
    have hbyte : readByte decoder byte = .error error := by
      rw [readByte, h]
      rfl
    rw [run_cons_error hbyte, completed, hdecoded]
  | ok message =>
    rw [hdecoded] at h
    have hbyte : readByte decoder byte = .ok (new, [message]) := by
      rw [readByte, h]
      rfl
    rw [run_singleton hbyte, completed, hdecoded]

theorem run_message_complete {expectedLength : ℕ} {messageBytes taken : List UInt8}
    {incomplete : messageBytes.length < expectedLength} (hcomplete : (messageBytes ++ taken).length = expectedLength) :
    run readByte (.readingMessage expectedLength messageBytes incomplete) taken = completed (messageBytes ++ taken) := by
  rcases List.eq_nil_or_concat taken with rfl | ⟨first, last, rfl⟩
  · rw [List.append_nil] at hcomplete
    omega
  · rw [List.concat_eq_append, ← List.append_assoc] at hcomplete ⊢
    have hshort : (messageBytes ++ first).length < expectedLength := by
      rw [List.length_append, List.length_singleton] at hcomplete
      omega
    rw [run_append_ok [last] (run_message_short hshort), deliver_nil]
    refine completed_of_byte ?_
    have hturn := readMessage_complete [] (Nat.le_of_lt hshort) hcomplete
    rwa [List.append_nil] at hturn

/-- What the last byte of a length makes of the decoder. -/
def lengthRead (length : ℕ) : List StormMessage × Except MessageError MessageDecoder :=
  match validateMessageSize length with
  | .error error => ([], .error error)
  | .ok _ => if hpos : 0 < length then ([], .ok (.readingMessage length [] hpos)) else completed []

theorem run_length_complete {lengthBytes taken : List UInt8} (incomplete : lengthBytes.length < messageLengthSize)
    (hcomplete : (lengthBytes ++ taken).length = messageLengthSize) :
    run readByte (.readingLength lengthBytes incomplete) taken = lengthRead (bigEndianValue (lengthBytes ++ taken)) := by
  rcases List.eq_nil_or_concat taken with rfl | ⟨first, last, rfl⟩
  · rw [List.append_nil] at hcomplete
    omega
  · rw [List.concat_eq_append, ← List.append_assoc] at hcomplete ⊢
    have hshort : (lengthBytes ++ first).length < messageLengthSize := by
      rw [List.length_append, List.length_singleton] at hcomplete
      omega
    rw [run_append_ok [last] (run_length_short hshort), deliver_nil]
    have hturn := turn_length_complete hshort [] hcomplete
    rw [List.append_nil] at hturn
    generalize bigEndianValue (lengthBytes ++ first ++ [last]) = length at hturn ⊢
    unfold lengthRead
    cases hvalid : validateMessageSize length with
    | error error =>
      rw [hvalid] at hturn
      have hbyte : readByte (.readingLength (lengthBytes ++ first) hshort) last = .error error := by
        rw [readByte, hturn]
        rfl
      exact run_cons_error hbyte
    | ok valid =>
      rw [hvalid] at hturn
      dsimp only
      by_cases hpos : 0 < length
      · have hbyte : readByte (.readingLength (lengthBytes ++ first) hshort) last =
            .ok (.readingMessage length [] hpos, []) := by
          rw [readByte, hturn]
          show (readMessage length [] (Nat.zero_le length) [] >>= _) = _
          rw [readMessage_start hpos]
          rfl
        rw [dif_pos hpos, run_singleton hbyte]
      · obtain rfl : length = 0 := by omega
        rw [dif_neg hpos]
        exact completed_of_byte (hturn.trans (readMessage_zero []))

end Turns

section Chunks

/-- A turn reads a first part of the bytes as the decoder reads them one by one. -/
def Reads (decoder : MessageDecoder) (bytes : List UInt8) (outcome : Except MessageError Turn) : Prop :=
  ∃ taken rest message, bytes = taken ++ rest ∧ taken ≠ [] ∧
    (run readByte decoder taken).1 = message.toList ∧
    outcome = (run readByte decoder taken).2.map fun decoder => (decoder, message, rest)

theorem reads_completed {decoder : MessageDecoder} {bytes taken rest messageBytes : List UInt8}
    (hbytes : bytes = taken ++ rest) (htaken : taken ≠ []) (hrun : run readByte decoder taken = completed messageBytes) :
    Reads decoder bytes (do
      let decoded ← StormMessage.fromBytes messageBytes
      return (new, some decoded, rest)) := by
  unfold completed at hrun
  cases hdecoded : StormMessage.fromBytes messageBytes with
  | error error =>
    rw [hdecoded] at hrun
    refine ⟨taken, rest, none, hbytes, htaken, ?_, ?_⟩ <;> rw [hrun] <;> rfl
  | ok message =>
    rw [hdecoded] at hrun
    refine ⟨taken, rest, some message, hbytes, htaken, ?_, ?_⟩ <;> rw [hrun] <;> rfl

theorem reads_message {expectedLength : ℕ} {messageBytes bytes : List UInt8}
    (incomplete : messageBytes.length < expectedLength) (hbytes : bytes ≠ []) :
    Reads (.readingMessage expectedLength messageBytes incomplete) bytes
      (readMessage expectedLength messageBytes (Nat.le_of_lt incomplete) bytes) := by
  by_cases hshort : (messageBytes ++ bytes).length < expectedLength
  · refine ⟨bytes, [], none, (List.append_nil bytes).symm, hbytes, ?_, ?_⟩
    · rw [run_message_short hshort]
      rfl
    · rw [run_message_short hshort, readMessage_short _ hshort]
      rfl
  · rw [List.length_append] at hshort
    have hsplit := (List.take_append_drop (expectedLength - messageBytes.length) bytes).symm
    have htaken : (bytes.take (expectedLength - messageBytes.length)).length = expectedLength - messageBytes.length := by
      rw [List.length_take]
      omega
    generalize bytes.take (expectedLength - messageBytes.length) = taken at hsplit htaken
    generalize bytes.drop (expectedLength - messageBytes.length) = rest at hsplit
    have hcomplete : (messageBytes ++ taken).length = expectedLength := by
      rw [List.length_append]
      omega
    have hne : taken ≠ [] := by
      rintro rfl
      rw [List.length_nil] at htaken
      omega
    rw [hsplit, readMessage_complete rest _ hcomplete]
    exact reads_completed rfl hne (run_message_complete hcomplete)

theorem reads_turn (decoder : MessageDecoder) {bytes : List UInt8} (hbytes : bytes ≠ []) :
    Reads decoder bytes (decoder.turn bytes) := by
  cases decoder with
  | readingMessage expectedLength messageBytes incomplete => exact reads_message incomplete hbytes
  | readingLength lengthBytes incomplete =>
    by_cases hshort : (lengthBytes ++ bytes).length < messageLengthSize
    · refine ⟨bytes, [], none, (List.append_nil bytes).symm, hbytes, ?_, ?_⟩
      · rw [run_length_short hshort]
        rfl
      · rw [run_length_short hshort, turn_length_short hshort]
        rfl
    · rw [List.length_append] at hshort
      have hsplit := (List.take_append_drop (messageLengthSize - lengthBytes.length) bytes).symm
      have htaken : (bytes.take (messageLengthSize - lengthBytes.length)).length =
          messageLengthSize - lengthBytes.length := by
        rw [List.length_take]
        omega
      generalize bytes.take (messageLengthSize - lengthBytes.length) = taken at hsplit htaken
      generalize bytes.drop (messageLengthSize - lengthBytes.length) = rest at hsplit
      have hcomplete : (lengthBytes ++ taken).length = messageLengthSize := by
        rw [List.length_append]
        omega
      have hne : taken ≠ [] := by
        rintro rfl
        rw [List.length_nil] at htaken
        omega
      have hrun := run_length_complete incomplete hcomplete
      rw [hsplit, turn_length_complete _ rest hcomplete]
      generalize bigEndianValue (lengthBytes ++ taken) = length at hrun ⊢
      unfold lengthRead at hrun
      cases hvalid : validateMessageSize length with
      | error error =>
        rw [hvalid] at hrun
        refine ⟨taken, rest, none, rfl, hne, ?_, ?_⟩ <;> rw [hrun] <;> rfl
      | ok valid =>
        rw [hvalid] at hrun
        dsimp only at hrun
        show Reads _ _ (readMessage length [] (Nat.zero_le length) rest)
        by_cases hpos : 0 < length
        · rw [dif_pos hpos] at hrun
          by_cases hrest : rest = []
          · subst hrest
            refine ⟨taken, [], none, rfl, hne, ?_, ?_⟩
            · rw [hrun]
              rfl
            · rw [hrun, readMessage_start hpos]
              rfl
          · obtain ⟨others, last, message, hothers, -, hmessages, houtcome⟩ := reads_message (show ([] : List UInt8).length < length from hpos) hrest
            refine ⟨taken ++ others, last, message, ?_, List.append_ne_nil_of_left_ne_nil hne others, ?_, ?_⟩
            · rw [hothers, List.append_assoc]
            · rw [run_append_ok others hrun, deliver_nil, hmessages]
            · rw [run_append_ok others hrun, deliver_nil]
              exact houtcome
        · obtain rfl : length = 0 := by omega
          rw [dif_neg hpos] at hrun
          rw [readMessage_zero]
          exact reads_completed rfl hne hrun

theorem pushLoop_eq {turns : ℕ} : ∀ {decoder : MessageDecoder} {bytes : List UInt8} {messages : List StormMessage},
    bytes.length ≤ turns → pushLoop turns decoder bytes messages =
      (whole readByte decoder bytes).map fun end_ => (end_.1, messages ++ end_.2) := by
  induction turns with
  | zero =>
    intro decoder bytes messages hturns
    obtain rfl := List.length_eq_zero_iff.mp (Nat.le_zero.mp hturns)
    show Except.ok (decoder, messages) = .ok (decoder, messages ++ [])
    rw [List.append_nil]
  | succ turns ih =>
    intro decoder bytes messages hturns
    rw [pushLoop]
    by_cases hbytes : bytes = []
    · subst hbytes
      rw [if_pos rfl]
      show Except.ok (decoder, messages) = .ok (decoder, messages ++ [])
      rw [List.append_nil]
    · obtain ⟨taken, rest, message, hsplit, htaken, hmessages, hturn⟩ := reads_turn decoder hbytes
      rw [if_neg hbytes, hturn]
      cases hrun : run readByte decoder taken with
      | mk delivered outcome =>
        rw [hrun] at hmessages
        subst hmessages
        cases outcome with
        | error error =>
          rw [whole, hsplit, run_append_error rest hrun]
          rfl
        | ok after =>
          have hpos := List.length_pos_iff.mpr htaken
          rw [hsplit, List.length_append] at hturns
          show pushLoop turns after rest (messages ++ message.toList) = _
          rw [ih (by omega), whole, whole, hsplit, run_append_ok rest hrun]
          cases hrest : run readByte after rest with
          | mk others outcome =>
            cases outcome with
            | error error => rfl
            | ok last =>
              show Except.ok (last, messages ++ message.toList ++ others) =
                .ok (last, messages ++ (message.toList ++ others))
              rw [List.append_assoc]

/-- However many bytes a record has, it is read as its bytes one by one. -/
theorem push_eq_whole : push = whole readByte := by
  funext decoder bytes
  rw [push, pushLoop_eq (Nat.le_refl _)]
  cases whole readByte decoder bytes with
  | error error => rfl
  | ok after => rfl

end Chunks

section Frames

theorem codec_admits {message : StormMessage} (hsize : message.payload.length < 2 ^ 64) : codec.Admits message := by
  have hpayload := message.header.payloadId.toNat_lt
  have htimestamp := message.header.timestamp.toNat_lt
  have hversion := message.header.protocolVersion.toNat_lt
  refine Codec.struct_admits (Codec.pair_admits (Codec.struct_admits ?_) (Codec.bytes_admits hsize))
  exact Codec.pair_admits (Codec.u32_admits hpayload) (Codec.pair_admits (Codec.u64_admits htimestamp)
    (Codec.u32_admits hversion))

theorem length_payload_le (message : StormMessage) : message.payload.length ≤ (codec.encode message).length := by
  show message.payload.length ≤ (headerCodec.encode message.header ++
    (Codec.u64.encode message.payload.length ++ message.payload.flatMap Codec.byte.encode)).length
  have hbytes : (message.payload.flatMap Codec.byte.encode).length = message.payload.length := by
    generalize message.payload = payload
    induction payload with
    | nil => rfl
    | cons byte payload ih =>
      rw [List.flatMap_cons, List.length_append, ih, List.length_cons]
      exact Nat.add_comm 1 _
  rw [List.length_append, List.length_append, hbytes]
  omega

theorem validateMessageSize_ok {size : ℕ} : validateMessageSize size = .ok () ↔ size ≤ maxMessageSize := by
  unfold validateMessageSize
  by_cases hsize : maxMessageSize < size
  · rw [if_pos hsize]
    exact ⟨fun h => (nomatch h), fun h => by omega⟩
  · rw [if_neg hsize]
    exact ⟨fun _ => by omega, fun _ => rfl⟩

/-- A message that can be sent, and the frame it is sent in. -/
theorem toFramedBytes_ok {message : StormMessage} {framed : List UInt8} (h : message.toFramedBytes = .ok framed) :
    ∃ bytes : List UInt8, framed = bigEndian messageLengthSize bytes.length ++ bytes ∧ bytes.length ≤ maxMessageSize ∧
      StormMessage.fromBytes bytes = .ok message := by
  obtain ⟨bytes, hbytes, h⟩ := Db.except_bind_ok.mp h
  obtain ⟨valid, hvalid, hencoded⟩ := Db.except_bind_ok.mp hbytes
  cases hencoded
  have hsize := validateMessageSize_ok.mp hvalid
  have hpayload := length_payload_le message
  rw [maxMessageSize] at hsize
  rw [if_neg (by omega)] at h
  cases h
  refine ⟨_, rfl, hsize, Db.except_bind_ok.mpr ⟨(), hvalid, ?_⟩⟩
  rw [Codec.fromBytes_of_admits (codec_admits (by omega))]
  rfl

/-- A frame ends in its message and leaves the decoder as it found it. -/
theorem run_framed {message : StormMessage} {framed : List UInt8} (h : message.toFramedBytes = .ok framed) :
    run readByte new framed = ([message], .ok new) := by
  obtain ⟨bytes, rfl, hsize, hbytes⟩ := toFramedBytes_ok h
  have hlength : ([] ++ bigEndian messageLengthSize bytes.length).length = messageLengthSize := by
    rw [List.nil_append, length_bigEndian]
  have hlt : bytes.length < 256 ^ messageLengthSize := by
    rw [maxMessageSize] at hsize
    rw [messageLengthSize]
    omega
  have hcompleted : completed bytes = ([message], .ok new) := by rw [completed, hbytes]
  have hread := run_length_complete (by decide) hlength
  rw [List.nil_append, bigEndianValue_bigEndian hlt] at hread
  unfold lengthRead at hread
  rw [validateMessageSize_ok.mpr hsize] at hread
  dsimp only at hread
  by_cases hpos : 0 < bytes.length
  · rw [dif_pos hpos] at hread
    rw [new, run_append_ok bytes hread, deliver_nil, run_message_complete (List.nil_append bytes ▸ rfl)]
    exact hcompleted
  · obtain rfl := List.length_eq_zero_iff.mp (Nat.eq_zero_of_not_pos hpos)
    rw [dif_neg hpos, hcompleted] at hread
    rw [List.append_nil]
    exact hread

theorem run_frames {messages : List StormMessage} : ∀ {frames : List (List UInt8)},
    messages.mapM toFramedBytes = .ok frames → run readByte new frames.flatten = (messages, .ok new) := by
  induction messages with
  | nil =>
    intro frames h
    cases h
    rfl
  | cons message messages ih =>
    intro frames h
    rw [List.mapM_cons] at h
    obtain ⟨framed, hframed, h⟩ := Db.except_bind_ok.mp h
    obtain ⟨rest, hrest, h⟩ := Db.except_bind_ok.mp h
    cases h
    rw [List.flatten_cons, run_append_ok rest.flatten (run_framed hframed), ih hrest]
    rfl

end Frames

section Receive

/-- The finest cutting of a stream. -/
def singleBytes (bytes : List UInt8) : List (List UInt8) := bytes.map List.singleton

theorem flatten_singleBytes (bytes : List UInt8) : (singleBytes bytes).flatten = bytes := by
  induction bytes with
  | nil => rfl
  | cons byte bytes ih =>
    rw [singleBytes, List.map_cons, List.flatten_cons, ← singleBytes, ih]
    rfl

theorem push_singleton (decoder : MessageDecoder) (byte : UInt8) : push decoder [byte] = readByte decoder byte := by
  rw [push_eq_whole, whole]
  cases hbyte : readByte decoder byte with
  | error error => rw [run_cons_error hbyte]
  | ok after =>
    obtain ⟨next, messages⟩ := after
    rw [run_singleton hbyte]

/-- Cut into single bytes, a stream delivers every message before its error. -/
theorem receive_singleBytes (bytes : List UInt8) : receive (singleBytes bytes) = run readByte new bytes := by
  rw [receive]
  generalize new = decoder
  induction bytes generalizing decoder with
  | nil => rfl
  | cons byte bytes ih =>
    rw [singleBytes, List.map_cons, ← singleBytes, List.singleton]
    cases hbyte : readByte decoder byte with
    | error error => rw [run_cons_error ((push_singleton decoder byte).trans hbyte), run_cons_error hbyte]
    | ok after =>
      obtain ⟨next, messages⟩ := after
      rw [run_cons_ok ((push_singleton decoder byte).trans hbyte), run_cons_ok hbyte, ih]

theorem receive_outcome (records : List (List UInt8)) : (receive records).2 = (run readByte new records.flatten).2 := by
  rw [receive, push_eq_whole]
  exact run_whole_outcome records

theorem receive_of_ok {records : List (List UInt8)} {decoder : MessageDecoder}
    (h : (run readByte new records.flatten).2 = .ok decoder) : receive records = run readByte new records.flatten := by
  rw [receive, push_eq_whole]
  exact run_whole_of_ok h

/-- A push that fails delivers nothing, so of two cuttings the one that ends a record between a
message and the error delivers it. -/
theorem receive_of_error {records : List (List UInt8)} {error : MessageError} (h : (receive records).2 = .error error) :
    ∃ before record later decoder, records = before ++ record :: later ∧
      receive before = ((receive records).1, .ok decoder) ∧ push decoder record = .error error := by
  rw [receive_outcome] at h
  obtain ⟨before, record, later, decoder, hrecords, hbefore, hrecord⟩ := run_whole_of_error h
  refine ⟨before, record, later, decoder, hrecords, ?_, ?_⟩
  · rw [receive_of_ok (congrArg Prod.snd hbefore), hbefore, receive, push_eq_whole]
  · rw [push_eq_whole, whole]
    cases hrun : run readByte decoder record with
    | mk messages outcome =>
      rw [hrun] at hrecord
      cases hrecord
      rfl

theorem receive_front (records : List (List UInt8)) :
    (receive records).1 <+: (receive (singleBytes records.flatten)).1 := by
  rw [receive_singleBytes]
  cases houtcome : (receive records).2 with
  | ok decoder =>
    rw [receive_outcome] at houtcome
    have hsame := receive_of_ok houtcome
    exact hsame ▸ List.prefix_rfl
  | error error =>
    obtain ⟨before, record, later, decoder, hrecords, hbefore, -⟩ := receive_of_error houtcome
    have hok := receive_outcome before
    rw [hbefore] at hok
    rw [receive_of_ok hok.symm] at hbefore
    rw [congrArg List.flatten hrecords, List.flatten_append]
    exact run_append_prefix hbefore

theorem receive_frames {messages : List StormMessage} {frames records : List (List UInt8)}
    (hframes : messages.mapM toFramedBytes = .ok frames) (hrecords : records.flatten = frames.flatten) :
    receive records = (messages, .ok new) := by
  have hrun := run_frames hframes
  rw [← hrecords] at hrun
  rw [receive_of_ok (congrArg Prod.snd hrun), hrun]

theorem receive_chunks :
    (∀ records others : List (List UInt8), records.flatten = others.flatten →
      (receive records).2 = (receive others).2 ∧
        ∀ decoder, (receive records).2 = .ok decoder → (receive records).1 = (receive others).1) ∧
      (∀ records error, (receive records).2 = .error error →
        (receive records).1 <+: (receive (singleBytes records.flatten)).1 ∧
          ∃ before record later decoder, records = before ++ record :: later ∧
            receive before = ((receive records).1, .ok decoder) ∧ push decoder record = .error error) ∧
      ∀ messages frames records, messages.mapM toFramedBytes = .ok frames → records.flatten = frames.flatten →
        receive records = (messages, .ok new) := by
  refine ⟨fun records others hflatten => ⟨?_, fun decoder hok => ?_⟩, fun records error h => ?_, ?_⟩
  · rw [receive_outcome, receive_outcome, hflatten]
  · rw [receive_outcome] at hok
    rw [receive_of_ok hok, hflatten, receive_of_ok (hflatten ▸ hok)]
  · exact ⟨receive_front records, receive_of_error h⟩
  · exact fun messages frames records => receive_frames

def shortFrame : List UInt8 := [0, 0, 0, 4, 0, 0, 0, 0]

def oversizedLength : List UInt8 := [0xff, 0xff, 0xff, 0xff]

/-- A message and an oversized length in one record, and in a record each. -/
theorem chunks_lose_message :
    ¬∀ records others : List (List UInt8), records.flatten = others.flatten →
      (receive records).1 = (receive others).1 ∧
        ((∃ error, (receive records).2 = .error error) ↔ ∃ error, (receive others).2 = .error error) := by
  intro h
  have hlost := (h [shortFrame ++ oversizedLength] [shortFrame, oversizedLength] rfl).1
  exact absurd hlost (by decide)

end Receive

end MessageDecoder

end PriceOracle
