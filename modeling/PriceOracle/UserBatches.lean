import PriceOracle.JsonText
import PriceOracle.PriceData
import PriceOracle.Sha256Digest
import PriceOracle.UserRequests

/-!
# Batches of user requests

`external_api/users.rs`: a batch of requests with its fee UTXOs, what the API checks before it
stores one, and the message its user signs. Texts are strings; reading JSON and the signature
library are parameters.
-/

namespace PriceOracle

structure ApiError where
  status : ℕ
  message : String
  deriving DecidableEq

namespace ApiError

def badRequest (message : String) : ApiError := ⟨400, message⟩

def unauthorized (message : String) : ApiError := ⟨401, message⟩

def internal : ApiError := ⟨500, "internal server error"⟩

end ApiError

structure UserRequestHeader where
  signature : String
  publicKey : String
  feeUtxos : List String
  signatureScheme : Option String
  signingPublicKey : Option String

structure UserRequest where
  kind : String
  payload : String
  deriving DecidableEq

structure NetworkUserRequests where
  header : UserRequestHeader
  requests : List UserRequest

structure UtxoAuthMethod where
  kind : String
  authData : String
  deriving DecidableEq

structure TickUtxoRequestDetails where
  utxoAuthMethod : UtxoAuthMethod
  priceFeedId : Option UInt32
  deriving DecidableEq

/-- What the API uses of `serde_json`, `sha2`, `secp256k1` and `bitcoin`. -/
structure UserLibraries where
  /-- `serde_json::from_str`, with the text of its error. -/
  fromStr : String → Except String TickUtxoRequestDetails
  /-- `serde_json::to_string` of a public key, a signing key, fee UTXOs and requests. -/
  toJson : String → Option String → List String → List UserRequest → Option String
  sha256 : List UInt8 → List UInt8
  /-- `XOnlyPublicKey::from_byte_array` accepts the bytes. -/
  xOnlyPublicKey : List UInt8 → Bool
  schnorrVerify : List UInt8 → List UInt8 → List UInt8 → Bool
  PublicKey : Type
  publicKeyEq : DecidableEq PublicKey
  publicKeyFromSlice : List UInt8 → Option PublicKey
  xOnly : PublicKey → List UInt8
  RecoverableSignature : Type
  recoverableFromCompact : List UInt8 → UInt8 → Option RecoverableSignature
  signedMsgHash : String → List UInt8
  recoverEcdsa : List UInt8 → RecoverableSignature → Option PublicKey

namespace UserApi

section Parsing

def hexValue (c : Char) : Option UInt8 :=
  if '0' ≤ c ∧ c ≤ '9' then some (UInt8.ofNat (c.toNat - '0'.toNat))
  else if 'a' ≤ c ∧ c ≤ 'f' then some (UInt8.ofNat (c.toNat - 'a'.toNat + 10))
  else if 'A' ≤ c ∧ c ≤ 'F' then some (UInt8.ofNat (c.toNat - 'A'.toNat + 10))
  else none

/-- `hex::decode` -/
def hexDecode : List Char → Option (List UInt8)
  | [] => some []
  | [_] => none
  | high :: low :: encoded => do
    let highValue ← hexValue high
    let lowValue ← hexValue low
    let bytes ← hexDecode encoded
    return (16 * highValue + lowValue) :: bytes

def parseHexArray (count : ℕ) (encoded : List Char) (name : String) : Except ApiError (List UInt8) :=
  match hexDecode encoded with
  | some bytes => if bytes.length = count then .ok bytes else .error (.badRequest s!"invalid {name}")
  | none => .error (.badRequest s!"invalid {name}")

/-- `str::parse::<u32>`: digits, with a plus sign or not. -/
def parseU32 (text : List Char) : Option UInt32 :=
  let digits := if text.head? = some '+' then text.tail else text
  if digits ≠ [] ∧ digits.all Char.isDigit then
    let value := digits.foldl (fun value c => value * 10 + (c.toNat - '0'.toNat)) 0
    if value < 2 ^ 32 then some (UInt32.ofNat value) else none
  else none

/-- `str::split_once` -/
def splitOnce (delimiter : Char) (text : List Char) : Option (List Char × List Char) :=
  match text.dropWhile (· != delimiter) with
  | [] => none
  | _ :: rest => some (text.takeWhile (· != delimiter), rest)

end Parsing

/-- `USER_REQUEST_TAG` -/
def userRequestTag : String := "OracleNetworkV1/NetworkUserRequests"

/-- `HUMID_USER_SIGNATURE_SCHEME` -/
def humidUserSignatureScheme : String := "bitcoin-signed-message-ecdsa-v1"

/-- `TICK_REQUEST_KIND` -/
def tickRequestKind : String := "tick-utxo"

/-- `PRICE_REQUEST_KIND` -/
def priceRequestKind : String := "signed-price-data"

/-- `MAX_REQUESTS_PER_BATCH` -/
def maxRequestsPerBatch : ℕ := 100

/-- `MAX_FEE_UTXOS_PER_BATCH` -/
def maxFeeUtxosPerBatch : ℕ := 100

/-- `MAX_PAYLOAD_BYTES` -/
def maxPayloadBytes : ℕ := 64 * 1024

section Validation

/-- One fee UTXO, checked against those before it. -/
def validateFeeUtxo (parsed : List (FeeUtxo (List UInt8))) (utxo : String) :
    Except ApiError (List (FeeUtxo (List UInt8))) := do
  match splitOnce ':' utxo.toList with
  | none => throw (.badRequest s!"invalid fee UTXO '{utxo}'")
  | some (txid, outputIndex) =>
    let txid ← parseHexArray 32 txid "fee UTXO transaction id"
    match parseU32 outputIndex with
    | none => throw (.badRequest s!"invalid fee UTXO '{utxo}'")
    | some outputIndex =>
      let feeUtxo : FeeUtxo (List UInt8) := ⟨txid, outputIndex.toNat⟩
      if feeUtxo ∈ parsed then throw (.badRequest s!"duplicate fee UTXO '{utxo}'")
      else return parsed ++ [feeUtxo]

def validateFeeUtxos (feeUtxos : List String) : Except ApiError (List (FeeUtxo (List UInt8))) :=
  if feeUtxos = [] then .error (.badRequest "at least one fee UTXO is required")
  else if feeUtxos.length > maxFeeUtxosPerBatch then
    .error (.badRequest s!"a batch cannot contain more than {maxFeeUtxosPerBatch} fee UTXOs")
  else feeUtxos.foldlM validateFeeUtxo []

variable (libraries : UserLibraries)

def validateAuthMethod (method : UtxoAuthMethod) : Except ApiError Unit :=
  if method.kind = "asset-id-auth" then
    (parseHexArray 32 method.authData.toList "authentication asset id").map fun _ => ()
  else if method.kind = "scriptPubKey-auth" then
    match hexDecode method.authData.toList with
    | none => .error (.badRequest "invalid authentication scriptPubKey")
    | some [] => .error (.badRequest "authentication scriptPubKey cannot be empty")
    | some _ => .ok ()
  else if method.kind = "signature-auth" then do
    let publicKey ← parseHexArray 32 method.authData.toList "authentication x-only public key"
    if libraries.xOnlyPublicKey publicKey then return ()
    else throw (.badRequest "invalid authentication x-only public key")
  else
    let kind := method.kind
    .error (.badRequest s!"unknown UTXO authentication kind '{kind}'")

/-- The feed a request may name, by its kind. -/
def namedFeed (kind : String) (priceFeedId : Option UInt32) : Except ApiError (Option UInt32) :=
  if kind = tickRequestKind then
    match priceFeedId with
    | none => .ok none
    | some _ => .error (.badRequest "a tick-utxo request cannot name a price feed")
  else
    match priceFeedId with
    | none => .error (.badRequest s!"a {priceRequestKind} request must name a price feed")
    | some feed =>
      match FeedRegistry.default.get feed with
      | some _ => .ok (some feed)
      | none => .error (.badRequest s!"unknown price feed '{feed}'")

/-- The feed the request is issued at, for a `signed-price-data` request. -/
def validateUserRequest (request : UserRequest) : Except ApiError (Option UInt32) :=
  let kind := request.kind
  if kind ≠ tickRequestKind ∧ kind ≠ priceRequestKind then
    .error (.badRequest s!"unknown user request kind '{kind}'")
  else if request.payload.utf8ByteSize > maxPayloadBytes then
    .error (.badRequest s!"request payload cannot exceed {maxPayloadBytes} bytes")
  else
    match libraries.fromStr request.payload with
    | .error error => .error (.badRequest s!"invalid {kind} payload: {error}")
    | .ok details => do
      validateAuthMethod libraries details.utxoAuthMethod
      namedFeed kind details.priceFeedId

/-- One message carries one feed, so one batch names one too. -/
def validateNext (instructed : Option UInt32) (request : UserRequest) : Except ApiError (Option UInt32) := do
  match ← validateUserRequest libraries request with
  | none => return instructed
  | some feed =>
    if instructed.any (· != feed) then throw (.badRequest "a batch cannot name more than one price feed")
    else return some feed

/-- `str::as_bytes` -/
def asBytes (text : String) : List UInt8 := text.toByteArray.data.toList

/-- The payloads, then the fee UTXOs, with nothing between them. -/
def signedMessage (request : NetworkUserRequests) : List UInt8 :=
  (request.requests.flatMap fun userRequest => asBytes userRequest.payload) ++ request.header.feeUtxos.flatMap asBytes

def signingHash (request : NetworkUserRequests) : List UInt8 :=
  Sha256.taggedHash libraries.sha256 userRequestTag (signedMessage request)

def humidSigningMessage (request : NetworkUserRequests) : Except ApiError String :=
  let header := request.header
  match libraries.toJson header.publicKey header.signingPublicKey header.feeUtxos request.requests with
  | none => .error .internal
  | some body => .ok s!"{userRequestTag}\n{humidUserSignatureScheme}\n{body}"

/-- The signature by a recoverable key over the whole batch. -/
def verifyHumidSignature (request : NetworkUserRequests) (publicKeyBytes : List UInt8) :
    Except ApiError Unit := do
  match request.header.signingPublicKey with
  | none => throw (.badRequest "signing public key is required")
  | some encodedKey =>
    let signingKeyBytes ← parseHexArray 33 encodedKey.toList "signing public key"
    match libraries.publicKeyFromSlice signingKeyBytes with
    | none => throw (.badRequest "invalid signing public key")
    | some signingKey =>
      if libraries.xOnly signingKey ≠ publicKeyBytes then
        throw (.unauthorized "signing key does not own the oracle account")
      else
        let signatureBytes ← parseHexArray 65 request.header.signature.toList "user signature"
        match libraries.recoverableFromCompact (signatureBytes.take 64) (signatureBytes.getD 64 0) with
        | none => throw (.unauthorized "invalid user signature")
        | some signature =>
          let message ← humidSigningMessage libraries request
          match libraries.recoverEcdsa (libraries.signedMsgHash message) signature with
          | none => throw (.unauthorized "user signature is invalid")
          | some recovered =>
            have := libraries.publicKeyEq
            if recovered = signingKey then return () else throw (.unauthorized "user signature is invalid")

def verifySignature (request : NetworkUserRequests) : Except ApiError Unit := do
  let publicKeyBytes ← parseHexArray 32 request.header.publicKey.toList "user public key"
  if libraries.xOnlyPublicKey publicKeyBytes then
    match request.header.signatureScheme with
    | some scheme =>
      if scheme ≠ humidUserSignatureScheme then throw (.badRequest "unsupported user signature scheme")
      else verifyHumidSignature libraries request publicKeyBytes
    | none =>
      if request.header.signingPublicKey.isSome then
        throw (.badRequest "signing public key requires a signature scheme")
      else
        let signatureBytes ← parseHexArray 64 request.header.signature.toList "user signature"
        if libraries.schnorrVerify signatureBytes (signingHash libraries request) publicKeyBytes then return ()
        else throw (.unauthorized "user signature is invalid")
  else throw (.badRequest "invalid user public key")

/-- Its fee UTXOs, and the feed it is issued at, if any. -/
def validateRequest (request : NetworkUserRequests) :
    Except ApiError (List (FeeUtxo (List UInt8)) × Option UInt32) :=
  if request.requests = [] then .error (.badRequest "at least one user request is required")
  else if request.requests.length > maxRequestsPerBatch then
    .error (.badRequest s!"a batch cannot contain more than {maxRequestsPerBatch} requests")
  else do
    let feeUtxos ← validateFeeUtxos request.header.feeUtxos
    let instructed ← request.requests.foldlM (validateNext libraries) none
    verifySignature libraries request
    return (feeUtxos, instructed)

end Validation

end UserApi

end PriceOracle
