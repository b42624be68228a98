import Mathlib.Data.List.Chain
import PriceOracle.UserBatches

/-!
# The text of a signed write

`write_message` of `external_api/operators/auth.rs`, with the pretty printer of `serde_json` that lays
out the payload in it. A pretty text has no empty line, so the last one of the message stands before
the payload, and what is before it can be read line by line.
-/

namespace PriceOracle

/-- `serde_json::Number`, as its text. -/
structure JsonNumber where
  text : List Char
  nonempty : text ≠ []
  scalar : ∀ c ∈ text, JsonText.isScalar c = true

/-- `serde_json::Value` -/
inductive JsonValue where
  | null
  | bool (value : Bool)
  | number (value : JsonNumber)
  | string (value : List Char)
  | array (elements : List JsonValue)
  | object (members : List (List Char × JsonValue))

namespace PrettyJson

section Definitions

def hexDigit (n : ℕ) : Char := (n % 16).digitChar

/-- `CharEscape` -/
def escapeChar (c : Char) : List Char :=
  if c = '"' then ['\\', '"']
  else if c = '\\' then ['\\', '\\']
  else if c.toNat = 8 then ['\\', 'b']
  else if c = '\t' then ['\\', 't']
  else if c = '\n' then ['\\', 'n']
  else if c.toNat = 12 then ['\\', 'f']
  else if c = '\r' then ['\\', 'r']
  else if c.toNat < 0x20 then ['\\', 'u', '0', '0', hexDigit (c.toNat / 16), hexDigit c.toNat]
  else [c]

def quoted (text : List Char) : List Char := '"' :: (text.flatMap escapeChar ++ ['"'])

def indentation (depth : ℕ) : List Char := List.replicate (2 * depth) ' '

/-- Texts with a comma and a line break between each two. -/
def commaLines : List (List Char) → List Char
  | [] => []
  | [text] => text
  | text :: texts => text ++ ',' :: '\n' :: commaLines texts

mutual

/-- `to_string_pretty`, inside `depth` brackets. -/
def pretty (depth : ℕ) : JsonValue → List Char
  | .null => ['n', 'u', 'l', 'l']
  | .bool true => ['t', 'r', 'u', 'e']
  | .bool false => ['f', 'a', 'l', 's', 'e']
  | .number value => value.text
  | .string value => quoted value
  | .array [] => ['[', ']']
  | .array (first :: elements) =>
    '[' :: '\n' :: (commaLines (prettyElement (depth + 1) first :: prettyElements (depth + 1) elements) ++
      '\n' :: (indentation depth ++ [']']))
  | .object [] => ['\x7b', '\x7d']
  | .object (first :: members) =>
    '\x7b' :: '\n' :: (commaLines (prettyMember (depth + 1) first :: prettyMembers (depth + 1) members) ++
      '\n' :: (indentation depth ++ ['\x7d']))

def prettyElement (depth : ℕ) (element : JsonValue) : List Char := indentation depth ++ pretty depth element

def prettyElements (depth : ℕ) : List JsonValue → List (List Char)
  | [] => []
  | element :: elements => prettyElement depth element :: prettyElements depth elements

def prettyMember (depth : ℕ) : List Char × JsonValue → List Char
  | (key, value) => indentation depth ++ quoted key ++ ':' :: ' ' :: pretty depth value

def prettyMembers (depth : ℕ) : List (List Char × JsonValue) → List (List Char)
  | [] => []
  | member :: members => prettyMember depth member :: prettyMembers depth members

end

end Definitions

section Tidiness

/-- Something without an empty line in it, and without a line break at its ends. -/
structure Tidy (text : List Char) : Prop where
  nonempty : text ≠ []
  chain : text.IsChain fun a b => ¬(a = '\n' ∧ b = '\n')
  head : text.head? ≠ some '\n'
  last : text.getLast? ≠ some '\n'

theorem tidy_of_notMem {text : List Char} (hne : text ≠ []) (h : '\n' ∉ text) : Tidy text where
  nonempty := hne
  chain := by
    rw [List.isChain_iff_getElem]
    rintro i hi ⟨hfirst, -⟩
    exact h (hfirst ▸ List.getElem_mem _)
  head heq := h (List.mem_of_head? heq)
  last heq := h (List.mem_of_getLast? heq)

theorem Tidy.append {a b : List Char} (ha : Tidy a) (hb : Tidy b) : Tidy (a ++ b) where
  nonempty := by simp [ha.nonempty]
  chain := by
    refine List.isChain_append.mpr ⟨ha.chain, hb.chain, ?_⟩
    rintro x hx y - ⟨rfl, -⟩
    exact ha.last hx
  head := by
    rw [List.head?_append_of_ne_nil a ha.nonempty]
    exact ha.head
  last := by
    rw [List.getLast?_append_of_ne_nil a hb.nonempty]
    exact hb.last

/-- One line break between two tidy texts. -/
theorem Tidy.line {a b : List Char} (ha : Tidy a) (hb : Tidy b) : Tidy (a ++ '\n' :: b) where
  nonempty := by simp
  chain := by
    refine List.isChain_append.mpr ⟨ha.chain, List.isChain_cons.mpr ⟨?_, hb.chain⟩, ?_⟩
    · rintro y hy ⟨-, rfl⟩
      exact hb.head hy
    · rintro x hx y - ⟨rfl, -⟩
      exact ha.last hx
  head := by
    rw [List.head?_append_of_ne_nil a ha.nonempty]
    exact ha.head
  last := by
    rw [List.getLast?_append_of_ne_nil a (List.cons_ne_nil _ _), List.getLast?_cons_of_ne_nil hb.nonempty]
    exact hb.last

theorem newline_notMem_escapeChar (c : Char) : '\n' ∉ escapeChar c := by
  have hdigit : ∀ n : ℕ, hexDigit n ≠ '\n' := by
    intro n
    have hlt := Nat.mod_lt n (show 0 < 16 by decide)
    unfold hexDigit
    interval_cases n % 16 <;> decide
  unfold escapeChar
  split_ifs <;> simp_all [eq_comm]

theorem newline_notMem_quoted (text : List Char) : '\n' ∉ quoted text := by
  unfold quoted
  simp [newline_notMem_escapeChar]

theorem tidy_quoted (text : List Char) : Tidy (quoted text) := tidy_of_notMem (List.cons_ne_nil _ _) (newline_notMem_quoted text)

theorem tidy_indentation_append (depth : ℕ) {text : List Char} (h : Tidy text) : Tidy (indentation depth ++ text) := by
  by_cases hzero : indentation depth = []
  · rw [hzero]
    exact h
  · refine (tidy_of_notMem hzero ?_).append h
    simp [indentation]

theorem tidy_commaLines {texts : List (List Char)} (hne : texts ≠ []) (h : ∀ text ∈ texts, Tidy text) :
    Tidy (commaLines texts) := by
  induction texts with
  | nil => exact absurd rfl hne
  | cons text texts ih =>
    cases texts with
    | nil => exact h text List.mem_cons_self
    | cons next texts =>
      have hrest := ih (List.cons_ne_nil _ _) fun other hother => h other (List.mem_cons_of_mem _ hother)
      have hcomma := (h text List.mem_cons_self).append (tidy_of_notMem (show [','] ≠ [] by decide) (by decide))
      have hlines := hcomma.line hrest
      rwa [List.append_assoc] at hlines

/-- A bracketed list of lines. -/
theorem tidy_bracketed (depth : ℕ) {opening closing : Char} {lines : List Char} (hopening : opening ≠ '\n')
    (hclosing : closing ≠ '\n') (hlines : Tidy lines) :
    Tidy (opening :: '\n' :: (lines ++ '\n' :: (indentation depth ++ [closing]))) := by
  have hfirst : Tidy [opening] := tidy_of_notMem (List.cons_ne_nil _ _) (by simpa using hopening.symm)
  have hlast : Tidy [closing] := tidy_of_notMem (List.cons_ne_nil _ _) (by simpa using hclosing.symm)
  exact hfirst.line (hlines.line (tidy_indentation_append depth hlast))

theorem newline_not_scalar {c : Char} (h : JsonText.isScalar c = true) : c ≠ '\n' := by
  rintro rfl
  exact absurd h (by decide)

mutual

theorem tidy_pretty (depth : ℕ) : ∀ value, Tidy (pretty depth value)
  | .null => tidy_of_notMem (by simp [pretty]) (by simp [pretty])
  | .bool true => tidy_of_notMem (by simp [pretty]) (by simp [pretty])
  | .bool false => tidy_of_notMem (by simp [pretty]) (by simp [pretty])
  | .number value => by
    rw [pretty]
    exact tidy_of_notMem value.nonempty fun h => newline_not_scalar (value.scalar _ h) rfl
  | .string value => by
    rw [pretty]
    exact tidy_quoted value
  | .array [] => tidy_of_notMem (by simp [pretty]) (by simp [pretty])
  | .array (first :: elements) => by
    rw [pretty]
    refine tidy_bracketed depth (by decide) (by decide) (tidy_commaLines (List.cons_ne_nil _ _) ?_)
    refine List.forall_mem_cons.mpr ⟨?_, tidy_prettyElements (depth + 1) elements⟩
    rw [prettyElement]
    exact tidy_indentation_append _ (tidy_pretty (depth + 1) first)
  | .object [] => tidy_of_notMem (by simp [pretty]) (by simp [pretty])
  | .object ((key, value) :: members) => by
    rw [pretty]
    refine tidy_bracketed depth (by decide) (by decide) (tidy_commaLines (List.cons_ne_nil _ _) ?_)
    refine List.forall_mem_cons.mpr ⟨?_, tidy_prettyMembers (depth + 1) members⟩
    rw [prettyMember, List.append_assoc]
    refine tidy_indentation_append _ ((tidy_quoted key).append ?_)
    exact (tidy_of_notMem (show [':', ' '] ≠ [] by decide) (by decide)).append (tidy_pretty (depth + 1) value)

theorem tidy_prettyElements (depth : ℕ) : ∀ elements, ∀ text ∈ prettyElements depth elements, Tidy text
  | [] => by simp [prettyElements]
  | element :: elements => by
    rw [prettyElements]
    refine List.forall_mem_cons.mpr ⟨?_, tidy_prettyElements depth elements⟩
    rw [prettyElement]
    exact tidy_indentation_append depth (tidy_pretty depth element)

theorem tidy_prettyMembers (depth : ℕ) : ∀ members, ∀ text ∈ prettyMembers depth members, Tidy text
  | [] => by simp [prettyMembers]
  | (key, value) :: members => by
    rw [prettyMembers]
    refine List.forall_mem_cons.mpr ⟨?_, tidy_prettyMembers depth members⟩
    rw [prettyMember, List.append_assoc]
    refine tidy_indentation_append _ ((tidy_quoted key).append ?_)
    exact (tidy_of_notMem (show [':', ' '] ≠ [] by decide) (by decide)).append (tidy_pretty depth value)

end

end Tidiness

end PrettyJson

inductive SignatureScheme where
  | bip322V1
  | humidEcdsaV1
  deriving DecidableEq

def SignatureScheme.asStr : SignatureScheme → String
  | .bip322V1 => "bip322-v1"
  | .humidEcdsaV1 => "bitcoin-signed-message-ecdsa-v1"

/-- What an operator signs. -/
structure OperatorWrite where
  scheme : SignatureScheme
  method : String
  path : String
  timestamp : ℕ
  nonce : String
  payload : List UInt8
  deriving DecidableEq

namespace OperatorWrite

section Message

/-- `to_ascii_uppercase` -/
def toAsciiUppercase (text : String) : String := String.ofList (text.toList.map Char.toUpper)

/-- `hex::encode` -/
def hexText (bytes : List UInt8) : String :=
  String.ofList (bytes.flatMap fun byte => [(byte.toNat / 16).digitChar, (byte.toNat % 16).digitChar])

/-- What follows the nonce. -/
def payloadText (payload : List UInt8) (value : JsonValue) : String :=
  "\nPayload SHA-256: " ++ hexText (Sha256.digest payload) ++ "\n\nPayload JSON:\n" ++
    String.ofList (PrettyJson.pretty 0 value)

/-- `write_message`; `from_slice` fails on what is no JSON, and with it the `expect` behind it. -/
def writeMessage (fromSlice : List UInt8 → Option JsonValue) (write : OperatorWrite) : Option String :=
  (fromSlice write.payload).map fun value =>
    "high-storm:operator-write:v3\nSignature scheme: " ++ write.scheme.asStr ++
      "\nMethod: " ++ toAsciiUppercase write.method ++ "\nPath: " ++ write.path ++
      "\nTimestamp (Unix seconds): " ++ write.timestamp.repr ++ "\nNonce: " ++ write.nonce ++
      payloadText write.payload value

end Message

section Reading

/-- A line ends at its line break. -/
theorem line_inj {a a' rest rest' : List Char} (ha : '\n' ∉ a) (ha' : '\n' ∉ a')
    (h : a ++ '\n' :: rest = a' ++ '\n' :: rest') : a = a' ∧ rest = rest' := by
  obtain ⟨more, hleft, hright⟩ | ⟨more, hleft, hright⟩ := List.append_eq_append_iff.mp h
  · cases more with
    | nil => exact ⟨by rw [hleft, List.append_nil], (List.cons.inj hright).2⟩
    | cons c more =>
      obtain ⟨rfl, -⟩ := List.cons.inj hright
      exact absurd (by rw [hleft]; simp) ha'
  · cases more with
    | nil => exact ⟨by rw [hleft, List.append_nil], (List.cons.inj hright).2.symm⟩
    | cons c more =>
      obtain ⟨rfl, -⟩ := List.cons.inj hright
      exact absurd (by rw [hleft]; simp) ha

/-- An empty line stands in no tidy text. -/
theorem not_emptyLine_of_tidy {before rest : List Char} (h : PrettyJson.Tidy (before ++ '\n' :: '\n' :: rest)) : False := by
  obtain ⟨-, hchain, -⟩ := List.isChain_append.mp h.chain
  exact (List.isChain_cons_cons.mp hchain).1 ⟨rfl, rfl⟩

/-- The last empty line stands before a tidy text, so it ends what is before it. -/
theorem emptyLine_inj {a a' rest rest' : List Char} (hrest : PrettyJson.Tidy rest) (hrest' : PrettyJson.Tidy rest')
    (h : a ++ '\n' :: '\n' :: rest = a' ++ '\n' :: '\n' :: rest') : a = a' ∧ rest = rest' := by
  have hcut : ∀ {x x' y y' more : List Char}, PrettyJson.Tidy y → x' = x ++ more →
      '\n' :: '\n' :: y = more ++ '\n' :: '\n' :: y' → more = [] := by
    intro x x' y y' more hy _ hmore
    cases more with
    | nil => rfl
    | cons c more =>
      obtain ⟨-, hmore⟩ := List.cons.inj hmore
      cases more with
      | nil =>
        obtain ⟨-, hmore⟩ := List.cons.inj hmore
        exact absurd (by rw [hmore]; rfl) hy.head
      | cons c more =>
        obtain ⟨-, hmore⟩ := List.cons.inj hmore
        exact (not_emptyLine_of_tidy (hmore ▸ hy)).elim
  obtain ⟨more, hleft, hright⟩ | ⟨more, hleft, hright⟩ := List.append_eq_append_iff.mp h
  · obtain rfl := hcut hrest hleft hright
    exact ⟨by rw [hleft, List.append_nil], by simpa using hright⟩
  · obtain rfl := hcut hrest' hleft hright
    exact ⟨by rw [hleft, List.append_nil], by simpa using hright.symm⟩

theorem hexDecode_hexText (bytes : List UInt8) : UserApi.hexDecode (hexText bytes).toList = some bytes := by
  have hbyte : ∀ byte : UInt8, UserApi.hexValue (byte.toNat / 16).digitChar = some (byte / 16) ∧
      UserApi.hexValue (byte.toNat % 16).digitChar = some (byte % 16) := by
    intro byte
    have hlt := byte.toNat_lt
    have hdigit : ∀ n < 16, UserApi.hexValue n.digitChar = some (UInt8.ofNat n) := by decide
    constructor
    · rw [hdigit _ (by omega)]
      exact congrArg some (UInt8.toNat_inj.mp (by simp; omega))
    · rw [hdigit _ (by omega)]
      refine congrArg some (UInt8.toNat_inj.mp ?_)
      simp
      omega
  unfold hexText
  rw [String.toList_ofList]
  induction bytes with
  | nil => rfl
  | cons byte bytes ih =>
    obtain ⟨hhigh, hlow⟩ := hbyte byte
    rw [List.flatMap_cons, List.cons_append, List.cons_append, List.nil_append, UserApi.hexDecode, hhigh, hlow, ih]
    have hsplit : 16 * (byte / 16) + byte % 16 = byte := by
      apply UInt8.toNat_inj.mp
      have hlt := byte.toNat_lt
      simp
      omega
    simp [hsplit]

theorem hexText_inj {bytes bytes' : List UInt8} (h : hexText bytes = hexText bytes') : bytes = bytes' := by
  have hdecoded := hexDecode_hexText bytes
  rw [h, hexDecode_hexText] at hdecoded
  exact (Option.some.inj hdecoded).symm

theorem length_hexText (bytes : List UInt8) : (hexText bytes).toList.length = 2 * bytes.length := by
  unfold hexText
  rw [String.toList_ofList]
  induction bytes with
  | nil => rfl
  | cons byte bytes ih =>
    simp at ih ⊢
    omega

theorem repr_inj {n n' : ℕ} (h : n.repr = n'.repr) : n = n' := by
  have hdigits := Nat.ofDigitChars_ten_toDigits (n := n)
  rw [← Nat.toList_repr, h, Nat.toList_repr, Nat.ofDigitChars_ten_toDigits] at hdigits
  exact hdigits.symm

theorem newline_notMem_repr (n : ℕ) : '\n' ∉ n.repr.toList := by
  rw [Nat.toList_repr]
  intro h
  exact absurd (Nat.isDigit_of_mem_toDigits (by decide) (by decide) h) (by decide)

theorem newline_notMem_asStr (scheme : SignatureScheme) : '\n' ∉ scheme.asStr.toList := by
  cases scheme <;> decide

theorem asStr_inj {scheme scheme' : SignatureScheme} (h : scheme.asStr = scheme'.asStr) : scheme = scheme' := by
  revert h
  cases scheme <;> cases scheme' <;> decide

theorem newline_notMem_toAsciiUppercase {text : String} (h : '\n' ∉ text.toList) :
    '\n' ∉ (toAsciiUppercase text).toList := by
  unfold toAsciiUppercase
  rw [String.toList_ofList]
  intro hmem
  obtain ⟨c, hc, hupper⟩ := List.mem_map.mp hmem
  have heq : c = '\n' := by
    unfold Char.toUpper at hupper
    split_ifs at hupper with hlower
    · have hval := congrArg Char.val hupper
      have hle := hlower.1
      dsimp only at hval
      have hc : c.val = '\n'.val - ('A'.val - 'a'.val) := by
        rw [← hval]
        exact (UInt32.add_sub_cancel _ _).symm
      rw [hc] at hle
      exact absurd hle (by decide)
    · exact hupper
  exact h (heq ▸ hc)

/-- The message, cut into its lines up to the nonce and what follows it. -/
theorem toList_writeMessage {fromSlice : List UInt8 → Option JsonValue} {write : OperatorWrite} {text : String}
    (h : writeMessage fromSlice write = some text) :
    ∃ value, fromSlice write.payload = some value ∧ text.toList =
      "high-storm:operator-write:v3\nSignature scheme: ".toList ++ (write.scheme.asStr.toList ++ '\n' ::
        ("Method: ".toList ++ ((toAsciiUppercase write.method).toList ++ '\n' ::
          ("Path: ".toList ++ (write.path.toList ++ '\n' ::
            ("Timestamp (Unix seconds): ".toList ++ (write.timestamp.repr.toList ++ '\n' ::
              ("Nonce: ".toList ++ (write.nonce.toList ++ "\nPayload SHA-256: ".toList ++
                (hexText (Sha256.digest write.payload)).toList ++ '\n' :: '\n' ::
                  ("Payload JSON:\n".toList ++ PrettyJson.pretty 0 value)))))))))) := by
  obtain ⟨value, hvalue, rfl⟩ := Option.map_eq_some_iff.mp h
  refine ⟨value, hvalue, ?_⟩
  unfold payloadText
  simp

theorem length_digest (message : List UInt8) : (Sha256.digest message).length = 32 := Sha256.Word256.length_bytes _

/-- Two writes with one message: the payload JSON has no empty line and no other field up to the nonce has a
line break, so every field can be found in the text. -/
theorem writeMessage_inj {fromSlice : List UInt8 → Option JsonValue} {write write' : OperatorWrite} {text : String}
    (h : writeMessage fromSlice write = some text) (h' : writeMessage fromSlice write' = some text)
    (hmethod : '\n' ∉ write.method.toList) (hmethod' : '\n' ∉ write'.method.toList)
    (hpath : '\n' ∉ write.path.toList) (hpath' : '\n' ∉ write'.path.toList) :
    write.scheme = write'.scheme ∧ toAsciiUppercase write.method = toAsciiUppercase write'.method ∧
      write.path = write'.path ∧ write.timestamp = write'.timestamp ∧ write.nonce = write'.nonce ∧
      Sha256.digest write.payload = Sha256.digest write'.payload := by
  obtain ⟨value, -, htext⟩ := toList_writeMessage h
  obtain ⟨value', -, htext'⟩ := toList_writeMessage h'
  rw [htext] at htext'
  obtain ⟨hscheme, htext'⟩ := line_inj (newline_notMem_asStr _) (newline_notMem_asStr _) (List.append_cancel_left htext')
  obtain ⟨hupper, htext'⟩ := line_inj (newline_notMem_toAsciiUppercase hmethod) (newline_notMem_toAsciiUppercase hmethod')
    (List.append_cancel_left htext')
  obtain ⟨hpaths, htext'⟩ := line_inj hpath hpath' (List.append_cancel_left htext')
  obtain ⟨htimestamp, htext'⟩ := line_inj (newline_notMem_repr _) (newline_notMem_repr _) (List.append_cancel_left htext')
  have hlabel : PrettyJson.Tidy "Payload JSON:".toList := PrettyJson.tidy_of_notMem (by decide) (by decide)
  have htidy : ∀ value, PrettyJson.Tidy ("Payload JSON:\n".toList ++ PrettyJson.pretty 0 value) :=
    fun value => hlabel.line (PrettyJson.tidy_pretty 0 value)
  obtain ⟨htext', -⟩ := emptyLine_inj (htidy value) (htidy value') (List.append_cancel_left htext')
  obtain ⟨htext', hhash⟩ := List.append_inj' htext' (by simp only [length_hexText, length_digest])
  have hnonce := List.append_cancel_right htext'
  exact ⟨asStr_inj (String.toList_inj.mp hscheme), String.toList_inj.mp hupper, String.toList_inj.mp hpaths,
    repr_inj (String.toList_inj.mp htimestamp), String.toList_inj.mp hnonce, hexText_inj (String.toList_inj.mp hhash)⟩

end Reading

end OperatorWrite

end PriceOracle
