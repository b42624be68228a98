import PriceOracle.WriteMessages

/-!
# Values of the web SDK

What `web/sdk/src/index.ts` reads of its arguments: numbers, which may be fractions, infinite or no number at all,
and strings of hexadecimal digits of either case.
-/

namespace PriceOracle

/-- A `number` of JavaScript. -/
inductive JsNumber where
  | finite (value : ℚ)
  | infinite (negative : Bool)
  | nan
  deriving DecidableEq

namespace JsNumber

def ofNat (n : ℕ) : JsNumber := .finite n

/-- The comparison `<`; nothing compares with what is no number. -/
def lt : JsNumber → JsNumber → Bool
  | .finite a, .finite b => a < b
  | .finite _, .infinite negative => !negative
  | .infinite negative, .finite _ => negative
  | .infinite negative, .infinite negative' => negative && !negative'
  | _, _ => false

/-- `Number.isInteger` -/
def isInteger : JsNumber → Bool
  | .finite value => value.isInt
  | _ => false

/-- `Number.isSafeInteger` -/
def isSafeInteger : JsNumber → Bool
  | .finite value => value.isInt && decide (|value.num| ≤ 2 ^ 53 - 1)
  | _ => false

end JsNumber

namespace Sdk

/-- `/^[0-9a-f]{n}$/i` -/
def isHex (digits : ℕ) (text : String) : Bool :=
  decide (text.toList.length = digits) && text.toList.all fun c => (UserApi.hexValue c).isSome

/-- `assertHex`: an even number of digits, and not none. -/
def assertHex (value name : String) : Except String Unit :=
  if value.toList.length = 0 ∨ value.toList.length % 2 ≠ 0 ∨
      ¬value.toList.all (fun c => (UserApi.hexValue c).isSome) then .error (name ++ " must be hex")
  else .ok ()

/-- `hexToBytes`, which throws on anything else. -/
def hexToBytes (text : String) : Except String (List UInt8) :=
  match UserApi.hexDecode text.toList with
  | some bytes => .ok bytes
  | none => .error "hex string expected"

/-- `toLowerCase` of a string of digits. -/
def toLowerCase (text : String) : String := String.ofList (text.toList.map Char.toLower)

section Digits

theorem toLowerCase_of_toList {text : String} {list : List Char} (h : text.toList = list)
    (hlower : list.map Char.toLower = list) : toLowerCase text = text := by
  rw [toLowerCase, h, hlower, ← h, String.ofList_toList]

theorem toLower_hexValue {c : Char} {value : UInt8} (h : UserApi.hexValue c = some value) :
    c.toLower = value.toNat.digitChar ∧ value.toNat < 16 := by
  have hdigits : ∀ n : Fin 128, (UserApi.hexValue (Char.ofNat n)).all (fun value =>
      (Char.ofNat n).toLower = value.toNat.digitChar ∧ value.toNat < 16) = true := by
    decide +kernel
  have hascii : c.toNat < 128 := by
    unfold UserApi.hexValue at h
    split_ifs at h with hdigit hlower hupper
    · exact lt_of_le_of_lt (show c.toNat ≤ '9'.toNat from hdigit.2) (by decide)
    · exact lt_of_le_of_lt (show c.toNat ≤ 'f'.toNat from hlower.2) (by decide)
    · exact lt_of_le_of_lt (show c.toNat ≤ 'F'.toNat from hupper.2) (by decide)
  have hchar : Char.ofNat c.toNat = c := Char.ofNat_toNat c
  have hvalue := hdigits ⟨c.toNat, hascii⟩
  dsimp only at hvalue
  rw [hchar, h, Option.all_some, decide_eq_true_iff] at hvalue
  exact hvalue

/-- A string of digits decodes to half as many bytes. -/
theorem isHex_iff {count : ℕ} {text : String} :
    isHex (2 * count) text = true ↔ ∃ bytes, UserApi.hexDecode text.toList = some bytes ∧ bytes.length = count := by
  have hchars : ∀ chars : List Char, (chars.length = 2 * count ∧ ∀ c ∈ chars, (UserApi.hexValue c).isSome) ↔
      ∃ bytes, UserApi.hexDecode chars = some bytes ∧ bytes.length = count := by
    intro chars
    induction chars using UserApi.hexDecode.induct generalizing count with
    | case1 =>
      constructor
      · rintro ⟨hlength, -⟩
        rw [List.length_nil] at hlength
        exact ⟨[], rfl, by rw [List.length_nil]; omega⟩
      · rintro ⟨bytes, hbytes, hcount⟩
        cases hbytes
        rw [List.length_nil] at hcount
        exact ⟨by rw [List.length_nil]; omega, fun c hc => absurd hc List.not_mem_nil⟩
    | case2 c =>
      simp only [UserApi.hexDecode, List.length_singleton, reduceCtorEq, false_and, exists_false, iff_false]
      omega
    | case3 high low encoded ih =>
      simp only [UserApi.hexDecode, Option.bind_eq_bind, Option.bind_eq_some_iff, Option.pure_def, Option.some.injEq,
        List.length_cons, List.forall_mem_cons]
      constructor
      · rintro ⟨hlength, hhigh, hlow, hrest⟩
        obtain ⟨highValue, hhigh⟩ := Option.isSome_iff_exists.mp hhigh
        obtain ⟨lowValue, hlow⟩ := Option.isSome_iff_exists.mp hlow
        obtain ⟨bytes, hbytes, hcount⟩ := (@ih (count - 1)).mp ⟨by omega, hrest⟩
        refine ⟨_, ⟨highValue, hhigh, lowValue, hlow, bytes, hbytes, rfl⟩, ?_⟩
        rw [List.length_cons]
        omega
      · rintro ⟨bytes, ⟨highValue, hhigh, lowValue, hlow, rest, hrest, rfl⟩, hcount⟩
        rw [List.length_cons] at hcount
        obtain ⟨hlength, hall⟩ := (@ih (count - 1)).mpr ⟨rest, hrest, by omega⟩
        exact ⟨by omega, by rw [hhigh]; rfl, by rw [hlow]; rfl, hall⟩
  rw [← hchars, isHex, Bool.and_eq_true, decide_eq_true_iff, List.all_eq_true]

/-- In lower case a string of digits is the encoding of its bytes. -/
theorem toLowerCase_eq {text : String} {bytes : List UInt8} (h : UserApi.hexDecode text.toList = some bytes) :
    toLowerCase text = OperatorWrite.hexText bytes := by
  have hchars : ∀ (chars : List Char) (bytes : List UInt8), UserApi.hexDecode chars = some bytes →
      chars.map Char.toLower =
        bytes.flatMap fun byte => [(byte.toNat / 16).digitChar, (byte.toNat % 16).digitChar] := by
    intro chars
    induction chars using UserApi.hexDecode.induct with
    | case1 =>
      rintro bytes ⟨⟩
      rfl
    | case2 c =>
      rintro bytes ⟨⟩
    | case3 high low encoded ih =>
      intro bytes h
      simp only [UserApi.hexDecode, Option.bind_eq_bind, Option.bind_eq_some_iff, Option.pure_def, Option.some.injEq] at h
      obtain ⟨highValue, hhigh, lowValue, hlow, rest, hrest, rfl⟩ := h
      obtain ⟨hhighChar, hhighLt⟩ := toLower_hexValue hhigh
      obtain ⟨hlowChar, hlowLt⟩ := toLower_hexValue hlow
      have hbyte : (16 * highValue + lowValue).toNat = 16 * highValue.toNat + lowValue.toNat := by
        simp
        omega
      rw [List.map_cons, List.map_cons, ih rest hrest, hhighChar, hlowChar, List.flatMap_cons, hbyte]
      have hdiv : (16 * highValue.toNat + lowValue.toNat) / 16 = highValue.toNat := by omega
      have hmod : (16 * highValue.toNat + lowValue.toNat) % 16 = lowValue.toNat := by omega
      rw [hdiv, hmod]
      rfl
  unfold toLowerCase OperatorWrite.hexText
  rw [hchars _ _ h]

end Digits

end Sdk

end PriceOracle
