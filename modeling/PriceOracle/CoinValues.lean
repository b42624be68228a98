import Mathlib.Algebra.Order.Field.Basic
import Mathlib.Data.Rat.Defs
import Mathlib.Tactic

/-!
# Coin values

`parse_coin_value` of `external_api/fee_utxo.rs`: the satoshis of an amount as the node writes it, read off the
text of the JSON number. A number denotes a rational; the text is read digit by digit.
-/

namespace PriceOracle

namespace CoinValue

section Texts

def digitChar (digit : Fin 10) : Char := Char.ofNat (48 + digit)

structure ExponentText where
  uppercase : Bool
  /-- `true` is a minus. -/
  sign : Option Bool
  digits : List (Fin 10)
  digits_ne : digits ≠ []

/-- The JSON numbers, with an empty fraction where the text has none. -/
structure NumberText where
  minus : Bool
  whole : List (Fin 10)
  fraction : List (Fin 10)
  exponent : Option ExponentText
  whole_ne : whole ≠ []
  no_leading_zero : whole.length = 1 ∨ whole.head? ≠ some 0

def ExponentText.text (exponent : ExponentText) : List Char :=
  (match exponent.sign with
    | none => []
    | some true => ['-']
    | some false => ['+']) ++ exponent.digits.map digitChar

def NumberText.mantissa (number : NumberText) : List Char :=
  (if number.minus then ['-'] else []) ++ (number.whole.map digitChar ++
    if number.fraction = [] then [] else '.' :: number.fraction.map digitChar)

def NumberText.text (number : NumberText) : List Char :=
  match number.exponent with
  | none => number.mantissa
  | some exponent => number.mantissa ++ (if exponent.uppercase then 'E' else 'e') :: exponent.text

def digitsValue (digits : List (Fin 10)) : ℕ := digits.foldl (fun value digit => value * 10 + digit.val) 0

def ExponentText.value (exponent : ExponentText) : ℤ :=
  if exponent.sign = some true then -(digitsValue exponent.digits : ℤ) else digitsValue exponent.digits

def NumberText.scale (number : NumberText) : ℤ := number.exponent.elim 0 ExponentText.value

/-- What the text denotes. -/
def NumberText.value (number : NumberText) : ℚ :=
  (if number.minus then -1 else 1) * digitsValue (number.whole ++ number.fraction) *
    10 ^ (number.scale - number.fraction.length)

end Texts

section Library

/-- `str::split_once` -/
def splitOnce (pattern : Char → Bool) : List Char → Option (List Char × List Char)
  | [] => none
  | c :: text =>
    if pattern c then some ([], text) else (splitOnce pattern text).map fun (before, after) => (c :: before, after)

end Library

section Parsing

end Parsing

section Digits

variable {digits more : List (Fin 10)}

end Digits

section Splitting

variable (number : NumberText)

end Splitting

section Spec

end Spec

section Scaling

variable {digits satoshis : ℕ} {scale : ℤ}

end Scaling

section Exactness

variable {number : NumberText} {satoshis : ℕ}

end Exactness

end CoinValue

end PriceOracle
