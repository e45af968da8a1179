import Rustack.Lib.Outcome
import Rustack.DynamoDB.AttributeValue
import Rustack.DynamoDB.Expression.Lexer

/-!
# Arithmetic of updates

Sums and differences of number strings.  The digits are aligned as text, added
as 128-bit integers and written out again in the shortest of three notations.
Exponents are 64-bit and wrap; a shift that comes out negative asks for an
impossible string and panics.
-/

namespace Rustack.DynamoDB

/-- A sign, digits without zeros at either end, and the power of ten of the last digit. -/
structure ParsedNumber where
  negative : Bool
  digits : List Char
  exponent : ℤ
  deriving DecidableEq

def overflowMessage : String :=
  "Number overflow. Attempting to store a number with magnitude larger than supported range"

def underflowMessage : String :=
  "Number underflow. Attempting to store a number with magnitude smaller than supported range"

def parseNumberComponents (s : String) : Except ExpressionError ParsedNumber := do
  let (negative, rest) := stripSign (trim s.toList)
  let (mantissa, exponentPart) := splitAtFirst isExponentMark rest
  let explicitExp : ℤ ← match exponentPart with
    | some text =>
      match parseI64 text with
      | some exp => .ok exp
      | none => .error (.typeMismatch "invalid number format")
    | none => .ok 0
  let (integerPart, fracPart) := splitAtFirst (· = '.') mantissa
  let fracLen := (fracPart.getD []).length
  let trimmedDigits := (integerPart ++ fracPart.getD []).dropWhile (· = '0')
  if trimmedDigits.isEmpty then .ok { negative := false, digits := ['0'], exponent := 0 }
  else
    let finalDigits := trimmedDigits.rdropWhile (· = '0')
    let trailingZeros := trimmedDigits.length - finalDigits.length
    .ok {
      negative
      digits := finalDigits
      exponent := wrapI64 (wrapI64 (explicitExp - fracLen) + trailingZeros) }

/-- `"0".repeat(n)` for a shift computed in `i64` arithmetic. -/
def repeatZero (n : ℤ) : Outcome ExpressionError (List Char) :=
  if n < 0 then .panic else .ok (List.replicate n.toNat '0')

def signText (negative : Bool) : String := if negative then "-" else ""

def formatParsedNumber (p : ParsedNumber) : String :=
  if p.digits = ['0'] then "0"
  else
    let totalIntegerDigits := wrapI64 (p.digits.length + p.exponent)
    let sciExp := wrapI64 (totalIntegerDigits - 1)
    if 0 ≤ p.exponent ∧ totalIntegerDigits ≤ 20 then
      signText p.negative ++ String.ofList (p.digits ++ List.replicate p.exponent.toNat '0')
    else if 0 < totalIntegerDigits ∧ totalIntegerDigits ≤ 20 then
      signText p.negative ++ String.ofList (p.digits.take totalIntegerDigits.toNat) ++ "." ++
        String.ofList (p.digits.drop totalIntegerDigits.toNat)
    else if -6 ≤ totalIntegerDigits ∧ totalIntegerDigits ≤ 0 then
      signText p.negative ++ "0." ++
        String.ofList (List.replicate (-totalIntegerDigits).toNat '0' ++ p.digits)
    else if p.digits.length = 1 then
      signText p.negative ++ String.ofList p.digits ++ "E" ++ toString sciExp
    else
      signText p.negative ++ String.ofList (p.digits.take 1) ++ "." ++
        String.ofList (p.digits.drop 1) ++ "E" ++ toString sciExp

def parseDigits (digits : List Char) : Except ExpressionError ℤ :=
  match parseI128 digits with
  | some value => .ok value
  | none => .error (.typeMismatch "number too large for arithmetic")

/-- Write out a sum of integers times a power of ten, within the precision and the range. -/
def formatSum (result minExp : ℤ) : Except ExpressionError String :=
  let resultStr := (toString result.natAbs).toList
  let trimmed := resultStr.rdropWhile (· = '0')
  let finalExp := wrapI64 (minExp + (resultStr.length - trimmed.length : ℕ))
  let magnitude := wrapI64 (finalExp + trimmed.length - 1)
  if trimmed.isEmpty then .ok "0"
  else if 38 < trimmed.length then .error (.validation overflowMessage)
  else if 125 < magnitude then .error (.validation overflowMessage)
  else if magnitude < -130 then .error (.validation underflowMessage)
  else .ok (formatParsedNumber
    { negative := decide (result < 0), digits := trimmed, exponent := finalExp })

def preciseArithmetic (a b : String) (isAdd : Bool) : Outcome ExpressionError String := do
  let pa ← (parseNumberComponents a : Except _ _)
  let parsedB ← (parseNumberComponents b : Except _ _)
  let pb : ParsedNumber :=
    { parsedB with negative := if isAdd then parsedB.negative else !parsedB.negative }
  if pa.digits = ['0'] then pure (formatParsedNumber pb)
  else if pb.digits = ['0'] then pure (formatParsedNumber pa)
  else
    let minExp := min pa.exponent pb.exponent
    let aZeros ← repeatZero (wrapI64 (pa.exponent - minExp))
    let bZeros ← repeatZero (wrapI64 (pb.exponent - minExp))
    let aDigits := pa.digits ++ aZeros
    let bDigits := pb.digits ++ bZeros
    if 38 + 2 < max aDigits.length bDigits.length then throw (.validation overflowMessage)
    else
      let aVal ← (parseDigits aDigits : Except _ _)
      let bVal ← (parseDigits bDigits : Except _ _)
      let aSigned := if pa.negative then -aVal else aVal
      let bSigned := if pb.negative then -bVal else bVal
      (formatSum ((aSigned + bSigned).bmod (2 ^ 128)) minExp : Except _ _)

def numericArithmetic (a b : AttributeValue) (isAdd : Bool) :
    Outcome ExpressionError AttributeValue :=
  match a, b with
  | .n na, .n nb => do
    let result ← preciseArithmetic na nb isAdd
    pure (.n result)
  | _, _ => throw (.typeMismatch "arithmetic requires number operands")

end Rustack.DynamoDB
