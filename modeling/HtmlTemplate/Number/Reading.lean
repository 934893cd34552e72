import HtmlTemplate.Number.Decimal
import HtmlTemplate.Text.Blank

/-!
# Reading numbers from text

Three readers. `ofText` takes a whole text, blanks at its ends apart: nothing is zero, hexadecimal
has no sign before it, and what is no number reads as not a number. `floatInFront` takes the longest
decimal in front, `integerInFront` the digits of a base in front.
-/

namespace HtmlTemplate.Number

/-- Hexadecimal numbers have to stay below this bound. -/
def hexBound : Nat := 0x10000000000000000

/-- Drops `0x` or `0X`. -/
def dropHexMark : List Char → Option (List Char)
  | '0' :: 'x' :: s | '0' :: 'X' :: s => some s
  | _ => none

/-- Drops one plus. -/
def dropPlus : List Char → List Char
  | '+' :: s => s
  | s => s

/-- The word for infinity. -/
def infinityWord : List Char := ['I', 'n', 'f', 'i', 'n', 'i', 't', 'y']

/-- A number with the given sign. -/
def withSign (negative : Bool) (x : Float) : Float := if negative then -x else x

/-- The value of hexadecimal digits, which may follow one plus. -/
def ofHex (s : List Char) : Float :=
  let digits := dropPlus s
  if digits.isEmpty || !digits.all isHexDigit then nan
  else
    let n := ofDigits 16 digits
    if n < hexBound then ofNat n else nan

/-- The value of a whole text without blanks at its ends. -/
def ofTrimmed (s : List Char) : Float :=
  if s.isEmpty then 0
  else
    let (negative, unsigned) := Decimal.scanSign s
    if unsigned = infinityWord then withSign negative infinity
    else
      match dropHexMark unsigned with
      | some hex => if unsigned.length < s.length then nan else ofHex hex
      | none =>
        match Decimal.scan unsigned with
        | some (d, []) => withSign negative d.toFloat
        | _ => nan

/-- The value of a whole text. -/
def ofText (s : String) : Float := ofTrimmed (Text.trim s.toList)

/-- The value of the longest decimal in front. -/
def floatInFront (s : String) : Float :=
  let (negative, t) := Decimal.scanSign (Text.trimStart s.toList)
  if infinityWord.isPrefixOf t then withSign negative infinity
  else
    match Decimal.scan t with
    | some (d, _) => withSign negative d.toFloat
    | none => nan

/-- The value of a list of digits, added up in floating point. -/
def sumDigits (base : Nat) (ds : List Char) : Float :=
  ds.foldl (fun x c ↦ x * ofNat base + ofNat (digitValue c)) 0

/-- The value of the digits in front. Base 0 stands for a base that the text chooses: 16 after
`0x`, otherwise 10; base 16 may have that mark too. -/
def integerInFront (s : String) (base : Int) : Float :=
  let (negative, t) := Decimal.scanSign (Text.trimStart s.toList)
  if base ≠ 0 ∧ ¬(2 ≤ base ∧ base ≤ 36) then nan
  else
    let (base, t) : Nat × List Char :=
      match if base = 0 ∨ base = 16 then dropHexMark t else none with
      | some hex => (16, hex)
      | none => (if base = 0 then 10 else base.toNat, t)
    let digits := t.takeWhile (isDigitOf base)
    if digits.isEmpty then nan else withSign negative (sumDigits base digits)

end HtmlTemplate.Number
