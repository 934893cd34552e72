import HtmlTemplate.Number.Shortest

/-!
# The text of a number

A number is written with its shortest digits: positionally while its point stands between six
zeros after it and the twenty-first digit, otherwise with an exponent that always has a sign. Zero
has no sign. Messages about numbers in the source of an expression use the positional form only.
-/

namespace HtmlTemplate.Number

/-- The decimal digits of a natural number. -/
def decimalDigits (n : Nat) : List Char := Nat.toDigits 10 n

/-- A run of zeros. -/
def zeros (n : Nat) : List Char := List.replicate n '0'

namespace Decimal

/-- Where the point stands, counted from before the first digit. -/
def point (d : Decimal) : Int := (decimalDigits d.significand).length + d.exponent

/-- All digits written out, with zeros up to the point. -/
def positional (d : Decimal) : List Char :=
  let digits := decimalDigits d.significand
  match d.exponent with
  | .ofNat e => digits ++ zeros e
  | .negSucc _ =>
    match d.point with
    | .ofNat 0 => '0' :: '.' :: digits
    | .ofNat p => digits.take p ++ '.' :: digits.drop p
    | .negSucc z => '0' :: '.' :: (zeros (z + 1) ++ digits)

/-- One digit before the point, and the exponent with its sign. -/
def scientific (d : Decimal) : List Char :=
  let digits := decimalDigits d.significand
  let mantissa :=
    match digits with
    | [] => []
    | [c] => [c]
    | c :: cs => c :: '.' :: cs
  let e := d.point - 1
  mantissa ++ 'e' :: (if 0 ≤ e then '+' else '-') :: decimalDigits e.natAbs

/-- The written form of a positive decimal. -/
def text (d : Decimal) : List Char :=
  if -6 < d.point ∧ d.point ≤ 21 then d.positional else d.scientific

end Decimal

/-- A minus if the number is negative. -/
def signText (negative : Bool) : List Char := if negative then ['-'] else []

/-- The text of a number, as characters. -/
def chars (x : Float) : List Char :=
  match exact x with
  | .nan => ['N', 'a', 'N']
  | .infinite negative => signText negative ++ ['I', 'n', 'f', 'i', 'n', 'i', 't', 'y']
  | .finite negative m e =>
    if m = 0 then ['0'] else signText negative ++ (shortest m e).text

/-- The text of a number. -/
def text (x : Float) : String := String.ofList (chars x)

/-- The text of a number in messages: never with an exponent. -/
def plainText (x : Float) : String :=
  String.ofList <|
    match exact x with
    | .nan => ['N', 'a', 'N']
    | .infinite negative => signText negative ++ ['i', 'n', 'f']
    | .finite negative m e =>
      signText negative ++ (if m = 0 then ['0'] else (shortest m e).positional)

end HtmlTemplate.Number
