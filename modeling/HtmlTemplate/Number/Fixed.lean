import HtmlTemplate.Number.Layout

/-!
# Fixed-point text

A number with a given count of fraction digits. The exact value is rounded to that grid, ties to
even. Before that, a number that lies half-way after scaling in floating point is moved up to the
next grid point, so that a visible half goes away from zero. Numbers from `10 ^ 21` on are written
as they are without a count.
-/

namespace HtmlTemplate.Number

/-- The quotient rounded to the nearest integer, ties to even. -/
def divNearestEven (n d : Nat) : Nat :=
  let q := n / d
  let r := n % d
  if 2 * r < d then q
  else if d < 2 * r then q + 1
  else q + q % 2

/-- The value `mantissa · 2 ^ exponent · 10 ^ digits`, rounded. -/
def scaledNearest (mantissa : Nat) (exponent : Int) (digits : Nat) : Nat :=
  divNearestEven (mantissa * twoPow exponent.toNat * tenPow digits) (twoPow (-exponent).toNat)

/-- The natural number `n` with a point before its last `digits` digits. -/
def withPoint (n digits : Nat) : List Char :=
  let ds := decimalDigits n
  let padded := zeros (digits + 1 - ds.length) ++ ds
  if digits = 0 then padded
  else padded.take (padded.length - digits) ++ '.' :: padded.drop (padded.length - digits)

/-- A power of ten by repeated squaring in floating point. -/
def powerOfTen (n : Nat) : Float := go 8 n 10 1
where
  /-- Multiplies `result` by `base ^ n`, for an `n` of at most `fuel` binary digits. -/
  go : Nat → Nat → Float → Float → Float
    | 0, _, _, result => result
    | fuel + 1, n, base, result =>
      let result := if n % 2 = 1 then result * base else result
      if n / 2 = 0 then result else go fuel (n / 2) (base * base) result

/-- The size of a number moved up to the next grid point when it lies half-way after scaling. -/
def moveHalfUp (size : Float) (digits : Nat) : Float :=
  let scale := powerOfTen digits
  let scaled := size * scale
  match exact scaled with
  | .finite _ m (.negSucc e) =>
    if m % twoPow (e + 1) = twoPow e ∧ scaled < 9007199254740992 then
      (ofNat (m / twoPow (e + 1)) + 1) / scale
    else size
  | _ => size

/-- The text with `digits` fraction digits, as characters. -/
def fixedChars (x : Float) (digits : Nat) : List Char :=
  let size := abs x
  if size < 1e21 then
    match exact (moveHalfUp size digits) with
    | .finite _ m e => signText (x < 0) ++ withPoint (scaledNearest m e digits) digits
    | _ => chars x
  else chars x

/-- The text with `digits` fraction digits. -/
def fixedText (x : Float) (digits : Nat) : String := String.ofList (fixedChars x digits)

end HtmlTemplate.Number
