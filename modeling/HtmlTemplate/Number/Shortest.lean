import HtmlTemplate.Number.Decimal

/-!
# The shortest decimal of a double

A double stands for every real number that rounds to it: an interval around its value, whose ends
belong to it when its mantissa is even. Its shortest decimal is the nearest point in the interval
of the coarsest grid `10 ^ g` that has a point there; a tie goes away from zero.

If a grid has a point in the interval, then one of the two grid points next to the value is in it.
All quantities are compared after multiplication by one common positive number, so the search is
exact.
-/

namespace HtmlTemplate.Number

/-- A positive double with the interval that rounds to it, in units of a common scale. -/
structure Rounding where
  low : Nat
  value : Nat
  high : Nat
  /-- Do the ends of the interval belong to it? -/
  closed : Bool

/-- Four times the mantissa and the ends of its interval. The lower neighbour of a power of two is
half as far away as the upper one. -/
def Rounding.ofMantissa (mantissa : Nat) (exponent : Int) : Rounding where
  low := if mantissa = twoPow 52 ∧ -1074 < exponent then 4 * mantissa - 1 else 4 * mantissa - 2
  value := 4 * mantissa
  high := 4 * mantissa + 2
  closed := mantissa % 2 == 0

/-- All three multiplied by one factor. -/
def Rounding.scale (r : Rounding) (k : Nat) : Rounding :=
  { r with low := r.low * k, value := r.value * k, high := r.high * k }

/-- Does the interval hold the number? -/
def Rounding.holds (r : Rounding) (x : Nat) : Bool :=
  if r.closed then r.low ≤ x && x ≤ r.high else r.low < x && x < r.high

/-- The multiple of `step` that is nearest to the value, among the two next to it that lie in the
interval, as a count of steps. -/
def Rounding.gridPoint (r : Rounding) (step : Nat) : Option Nat :=
  let below := r.value / step
  let above := below + 1
  match r.holds (below * step), r.holds (above * step) with
  | false, false => none
  | true, false => some below
  | false, true => some above
  | true, true =>
    if r.value - below * step < above * step - r.value then some below else some above

/-- The grid point of `10 ^ g` for the double `mantissa · 2 ^ exponent`. -/
def gridPoint (mantissa : Nat) (exponent g : Int) : Option Nat :=
  ((Rounding.ofMantissa mantissa exponent).scale
    (twoPow (exponent - 2).toNat * tenPow (-g).toNat)).gridPoint
    (tenPow g.toNat * twoPow (2 - exponent).toNat)

/-- Tries the grids `10 ^ g`, `10 ^ (g - 1)`, … in turn. -/
def searchGrids (mantissa : Nat) (exponent : Int) : Nat → Int → Decimal
  | 0, g => ⟨(gridPoint mantissa exponent g).getD 0, g⟩
  | n + 1, g =>
    match gridPoint mantissa exponent g with
    | some k => ⟨k, g⟩
    | none => searchGrids mantissa exponent n (g - 1)

/-- An exponent `g` with `mantissa · 2 ^ exponent < 10 ^ g`, too large by two at most. -/
def gridAbove (mantissa : Nat) (exponent : Int) : Int :=
  (mantissa.log2 + 1 + exponent) * 30103 / 100000 + 1

/-- The shortest decimal that rounds to the double `mantissa · 2 ^ exponent`, for a positive
mantissa. Seventeen digits always suffice. -/
def shortest (mantissa : Nat) (exponent : Int) : Decimal :=
  searchGrids mantissa exponent 20 (gridAbove mantissa exponent)

end HtmlTemplate.Number
