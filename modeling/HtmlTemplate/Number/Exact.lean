/-!
# The exact value of a double

Everything that a number's text depends on is decided on exact values: a double is taken apart into
`± mantissa · 2 ^ exponent`, the decision is made in integer arithmetic, and a value that has to
become a double again is rounded once, to the nearest, ties to even.
-/

namespace HtmlTemplate.Number

open Float.Model (UnpackedFloat)
open Float.Model.UnpackedFloat (Sign)

/-- What a double stands for. -/
inductive Exact where
  | nan
  | infinite (negative : Bool)
  /-- The value `± mantissa · 2 ^ exponent`; a zero has a zero mantissa and a sign. -/
  | finite (negative : Bool) (mantissa : Nat) (exponent : Int)
deriving DecidableEq

/-- Is the sign a minus? -/
def isMinus : Sign → Bool
  | .negative => true
  | .positive => false

/-- The sign with or without a minus. -/
def signOf (negative : Bool) : Sign := if negative then .negative else .positive

/-- The exact value of a double. -/
def exact (x : Float) : Exact :=
  match x.toModel.unpack with
  | .notANumber => .nan
  | .infinity s => .infinite (isMinus s)
  | .zero s => .finite (isMinus s) 0 0
  | .finite s m e _ => .finite (isMinus s) m e

/-- The double nearest to `± mantissa · 2 ^ exponent`. -/
def nearest (negative : Bool) (mantissa : Nat) (exponent : Int) : Float :=
  .ofModel (Float.Model.pack
    (if mantissa = 0 then .zero (signOf negative)
      else UnpackedFloat.round .binary64 (signOf negative) mantissa exponent))

/-- The double nearest to a natural number. -/
def ofNat (n : Nat) : Float := nearest false n 0

def nan : Float := .ofModel (Float.Model.pack .notANumber)

def infinity : Float := .ofModel (Float.Model.pack (.infinity .positive))

/-- Does a minus stand before the number's exact value? A negative zero has one. -/
def isNegative (x : Float) : Bool :=
  match exact x with
  | .nan => false
  | .infinite negative => negative
  | .finite negative _ _ => negative

/-- The number without its sign. -/
def abs (x : Float) : Float := if isNegative x then -x else x

/-! ## Integer parts -/

def twoPow (n : Nat) : Nat := Nat.pow 2 n

def tenPow (n : Nat) : Nat := Nat.pow 10 n

/-- The integer part of `mantissa · 2 ^ exponent`. -/
def integerPart (mantissa : Nat) (exponent : Int) : Nat :=
  match exponent with
  | .ofNat e => mantissa * twoPow e
  | .negSucc e => mantissa / twoPow (e + 1)

/-- Is `mantissa · 2 ^ exponent` an integer? -/
def isIntegral (mantissa : Nat) (exponent : Int) : Bool :=
  match exponent with
  | .ofNat _ => true
  | .negSucc e => mantissa % twoPow (e + 1) == 0

/-- The number cut toward zero and kept between `low` and `high`; not a number counts as zero. -/
def clampTrunc (low high : Int) (x : Float) : Int :=
  match exact x with
  | .nan => max low (min high 0)
  | .infinite negative => if negative then low else high
  | .finite negative m e =>
    let n : Int := integerPart m e
    max low (min high (if negative then -n else n))

theorem clampTrunc_le {low high : Int} (h : low ≤ high) (x : Float) :
    clampTrunc low high x ≤ high := by
  unfold clampTrunc
  split
  · omega
  · split <;> omega
  · dsimp only
    split <;> omega

/-! ## Remainder -/

/-- The remainder of a division cut toward zero: exact, and of the dividend's sign. -/
def remainder (x y : Float) : Float :=
  match exact x, exact y with
  | .nan, _ | _, .nan | .infinite _, _ => nan
  | .finite .., .infinite _ => x
  | .finite sx mx ex, .finite _ my ey =>
    if my = 0 then nan
    else
      let e := min ex ey
      nearest sx (mx * twoPow (ex - e).toNat % (my * twoPow (ey - e).toNat)) e

end HtmlTemplate.Number
