import HtmlTemplate.Number.Exact

/-!
# Decimal numbers

A decimal `significand · 10 ^ exponent`, the grammar of its written form, and the double nearest to
it. The written form is digits with an optional point, or a point and digits, and then an exponent;
an exponent that has no digits is not part of the number.
-/

namespace HtmlTemplate.Number

/-- The value of a digit in bases up to 36. -/
def digitValue (c : Char) : Nat :=
  if c.isDigit then c.toNat - '0'.toNat
  else if c.isLower then c.toNat - 'a'.toNat + 10
  else if c.isUpper then c.toNat - 'A'.toNat + 10
  else 36

/-- Is the character a digit of the base? -/
def isDigitOf (base : Nat) (c : Char) : Bool := digitValue c < base

/-- Is the character a hexadecimal digit? -/
def isHexDigit (c : Char) : Bool := isDigitOf 16 c

/-- The number written by a list of digits. -/
def ofDigits (base : Nat) (ds : List Char) : Nat :=
  ds.foldl (fun n c ↦ n * base + digitValue c) 0

/-- The decimal `significand · 10 ^ exponent`. -/
structure Decimal where
  significand : Nat
  exponent : Int
deriving DecidableEq

namespace Decimal

/-- The double nearest to a decimal. -/
def toFloat (d : Decimal) : Float :=
  match d.exponent with
  | .ofNat e => Float.ofScientific d.significand false e
  | .negSucc e => Float.ofScientific d.significand true (e + 1)

/-- Splits off the digits in front. -/
def scanDigits (s : List Char) : List Char × List Char :=
  (s.takeWhile Char.isDigit, s.dropWhile Char.isDigit)

/-- Reads an optional sign: is it a minus, and what follows. -/
def scanSign : List Char → Bool × List Char
  | '-' :: s => (true, s)
  | '+' :: s => (false, s)
  | s => (false, s)

/-- Reads an exponent if a whole one is there. -/
def scanExponent (s : List Char) : Int × List Char :=
  match s with
  | [] => (0, [])
  | c :: r =>
    if c = 'e' ∨ c = 'E' then
      let (negative, t) := scanSign r
      let (digits, rest) := scanDigits t
      if digits.isEmpty then (0, s)
      else
        let n : Int := ofDigits 10 digits
        (if negative then -n else n, rest)
    else (0, s)

/-- Reads the digits behind a point, if a point is there. -/
def scanFraction : List Char → List Char × List Char
  | '.' :: s => scanDigits s
  | s => ([], s)

/-- Reads the longest decimal in front, and gives what follows it. -/
def scan (s : List Char) : Option (Decimal × List Char) :=
  let (whole, afterWhole) := scanDigits s
  let (fraction, afterFraction) := scanFraction afterWhole
  if whole.isEmpty && fraction.isEmpty then none
  else
    let (exponent, rest) := scanExponent afterFraction
    some (⟨ofDigits 10 (whole ++ fraction), exponent - fraction.length⟩, rest)

/-! ## How much is read -/

theorem length_scanDigits (s : List Char) :
    (scanDigits s).1.length + (scanDigits s).2.length = s.length := by
  rw [scanDigits, ← List.length_append, List.takeWhile_append_dropWhile]

private theorem length_scanSign (s : List Char) : (scanSign s).2.length ≤ s.length := by
  unfold scanSign
  split <;> simp

theorem length_scanFraction (s : List Char) :
    (scanFraction s).1.length + (scanFraction s).2.length ≤ s.length := by
  unfold scanFraction
  split
  · rename_i t
    have := length_scanDigits t
    simp only [List.length_cons]
    omega
  · simp

theorem length_scanExponent (s : List Char) : (scanExponent s).2.length ≤ s.length := by
  unfold scanExponent
  split
  · simp
  · rename_i c r
    have := length_scanSign r
    have := length_scanDigits (scanSign r).2
    split
    · dsimp only
      split
      · simp
      · simp only [List.length_cons]
        omega
    · simp

/-- A decimal has a digit, so it takes a character at least. -/
theorem length_of_scan {s rest : List Char} {d : Decimal} (h : scan s = some (d, rest)) :
    rest.length < s.length := by
  simp only [scan] at h
  split at h
  · simp at h
  · rename_i hne
    simp only [Option.some.injEq, Prod.mk.injEq] at h
    have h1 := length_scanDigits s
    have h2 := length_scanFraction (scanDigits s).2
    have h3 := length_scanExponent (scanFraction (scanDigits s).2).2
    have hw : 0 < (scanDigits s).1.length ∨ 0 < (scanFraction (scanDigits s).2).1.length := by
      simp only [Bool.and_eq_true, List.isEmpty_iff, not_and] at hne
      rw [List.length_pos_iff, List.length_pos_iff]
      exact Decidable.or_iff_not_imp_left.mpr fun hw ↦ hne (Decidable.not_not.mp hw)
    rw [← h.2]
    omega

end Decimal

end HtmlTemplate.Number
