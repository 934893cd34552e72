import HtmlTemplate.Number.Decimal

/-!
# Integers in other bases

Digits of a natural number in a base from 2 to 36: `0` to `9`, then `a` to `z`.
-/

namespace HtmlTemplate.Number

/-- The digit of a value below 36. -/
def digitChar (n : Nat) : Char :=
  if n < 10 then Char.ofNat ('0'.toNat + n) else Char.ofNat ('a'.toNat + (n - 10))

/-- The digits of `n`, least first; one digit at least. -/
def digitsFromLeast (base n : Nat) (two_le : 2 ≤ base) : List Char :=
  if n < base then [digitChar n]
  else digitChar (n % base) :: digitsFromLeast base (n / base) two_le
termination_by n
decreasing_by exact Nat.div_lt_self (by omega) two_le

def radixDigits (base n : Nat) (two_le : 2 ≤ base) : List Char :=
  (digitsFromLeast base n two_le).reverse

end HtmlTemplate.Number
