/-!
# Scalar values

The numbers that are characters: every code point that is no surrogate.
-/

namespace HtmlTemplate.Text

/-- The character of a number, if it is a scalar value. -/
def charOf? (n : Nat) : Option Char := if n.isValidChar then some (Char.ofNat n) else none

theorem charOf?_toNat (c : Char) : charOf? c.toNat = some c := by
  have h : c.toNat.isValidChar := c.valid
  simp [charOf?, h, Char.ofNat_toNat]

end HtmlTemplate.Text
