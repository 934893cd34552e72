/-!
# Sets of characters as tables of ranges

A property of characters that a standard gives by enumeration is held as a list of closed ranges
of scalar values. Membership is a walk over the list, so it unfolds in proofs like any other list
function.
-/

namespace HtmlTemplate.Text

/-- Closed ranges of scalar values. -/
abbrev Ranges := List (Nat × Nat)

/-- Is the character in one of the ranges? -/
def Ranges.has (table : Ranges) (c : Char) : Bool :=
  table.any fun r ↦ r.1 ≤ c.toNat && c.toNat ≤ r.2

end HtmlTemplate.Text
