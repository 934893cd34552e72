/-!
# UTF-16 code units

A character of the basic plane is one unit; any other is a pair of surrogates. Reading units back
joins each high surrogate with the low one behind it and puts the replacement character for a
surrogate that stands alone.
-/

namespace HtmlTemplate.Text

/-- The units of one character. -/
def unitsOf (c : Char) : List Nat :=
  let n := c.toNat
  if n < 0x10000 then [n]
  else [0xd800 + (n - 0x10000) / 0x400, 0xdc00 + (n - 0x10000) % 0x400]

/-- The units of a text. -/
def units (s : List Char) : List Nat := s.flatMap unitsOf

/-- Is the unit the first of a pair? -/
def isHighSurrogate (u : Nat) : Bool := 0xd800 ≤ u && u ≤ 0xdbff

/-- Is the unit the second of a pair? -/
def isLowSurrogate (u : Nat) : Bool := 0xdc00 ≤ u && u ≤ 0xdfff

/-- The character of a pair of surrogates. -/
def joinSurrogates (high low : Nat) : Char :=
  Char.ofNat (0x10000 + (high - 0xd800) * 0x400 + (low - 0xdc00))

/-- The text of a list of units. -/
def ofUnits : List Nat → List Char
  | [] => []
  | [u] => [if isHighSurrogate u || isLowSurrogate u then '\ufffd' else Char.ofNat u]
  | u :: v :: us =>
    if isHighSurrogate u then
      if isLowSurrogate v then joinSurrogates u v :: ofUnits us else '\ufffd' :: ofUnits (v :: us)
    else (if isLowSurrogate u then '\ufffd' else Char.ofNat u) :: ofUnits (v :: us)

end HtmlTemplate.Text
