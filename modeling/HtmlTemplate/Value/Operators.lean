import HtmlTemplate.Value.Basic

/-!
# Addition and order

Addition joins texts as soon as one side is a string, an array, an object or a function. Two
strings are ordered by their characters, all other pairs as numbers; a NaN has no order.
-/

namespace HtmlTemplate.Value

/-- Does addition treat the value as text? -/
def isTextLike : Value → Bool
  | string _ | array _ | object _ | function _ => true
  | _ => false

def add (a b : Value) : Value :=
  if a.isTextLike || b.isTextLike then string (a.toText ++ b.toText)
  else number (a.toNumber + b.toNumber)

/-- The order of two doubles, if neither is a NaN. -/
def compareNumbers (x y : Float) : Option Ordering :=
  if x < y then some .lt
  else if y < x then some .gt
  else if x == y then some .eq
  else none

/-- The order of two values, if they have one. -/
def compare? (a b : Value) : Option Ordering :=
  match a, b with
  | string s, string t => some (compare s t)
  | _, _ => compareNumbers a.toNumber b.toNumber

end HtmlTemplate.Value
