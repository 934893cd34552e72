import HtmlTemplate.Value.Basic

/-!
# Equality of values

Strict equality compares arrays and objects by their contents, objects without regard to order.
Numbers compare as doubles do, so a value that holds a NaN anywhere differs from itself. Loose
equality first converts booleans to numbers, and arrays and objects to text when they meet a number
or a string.
-/

namespace HtmlTemplate.Value

mutual

def strictEq : Value → Value → Bool
  | undefined, undefined => true
  | null, null => true
  | bool a, bool b => a == b
  | number x, number y => x == y
  | string s, string t => s == t
  | array xs, array ys => itemsEq xs ys
  | object ms, object ns => ms.length == ns.length && membersEq ms ns
  | function f, function g => callableEq f g
  | _, _ => false

/-- Are the items pairwise equal? -/
def itemsEq : List Value → List Value → Bool
  | [], [] => true
  | x :: xs, y :: ys => strictEq x y && itemsEq xs ys
  | _, _ => false

/-- Is each member equal to the one of its name in the other object? -/
def membersEq : List (String × Value) → List (String × Value) → Bool
  | [], _ => true
  | (key, x) :: ms, ns =>
    (match Record.get? ns key with
      | some y => strictEq x y
      | none => false) && membersEq ms ns

/-- Equality of functions: the same built-in one, or the same method of equal values. -/
def callableEq : Callable → Callable → Bool
  | .builtin f, .builtin g => f == g
  | .method x m, .method y n => strictEq x y && m == n
  | _, _ => false

end

/-- A boolean as a number, any other value as it is. -/
def unbool : Value → Value
  | bool b => number (if b then 1 else 0)
  | v => v

/-- Loose equality of values that are neither nullish nor boolean. -/
def looseEqCoerced (a b : Value) : Bool :=
  match a, b with
  | number x, string t => x == Number.ofText t
  | string s, number y => Number.ofText s == y
  | array _, number y | object _, number y => Number.ofText a.toText == y
  | array _, string t | object _, string t => a.toText == t
  | number x, array _ | number x, object _ => x == Number.ofText b.toText
  | string s, array _ | string s, object _ => s == b.toText
  | _, _ => strictEq a b

def looseEq (a b : Value) : Bool :=
  if a.isNullish || b.isNullish then a.isNullish && b.isNullish
  else looseEqCoerced a.unbool b.unbool

/-- Strict equality, except that a NaN equals a NaN. -/
def sameValueZero (a b : Value) : Bool :=
  match a, b with
  | number x, number y => (x.isNaN && y.isNaN) || x == y
  | _, _ => strictEq a b

end HtmlTemplate.Value
