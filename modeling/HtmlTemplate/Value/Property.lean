import HtmlTemplate.Value.Basic
import HtmlTemplate.Value.Error

/-!
# Properties

Strings and arrays have a length and items under index keys; a string is indexed by characters.
What is no item, member or length may be a method, which stays bound to the value it was read from.
-/

namespace HtmlTemplate

/-- Keys from this bound on are no indices. -/
def indexBound : Nat := 0x10000000000000000

/-- The index that a key denotes: digits without a leading zero. -/
def arrayIndex? (key : String) : Option Nat :=
  let cs := key.toList
  if cs.isEmpty || (1 < cs.length && cs.head? == some '0') || !cs.all Char.isDigit then none
  else
    let n := Number.ofDigits 10 cs
    if n < indexBound then some n else none

/-- Has a value of this kind the method? -/
def Method.isOf (m : Method) : Value → Bool
  | .string _ => m != .join && m != .toFixed
  | .array _ => m ∈ [.join, .indexOf, .includes, .slice, .concat, .toString]
  | .number _ => m ∈ [.toFixed, .toString]
  | .bool _ | .object _ => m == .toString
  | .undefined | .null | .function _ => false

/-- The method of a name on a value. -/
def Method.lookup (receiver : Value) (name : String) : Option Method :=
  (Method.ofName? name).filter (·.isOf receiver)

namespace Value

/-- The method of a name, bound to the value. -/
def boundMethod (v : Value) (key : String) : Value :=
  match Method.lookup v key with
  | some m => function (.method v m)
  | none => undefined

/-- The property of a name. -/
def getProperty (v : Value) (key : String) : Except EvalError Value :=
  match v with
  | undefined | null => .error (.propertyOfNullish v.toText key)
  | string s =>
    if key = "length" then .ok (number (Number.ofNat s.length))
    else
      match arrayIndex? key with
      | some i =>
        match s.toList[i]? with
        | some c => .ok (string (String.singleton c))
        | none => .ok undefined
      | none => .ok (v.boundMethod key)
  | array items =>
    if key = "length" then .ok (number (Number.ofNat items.length))
    else
      match arrayIndex? key with
      | some i => .ok (items[i]?.getD undefined)
      | none => .ok (v.boundMethod key)
  | object members =>
    match Record.get? members key with
    | some value => .ok value
    | none => .ok (v.boundMethod key)
  | bool _ | number _ => .ok (v.boundMethod key)
  | function f => .ok (if key = "name" then string f.name else undefined)

/-- Is there a member of the name? Only arrays and objects can be asked. -/
def hasProperty (v : Value) (key : String) : Except EvalError Bool :=
  match v with
  | object members => .ok (Record.contains members key)
  | array items => .ok (key == "length" || (arrayIndex? key).any (· < items.length))
  | _ => .error (.inWithoutMembers key v.toText)

end Value

end HtmlTemplate
