import HtmlTemplate.Number.Layout
import HtmlTemplate.Number.Reading
import HtmlTemplate.Record

/-!
# Values

What expressions evaluate to: loosely typed values that convert to text and to numbers. Objects are
records; a function is one of the built-in ones, or a method together with the value it was read
from.
-/

namespace HtmlTemplate

/-- Functions that every expression can use by name. -/
inductive Builtin where
  | string | number | parseInt | parseFloat | isNaN | isFinite
  | encodeURI | encodeURIComponent | decodeURI | decodeURIComponent
  | escape | unescape | eval
deriving DecidableEq

namespace Builtin

/-- All built-in functions. -/
def all : List Builtin := [
  string, number, parseInt, parseFloat, isNaN, isFinite, encodeURI, encodeURIComponent, decodeURI,
  decodeURIComponent, escape, unescape, eval]

/-- The name of a built-in function. -/
def name : Builtin → String
  | string => "String"
  | number => "Number"
  | parseInt => "parseInt"
  | parseFloat => "parseFloat"
  | isNaN => "isNaN"
  | isFinite => "isFinite"
  | encodeURI => "encodeURI"
  | encodeURIComponent => "encodeURIComponent"
  | decodeURI => "decodeURI"
  | decodeURIComponent => "decodeURIComponent"
  | escape => "escape"
  | unescape => "unescape"
  | eval => "eval"

/-- The built-in function of a name. -/
def ofName? (s : String) : Option Builtin := all.find? fun f ↦ f.name == s

theorem ofName?_name (f : Builtin) : ofName? f.name = some f := by cases f <;> decide

end Builtin

/-- Methods of strings, arrays, numbers and the other values that have any. -/
inductive Method where
  | split | join | toUpperCase | toLowerCase | trim | indexOf | includes | slice | concat
  | charAt | startsWith | endsWith | replace | toString | toFixed
deriving DecidableEq

namespace Method

/-- All methods. -/
def all : List Method := [
  split, join, toUpperCase, toLowerCase, trim, indexOf, includes, slice, concat, charAt,
  startsWith, endsWith, replace, toString, toFixed]

/-- The name of a method. -/
def name : Method → String
  | split => "split"
  | join => "join"
  | toUpperCase => "toUpperCase"
  | toLowerCase => "toLowerCase"
  | trim => "trim"
  | indexOf => "indexOf"
  | includes => "includes"
  | slice => "slice"
  | concat => "concat"
  | charAt => "charAt"
  | startsWith => "startsWith"
  | endsWith => "endsWith"
  | replace => "replace"
  | toString => "toString"
  | toFixed => "toFixed"

/-- The method of a name. -/
def ofName? (s : String) : Option Method := all.find? fun m ↦ m.name == s

theorem ofName?_name (m : Method) : ofName? m.name = some m := by cases m <;> decide

end Method

mutual

/-- A value. -/
inductive Value where
  | undefined
  | null
  | bool (value : Bool)
  | number (value : Float)
  | string (value : String)
  | array (items : List Value)
  | object (members : List (String × Value))
  | function (f : Callable)

/-- A function. -/
inductive Callable where
  | builtin (f : Builtin)
  | method (receiver : Value) (m : Method)

end

instance : Inhabited Value := ⟨.undefined⟩

def Callable.name : Callable → String
  | builtin f => f.name
  | method _ m => m.name

namespace Value

/-- Is the value undefined or null? -/
def isNullish : Value → Bool
  | undefined | null => true
  | _ => false

/-- Does the value count as true? -/
def isTruthy : Value → Bool
  | undefined | null => false
  | bool b => b
  | number x => !(x == 0) && !x.isNaN
  | string s => !s.isEmpty
  | array _ | object _ | function _ => true

/-- The name of the value's type. -/
def typeName : Value → String
  | undefined => "undefined"
  | null | array _ | object _ => "object"
  | bool _ => "boolean"
  | number _ => "number"
  | string _ => "string"
  | function _ => "function"

def isString : Value → Bool
  | string _ => true
  | _ => false

/-- The text of a function. -/
def functionText (f : Callable) : String :=
  "function " ++ f.name ++ "() \x7b [native code] \x7d"

mutual

/-- The text of a value. -/
def toText : Value → String
  | undefined => "undefined"
  | null => "null"
  | bool b => if b then "true" else "false"
  | number x => Number.text x
  | string s => s
  | array items => ",".intercalate (itemTexts items)
  | object _ => "[object Object]"
  | function f => functionText f

/-- The texts of array items when they are joined: undefined and null are empty. -/
def itemTexts : List Value → List String
  | [] => []
  | undefined :: items => "" :: itemTexts items
  | null :: items => "" :: itemTexts items
  | item :: items => item.toText :: itemTexts items

end

/-- The texts of array items with a separator between them. -/
def joinItems (separator : String) (items : List Value) : String :=
  separator.intercalate (itemTexts items)

/-- The number of a value. -/
def toNumber : Value → Float
  | undefined => Number.nan
  | null => 0
  | bool b => if b then 1 else 0
  | number x => x
  | string s => Number.ofText s
  | array items => Number.ofText (toText (array items))
  | object _ | function _ => Number.nan

end Value

/-- The named values that expressions read. -/
abbrev Data := Record Value

/-- The value under a name; an absent one is undefined. -/
def Data.lookup (data : Data) (key : String) : Value := (Record.get? data key).getD .undefined

end HtmlTemplate
