import HtmlTemplate.Expr.Basic

/-!
# Free names

The names that an expression reads from its data: every name in it that is not global. Names of
properties and keys of objects are not read, but a member that is a name alone is.
-/

namespace HtmlTemplate.Expr

/-- The names that never denote data. -/
def globals : List String := [
  "true", "false", "undefined", "null", "NaN", "Infinity", "isNaN", "typeof", "in", "decodeURI",
  "decodeURIComponent", "encodeURI", "encodeURIComponent", "unescape", "escape", "eval",
  "isFinite", "Number", "String", "parseFloat", "parseInt"]

/-- Does the name never denote data? -/
def isGlobal (name : String) : Bool := globals.contains name

mutual

/-- The names that occur in an expression, with their places. -/
def occurrences : Expr → List (String × Span)
  | literal _ => []
  | name text span => [(text, span)]
  | array items => occurrencesAll items
  | object members => occurrencesMembers members
  | member target _ => occurrences target
  | index target key => occurrences target ++ occurrences key
  | call callee arguments _ => occurrences callee ++ occurrencesAll arguments
  | unary _ operand => occurrences operand
  | binary _ left right | logical _ left right => occurrences left ++ occurrences right
  | conditional test consequent alternate =>
    occurrences test ++ occurrences consequent ++ occurrences alternate

def occurrencesAll : List Expr → List (String × Span)
  | [] => []
  | e :: es => occurrences e ++ occurrencesAll es

def occurrencesMembers : List ObjectMember → List (String × Span)
  | [] => []
  | .pair _ value :: ms => occurrences value ++ occurrencesMembers ms
  | .shorthand text span :: ms => (text, span) :: occurrencesMembers ms

end

/-- The free names of an expression, each once, in the order of their first occurrences. -/
def freeNames (e : Expr) : List String :=
  ((occurrences e).map (·.1)).eraseDups.filter fun name ↦ !isGlobal name

end HtmlTemplate.Expr
