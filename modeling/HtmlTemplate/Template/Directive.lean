import HtmlTemplate.Text.Blank
import HtmlTemplate.Text.Search

/-!
# Directives

The directives of a template, and how the two repeating ones name their loop variables. An `each`
has fixed names; a `forin` may put a name, or a pair of names in parentheses, before the word `in`.
-/

namespace HtmlTemplate

/-- The directives. -/
inductive Directive where
  | display | text | attr | each | forin
deriving DecidableEq

namespace Directive

/-- All directives. -/
def all : List Directive := [display, text, attr, each, forin]

/-- The name of a directive. -/
def name : Directive → String
  | display => "show"
  | text => "text"
  | attr => "attribute"
  | each => "each"
  | forin => "forin"

/-- The directive of a name. -/
def ofName? (s : String) : Option Directive := all.find? fun d ↦ d.name == s

/-- Does the directive put copies in the place of its element? -/
def isRepeating : Directive → Bool
  | each | forin => true
  | display | text | attr => false

theorem ofName?_name (d : Directive) : ofName? d.name = some d := by cases d <;> decide

end Directive

/-- The names of the loop variables of a repeating directive, and its collection. -/
structure Aliases where
  item : String := "item"
  index : String := "index"
  collection : String
deriving DecidableEq

namespace Aliases

/-- The aliases of an `each`: its whole expression is the collection. -/
def ofEach (expression : String) : Aliases where
  collection := Text.trimmed expression

/-- The word between the names and the collection. -/
def inWord : List Char := [' ', 'i', 'n', ' ']

/-- The first group in parentheses that is not empty: from the first opening one to the next
closing one behind the first character of the group. -/
def group? (s : List Char) : Option (List Char) :=
  match Text.cutAtChar (· == '(') s with
  | some (_, c :: t) => (Text.cutAtChar (· == ')') t).map fun (more, _) ↦ c :: more
  | _ => none

/-- The name before the first comma, and the one behind it up to the next. -/
def namesOf (group : List Char) : List Char × List Char :=
  match Text.cutAtChar (· == ',') group with
  | none => (group, [])
  | some (first, rest) =>
    match Text.cutAtChar (· == ',') rest with
    | none => (first, rest)
    | some (second, _) => (first, second)

/-- The aliases of a `forin`. The collection stands behind the first ` in ` and before the next. -/
def ofForin (expression : String) : Aliases :=
  match Text.cutAt inWord expression.toList with
  | none => ofEach expression
  | some (left, right) =>
    let collection :=
      match Text.cutAt inWord right with
      | none => right
      | some (between, _) => between
    let collection := String.ofList (Text.trim collection)
    match group? left with
    | none => { item := String.ofList (Text.trim left), collection }
    | some group =>
      let (item, index) := namesOf group
      let index := Text.trim index
      { item := String.ofList (Text.trim item)
        index := if index.isEmpty then "index" else String.ofList index
        collection }

/-- The aliases of a repeating directive. -/
def ofDirective (d : Directive) (expression : String) : Aliases :=
  match d with
  | .forin => ofForin expression
  | _ => ofEach expression

end Aliases

end HtmlTemplate
