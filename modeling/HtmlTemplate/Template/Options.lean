import HtmlTemplate.Text.Blank

/-!
# Options

What marks an attribute as a directive, and which directives take an element over before any other
attribute is looked at.
-/

namespace HtmlTemplate

/-- How directives are recognised. -/
structure Options where
  /-- What the name of a directive's attribute begins with. -/
  bindSymbol : String := ":"
  /-- The directives that come first, highest first. -/
  priority : List String := ["forin", "each"]
deriving DecidableEq

namespace Options

def attributeOf (options : Options) (directive : String) : String :=
  options.bindSymbol ++ directive

/-- The directive that the name of an attribute gives, if it carries the mark. An empty mark marks
nothing. -/
def directiveOf? (options : Options) (name : String) : Option String :=
  let mark := options.bindSymbol.toList
  if mark.isEmpty || !mark.isPrefixOf name.toList then none
  else some (String.ofList (name.toList.drop mark.length))

end Options

end HtmlTemplate
