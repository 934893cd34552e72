import HtmlTemplate.Markup.Attribute
import HtmlTemplate.Text.Blank
import HtmlTemplate.Text.Search

/-!
# Inline styles

The `style` attribute holds declarations between semicolons, each a property and a value around the
first colon. Names of properties are compared without regard to ASCII case. Setting a property
writes all declarations again, each as `name: value;`.
-/

namespace HtmlTemplate

/-- A property with its value. -/
structure Declaration where
  property : String
  value : String
deriving DecidableEq

namespace Style

/-- The declaration of a part between semicolons, if it has a colon and a name. -/
def declaration? (part : List Char) : Option Declaration :=
  match Text.cutAtChar (· == ':') part with
  | none => none
  | some (name, value) =>
    let name := Text.trim name
    if name.isEmpty then none
    else some ⟨String.ofList name, String.ofList (Text.trim value)⟩

/-- The declarations of a style text. -/
def parse (style : String) : List Declaration :=
  (Text.pieces [';'] (by simp) style.toList).filterMap declaration?

def declarationText (d : Declaration) : String := d.property ++ ": " ++ d.value ++ ";"

/-- The style text of declarations. -/
def text (ds : List Declaration) : String := " ".intercalate (ds.map declarationText)

/-- The value of a property. -/
def get? (ds : List Declaration) (property : String) : Option String :=
  (ds.find? fun d ↦ Text.sameAsciiLetters d.property property).map (·.value)

/-- Sets the value of a property; its declaration keeps its place and its spelling. -/
def set (property value : String) : List Declaration → List Declaration
  | [] => [⟨property, value⟩]
  | d :: ds =>
    if Text.sameAsciiLetters d.property property then { d with value := value } :: ds
    else d :: set property value ds

end Style

namespace Element

/-- The value of a style property. -/
def styleProperty? (e : Element) (property : String) : Option String :=
  (e.attribute? "style").bind fun style ↦ Style.get? (Style.parse style) property

/-- The element with a value for a style property. -/
def setStyleProperty (e : Element) (property value : String) : Element :=
  let ds := ((e.attribute? "style").map Style.parse).getD []
  e.setAttribute "style" (Style.text (Style.set property value ds))

end Element

end HtmlTemplate
