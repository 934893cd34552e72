import HtmlTemplate.Markup.Entity
import HtmlTemplate.Markup.Node
import HtmlTemplate.Text.Blank

/-!
# Writing trees as markup

The compact form writes a tree with nothing between its parts; the text inside an element with raw
content is not escaped. The indented form has a line for each element that holds more than text, and
drops blank text and the blanks around text.
-/

namespace HtmlTemplate

namespace Attribute

/-- An attribute of a start tag, with the space before it. -/
def chars (a : Attribute) : List Char :=
  ' ' :: (a.name.toList ++ '=' :: '"' :: (Entity.escapeAttribute a.value.toList ++ ['"']))

end Attribute

namespace Node

/-- The start tag of an element. -/
def startTag (tag : String) (attributes : List Attribute) : List Char :=
  '<' :: (tag.toList ++ attributes.flatMap Attribute.chars ++ ['>'])

def endTag (tag : String) : List Char := '<' :: '/' :: (tag.toList ++ ['>'])

def commentChars (s : String) : List Char :=
  "<!--".toList ++ s.toList ++ "-->".toList

/-! ## The compact form -/

mutual

/-- A node as markup; `raw` leaves its own text as it is. -/
def chars (raw : Bool) : Node → List Char
  | .element e => elementChars e
  | .text s => if raw then s.toList else Entity.escapeText s.toList
  | .comment s => commentChars s
  | .fragment cs => charsAll raw cs

/-- An element as markup. -/
def elementChars : Element → List Char
  | ⟨tag, attributes, cs⟩ =>
    startTag tag attributes ++
      (if isVoidTag tag then [] else charsAll (isRawTextTag tag) cs ++ endTag tag)

/-- Nodes as markup, one after another. -/
def charsAll (raw : Bool) : List Node → List Char
  | [] => []
  | n :: ns => chars raw n ++ charsAll raw ns

end

theorem charsAll_append (raw : Bool) (ns ms : List Node) :
    charsAll raw (ns ++ ms) = charsAll raw ns ++ charsAll raw ms := by
  induction ns with
  | nil => rw [List.nil_append, charsAll, List.nil_append]
  | cons n ns ih => rw [List.cons_append, charsAll, charsAll, ih, List.append_assoc]

def toHtml (n : Node) : String := String.ofList (n.chars false)

/-! ## The indented form -/

/-- Two spaces for each level. -/
def indent (depth : Nat) : List Char := List.replicate (2 * depth) ' '

/-- A line at a depth. -/
def line (depth : Nat) (s : List Char) : List Char := indent depth ++ s ++ ['\n']

/-- Is the node a text? -/
def isText : Node → Bool
  | .text _ => true
  | _ => false

mutual

/-- A node as indented lines. -/
def prettyChars (depth : Nat) : Node → List Char
  | .element e => prettyElement depth e
  | .text s =>
    let t := Text.trim s.toList
    if t.isEmpty then [] else line depth (Entity.escapeText t)
  | .comment s => line depth (commentChars s)
  | .fragment cs => prettyAll depth cs

/-- An element as indented lines: one line if it holds text only. -/
def prettyElement (depth : Nat) : Element → List Char
  | ⟨tag, attributes, cs⟩ =>
    if isVoidTag tag || cs.all isText then line depth (elementChars ⟨tag, attributes, cs⟩)
    else
      line depth (startTag tag attributes) ++ prettyAll (depth + 1) cs ++ line depth (endTag tag)

/-- Nodes as indented lines. -/
def prettyAll (depth : Nat) : List Node → List Char
  | [] => []
  | n :: ns => prettyChars depth n ++ prettyAll depth ns

end

/-- A node as indented markup. -/
def toPrettyHtml (n : Node) : String := String.ofList (n.prettyChars 0)

/-- A node as markup, compact or indented. -/
def render (pretty : Bool) (n : Node) : String := if pretty then n.toPrettyHtml else n.toHtml

end Node

end HtmlTemplate
