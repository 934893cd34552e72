import HtmlTemplate.Text.Ascii

/-!
# Document trees

A document is a tree of elements, texts, comments and fragments. A fragment is a list of nodes that
stands for its children wherever it is put.
-/

namespace HtmlTemplate

/-- An attribute of an element. -/
structure Attribute where
  name : String
  value : String
deriving DecidableEq

mutual

/-- A node of a document. -/
inductive Node where
  | element (e : Element)
  | text (content : String)
  | comment (content : String)
  | fragment (children : List Node)

/-- An element: a tag, attributes in the order of the document, and children. -/
structure Element where
  tag : String
  attributes : List Attribute
  children : List Node

end

/-- Does an element of the tag never have children or an end tag? -/
def isVoidTag (tag : String) : Bool :=
  ["area", "base", "br", "col", "embed", "hr", "img", "input", "link", "meta", "param", "source",
    "track", "wbr"].contains (Text.lowered tag)

/-- Is the content of an element of the tag plain text, with no markup in it? -/
def isRawTextTag (tag : String) : Bool := tag == "script" || tag == "style"

namespace Node

/-- The kinds of nodes. -/
inductive Kind where
  | element | text | comment | fragment
deriving DecidableEq

/-- The kind of a node. -/
def kind : Node → Kind
  | .element _ => .element
  | .text _ => .text
  | .comment _ => .comment
  | .fragment _ => .fragment

/-- The children of a node; texts and comments have none. -/
def children : Node → List Node
  | .element e => e.children
  | .fragment cs => cs
  | .text _ | .comment _ => []

def canHaveChildren : Node → Bool
  | .element _ | .fragment _ => true
  | .text _ | .comment _ => false

/-- The node with other children, if it can have any. -/
def withChildren (n : Node) (cs : List Node) : Node :=
  match n with
  | .element e => .element { e with children := cs }
  | .fragment _ => .fragment cs
  | .text s => .text s
  | .comment s => .comment s

/-- The nodes that a node stands for where it is put. -/
def toList : Node → List Node
  | .fragment cs => cs
  | n => [n]

/-- The node with a further child at the end. -/
def append (n child : Node) : Node := n.withChildren (n.children ++ child.toList)

/-- Puts the nodes that `replacement` stands for in the place of one child. -/
def replaceAt (cs : List Node) (i : Nat) (replacement : Node) : List Node :=
  cs.take i ++ replacement.toList ++ cs.drop (i + 1)

mutual

/-- The text inside a node, comments left out. -/
def innerText : Node → String
  | .element e => elementText e
  | .text s => s
  | .comment _ => ""
  | .fragment cs => innerTextAll cs

/-- The text inside an element. -/
def elementText : Element → String
  | ⟨_, _, cs⟩ => innerTextAll cs

/-- The text inside a list of nodes. -/
def innerTextAll : List Node → String
  | [] => ""
  | n :: ns => innerText n ++ innerTextAll ns

end

/-- The text of a node; that of a comment counts when it is the node itself. -/
def textContent : Node → String
  | .comment s => s
  | n => n.innerText

/-- The children that hold a text: one text node, or none for the empty text. -/
def textChildren (s : String) : List Node := if s.isEmpty then [] else [.text s]

/-- The node with another text; elements and fragments lose their children. -/
def setTextContent (n : Node) (s : String) : Node :=
  match n with
  | .text _ => .text s
  | .comment _ => .comment s
  | n => n.withChildren (textChildren s)

mutual

def beq : Node → Node → Bool
  | .element e, .element f => elementBeq e f
  | .text s, .text t => s == t
  | .comment s, .comment t => s == t
  | .fragment cs, .fragment ds => beqAll cs ds
  | _, _ => false

def elementBeq : Element → Element → Bool
  | ⟨t, as, cs⟩, ⟨u, bs, ds⟩ => t == u && as == bs && beqAll cs ds

def beqAll : List Node → List Node → Bool
  | [], [] => true
  | n :: ns, m :: ms => beq n m && beqAll ns ms
  | _, _ => false

end

instance : BEq Node := ⟨beq⟩

end Node

namespace Element

def ofTag (tag : String) : Element := ⟨tag, [], []⟩

def isVoid (e : Element) : Bool := isVoidTag e.tag

/-- The element with a further child at the end. -/
def append (e : Element) (child : Node) : Element :=
  { e with children := e.children ++ child.toList }

end Element

end HtmlTemplate
