import HtmlTemplate.Markup.Event

/-!
# From events to a tree

A list of nodes is read from the events behind the start tag of an element, knowing which elements
are open. It ends at an end tag that belongs to an open element, or at a start tag that the
innermost open element does not admit inside itself; otherwise, at the end of the events. The end
tag of the innermost open element is taken, anything else is left for the elements around. Texts
that follow one another are one text.
-/

namespace HtmlTemplate.Markup

/-- Does a start tag close the innermost open element? -/
def closesImplicitly (current next : String) : Bool :=
  match current with
  | "li" => next == "li"
  | "p" =>
    ["p", "div", "ul", "ol", "table", "h1", "h2", "h3", "h4", "h5", "h6", "section", "article",
      "header", "footer", "pre", "blockquote"].contains next
  | "option" => ["option", "optgroup"].contains next
  | "dt" | "dd" => ["dt", "dd"].contains next
  | "tr" => next == "tr"
  | "td" | "th" => ["td", "th", "tr"].contains next
  | _ => false

/-- The nodes behind a text, which joins a text that follows it. -/
def consText (s : String) : List Node → List Node
  | .text t :: ns => .text (s ++ t) :: ns
  | ns => .text s :: ns

/-- Nodes read from events, and the events behind them, at most `bound`. -/
structure Built (bound : Nat) where
  nodes : List Node
  rest : List Event
  length_le : rest.length ≤ bound

/-- The nodes in front of a list of events, inside open elements given innermost first. -/
def build (openTags : List String) (es : List Event) : Built es.length :=
  match es with
  | [] => ⟨[], [], by simp⟩
  | .endTag tag :: es =>
    if openTags.head? = some tag then ⟨[], es, by simp⟩
    -- the tag closes an element farther out, so it is left for that
    else if tag ∈ openTags then ⟨[], .endTag tag :: es, by simp⟩
    else
      let ⟨nodes, rest, h⟩ := build openTags es
      ⟨nodes, rest, by simp only [List.length_cons]; omega⟩
  | .text s :: es =>
    let ⟨nodes, rest, h⟩ := build openTags es
    ⟨consText s nodes, rest, by simp only [List.length_cons]; omega⟩
  | .comment s :: es =>
    let ⟨nodes, rest, h⟩ := build openTags es
    ⟨.comment s :: nodes, rest, by simp only [List.length_cons]; omega⟩
  | .declaration :: es =>
    let ⟨nodes, rest, h⟩ := build openTags es
    ⟨nodes, rest, by simp only [List.length_cons]; omega⟩
  | .startTag tag attributes form :: es =>
    -- a tag that ends the innermost element is read again behind it
    if openTags.head?.any (closesImplicitly · tag) then
      ⟨[], .startTag tag attributes form :: es, by simp⟩
    else
      match form with
      | .empty =>
        let ⟨nodes, rest, h⟩ := build openTags es
        ⟨.element ⟨tag, attributes, []⟩ :: nodes, rest, by simp only [List.length_cons]; omega⟩
      | .raw content =>
        let ⟨nodes, rest, h⟩ := build openTags es
        ⟨.element ⟨tag, attributes, Node.textChildren content⟩ :: nodes, rest,
          by simp only [List.length_cons]; omega⟩
      | .opens =>
        let ⟨children, es', h'⟩ := build (tag :: openTags) es
        let ⟨nodes, rest, h⟩ := build openTags es'
        ⟨.element ⟨tag, attributes, children⟩ :: nodes, rest,
          by simp only [List.length_cons]; omega⟩
termination_by es.length

/-- The nodes of a markup text. -/
def parseNodes (source : List Char) : List Node := (build [] (events source)).nodes

/-- The document of a markup text: a fragment of its nodes. -/
def parse (source : String) : Node := .fragment (parseNodes source.toList)

end HtmlTemplate.Markup
