import HtmlTemplate.Markup.Parser
import HtmlTemplate.Template.Binding

/-!
# Compiling a tree

Every node of a template is compiled to the nodes that take its place: a text is interpolated, an
element keeps its place unless it is repeated, a comment stays, and a fragment is compiled inside.
A repeated element becomes one compiled copy for each item of an array, and the copies see nothing
but the item and its index. Nothing is left of it for undefined or null, and a comment for any other
value.
-/

namespace HtmlTemplate

/-- The data of a copy: the item and its index, under their aliases. -/
def Aliases.data (aliases : Aliases) (item : Value) (index : Nat) : Data :=
  Record.insert aliases.index (.number (Number.ofNat index))
    (Record.insert aliases.item item [])

/-- What a repetition leaves when its collection cannot be repeated over. -/
def placeholder (d : Directive) : Node := .comment (":" ++ d.name)

/-- The text that takes the place of a text node. Blank text stays as it is. -/
def compileText (data : Data) (s : String) : Except CompileError String :=
  if Text.isAllBlank s.toList then .ok s
  else (evaluate .text data (Interpolation.expressionOf s)).map textOf

mutual

/-- The nodes that take the place of a node. -/
def compileNode (options : Options) (data : Data) (n : Node) : Except CompileError (List Node) :=
  match n with
  | .comment s => .ok [.comment s]
  | .text s => (compileText data s).map fun t ↦ [.text t]
  | .fragment cs => (compileNodes options data cs).map fun ns ↦ [.fragment ns]
  | .element e =>
    match _h : bindElement options data e with
    | .error err => .error err
    | .ok (.stays e' true) =>
      (compileNodes options data e.children).map fun cs ↦ [.element { e' with children := cs }]
    | .ok (.stays e' false) => .ok [.element e']
    | .ok (.repeats template d aliases collection) =>
      match collection with
      | .array items =>
        (items.zipIdx.mapM fun (item, index) ↦
          compileNode options (aliases.data item index) (.element template)).map List.flatten
      | .undefined | .null => .ok []
      | _ => .ok [placeholder d]
termination_by 2 * n.weight
decreasing_by
  · simp only [Node.weight]
    omega
  · simp only [Node.weight, Element.weight_eq]
    omega
  · have := weight_of_repeats _h
    simp only [Node.weight]
    omega

/-- The nodes that take the place of a list of nodes. -/
def compileNodes (options : Options) (data : Data) (ns : List Node) :
    Except CompileError (List Node) :=
  match ns with
  | [] => .ok []
  | n :: ns => do
    let front ← compileNode options data n
    let behind ← compileNodes options data ns
    .ok (front ++ behind)
termination_by 2 * Node.weightAll ns + 1
decreasing_by
  · simp only [Node.weightAll]
    omega
  · have := n.weight_pos
    simp only [Node.weightAll]
    omega

end

/-- Does the root of a template stand for copies, because a repeating directive has priority? -/
def expandsRoot (options : Options) (root : Node) : Bool :=
  match root with
  | .element e =>
    match options.priorityOn? e with
    | some m => (Directive.ofName? m.name).any Directive.isRepeating
    | none => false
  | _ => false

/-- The node for the nodes that took the place of a root: the only one itself, unless the root
stands for copies, otherwise a fragment. -/
def joinRoot (expands : Bool) (ns : List Node) : Node :=
  match ns with
  | [n] => if expands then .fragment [n] else n
  | ns => .fragment ns

/-- The view of a template on data. -/
def compile (options : Options) (data : Data) (template : Node) : Except CompileError Node :=
  match template with
  | .fragment cs => (compileNodes options data cs).map .fragment
  | root => (compileNodes options data [root]).map (joinRoot (expandsRoot options root))

/-- The view of a markup text on data. -/
def compileMarkup (options : Options) (data : Data) (source : String) :
    Except CompileError Node :=
  compile options data (Markup.parse source)

end HtmlTemplate
