import HtmlTemplate.Proofs.Markup.Canonical

/-!
# The stack of open elements

Building nodes from events can be done without recursion: the elements that are open are kept on a
stack, innermost first, each with the nodes that stand before it in the list around it, and every
event changes the stack and the innermost list. An end tag takes elements off the stack, and so does
a start tag that the innermost elements do not admit.

## The invariant

`build` reads a list of nodes up to where it ends and leaves the other events to the lists around,
without saying why it ended: an end tag may have been taken, or an event may be left that an element
further out has to look at again. To the stack this is all the same. When the inner list has been
read, its element can be closed, and the events that are left have the effect that they would have
had with the element open (`nodes_run`).

## Texts at the seam

The stack adds a node behind those that are there, and building puts it in front of those to come.
Where texts meet they are joined, in the one case from the left and in the other from the right.
`joinNodes` is the list of both, and as joining texts is associative it does not matter where a list
is cut (`joinNodes_consText`).
-/

namespace HtmlTemplate.Markup

/-! ## Nodes behind one another -/

def appendText (ns : List Node) (s : String) : List Node :=
  match ns.getLast? with
  | some (.text t) => ns.dropLast ++ [.text (t ++ s)]
  | _ => ns ++ [.text s]

/-- Puts nodes behind nodes, where a text in front joins a text at the end. -/
def joinNodes (ms : List Node) : List Node → List Node
  | .text s :: ns => appendText ms s ++ ns
  | ns => ms ++ ns

theorem joinNodes_nil (ms : List Node) : joinNodes ms [] = ms := List.append_nil ms

theorem joinNodes_cons {n : Node} (ms ns : List Node) (hn : n.isText = false) :
    joinNodes ms (n :: ns) = joinNodes (ms ++ [n]) ns := by
  have hleft : joinNodes ms (n :: ns) = ms ++ n :: ns := by
    cases n with
    | text s => exact absurd hn.symm Bool.false_ne_true
    | _ => rfl
  have hlast : (ms ++ [n]).getLast? = some n := by simp
  rw [hleft, joinNodes.eq_def]
  split
  · rename_i s ns
    rw [appendText, hlast]
    split
    · rename_i t ht
      obtain rfl := Option.some.inj ht
      exact absurd hn.symm Bool.false_ne_true
    · simp
  · simp

theorem nil_joinNodes (ns : List Node) : joinNodes [] ns = ns := by
  rw [joinNodes.eq_def]
  split <;> rfl

/-- Texts that follow one another are joined in any order. -/
theorem joinNodes_consText (ms : List Node) (s : String) (ns : List Node) :
    joinNodes ms (consText s ns) = joinNodes (appendText ms s) ns := by
  obtain ⟨front, t, hfront, hnext⟩ : ∃ front t, appendText ms s = front ++ [.text t] ∧
      ∀ u, appendText ms (s ++ u) = front ++ [.text (t ++ u)] := by
    unfold appendText
    split
    · rename_i t _
      exact ⟨ms.dropLast, t ++ s, rfl, fun u ↦ by rw [String.append_assoc]⟩
    · exact ⟨ms, s, rfl, fun _ ↦ rfl⟩
  have hagain (u : String) : appendText (appendText ms s) u = appendText ms (s ++ u) := by
    rw [hfront, hnext, appendText, List.getLast?_append, List.getLast?_singleton, Option.some_or]
    dsimp only
    rw [List.dropLast_concat]
  unfold consText
  split
  · rename_i t ns
    rw [joinNodes, joinNodes, hagain]
  · rename_i hno
    have hright : joinNodes (appendText ms s) ns = appendText ms s ++ ns := by
      rw [joinNodes.eq_def]
      split
      · rename_i t ns
        exact absurd rfl (hno t ns)
      · rfl
    rw [joinNodes, hright]

/-! ## The stack -/

/-- An element that is open: its start tag, and the nodes before it in the list around it. -/
structure OpenElement where
  tag : String
  attributes : List Attribute
  before : List Node

def OpenElement.close (e : OpenElement) (children : List Node) : List Node :=
  e.before ++ [.element ⟨e.tag, e.attributes, children⟩]

/-- The nodes of the innermost list so far, and the open elements around it, innermost first. -/
structure OpenElements where
  current : List Node
  stack : List OpenElement

namespace OpenElements

/-- The tags of the open elements, innermost first. -/
def tags (o : OpenElements) : List String := o.stack.map OpenElement.tag

def close (o : OpenElements) : OpenElements :=
  match o.stack with
  | [] => o
  | e :: around => ⟨e.close o.current, around⟩

/-- Closes innermost elements as long as a start tag closes them. -/
def closeImplicit (next : String) (ns : List Node) : List OpenElement → OpenElements
  | [] => ⟨ns, []⟩
  | e :: around =>
    if closesImplicitly e.tag next then closeImplicit next (e.close ns) around
    else ⟨ns, e :: around⟩

/-- Closes innermost elements up to the first of a tag, and this one. -/
def closeThrough (tag : String) (ns : List Node) : List OpenElement → OpenElements
  | [] => ⟨ns, []⟩
  | e :: around =>
    if e.tag = tag then ⟨e.close ns, around⟩ else closeThrough tag (e.close ns) around

def closeAll (ns : List Node) : List OpenElement → List Node
  | [] => ns
  | e :: around => closeAll (e.close ns) around

/-- What an event does. A start tag closes what does not admit it, and then adds its element, which
is left open if it can have children. An end tag that belongs to no open element does nothing. -/
def step (o : OpenElements) : Event → OpenElements
  | .text s => ⟨appendText o.current s, o.stack⟩
  | .comment s => ⟨o.current ++ [.comment s], o.stack⟩
  | .declaration => o
  | .endTag tag => if tag ∈ o.tags then closeThrough tag o.current o.stack else o
  | .startTag tag attributes form =>
    let o := closeImplicit tag o.current o.stack
    match form with
    | .opens => ⟨[], ⟨tag, attributes, o.current⟩ :: o.stack⟩
    | .empty => ⟨o.current ++ [.element ⟨tag, attributes, []⟩], o.stack⟩
    | .raw content =>
      ⟨o.current ++ [.element ⟨tag, attributes, Node.textChildren content⟩], o.stack⟩

/-- The nodes that the events lead to, when all that is open at the end is closed. -/
def nodes (o : OpenElements) (es : List Event) : List Node :=
  let o := es.foldl step o
  closeAll o.current o.stack

end OpenElements

/-- The tree of a list of events: they are folded over the stack, with nothing open at first. -/
def treeOf (es : List Event) : Node := .fragment (OpenElements.nodes ⟨[], []⟩ es)

/-! ## Building by the stack -/

namespace OpenElements

variable {ns : List Node} {stack : List OpenElement} {es : List Event}

theorem nodes_cons (o : OpenElements) (e : Event) (es : List Event) :
    o.nodes (e :: es) = (o.step e).nodes es := rfl

theorem nodes_close_nil (o : OpenElements) : o.close.nodes [] = o.nodes [] := by
  obtain ⟨ns, _ | ⟨e, around⟩⟩ := o <;> rfl

theorem closeImplicit_of_admits {tag : String}
    (h : ¬(stack.map OpenElement.tag).head?.any (closesImplicitly · tag) = true) :
    closeImplicit tag ns stack = ⟨ns, stack⟩ := by
  rcases stack with _ | ⟨e, around⟩
  · rfl
  · have he : ¬closesImplicitly e.tag tag = true := h
    rw [closeImplicit, if_neg he]

theorem step_close_startTag {tag : String} {as : List Attribute} {form : TagForm}
    (h : (stack.map OpenElement.tag).head?.any (closesImplicitly · tag) = true) :
    (close ⟨ns, stack⟩).step (.startTag tag as form) =
      step ⟨ns, stack⟩ (.startTag tag as form) := by
  rcases stack with _ | ⟨e, around⟩
  · exact absurd h Bool.false_ne_true
  · have he : closesImplicitly e.tag tag = true := h
    have hclose : closeImplicit tag ns (e :: around) = closeImplicit tag (e.close ns) around := by
      rw [closeImplicit, if_pos he]
    simp only [step, close, hclose]

theorem step_endTag {tag : String} (h : (stack.map OpenElement.tag).head? = some tag) :
    step ⟨ns, stack⟩ (.endTag tag) = close ⟨ns, stack⟩ := by
  rcases stack with _ | ⟨e, around⟩
  · cases h
  · obtain rfl : e.tag = tag := Option.some.inj h
    have hmem : e.tag ∈ tags ⟨ns, e :: around⟩ := List.mem_cons_self
    rw [step, if_pos hmem, closeThrough, if_pos rfl, close]

/-- The end tag of an element further out does the same when the innermost is closed already. -/
theorem step_close_endTag {tag : String} (hne : ¬(stack.map OpenElement.tag).head? = some tag)
    (hmem : tag ∈ stack.map OpenElement.tag) :
    (close ⟨ns, stack⟩).step (.endTag tag) = step ⟨ns, stack⟩ (.endTag tag) := by
  rcases stack with _ | ⟨e, around⟩
  · exact absurd hmem List.not_mem_nil
  · have hne : ¬e.tag = tag := fun he ↦ hne (congrArg some he)
    have haround : tag ∈ tags (close ⟨ns, e :: around⟩) :=
      (List.mem_cons.mp hmem).resolve_left fun he ↦ hne he.symm
    have hopen : tag ∈ tags ⟨ns, e :: around⟩ := hmem
    rw [step, step, if_pos haround, if_pos hopen, closeThrough, if_neg hne, close]

end OpenElements

open OpenElements

/-- **The stack does what building does.** After the nodes that are built in the innermost list, its
element may be closed, and the events that building leaves have the same effect as before. -/
theorem nodes_run (ns : List Node) (stack : List OpenElement) (es : List Event) :
    OpenElements.nodes ⟨ns, stack⟩ es =
      (close ⟨joinNodes ns (build (stack.map OpenElement.tag) es).nodes, stack⟩).nodes
        (build (stack.map OpenElement.tag) es).rest := by
  generalize htags : stack.map OpenElement.tag = openTags
  fun_induction build openTags es generalizing ns stack with
  | case1 => rw [joinNodes_nil, nodes_close_nil]
  | case2 openTags tag es h =>
    subst htags
    rw [nodes_cons, step_endTag h, joinNodes_nil]
  | case3 openTags tag es hne hmem =>
    subst htags
    rw [joinNodes_nil, nodes_cons, nodes_cons, step_close_endTag hne hmem]
  | case4 openTags tag es _ hmem nodes rest _ hbuild ih =>
    subst htags
    have hstep : step ⟨ns, stack⟩ (.endTag tag) = ⟨ns, stack⟩ := if_neg hmem
    rw [nodes_cons, hstep, ih ns stack rfl, hbuild]
  | case5 openTags s es nodes rest _ hbuild ih =>
    subst htags
    rw [nodes_cons, step, ih _ stack rfl, hbuild, joinNodes_consText]
  | case6 openTags s es nodes rest _ hbuild ih =>
    subst htags
    rw [nodes_cons, step, ih _ stack rfl, hbuild, joinNodes_cons ns nodes rfl]
  | case7 openTags es nodes rest _ hbuild ih =>
    subst htags
    rw [nodes_cons, step, ih ns stack rfl, hbuild]
  | case8 openTags tag as form es h =>
    subst htags
    rw [joinNodes_nil, nodes_cons, nodes_cons, step_close_startTag h]
  | case9 openTags tag as es h nodes rest _ hbuild ih =>
    subst htags
    simp only [nodes_cons, step, closeImplicit_of_admits h]
    rw [ih _ stack rfl, hbuild, joinNodes_cons ns nodes rfl]
  | case10 openTags tag as es h content nodes rest _ hbuild ih =>
    subst htags
    simp only [nodes_cons, step, closeImplicit_of_admits h]
    rw [ih _ stack rfl, hbuild, joinNodes_cons ns nodes rfl]
  | case11 openTags tag as es h children rest' _ hinner nodes rest _ houter ihinner ihouter =>
    subst htags
    -- the element is closed over its children, and its list goes on from where they end
    simp only [nodes_cons, step, closeImplicit_of_admits h]
    rw [ihinner [] (⟨tag, as, ns⟩ :: stack) rfl, hinner, nil_joinNodes]
    have hclosed : close ⟨children, ⟨tag, as, ns⟩ :: stack⟩ =
        ⟨ns ++ [.element ⟨tag, as, children⟩], stack⟩ := rfl
    rw [hclosed, ihouter _ stack rfl, houter, joinNodes_cons ns nodes rfl]

theorem rest_build_nil (es : List Event) : (build [] es).rest = [] := by
  generalize hopen : ([] : List String) = openTags
  fun_induction build openTags es
  case case1 => rfl
  case case2 h => exact absurd (hopen ▸ h) nofun
  case case3 h => exact absurd (hopen ▸ h) List.not_mem_nil
  case case8 h => exact absurd (hopen ▸ h) nofun
  case case11 houter _ ih =>
    rw [houter] at ih
    exact ih hopen
  case case4 hbuild ih | case5 hbuild ih | case6 hbuild ih | case7 hbuild ih | case9 hbuild ih |
      case10 hbuild ih =>
    rw [hbuild] at ih
    exact ih hopen

/-- The nodes of a markup text are what its events lead to over the stack. -/
theorem parse_eq_treeOf (source : String) : parse source = treeOf (events source.toList) := by
  have hrun := nodes_run [] [] (events source.toList)
  rw [List.map_nil, rest_build_nil, nil_joinNodes] at hrun
  rw [treeOf, hrun, parse, parseNodes]
  rfl

end HtmlTemplate.Markup
