import HtmlTemplate.Proofs.Markup.Canonical
import HtmlTemplate.Proofs.Template.Outcomes

/-!
# Fragments

A fragment stands for its children, so a list of nodes says the same without the fragments in it
(`Node.flattenAll`). Fragments in a template are compiled inside and stay, those of repeated
elements are spliced in, and none of it shows once the fragments are gone: with or without them a
template fails with the same error, or comes to the same nodes.

Binding an element looks at its attributes and at nothing inside it, so it commutes with flattening
(`bindElement_flattened`). The rest is an induction on what is compiled, as a repeated element is
compiled again without its attribute.

## Where fragments matter

A fragment in the place of the root is the view itself, and the rest of this is about lists of
nodes. There fragments matter at no place: they have no attributes, and text and markup are those of
their children. An element without fragments in it is another element, however, so that the copies
of a repeated element are compared with the copies of its flattened form, one by one.
-/

namespace HtmlTemplate

mutual

/-- The nodes that a node stands for, without fragments in them. -/
def Node.flattened : Node → List Node
  | .element e => [.element e.flattened]
  | .text s => [.text s]
  | .comment s => [.comment s]
  | .fragment cs => Node.flattenAll cs

def Element.flattened : Element → Element
  | ⟨tag, as, cs⟩ => ⟨tag, as, Node.flattenAll cs⟩

def Node.flattenAll : List Node → List Node
  | [] => []
  | n :: ns => n.flattened ++ Node.flattenAll ns

end

namespace Element

variable (e : Element) (name value : String)

theorem flattened_eq : e.flattened = { e with children := Node.flattenAll e.children } := by
  cases e
  rfl

@[simp] theorem attributes_flattened : e.flattened.attributes = e.attributes := by
  cases e
  rfl

theorem eraseAttribute_flattened :
    e.flattened.eraseAttribute name = (e.eraseAttribute name).flattened := by
  cases e
  rfl

theorem setAttribute_flattened :
    e.flattened.setAttribute name value = (e.setAttribute name value).flattened := by
  cases e
  rfl

end Element

namespace Node

theorem flattenAll_append (ns ms : List Node) :
    flattenAll (ns ++ ms) = flattenAll ns ++ flattenAll ms := by
  induction ns with
  | nil => rw [List.nil_append, flattenAll, List.nil_append]
  | cons n ns ih => rw [List.cons_append, flattenAll, flattenAll, ih, List.append_assoc]

@[simp] theorem flattenAll_singleton (n : Node) : flattenAll [n] = n.flattened := by
  rw [flattenAll, flattenAll, List.append_nil]

theorem flattenAll_flattenAll (ns : List Node) : flattenAll (flattenAll ns) = flattenAll ns := by
  induction ns using forestInduction with
  | nil => rw [flattenAll, flattenAll]
  | text s ns ih =>
    rw [flattenAll, flattenAll_append, ih, flattened, flattenAll_singleton, flattened]
  | comment s ns ih =>
    rw [flattenAll, flattenAll_append, ih, flattened, flattenAll_singleton, flattened]
  | element tag as cs ns ihcs ihns =>
    rw [flattenAll, flattenAll_append, ihns, flattened, flattenAll_singleton, flattened,
      Element.flattened, Element.flattened, ihcs]
  | fragment cs ns ihcs ihns => rw [flattenAll, flattenAll_append, ihns, flattened, ihcs]

/-! ## Flattened nodes are written and read alike

A fragment is written as its children are, one behind another, and so is its text. -/

theorem charsAll_flattenAll (raw : Bool) (ns : List Node) :
    charsAll raw (flattenAll ns) = charsAll raw ns := by
  induction ns using forestInduction generalizing raw with
  | nil => rw [flattenAll]
  | text s ns ih => rw [flattenAll, charsAll_append, ih, flattened, charsAll, charsAll, charsAll,
      List.append_nil]
  | comment s ns ih => rw [flattenAll, charsAll_append, ih, flattened, charsAll, charsAll, charsAll,
      List.append_nil]
  | element tag as cs ns ihcs ihns =>
    rw [flattenAll, charsAll_append, ihns, flattened, charsAll, charsAll, charsAll, List.append_nil,
      chars, chars, Element.flattened, elementChars, elementChars, ihcs]
  | fragment cs ns ihcs ihns =>
    rw [flattenAll, charsAll_append, ihns, flattened, charsAll, chars, ihcs]

private theorem innerTextAll_append (ns ms : List Node) :
    innerTextAll (ns ++ ms) = innerTextAll ns ++ innerTextAll ms := by
  induction ns with
  | nil => rw [List.nil_append, innerTextAll, String.empty_append]
  | cons n ns ih => rw [List.cons_append, innerTextAll, innerTextAll, ih, String.append_assoc]

theorem innerTextAll_flattenAll (ns : List Node) :
    innerTextAll (flattenAll ns) = innerTextAll ns := by
  induction ns using forestInduction with
  | nil => rw [flattenAll]
  | text s ns ih => rw [flattenAll, innerTextAll_append, ih, flattened, innerTextAll, innerTextAll,
      innerTextAll, String.append_empty]
  | comment s ns ih =>
    rw [flattenAll, innerTextAll_append, ih, flattened, innerTextAll, innerTextAll,
      innerTextAll, String.append_empty]
  | element tag as cs ns ihcs ihns =>
    rw [flattenAll, innerTextAll_append, ihns, flattened, innerTextAll, innerTextAll, innerTextAll,
      String.append_empty, innerText, innerText, Element.flattened, elementText, elementText, ihcs]
  | fragment cs ns ihcs ihns =>
    rw [flattenAll, innerTextAll_append, ihns, flattened, innerTextAll, innerText, ihcs]

end Node

theorem Element.flattened_flattened (e : Element) : e.flattened.flattened = e.flattened := by
  rw [flattened_eq e, flattened_eq, Node.flattenAll_flattenAll]

/-! ## Binding -/

/-- What binding made of an element, without fragments inside it. -/
def Bound.flattened : Bound → Bound
  | .stays e descend => .stays e.flattened descend
  | .repeats t d aliases v => .repeats t.flattened d aliases v

variable {options : Options} {data : Data}

theorem Directive.apply_flattened (d : Directive) (v : Value) (e : Element) :
    d.apply v e.flattened = (d.apply v e).flattened := by
  cases d with
  | text =>
    have htext : Node.flattenAll (Node.textChildren (textOf v)) = Node.textChildren (textOf v) := by
      rw [Node.textChildren]
      split <;> rfl
    rw [apply, apply, Element.flattened_eq, Element.flattened_eq, htext]
  | _ => cases e; rfl

theorem Bound.flattened_eq_map : Bound.flattened = Bound.map Element.flattened := by
  funext b
  cases b <;> rfl

theorem bindMarked_flattened (name value : String) (e : Element) :
    bindMarked data name value e.flattened =
      (bindMarked data name value e).map Bound.flattened := by
  rw [Bound.flattened_eq_map]
  exact bindMarked_map Element.flattened value e fun d _ v ↦ d.apply_flattened v e

private theorem bindAttributes_flattened (as : List Attribute) (descend : Bool) (e : Element) :
    bindAttributes options data descend e.flattened as =
      (bindAttributes options data descend e as).map Bound.flattened := by
  induction as generalizing descend e with
  | nil => rfl
  | cons a as ih =>
    simp only [bindAttributes, Element.eraseAttribute_flattened, Element.setAttribute_flattened,
      bindMarked_flattened, ih]
    split
    · split
      · rfl
      · rcases bindMarked data _ (Text.trimmed a.value) (e.eraseAttribute a.name) with err | b
        · rfl
        · cases b with
          | stays f d => exact ih (descend && d) f
          | repeats t d aliases v => rfl
    · split
      · rcases evaluate .attr data (Interpolation.expressionOf a.value) with err | v <;> rfl
      · rfl

private theorem priorityOn?_flattened (e : Element) :
    options.priorityOn? e.flattened = options.priorityOn? e :=
  findPriority_congr fun name _ ↦ by
    rw [Element.attribute?, Element.attributes_flattened, Element.attribute?]

theorem bindElement_flattened (e : Element) :
    bindElement options data e.flattened = (bindElement options data e).map Bound.flattened := by
  rw [bindElement, bindElement, priorityOn?_flattened]
  rcases options.priorityOn? e with _ | m
  · simp only [Element.attributes_flattened, bindAttributes_flattened]
  · simp only [Element.eraseAttribute_flattened, bindMarked_flattened]
    rcases bindMarked data m.name m.expression (e.eraseAttribute m.key) with err | b
    · rfl
    · cases b with
      | stays f d =>
        simp only [Except.map, Bound.flattened, Element.attributes_flattened,
          bindAttributes_flattened]
      | repeats t d aliases v => rfl

/-! ## Compiling -/

theorem map_flattenAll_bind (x y : Except CompileError (List Node)) :
    (x.bind fun front ↦ y.map (front ++ ·)).map Node.flattenAll =
      (x.map Node.flattenAll).bind fun front ↦ (y.map Node.flattenAll).map (front ++ ·) := by
  rcases x with err | front
  · rfl
  · rcases y with err | behind
    · rfl
    · exact congrArg Except.ok (Node.flattenAll_append front behind)

private theorem mapM_flattenAll_congr {α : Type} {xs : List α}
    {f g : α → Except CompileError (List Node)}
    (h : ∀ x ∈ xs, (f x).map Node.flattenAll = (g x).map Node.flattenAll) :
    ((xs.mapM f).map List.flatten).map Node.flattenAll =
      ((xs.mapM g).map List.flatten).map Node.flattenAll := by
  have hcons (f : α → Except CompileError (List Node)) (x : α) (xs : List α) :
      ((x :: xs).mapM f).map List.flatten =
        (f x).bind fun front ↦ ((xs.mapM f).map List.flatten).map (front ++ ·) := by
    rw [List.mapM_cons]
    rcases f x with err | front
    · rfl
    · rcases xs.mapM f with err | behind <;> rfl
  induction xs with
  | nil => rfl
  | cons x xs ih =>
    obtain ⟨hx, hxs⟩ := List.forall_mem_cons.mp h
    rw [hcons, hcons, map_flattenAll_bind, map_flattenAll_bind, hx, ih hxs]

theorem compileNodes_flattenAll_of {ns : List Node}
    (h : ∀ n ∈ ns, (compileNodes options data n.flattened).map Node.flattenAll =
      (compileNode options data n).map Node.flattenAll) :
    (compileNodes options data (Node.flattenAll ns)).map Node.flattenAll =
      (compileNodes options data ns).map Node.flattenAll := by
  induction ns with
  | nil => rw [Node.flattenAll]
  | cons n ns ih =>
    obtain ⟨hn, hns⟩ := List.forall_mem_cons.mp h
    rw [Node.flattenAll, compileNodes_append, compileNodes_cons, map_flattenAll_bind,
      map_flattenAll_bind, hn, ih hns]

theorem map_flattenAll_element (f : Element) (x : Except CompileError (List Node)) :
    (x.map fun cs ↦ [Node.element { f with children := cs }]).map Node.flattenAll =
      (x.map Node.flattenAll).map fun cs ↦ [Node.element { f with children := cs }] := by
  rcases x with err | cs
  · rfl
  · refine congrArg Except.ok ?_
    rw [Node.flattenAll_singleton, Node.flattened, Element.flattened]

private theorem compileNodes_flattened (n : Node) (data : Data) :
    (compileNodes options data n.flattened).map Node.flattenAll =
      (compileNode options data n).map Node.flattenAll := by
  induction n using Node.compileInduction options generalizing data with
  | text s => rw [Node.flattened, compileNodes_singleton]
  | comment s => rw [Node.flattened, compileNodes_singleton]
  | fragment cs ih =>
    rw [Node.flattened, compileNodes_flattenAll_of fun c hc ↦ ih c hc data, compileNode]
    rcases compileNodes options data cs with err | out
    · rfl
    · refine congrArg Except.ok ?_
      rw [Node.flattenAll_singleton, Node.flattened]
  | element e ihcs iht =>
    rw [Node.flattened, compileNodes_singleton, compileNode_element, compileNode_element,
      bindElement_flattened]
    rcases hb : bindElement options data e with err | b
    · rfl
    cases b with
    | stays f descend =>
      cases descend with
      | true =>
        -- what binding made of the element has its children, so both sides compile these
        show ((compileNodes options data e.flattened.children).map fun cs ↦
          [Node.element { f.flattened with children := cs }]).map Node.flattenAll = _
        rw [map_flattenAll_element, map_flattenAll_element, Element.flattened_eq e,
          compileNodes_flattenAll_of fun c hc ↦ ihcs c hc data, Element.flattened_eq f]
      | false =>
        refine congrArg Except.ok ?_
        rw [Node.flattenAll_singleton, Node.flattenAll_singleton, Node.flattened, Node.flattened,
          Element.flattened_flattened]
    | repeats t d aliases v =>
      cases v with
      | array items =>
        refine mapM_flattenAll_congr fun entry _ ↦ ?_
        obtain ⟨item, index⟩ := entry
        have hcopy := iht hb (aliases.data item index)
        rwa [Node.flattened, compileNodes_singleton] at hcopy
      | _ => rfl

/-- **Fragments are transparent to compilation.** Nodes are compiled with the fragments among them
and inside them as without: they fail with the same error, or they come to the same nodes apart from
fragments, which are written alike and have the same text. -/
theorem compileNodes_flattenAll (options : Options) (data : Data) (ns : List Node) :
    match compileNodes options data ns with
    | .error err => compileNodes options data (Node.flattenAll ns) = .error err
    | .ok out =>
      ∃ out', compileNodes options data (Node.flattenAll ns) = .ok out' ∧
        Node.flattenAll out' = Node.flattenAll out ∧
        (Node.fragment out').toHtml = (Node.fragment out).toHtml ∧
        (Node.fragment out').textContent = (Node.fragment out).textContent := by
  have hflat := compileNodes_flattenAll_of fun n (_ : n ∈ ns) ↦
    @compileNodes_flattened options n data
  rcases hout : compileNodes options data ns with err | out
  · rw [hout] at hflat
    exact map_eq_error_iff.mp hflat
  · rw [hout] at hflat
    obtain ⟨out', hout', heq⟩ := map_eq_ok_iff.mp hflat
    refine ⟨out', hout', heq, ?_, ?_⟩
    · rw [Node.toHtml, Node.toHtml, Node.chars, Node.chars, ← Node.charsAll_flattenAll false out',
        heq, Node.charsAll_flattenAll]
    · show Node.innerTextAll out' = Node.innerTextAll out
      rw [← Node.innerTextAll_flattenAll out', heq, Node.innerTextAll_flattenAll]

end HtmlTemplate
