import HtmlTemplate.Proofs.Markup.Names
import HtmlTemplate.Proofs.Template.Markers
import HtmlTemplate.Proofs.Template.Repetition
import HtmlTemplate.Proofs.Template.Values

/-!
# Unknown directives

A marked attribute of which there is no directive is taken off and does nothing else, so a template
is compiled as if it were not there, at whatever depth it stands and in whatever copies.

All such attributes can be left out of a tree (`Node.withoutUnknown`), and binding commutes with
that (`bindElement_withoutUnknown`): it takes them off in the end anyway, and meanwhile nothing
looks for one of their names. A show directive looks for the style, so the style may not be marked.
Trees that differ in such attributes only are the same tree without them.

## Both sides at once

One template is the other with some attributes left out, and neither need be without unknown
directives altogether. Leaving all of them out of both gives one and the same tree. So it is enough
to compare a template with its own form without unknown directives, in which the induction does not
have to carry a second template along.
-/

namespace HtmlTemplate

open Attribute (named)

/-! ## Trees without unknown directives -/

namespace Options

variable (options : Options)

/-- Is an attribute of the name marked for a directive that there is not? -/
def isUnknown (key : String) : Bool :=
  (options.directiveOf? key).any fun name ↦ (Directive.ofName? name).isNone

def isKnown (key : String) : Bool := !options.isUnknown key

/-- Some attributes of unknown directives are left out of a list. -/
inductive Omits : List Attribute → List Attribute → Prop
  | nil : Omits [] []
  | keep (a : Attribute) {as bs : List Attribute} (h : Omits as bs) : Omits (a :: as) (a :: bs)
  | drop {a : Attribute} {as bs : List Attribute} (ha : options.isUnknown a.name = true)
      (h : Omits as bs) : Omits (a :: as) bs

end Options

section Trees

variable (options : Options)

mutual

/-- Some attributes of unknown directives are left out of the elements in a node. -/
inductive Node.Omits : Node → Node → Prop
  | text (s : String) : Omits (.text s) (.text s)
  | comment (s : String) : Omits (.comment s) (.comment s)
  | fragment {cs ds : List Node} (h : OmitsAll cs ds) : Omits (.fragment cs) (.fragment ds)
  | element (tag : String) {as bs : List Attribute} {cs ds : List Node} (has : options.Omits as bs)
      (hcs : OmitsAll cs ds) : Omits (.element ⟨tag, as, cs⟩) (.element ⟨tag, bs, ds⟩)

inductive Node.OmitsAll : List Node → List Node → Prop
  | nil : OmitsAll [] []
  | cons {n m : Node} {ns ms : List Node} (hn : Omits n m) (hns : OmitsAll ns ms) :
      OmitsAll (n :: ns) (m :: ms)

end

mutual

/-- The node without attributes of unknown directives. -/
def Node.withoutUnknown : Node → Node
  | .element e => .element e.withoutUnknown
  | .text s => .text s
  | .comment s => .comment s
  | .fragment cs => .fragment (Node.withoutUnknownAll cs)

def Element.withoutUnknown : Element → Element
  | ⟨tag, as, cs⟩ => ⟨tag, named options.isKnown as, Node.withoutUnknownAll cs⟩

def Node.withoutUnknownAll : List Node → List Node
  | [] => []
  | n :: ns => n.withoutUnknown :: Node.withoutUnknownAll ns

end

end Trees

variable {options : Options} {data : Data}

/-! ## What is left out makes no difference -/

theorem Options.Omits.named_eq {as bs : List Attribute} (h : options.Omits as bs) :
    named options.isKnown bs = named options.isKnown as := by
  induction h with
  | nil => rfl
  | keep a _ ih => rw [named, named, List.filter_cons, List.filter_cons, ← named, ← named, ih]
  | drop ha _ ih =>
    rw [Attribute.named_cons_of_neg _ _ (by rw [isKnown, ha]; rfl), ih]

mutual

theorem Node.Omits.withoutUnknown_eq {n m : Node} :
    n.Omits options m → m.withoutUnknown options = n.withoutUnknown options
  | .text s => rfl
  | .comment s => rfl
  | .fragment h => by rw [withoutUnknown, withoutUnknown, h.withoutUnknown_eq]
  | .element tag has hcs => by
    rw [withoutUnknown, withoutUnknown, Element.withoutUnknown, Element.withoutUnknown,
      has.named_eq, hcs.withoutUnknown_eq]

theorem Node.OmitsAll.withoutUnknown_eq {ns ms : List Node} :
    Node.OmitsAll options ns ms →
      Node.withoutUnknownAll options ms = Node.withoutUnknownAll options ns
  | .nil => rfl
  | .cons hn hns => by
    rw [withoutUnknownAll, withoutUnknownAll, hn.withoutUnknown_eq, hns.withoutUnknown_eq]

end

/-! ## Known names

An attribute is known if it is not marked, or marked for a directive that there is. -/

theorem isKnown_of_directiveOf?_eq_none {key : String} (h : options.directiveOf? key = none) :
    options.isKnown key = true := by
  rw [Options.isKnown, Options.isUnknown, h]
  rfl

theorem isKnown_of_directiveOf? {key name : String} (h : options.directiveOf? key = some name) :
    options.isKnown key = (Directive.ofName? name).isSome := by
  rw [Options.isKnown, Options.isUnknown, h, Option.any_some]
  cases Directive.ofName? name <;> rfl

/-! ## Elements -/

namespace Element

variable (e : Element) {key : String}

theorem withoutUnknown_eq : e.withoutUnknown options =
    ⟨e.tag, named options.isKnown e.attributes, Node.withoutUnknownAll options e.children⟩ := by
  cases e
  rfl

theorem withoutUnknown_eq_self (has : named options.isKnown e.attributes = e.attributes)
    (hcs : Node.withoutUnknownAll options e.children = e.children) :
    e.withoutUnknown options = e := by
  rw [withoutUnknown_eq, has, hcs]
  cases e
  rfl

theorem eraseAttribute_withoutUnknown (h : options.isKnown key = true) :
    (e.withoutUnknown options).eraseAttribute key =
      (e.eraseAttribute key).withoutUnknown options := by
  rw [withoutUnknown_eq, withoutUnknown_eq, eraseAttribute, eraseAttribute,
    Attribute.named_erase_of_pos _ h]

theorem withoutUnknown_eraseAttribute (h : options.isKnown key = false) :
    (e.eraseAttribute key).withoutUnknown options = e.withoutUnknown options := by
  rw [withoutUnknown_eq, withoutUnknown_eq, eraseAttribute, Attribute.named_erase_of_neg _ h]

theorem setAttribute_withoutUnknown (value : String) (h : options.isKnown key = true) :
    (e.withoutUnknown options).setAttribute key value =
      (e.setAttribute key value).withoutUnknown options := by
  rw [withoutUnknown_eq, withoutUnknown_eq, setAttribute, setAttribute,
    Attribute.named_set_of_pos _ _ h]

theorem attribute?_withoutUnknown (h : options.isKnown key = true) :
    (e.withoutUnknown options).attribute? key = e.attribute? key := by
  rw [withoutUnknown_eq, attribute?, Attribute.get?_named _ h, attribute?]

theorem priorityOn?_withoutUnknown
    (hpriority : ∀ name ∈ options.priority, options.isKnown (options.attributeOf name) = true) :
    options.priorityOn? (e.withoutUnknown options) = options.priorityOn? e :=
  findPriority_congr fun name hname ↦ e.attribute?_withoutUnknown (hpriority name hname)

end Element

theorem withoutUnknownAll_textChildren (s : String) :
    Node.withoutUnknownAll options (Node.textChildren s) = Node.textChildren s := by
  rw [Node.textChildren]
  split <;> rfl

/-! ## Binding -/

section Binding

variable (hstyle : options.isKnown "style" = true)

include hstyle

theorem Directive.apply_withoutUnknown (d : Directive) (v : Value) (e : Element) :
    d.apply v (e.withoutUnknown options) = (d.apply v e).withoutUnknown options := by
  cases d with
  | display =>
    rw [apply, apply, Element.setStyleProperty, Element.attribute?_withoutUnknown e hstyle,
      Element.setAttribute_withoutUnknown e _ hstyle, ← Element.setStyleProperty]
  | text =>
    rw [apply, apply, Element.withoutUnknown_eq, Element.withoutUnknown_eq,
      withoutUnknownAll_textChildren]
  | _ => rfl

theorem bindMarked_withoutUnknown (name value : String) (e : Element) :
    bindMarked data name value (e.withoutUnknown options) =
      (bindMarked data name value e).map (Bound.map (·.withoutUnknown options)) :=
  bindMarked_map (·.withoutUnknown options) value e fun d _ v ↦ d.apply_withoutUnknown hstyle v e

private theorem bindAttributes_withoutUnknown (as : List Attribute) (descend : Bool) (e : Element) :
    bindAttributes options data descend (e.withoutUnknown options) (named options.isKnown as) =
      (bindAttributes options data descend e as).map (Bound.map (·.withoutUnknown options)) := by
  induction as generalizing descend e with
  | nil => rfl
  | cons a as ih =>
    rcases hmark : options.directiveOf? a.name with _ | name
    · have hknown := isKnown_of_directiveOf?_eq_none hmark
      simp only [Attribute.named_cons_of_pos _ _ hknown, bindAttributes, hmark,
        Element.setAttribute_withoutUnknown e _ hknown, ih]
      split
      · rcases evaluate .attr data (Interpolation.expressionOf a.value) with err | v <;> rfl
      · rfl
    · have hknown := isKnown_of_directiveOf? hmark
      rcases hname : Directive.ofName? name with _ | d
      · -- the attribute is left out, and it does nothing but lose its place
        rw [hname] at hknown
        rw [Attribute.named_cons_of_neg _ _ hknown, ← e.withoutUnknown_eraseAttribute hknown, ih]
        simp only [bindAttributes, hmark, bindMarked_of_none _ hname, Bool.and_true, ite_self]
      · rw [hname] at hknown
        simp only [Attribute.named_cons_of_pos _ _ hknown, bindAttributes, hmark,
          Element.eraseAttribute_withoutUnknown e hknown, bindMarked_withoutUnknown hstyle, ih]
        split
        · rfl
        · rcases bindMarked data name (Text.trimmed a.value) (e.eraseAttribute a.name) with err | b
          · rfl
          · cases b with
            | stays f d => exact ih (descend && d) f
            | repeats t d aliases v => rfl

theorem bindElement_withoutUnknown (e : Element)
    (hpriority : ∀ name ∈ options.priority, options.isKnown (options.attributeOf name) = true) :
    bindElement options data (e.withoutUnknown options) =
      (bindElement options data e).map (Bound.map (·.withoutUnknown options)) := by
  have hsame := e.priorityOn?_withoutUnknown hpriority
  have hattributes (f : Element) :
      (f.withoutUnknown options).attributes = named options.isKnown f.attributes := by
    rw [Element.withoutUnknown_eq]
  rw [bindElement, bindElement, hsame]
  rcases hm : options.priorityOn? e with _ | m
  · simp only [hattributes, bindAttributes_withoutUnknown hstyle]
  · obtain ⟨hname, hkey, -⟩ := attribute?_of_findPriority hm
    have hknown : options.isKnown m.key = true := hkey ▸ hpriority m.name hname
    simp only [Element.eraseAttribute_withoutUnknown e hknown, bindMarked_withoutUnknown hstyle]
    rcases bindMarked data m.name m.expression (e.eraseAttribute m.key) with err | b
    · rfl
    · cases b with
      | stays f d =>
        simp only [Except.map, Bound.map, hattributes, bindAttributes_withoutUnknown hstyle]
      | repeats t d aliases v => rfl

end Binding

/-! ## Compiling -/

theorem compileNodes_withoutUnknownAll_of {ns : List Node}
    (h : ∀ n ∈ ns, compileNode options data (n.withoutUnknown options) =
      compileNode options data n) :
    compileNodes options data (Node.withoutUnknownAll options ns) =
      compileNodes options data ns := by
  induction ns with
  | nil => rw [Node.withoutUnknownAll]
  | cons n ns ih =>
    obtain ⟨hn, hns⟩ := List.forall_mem_cons.mp h
    rw [Node.withoutUnknownAll, compileNodes_cons, compileNodes_cons, hn, ih hns]

theorem isKnown_attributeOf (hsymbol : options.bindSymbol ≠ "")
    (hpriority : ∀ name ∈ options.priority, (Directive.ofName? name).isSome = true) :
    ∀ name ∈ options.priority, options.isKnown (options.attributeOf name) = true := by
  intro name hname
  rw [isKnown_of_directiveOf? (directiveOf?_attributeOf hsymbol name), hpriority name hname]

section Compiling

variable (hsymbol : options.bindSymbol ≠ "")
  (hstyle : ¬options.bindSymbol.toList <+: "style".toList)
  (hpriority : ∀ name ∈ options.priority, (Directive.ofName? name).isSome = true)

include hsymbol hstyle

theorem withoutUnknown_attributes_of_stays {e f : Element} {d : Bool}
    (h : bindElement options data e = .ok (.stays f d)) :
    named options.isKnown f.attributes = f.attributes :=
  List.filter_eq_self.mpr fun a ha ↦ isKnown_of_directiveOf?_eq_none
    ((directiveOf?_eq_none_iff hsymbol).mpr (not_prefix_of_stays hsymbol hstyle h a ha))

include hpriority

theorem compileNode_withoutUnknown (n : Node) (data : Data) :
    compileNode options data (n.withoutUnknown options) = compileNode options data n := by
  induction n using Node.compileInduction options generalizing data with
  | text s => rw [Node.withoutUnknown]
  | comment s => rw [Node.withoutUnknown]
  | fragment cs ih =>
    rw [Node.withoutUnknown, compileNode, compileNode,
      compileNodes_withoutUnknownAll_of fun c hc ↦ ih c hc data]
  | element e ihcs iht =>
    have hknown : options.isKnown "style" = true :=
      isKnown_of_directiveOf?_eq_none ((directiveOf?_eq_none_iff hsymbol).mpr hstyle)
    have hchildren :
        compileNodes options data (e.withoutUnknown options).children =
          compileNodes options data e.children := by
      rw [Element.withoutUnknown_eq, compileNodes_withoutUnknownAll_of fun c hc ↦ ihcs c hc data]
    rw [Node.withoutUnknown, compileNode_element, compileNode_element, hchildren,
      bindElement_withoutUnknown hknown e (isKnown_attributeOf hsymbol hpriority)]
    rcases hb : bindElement options data e with err | b
    · rfl
    cases b with
    | stays f d =>
      -- no attribute with an unknown name stays in a view, so there is nothing left to take
      have hf := withoutUnknown_attributes_of_stays hsymbol hstyle hb
      cases d with
      | true =>
        have hsame (cs : List Node) :
            { f.withoutUnknown options with children := cs } = { f with children := cs } := by
          rw [Element.withoutUnknown_eq, hf]
        show (compileNodes options data e.children).map (fun cs ↦
          [Node.element { f.withoutUnknown options with children := cs }]) = _
        simp only [hsame]
      | false =>
        obtain ⟨-, s, hs⟩ := (rewrites_of_stays hb).written rfl
        have hsame : f.withoutUnknown options = f :=
          f.withoutUnknown_eq_self hf (by rw [hs, withoutUnknownAll_textChildren])
        exact congrArg (fun g ↦ Except.ok [Node.element g]) hsame
    | repeats t d aliases v =>
      have hcopy (data : Data) : compileNode options data (.element (t.withoutUnknown options)) =
          compileNode options data (.element t) := by
        have := iht hb data
        rwa [Node.withoutUnknown] at this
      cases v with
      | array items =>
        show (items.zipIdx.mapM fun x : Value × Nat ↦ compileNode options (aliases.data x.1 x.2)
          (.element (t.withoutUnknown options))).map List.flatten = _
        simp only [hcopy]
      | _ => rfl

private theorem compile_withoutUnknown (template : Node) (data : Data) :
    compile options data (template.withoutUnknown options) = compile options data template := by
  have hcompile (n : Node) : compileNode options data (n.withoutUnknown options) =
      compileNode options data n := compileNode_withoutUnknown hsymbol hstyle hpriority n data
  cases template with
  | text s => rw [Node.withoutUnknown]
  | comment s => rw [Node.withoutUnknown]
  | fragment cs =>
    rw [Node.withoutUnknown, compile, compile,
      compileNodes_withoutUnknownAll_of fun c _ ↦ hcompile c]
  | element e =>
    have hroot : expandsRoot options ((Node.element e).withoutUnknown options) =
        expandsRoot options (.element e) := by
      rw [Node.withoutUnknown, expandsRoot, expandsRoot,
        e.priorityOn?_withoutUnknown (isKnown_attributeOf hsymbol hpriority)]
    rw [Node.withoutUnknown] at hroot ⊢
    rw [compile, compile, compileNodes_singleton, compileNodes_singleton, hroot,
      ← Node.withoutUnknown, hcompile]
    all_goals exact fun _ ↦ Node.noConfusion

/-- **Unknown directives do nothing**: a template from which some of them are left out, anywhere, is
compiled to the same view, or fails with the same error. -/
theorem compile_eq_of_omits {template template' : Node} (h : template.Omits options template')
    (data : Data) : compile options data template' = compile options data template := by
  rw [← compile_withoutUnknown hsymbol hstyle hpriority template', h.withoutUnknown_eq,
    compile_withoutUnknown hsymbol hstyle hpriority]

end Compiling

/-- Around a directive that has priority, on the copies that it makes and in their child, and though
it holds what cannot be read. -/
theorem compile_eq_of_omits_each :
    let options : Options := {}
    let li : Element := ⟨"li", [⟨":if", ")"⟩, ⟨":each", "xs"⟩, ⟨":if", "y"⟩, ⟨":text", "item"⟩],
      [.element ⟨"b", [⟨":x", "1"⟩], []⟩]⟩
    let li' : Element := ⟨"li", [⟨":each", "xs"⟩, ⟨":text", "item"⟩], [.element ⟨"b", [], []⟩]⟩
    let data : Data := [("xs", .array [.string "a"])]
    (options.bindSymbol ≠ "" ∧ ¬options.bindSymbol.toList <+: "style".toList ∧
      (∀ name ∈ options.priority, (Directive.ofName? name).isSome = true) ∧
      (Node.element li).Omits options (.element li')) ∧
      compile options data (.element li) =
        .ok (.fragment [.element ⟨"li", [], [.text "a"]⟩]) := by
  intro options li li' data
  have hsymbol : options.bindSymbol ≠ "" := by decide
  have hstyle : ¬options.bindSymbol.toList <+: "style".toList := by decide
  have hregistered : ∀ name ∈ options.priority, (Directive.ofName? name).isSome = true := by decide
  have homits : (Node.element li).Omits options (.element li') :=
    .element "li" (.drop (by decide) (.keep _ (.drop (by decide) (.keep _ .nil))))
      (.cons (.element "b" (.drop (by decide) .nil) .nil) .nil)
  refine ⟨⟨hsymbol, hstyle, hregistered, homits⟩, ?_⟩
  have hpriority : options.priorityOn? li' = some ⟨"each", ":each", "xs"⟩ := by decide
  have hcollection : evaluate .each data (Aliases.ofDirective .each "xs").collection =
      .ok (.array [.string "a"]) := by
    rw [show (Aliases.ofDirective .each "xs").collection = "xs" by decide]
    exact evaluate_name .each _ rfl rfl rfl fun _ ↦ rfl
  have hcopy (index : Nat) :
      bindElement options ((Aliases.ofDirective .each "xs").data (.string "a") index)
        (li'.eraseAttribute ":each") = .ok (.stays ⟨"li", [], [.text "a"]⟩ false) :=
    bindElement_text (by decide) (by decide) (evaluate_name .text _ rfl rfl rfl fun _ ↦ rfl)
  rw [← compile_eq_of_omits hsymbol hstyle hregistered homits, compile,
    compileNodes_of_collection hpriority (by decide : Directive.ofName? "each" = some .each) rfl,
    hcollection]
  · simp only [List.zipIdx_cons, List.zipIdx_nil, List.mapM_cons, List.mapM_nil,
      compileNodes_singleton, compileNode_of_closed (hcopy _)]
    rfl
  · exact fun _ ↦ Node.noConfusion

end HtmlTemplate
