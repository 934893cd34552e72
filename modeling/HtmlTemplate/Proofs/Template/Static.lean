import HtmlTemplate.Proofs.Markup.Canonical
import HtmlTemplate.Proofs.Template.Outcomes
import HtmlTemplate.Proofs.Template.Values

/-!
# Templates without anything to compile

A template in which no attribute is marked and no attribute and no text has a span is its own view.
The compiler does not pass over such a text: it writes it as a string literal, which is read and
evaluated to the text again, whatever characters are in it (`compileText_of_not_isInterpolated`).

## Texts that are compiled all the same

A text without a span is not left alone: its expression is a string literal, which is lexed, parsed
and evaluated. So the claim needs that quoting a text and reading the literal gives back the text,
for all texts.
-/

namespace HtmlTemplate

open Interpolation (isInterpolated)

/-! ## The texts of a tree -/

mutual

/-- The texts in a node. -/
def Node.texts : Node → List String
  | .element e => e.texts
  | .text s => [s]
  | .comment _ => []
  | .fragment cs => Node.textsAll cs

def Element.texts : Element → List String
  | ⟨_, _, cs⟩ => Node.textsAll cs

def Node.textsAll : List Node → List String
  | [] => []
  | n :: ns => n.texts ++ Node.textsAll ns

end

variable {options : Options} {data : Data}

/-- Is the attribute neither marked nor interpolated? -/
structure Attribute.IsStatic (options : Options) (a : Attribute) : Prop where
  unmarked : ¬options.bindSymbol.toList <+: a.name.toList
  plain : isInterpolated a.value = false

/-- Is there nothing in the nodes to be compiled? -/
structure AreStatic (options : Options) (ns : List Node) : Prop where
  attributes : ∀ e ∈ Node.elementsAll ns, ∀ a ∈ e.attributes, a.IsStatic options
  texts : ∀ s ∈ Node.textsAll ns, isInterpolated s = false

namespace AreStatic

variable {n : Node} {ns : List Node}

theorem tail (h : AreStatic options (n :: ns)) : AreStatic options ns where
  attributes e he := h.attributes e (List.mem_append_right _ he)
  texts s hs := h.texts s (List.mem_append_right _ hs)

theorem fragment {cs : List Node} (h : AreStatic options (.fragment cs :: ns)) :
    AreStatic options cs where
  attributes e he := h.attributes e (List.mem_append_left _ he)
  texts s hs := h.texts s (List.mem_append_left _ hs)

theorem children {tag : String} {as : List Attribute} {cs : List Node}
    (h : AreStatic options (.element ⟨tag, as, cs⟩ :: ns)) : AreStatic options cs where
  attributes e he := h.attributes e (List.mem_append_left _ (List.mem_cons_of_mem _ he))
  texts s hs := h.texts s (List.mem_append_left _ hs)

theorem element {e : Element} (h : AreStatic options (.element e :: ns)) :
    ∀ a ∈ e.attributes, a.IsStatic options :=
  h.attributes e (List.mem_append_left _ (Node.self_mem_elements e))

theorem text {s : String} (h : AreStatic options (.text s :: ns)) : isInterpolated s = false :=
  h.texts s List.mem_cons_self

end AreStatic

/-! ## Binding -/

private theorem directiveOf?_of_not_prefix {key : String}
    (h : ¬options.bindSymbol.toList <+: key.toList) : options.directiveOf? key = none := by
  rw [← List.isPrefixOf_iff_prefix, Bool.not_eq_true] at h
  rw [Options.directiveOf?, h, Bool.not_false, Bool.or_true, if_pos rfl]

theorem bindAttributes_of_isStatic {as : List Attribute} (h : ∀ a ∈ as, a.IsStatic options)
    (descend : Bool) (e : Element) :
    bindAttributes options data descend e as = .ok (.stays e descend) := by
  induction as with
  | nil => rw [bindAttributes]
  | cons a as ih =>
    obtain ⟨ha, has⟩ := List.forall_mem_cons.mp h
    simp only [bindAttributes, directiveOf?_of_not_prefix ha.unmarked, ha.plain, Bool.and_false]
    exact ih has

theorem prefix_attributeOf (options : Options) (name : String) :
    options.bindSymbol.toList <+: (options.attributeOf name).toList := by
  rw [Options.attributeOf, String.toList_append]
  exact List.prefix_append _ _

theorem priorityOn?_of_isStatic {e : Element} (h : ∀ a ∈ e.attributes, a.IsStatic options) :
    options.priorityOn? e = none := by
  rcases hm : options.priorityOn? e with _ | m
  · rfl
  · obtain ⟨-, a, ha, hname, -⟩ := mem_of_findPriority hm
    have hprefix := prefix_attributeOf options m.name
    rw [← hname] at hprefix
    exact absurd hprefix (h a ha).unmarked

theorem bindElement_of_isStatic {e : Element} (h : ∀ a ∈ e.attributes, a.IsStatic options) :
    bindElement options data e = .ok (.stays e true) := by
  rw [bindElement, priorityOn?_of_isStatic h]
  exact bindAttributes_of_isStatic h true e

/-! ## Compiling -/

private theorem compileNodes_of_areStatic {ns : List Node} (h : AreStatic options ns) :
    compileNodes options data ns = .ok ns := by
  induction ns using Node.forestInduction with
  | nil => exact compileNodes_nil
  | text s ns ih =>
    rw [compileNodes_cons, compileNode, compileText_of_not_isInterpolated h.text, ih h.tail]
    rfl
  | comment s ns ih =>
    rw [compileNodes_cons, compileNode, ih h.tail]
    rfl
  | element tag as cs ns ihchildren ih =>
    rw [compileNodes_cons, compileNode_of_stays (bindElement_of_isStatic h.element),
      ihchildren h.children, ih h.tail]
    rfl
  | fragment cs ns ihchildren ih =>
    rw [compileNodes_cons, compileNode, ihchildren h.fragment, ih h.tail]
    rfl

/-- **A template without anything to compile is its own view**, whatever the options and the data
are. -/
theorem compile_of_areStatic {template : Node} (h : AreStatic options [template]) :
    compile options data template = .ok template := by
  have hexpands : expandsRoot options template = false := by
    cases template with
    | element e => rw [expandsRoot, priorityOn?_of_isStatic h.element]
    | _ => rfl
  cases template with
  | fragment cs =>
    rw [compile, compileNodes_of_areStatic h.fragment]
    rfl
  | _ =>
    rw [compile, compileNodes_of_areStatic h, hexpands]
    · rfl
    · exact nofun

/-- Quotes, backslashes, a mark that is not closed, a fragment inside, and a directive of another
mark. -/
theorem compile_of_areStatic_quotes :
    let p : Element := ⟨"p", [⟨":text", "a \x7b\x7b \"b\""⟩],
      [.text "\"\\n\" \\ \x7b\x7b \x01", .fragment [.comment "c", .text " \n"]]⟩
    AreStatic ⟨"@", ["text"]⟩ [.element p] ∧
      compile ⟨"@", ["text"]⟩ [] (.element p) = .ok (.element p) := by
  intro p
  have hstatic : AreStatic ⟨"@", ["text"]⟩ [.element p] := by
    constructor
    · show ∀ e ∈ [p], ∀ a ∈ e.attributes, a.IsStatic ⟨"@", ["text"]⟩
      exact List.forall_mem_singleton.mpr
        (List.forall_mem_singleton.mpr ⟨by decide, by decide⟩)
    · show ∀ s ∈ ["\"\\n\" \\ \x7b\x7b \x01", " \n"], isInterpolated s = false
      decide
  exact ⟨hstatic, compile_of_areStatic hstatic⟩

end HtmlTemplate
