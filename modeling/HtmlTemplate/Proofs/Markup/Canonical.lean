import HtmlTemplate.Markup.Parser
import HtmlTemplate.Markup.Printer
import HtmlTemplate.Proofs.Markup.Elements
import HtmlTemplate.Proofs.Text.Scanning

/-!
# Canonical trees

A tree is canonical when it has the shape that reading a markup text gives: nothing in it would be
read as something else once it is written. Two neighbouring texts would be read as one, an empty
text as none, a comment would end at the first `-->` inside it, a capital in a name would be lost,
and an element that its parent does not admit would close the parent.

Most facts about trees are facts about lists of nodes, because a list is what the reader and the
printer work on. `Node.forestInduction` is the induction for them: a list is empty, or it begins
with a node of one of the four kinds, and an element or a fragment in front has a list of its own.

## What is asked of an element

The tag and the names have the form in which they are read. The content of an element with raw
content is one text that does not hold the beginning of the end tag, and a void element has no
content. That a parent admits its children is asked of neighbours in the tree only, since a start
tag closes the innermost element and then is looked at again.
-/

namespace HtmlTemplate

/-! ## Induction on lists of nodes -/

@[elab_as_elim]
theorem Node.forestInduction {motive : List Node → Prop} (nil : motive [])
    (text : ∀ s ns, motive ns → motive (.text s :: ns))
    (comment : ∀ s ns, motive ns → motive (.comment s :: ns))
    (element : ∀ tag as cs ns, motive cs → motive ns → motive (.element ⟨tag, as, cs⟩ :: ns))
    (fragment : ∀ cs ns, motive cs → motive ns → motive (.fragment cs :: ns)) :
    ∀ ns, motive ns
  | [] => nil
  | .text s :: ns => text s ns (forestInduction nil text comment element fragment ns)
  | .comment s :: ns => comment s ns (forestInduction nil text comment element fragment ns)
  | .element ⟨tag, as, cs⟩ :: ns =>
    element tag as cs ns (forestInduction nil text comment element fragment cs)
      (forestInduction nil text comment element fragment ns)
  | .fragment cs :: ns =>
    fragment cs ns (forestInduction nil text comment element fragment cs)
      (forestInduction nil text comment element fragment ns)

/-! ## Names -/

/-- A tag as it is read: a letter, then letters, digits and the marks of a tag, without capitals. -/
def IsPlainTag (tag : String) : Prop :=
  ∃ c s, tag.toList = c :: s ∧ c.isLower = true ∧
    ∀ d ∈ s, Markup.isTagChar d = true ∧ d.isUpper = false

/-- The name of an attribute as it is read: characters of a name, one at least, without capitals. -/
def IsPlainName (name : String) : Prop :=
  name ≠ "" ∧ ∀ c ∈ name.toList, Markup.isAttributeChar c = true ∧ c.isUpper = false

/-! ## Trees -/

/-- What the content of an element with raw content may not hold: the beginning of its end tag. -/
def rawEnd (tag : String) : List Char := '<' :: '/' :: tag.toList

/-- What is canonical about an element itself, and about its children as far as its tag goes. -/
structure Element.IsPlain (e : Element) : Prop where
  tag : IsPlainTag e.tag
  names : ∀ a ∈ e.attributes, IsPlainName a.name
  nodup : (e.attributes.map Attribute.name).Nodup
  /-- A void element is empty. -/
  void : isVoidTag e.tag = true → e.children = []
  /-- Raw content is one text, in which the element's end tag does not begin in any case. -/
  raw : isRawTextTag e.tag = true →
    e.children = [] ∨ ∃ s, e.children = [.text s] ∧
      Text.occursIn (rawEnd e.tag) (Text.lowerAscii s.toList) = false
  /-- No child closes the element. -/
  admitted : ∀ f : Element, .element f ∈ e.children → Markup.closesImplicitly e.tag f.tag = false

mutual

/-- Is the node one that reading gives? -/
def Node.IsCanonical : Node → Prop
  | .element e => e.IsCanonical
  | .text s => s ≠ ""
  | .comment s => Text.occursIn ['-', '-', '>'] s.toList = false
  | .fragment _ => False

def Element.IsCanonical : Element → Prop
  | ⟨tag, as, cs⟩ => Element.IsPlain ⟨tag, as, cs⟩ ∧ Node.AreCanonical cs

/-- Is the list of nodes one that reading gives? No two neighbours are both texts. -/
def Node.AreCanonical : List Node → Prop
  | [] => True
  | n :: ns => n.IsCanonical ∧ ¬(n.isText = true ∧ ns.head?.any Node.isText = true) ∧
      Node.AreCanonical ns

end

namespace Node

@[simp] theorem areCanonical_nil : AreCanonical [] := by
  rw [AreCanonical]
  trivial

theorem areCanonical_cons {n : Node} {ns : List Node} :
    AreCanonical (n :: ns) ↔
      n.IsCanonical ∧ ¬(n.isText = true ∧ ns.head?.any isText = true) ∧ AreCanonical ns := by
  rw [AreCanonical]

theorem areCanonical_cons_of_not_text {n : Node} {ns : List Node} (hn : n.IsCanonical)
    (ht : n.isText = false) (h : AreCanonical ns) : AreCanonical (n :: ns) := by
  refine areCanonical_cons.mpr ⟨hn, fun ⟨h1, _⟩ ↦ ?_, h⟩
  rw [ht] at h1
  exact absurd h1 Bool.false_ne_true

theorem isCanonical_element {e : Element} :
    (Node.element e).IsCanonical ↔ e.IsPlain ∧ AreCanonical e.children := by
  obtain ⟨tag, as, cs⟩ := e
  rw [IsCanonical, Element.IsCanonical]

theorem isPlain_of_mem_elementsAll {ns : List Node} {e : Element} (h : AreCanonical ns)
    (he : e ∈ elementsAll ns) : e.IsPlain := by
  induction ns using forestInduction with
  | nil => exact absurd he List.not_mem_nil
  | text s ns ih => exact ih (areCanonical_cons.mp h).2.2 he
  | comment s ns ih => exact ih (areCanonical_cons.mp h).2.2 he
  | element tag as cs ns ihcs ihns =>
    obtain ⟨hn, -, hns⟩ := areCanonical_cons.mp h
    obtain ⟨hplain, hcs⟩ := isCanonical_element.mp hn
    rw [elementsAll, List.mem_append, elements, Element.elements, List.mem_cons] at he
    rcases he with (rfl | he) | he
    · exact hplain
    · exact ihcs hcs he
    · exact ihns hns he
  | fragment cs ns _ _ =>
    exact absurd (areCanonical_cons.mp h).1 (by rw [IsCanonical]; exact id)

end Node

theorem IsPlainName.of_all {name : String} (hne : name.toList ≠ [])
    (hs : (name.toList.all fun c ↦ Markup.isAttributeChar c && !c.isUpper) = true) :
    IsPlainName name := by
  refine ⟨fun h ↦ hne (String.toList_eq_nil_iff.mpr h), fun c hc ↦ ?_⟩
  simpa using List.all_eq_true.mp hs c hc

theorem IsPlainName.append {s t : String} (hs : IsPlainName s) (ht : IsPlainName t) :
    IsPlainName (s ++ t) := by
  refine ⟨fun hempty ↦ hs.1 (String.append_eq_empty_iff.mp hempty).1, fun c hc ↦ ?_⟩
  rw [String.toList_append, List.mem_append] at hc
  exact hc.elim (hs.2 c) (ht.2 c)

theorem IsPlainName.of_append {s t : String} (hs : s ≠ "") (h : IsPlainName (s ++ t)) :
    IsPlainName s := by
  refine ⟨hs, fun c hc ↦ h.2 c ?_⟩
  rw [String.toList_append]
  exact List.mem_append_left _ hc

namespace IsPlainTag

variable {tag : String}

theorem of_all {c : Char} {s : List Char} (h : tag.toList = c :: s) (hc : c.isLower = true)
    (hs : (s.all fun d ↦ Markup.isTagChar d && !d.isUpper) = true) : IsPlainTag tag := by
  refine ⟨c, s, h, hc, fun d hd ↦ ?_⟩
  simpa using List.all_eq_true.mp hs d hd

theorem mem (h : IsPlainTag tag) {c : Char} (hc : c ∈ tag.toList) :
    Markup.isTagChar c = true ∧ c.isUpper = false := by
  obtain ⟨d, s, hs, hd, hmem⟩ := h
  rw [hs, List.mem_cons] at hc
  rcases hc with rfl | hc
  · refine ⟨?_, Text.isUpper_of_isLower hd⟩
    rw [Markup.isTagChar, Text.isAlpha_iff.mpr (Or.inr hd)]
    rfl
  · exact hmem c hc

end IsPlainTag

end HtmlTemplate
