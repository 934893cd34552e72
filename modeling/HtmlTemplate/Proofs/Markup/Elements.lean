import HtmlTemplate.Markup.Node
import Mathlib.Tactic.Common

/-!
# The elements of a tree

All elements of a tree, an element before those inside it. A node that is no element has the
elements of its children.

The elements of a list are those of its nodes in a row, so a statement about all elements of a tree
is proved by the induction for lists of nodes.
-/

namespace HtmlTemplate

mutual

/-- The elements in a node. -/
def Node.elements : Node → List Element
  | .element e => e.elements
  | .text _ => []
  | .comment _ => []
  | .fragment cs => Node.elementsAll cs

def Element.elements : Element → List Element
  | ⟨tag, as, cs⟩ => ⟨tag, as, cs⟩ :: Node.elementsAll cs

def Node.elementsAll : List Node → List Element
  | [] => []
  | n :: ns => n.elements ++ Node.elementsAll ns

end

theorem Element.elements_eq (e : Element) : e.elements = e :: Node.elementsAll e.children := by
  cases e
  rfl

theorem Node.mem_elementsAll {ns : List Node} {e : Element} :
    e ∈ Node.elementsAll ns ↔ ∃ n ∈ ns, e ∈ n.elements := by
  induction ns with
  | nil => simp [elementsAll]
  | cons n ns ih => simp [elementsAll, ih]

theorem Node.mem_elements {n : Node} {e : Element} :
    e ∈ n.elements ↔ n = .element e ∨ e ∈ Node.elementsAll n.children := by
  cases n with
  | element f => rw [elements, f.elements_eq, List.mem_cons, element.injEq, eq_comm, children]
  | text s => simp [elements, elementsAll, children]
  | comment s => simp [elements, elementsAll, children]
  | fragment cs => simp [elements, children]

theorem Node.self_mem_elements (e : Element) : e ∈ (Node.element e).elements :=
  Node.mem_elements.mpr (Or.inl rfl)

theorem Node.elementsAll_textChildren (s : String) :
    Node.elementsAll (Node.textChildren s) = [] := by
  rw [textChildren]
  split_ifs <;> rfl

end HtmlTemplate
