import HtmlTemplate.Markup.Attribute

/-!
# The weight of a tree

The number of nodes and attributes of a tree. Compilation recurs on trees that weigh less: on
children, and on elements that have lost an attribute.

Erasing an attribute that is there makes a tree lighter by one, and setting a value makes it heavier
by one at most.
-/

namespace HtmlTemplate

mutual

/-- The nodes and attributes of a node. -/
def Node.weight : Node → Nat
  | .element e => e.weight
  | .text _ => 1
  | .comment _ => 1
  | .fragment cs => 1 + Node.weightAll cs

def Element.weight : Element → Nat
  | ⟨_, attributes, cs⟩ => 1 + attributes.length + Node.weightAll cs

def Node.weightAll : List Node → Nat
  | [] => 0
  | n :: ns => n.weight + Node.weightAll ns

end

theorem Element.weight_eq (e : Element) :
    e.weight = 1 + e.attributes.length + Node.weightAll e.children := by
  cases e
  rfl

theorem Node.weight_pos (n : Node) : 0 < n.weight := by
  cases n with
  | element e =>
    rw [weight, Element.weight_eq]
    omega
  | text | comment => exact Nat.one_pos
  | fragment cs =>
    rw [weight]
    omega

/-! ## Counting attributes of a name -/

namespace Attribute

/-- How many attributes have the name. -/
def count (as : List Attribute) (name : String) : Nat := as.countP fun a ↦ a.name == name

theorem count_cons (a : Attribute) (as : List Attribute) (name : String) :
    count (a :: as) name = count as name + if a.name = name then 1 else 0 := by
  simp [count, List.countP_cons]

theorem count_erase (as : List Attribute) (n name : String) :
    count (erase as n) name = count as name - if n = name then 1 else 0 := by
  induction as with
  | nil => simp [erase, count]
  | cons a as ih =>
    by_cases h : a.name = n
    · subst h
      simp only [erase, List.eraseP_cons, beq_self_eq_true, cond_true, count_cons]
      omega
    · rw [erase, List.eraseP_cons_of_neg (by simpa using h), ← erase, count_cons, count_cons, ih]
      split
      · rename_i ha
        rw [if_neg fun hn : a.name = name ↦ h (hn.trans ha.symm)]
        omega
      · omega

theorem length_erase {as : List Attribute} {n : String} (h : 0 < count as n) :
    (erase as n).length + 1 = as.length := by
  obtain ⟨a, ha, hn⟩ := List.countP_pos_iff.mp h
  have := List.length_eraseP_of_mem (p := fun a ↦ a.name == n) ha hn
  have := List.length_pos_of_mem ha
  simp only [erase]
  omega

theorem count_le_count_set (as : List Attribute) (n value name : String) :
    count as name ≤ count (set n value as) name := by
  induction as with
  | nil => simp [count]
  | cons a as ih =>
    rw [set]
    split
    · simp [count_cons]
    · simp only [count_cons]
      omega

theorem length_set_le (as : List Attribute) (n value : String) :
    (set n value as).length ≤ as.length + 1 := by
  induction as with
  | nil => simp [set]
  | cons a as ih =>
    rw [set]
    split <;> simp only [List.length_cons] <;> omega

theorem length_set {as : List Attribute} {n : String} (value : String) (h : 0 < count as n) :
    (set n value as).length = as.length := by
  induction as with
  | nil => simp [count] at h
  | cons a as ih =>
    rw [set]
    split
    · simp
    · rename_i ha
      rw [count_cons, if_neg ha] at h
      rw [List.length_cons, List.length_cons, ih h]

end Attribute

end HtmlTemplate
