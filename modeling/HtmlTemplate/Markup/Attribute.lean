import HtmlTemplate.Markup.Node

/-!
# Attributes of an element

An element's attributes are an ordered map from names to values. Of a repeated name the first
attribute counts; setting a value keeps the place of the name.
-/

namespace HtmlTemplate

namespace Attribute

/-- The value under a name. -/
def get? (as : List Attribute) (name : String) : Option String :=
  (as.find? fun a ↦ a.name == name).map (·.value)

/-- Sets the value under a name. -/
def set (name value : String) : List Attribute → List Attribute
  | [] => [⟨name, value⟩]
  | a :: as => if a.name = name then ⟨a.name, value⟩ :: as else a :: set name value as

/-- Takes the first attribute of a name away. -/
def erase (as : List Attribute) (name : String) : List Attribute :=
  as.eraseP fun a ↦ a.name == name

/-- Is there an attribute of the name? -/
def has (as : List Attribute) (name : String) : Bool := as.any fun a ↦ a.name == name

/-- The first attribute of each name. -/
def firstOfEach : List Attribute → List Attribute
  | [] => []
  | a :: as => a :: (firstOfEach as).filter fun b ↦ b.name != a.name

@[simp] theorem get?_nil (name : String) : get? [] name = none := rfl

theorem get?_cons (a : Attribute) (as : List Attribute) (name : String) :
    get? (a :: as) name = if a.name = name then some a.value else get? as name := by
  by_cases h : a.name = name
  · simp [get?, h]
  · simp [get?, h]

theorem get?_set (as : List Attribute) (n name value : String) :
    get? (set n value as) name = if n = name then some value else get? as name := by
  induction as with
  | nil => simp only [set, get?_cons, get?_nil]
  | cons a as ih =>
    by_cases h : a.name = n
    · subst h
      simp only [set, if_pos, get?_cons]
      split <;> rfl
    · simp only [set, if_neg h, get?_cons, ih]
      split
      · rename_i hn
        rw [if_neg]
        rintro rfl
        exact h hn
      · rfl

theorem set_set (as : List Attribute) (name value value' : String) :
    set name value' (set name value as) = set name value' as := by
  induction as with
  | nil => exact if_pos rfl
  | cons a as ih =>
    by_cases h : a.name = name
    · rw [set, if_pos h, set, set, if_pos h, if_pos h]
    · rw [set, if_neg h, set, set, if_neg h, if_neg h, ih]

theorem get?_erase_of_ne {as : List Attribute} {key name : String} (h : key ≠ name) :
    get? (erase as key) name = get? as name := by
  induction as with
  | nil => rfl
  | cons a as ih =>
    by_cases ha : a.name = key
    · rw [erase, List.eraseP_cons_of_pos (by simpa using ha), get?_cons, if_neg (ha ▸ h)]
    · rw [erase, List.eraseP_cons_of_neg (by simpa using ha), ← erase, get?_cons, get?_cons, ih]

end Attribute

namespace Element

def attribute? (e : Element) (name : String) : Option String := Attribute.get? e.attributes name

def hasAttribute (e : Element) (name : String) : Bool := Attribute.has e.attributes name

/-- The element with a value under a name. -/
def setAttribute (e : Element) (name value : String) : Element :=
  { e with attributes := Attribute.set name value e.attributes }

/-- The element without the first attribute of a name. -/
def eraseAttribute (e : Element) (name : String) : Element :=
  { e with attributes := Attribute.erase e.attributes name }

/-- The value of the first attribute of a name, and the element without that attribute. -/
def removeAttribute (e : Element) (name : String) : Option String × Element :=
  match e.attributes.findIdx? fun a ↦ a.name == name with
  | none => (none, e)
  | some i => (e.attributes[i]?.map (·.value), { e with attributes := e.attributes.eraseIdx i })

theorem removeAttribute_eq (e : Element) (name : String) :
    e.removeAttribute name = (e.attribute? name, e.eraseAttribute name) := by
  obtain ⟨tag, as, cs⟩ := e
  rw [removeAttribute, attribute?, Attribute.get?, List.find?_eq_bind_findIdx?_getElem?,
    eraseAttribute, Attribute.erase, List.eraseP_eq_eraseIdx]
  dsimp only
  split
  · rename_i h
    rw [h]
    rfl
  · rename_i i h
    rw [h]
    rfl

end Element

end HtmlTemplate
