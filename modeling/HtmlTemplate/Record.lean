/-!
# Records

Named entries in the order in which their names were first put in. A name that is put in again
keeps its place and takes the new value.
-/

namespace HtmlTemplate

/-- Named entries in the order of insertion. -/
abbrev Record (α : Type) := List (String × α)

namespace Record

variable {α β : Type}

def keys (r : Record α) : List String := r.map (·.1)

/-- The value under a name. -/
def get? (r : Record α) (key : String) : Option α := r.lookup key

def contains (r : Record α) (key : String) : Bool := (r.get? key).isSome

/-- Puts a value under a name. -/
def insert (key : String) (value : α) : Record α → Record α
  | [] => [(key, value)]
  | (k, v) :: r => if k = key then (k, value) :: r else (k, v) :: insert key value r

/-- Puts the entries of a list in, one after another. -/
def ofList (entries : List (String × α)) : Record α :=
  entries.foldl (fun r (k, v) ↦ r.insert k v) []

@[simp] theorem get?_nil (key : String) : get? ([] : Record α) key = none := rfl

theorem get?_cons (k : String) (v : α) (r : Record α) (key : String) :
    get? ((k, v) :: r) key = if k = key then some v else get? r key := by
  by_cases h : k = key
  · simp [get?, h]
  · simp [get?, List.lookup_cons, h, beq_eq_false_iff_ne.mpr (Ne.symm h)]

theorem get?_insert (r : Record α) (k key : String) (v : α) :
    (r.insert k v).get? key = if k = key then some v else r.get? key := by
  induction r with
  | nil => simp only [insert, get?_cons, get?_nil]
  | cons e r ih =>
    obtain ⟨k', v'⟩ := e
    by_cases h : k' = k
    · subst h
      simp only [insert, if_pos, get?_cons]
      split <;> simp_all
    · simp only [insert, if_neg h, get?_cons, ih]
      split
      · rename_i hk
        rw [if_neg]
        rintro rfl
        exact h hk
      · rfl

end Record

end HtmlTemplate
