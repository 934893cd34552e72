import HtmlTemplate.Markup.Attribute
import Mathlib.Data.List.Nodup
import Mathlib.Tactic.Common

/-!
# Names of attributes

Setting and erasing look for an attribute by its name. On the names alone, setting appends a name
that is missing and erasing takes the first one away, so names that are distinct stay distinct.
Among the attributes of some names only, both do the same if the name that they look for is one of
those, and nothing otherwise.

The first part of this is what keeps an element canonical while directives change its attributes.
The second lets a claim about some attributes be proved for these alone: attributes that a claim
does not speak of are left out on both sides.
-/

namespace HtmlTemplate.Attribute

/-! ## All names -/

theorem map_name_set (as : List Attribute) (key value : String) :
    (set key value as).map name =
      if key ∈ as.map name then as.map name else as.map name ++ [key] := by
  induction as with
  | nil => rfl
  | cons a as ih =>
    rw [set]
    by_cases h : a.name = key
    · rw [if_pos h, List.map_cons, List.map_cons, if_pos (by simp [h])]
    · rw [if_neg h, List.map_cons, List.map_cons, ih]
      have hne : ¬key = a.name := fun hk ↦ h hk.symm
      by_cases hmem : key ∈ as.map name
      · rw [if_pos hmem, if_pos (List.mem_cons_of_mem _ hmem)]
      · rw [if_neg hmem, if_neg (by rw [List.mem_cons, not_or]; exact ⟨hne, hmem⟩),
          List.cons_append]

theorem map_name_set_subset (as : List Attribute) (key value : String) :
    (set key value as).map name ⊆ key :: as.map name := by
  rw [map_name_set]
  split
  · exact List.subset_cons_self _ _
  · intro n hn
    rw [List.mem_append, List.mem_singleton] at hn
    exact List.mem_cons.mpr hn.symm

theorem nodup_map_name_set {as : List Attribute} (key value : String) (h : (as.map name).Nodup) :
    ((set key value as).map name).Nodup := by
  rw [map_name_set]
  split
  · exact h
  · rename_i hmem
    exact List.nodup_append_comm.mp (List.nodup_cons.mpr ⟨hmem, h⟩)

theorem map_name_erase_sublist (as : List Attribute) (key : String) :
    ((erase as key).map name).Sublist (as.map name) :=
  List.eraseP_sublist.map _

theorem map_name_erase (as : List Attribute) (key : String) :
    (erase as key).map name = (as.map name).erase key := by
  induction as with
  | nil => rfl
  | cons a as ih =>
    by_cases h : a.name = key
    · rw [erase, List.eraseP_cons_of_pos (by simp [h]), List.map_cons, h, List.erase_cons_head]
    · rw [erase, List.eraseP_cons_of_neg (by simp [h]), ← erase, List.map_cons, List.map_cons, ih,
        List.erase_cons_tail (by simp [h])]

/-! ## Some names -/

variable (p : String → Bool) (as : List Attribute) {key : String}

def named : List Attribute := as.filter fun a ↦ p a.name

theorem named_cons_of_pos {a : Attribute} (h : p a.name = true) :
    named p (a :: as) = a :: named p as := List.filter_cons_of_pos h

theorem named_cons_of_neg {a : Attribute} (h : p a.name = false) :
    named p (a :: as) = named p as := List.filter_cons_of_neg (Bool.eq_false_iff.mp h)

theorem mem_named {p : String → Bool} {as : List Attribute} {a : Attribute} :
    a ∈ named p as ↔ a ∈ as ∧ p a.name = true := List.mem_filter

variable {p}

theorem named_set_of_pos (value : String) (h : p key = true) :
    named p (set key value as) = set key value (named p as) := by
  induction as with
  | nil => exact named_cons_of_pos p [] h
  | cons a as ih =>
    rw [set]
    by_cases ha : a.name = key
    · rw [if_pos ha, named_cons_of_pos p _ (by exact ha ▸ h), named_cons_of_pos p _ (ha ▸ h), set,
        if_pos ha]
    · rw [if_neg ha]
      cases hp : p a.name with
      | true => rw [named_cons_of_pos p _ hp, named_cons_of_pos p _ hp, set, if_neg ha, ih]
      | false => rw [named_cons_of_neg p _ hp, named_cons_of_neg p _ hp, ih]

theorem named_set_of_neg (value : String) (h : p key = false) :
    named p (set key value as) = named p as := by
  induction as with
  | nil => exact named_cons_of_neg p [] h
  | cons a as ih =>
    rw [set]
    by_cases ha : a.name = key
    · rw [if_pos ha, named_cons_of_neg p _ (by exact ha ▸ h), named_cons_of_neg p _ (ha ▸ h)]
    · rw [if_neg ha, named, named, List.filter_cons, List.filter_cons, ← named, ← named, ih]

theorem named_erase_of_pos (h : p key = true) :
    named p (erase as key) = erase (named p as) key := by
  induction as with
  | nil => rfl
  | cons a as ih =>
    by_cases ha : a.name = key
    · rw [erase, List.eraseP_cons_of_pos (by simpa using ha), named_cons_of_pos p _ (ha ▸ h), erase,
        List.eraseP_cons_of_pos (by simpa using ha)]
    · rw [erase, List.eraseP_cons_of_neg (by simpa using ha), ← erase]
      cases hp : p a.name with
      | true =>
        rw [named_cons_of_pos p _ hp, named_cons_of_pos p _ hp, ih, erase, erase,
          List.eraseP_cons_of_neg (by simpa using ha)]
      | false => rw [named_cons_of_neg p _ hp, named_cons_of_neg p _ hp, ih]

theorem named_erase_of_neg (h : p key = false) : named p (erase as key) = named p as := by
  induction as with
  | nil => rfl
  | cons a as ih =>
    by_cases ha : a.name = key
    · rw [erase, List.eraseP_cons_of_pos (by simpa using ha), named_cons_of_neg p _ (ha ▸ h)]
    · rw [erase, List.eraseP_cons_of_neg (by simpa using ha), ← erase, named, named,
        List.filter_cons, List.filter_cons, ← named, ← named, ih]

theorem get?_named (h : p key = true) : get? (named p as) key = get? as key := by
  induction as with
  | nil => rfl
  | cons a as ih =>
    cases hp : p a.name with
    | true => rw [named_cons_of_pos p _ hp, get?_cons, get?_cons, ih]
    | false =>
      have ha : a.name ≠ key := fun he ↦ Bool.false_ne_true (hp.symm.trans (he ▸ h))
      rw [named_cons_of_neg p _ hp, get?_cons, if_neg ha, ih]

end HtmlTemplate.Attribute
