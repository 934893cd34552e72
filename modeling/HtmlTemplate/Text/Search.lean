/-!
# Searching and cutting text

The first occurrence of a text in another, and the pieces between its occurrences. An occurrence
is always the leftmost one, and the search goes on behind it.
-/

namespace HtmlTemplate.Text

/-- Cuts at the first occurrence of `sep`: what stands before it and what stands behind it. -/
def cutAt (sep : List Char) : List Char → Option (List Char × List Char)
  | [] => if sep.isEmpty then some ([], []) else none
  | c :: s =>
    if sep.isPrefixOf (c :: s) then some ([], (c :: s).drop sep.length)
    else (cutAt sep s).map fun (before, behind) ↦ (c :: before, behind)

/-- A cut loses nothing. -/
theorem append_of_cutAt {sep s a b : List Char} (h : cutAt sep s = some (a, b)) :
    a ++ (sep ++ b) = s := by
  induction s generalizing a b with
  | nil =>
    rw [cutAt] at h
    split at h
    · simp_all
    · simp at h
  | cons c s ih =>
    rw [cutAt] at h
    split at h
    · rename_i hp
      simp only [Option.some.injEq, Prod.mk.injEq] at h
      obtain ⟨rfl, rfl⟩ := h
      obtain ⟨t, ht⟩ := List.isPrefixOf_iff_prefix.mp hp
      rw [← ht]
      simp
    · obtain ⟨⟨a', b'⟩, hab, he⟩ := Option.map_eq_some_iff.mp h
      simp only [Prod.mk.injEq] at he
      obtain ⟨rfl, rfl⟩ := he
      simp [ih hab]

theorem length_of_cutAt {sep s a b : List Char} (h : cutAt sep s = some (a, b)) :
    a.length + sep.length + b.length = s.length := by
  rw [← append_of_cutAt h]
  simp [Nat.add_assoc]

/-- Does `needle` occur in `s`? -/
def occursIn (needle s : List Char) : Bool := (cutAt needle s).isSome

/-- The position of the first occurrence of `needle`, in characters. -/
def positionOf (needle s : List Char) : Option Nat := (cutAt needle s).map (·.1.length)

/-- The pieces of `s` between the occurrences of a separator that is not empty. -/
def pieces (sep : List Char) (nonempty : sep ≠ []) (s : List Char) : List (List Char) :=
  match _h : cutAt sep s with
  | none => [s]
  | some (before, behind) => before :: pieces sep nonempty behind
termination_by s.length
decreasing_by
  have := length_of_cutAt _h
  have := List.length_pos_iff.mpr nonempty
  omega

/-- Replaces the first occurrence of `needle`. -/
def replaceFirst (needle replacement s : List Char) : List Char :=
  match cutAt needle s with
  | none => s
  | some (before, behind) => before ++ replacement ++ behind

/-- Cuts at the first character that satisfies `p`, which belongs to neither part. -/
def cutAtChar (p : Char → Bool) : List Char → Option (List Char × List Char)
  | [] => none
  | c :: s => if p c then some ([], s) else (cutAtChar p s).map fun (a, b) ↦ (c :: a, b)

private theorem append_of_cutAtChar {p : Char → Bool} {s a b : List Char}
    (h : cutAtChar p s = some (a, b)) : ∃ c, p c = true ∧ a ++ c :: b = s := by
  induction s generalizing a b with
  | nil => simp [cutAtChar] at h
  | cons c s ih =>
    rw [cutAtChar] at h
    split at h
    · rename_i hc
      simp only [Option.some.injEq, Prod.mk.injEq] at h
      exact ⟨c, hc, by simp [← h.1, h.2]⟩
    · obtain ⟨⟨a', b'⟩, hab, he⟩ := Option.map_eq_some_iff.mp h
      simp only [Prod.mk.injEq] at he
      obtain ⟨d, hd, hs⟩ := ih hab
      exact ⟨d, hd, by simp [← he.1, ← he.2, hs]⟩

theorem length_of_cutAtChar {p : Char → Bool} {s a b : List Char}
    (h : cutAtChar p s = some (a, b)) : a.length + 1 + b.length = s.length := by
  obtain ⟨c, _, rfl⟩ := append_of_cutAtChar h
  simp only [List.length_append, List.length_cons]
  omega

end HtmlTemplate.Text
