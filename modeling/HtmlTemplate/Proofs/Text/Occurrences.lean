import HtmlTemplate.Proofs.Text.Scanning

/-!
# The first occurrence, and the first text between two marks

`cutAt` finds an occurrence whenever there is one, and finds the first (`cutAt_eq_some_iff`). A text
between two marks, which has one character at least, is found by two cuts: at the first opening
mark, and at the first closing mark behind one character more. No other choice of the opening mark
has to be tried, because what closes a later one closes the first one as well. So the text that is
found stands farthest to the left, and is the shortest of those that begin there
(`enclosed?_eq_some_iff`).

## First and shortest

Of two occurrences the first one has less in front of it, and both begin in the same text, so one
beginning is a beginning of the other (`exists_append_of_length_le`). The order of occurrences is
that of the lengths in front of them, and statements about the first one are proved by comparing two
beginnings.
-/

namespace HtmlTemplate.Text

variable {sep opening closing s before content behind : List Char}

theorem exists_append_of_length_le {a b c d : List Char} (h : a ++ b = c ++ d)
    (hle : a.length ≤ c.length) : ∃ x, c = a ++ x ∧ b = x ++ d := by
  obtain ⟨x, rfl⟩ := List.prefix_of_prefix_length_le ⟨b, h⟩ (List.prefix_append c d) hle
  rw [List.append_assoc] at h
  exact ⟨x, rfl, List.append_cancel_left h⟩

/-! ## Occurrences -/

/-- Does the first occurrence of `sep` in `s` stand between `before` and `behind`? -/
structure IsFirstCut (sep s before behind : List Char) : Prop where
  append : before ++ (sep ++ behind) = s
  first : ∀ {a b}, a ++ (sep ++ b) = s → before.length ≤ a.length

/-- Where there is an occurrence, a cut is made, and not behind it. -/
theorem exists_cutAt (a b : List Char) :
    ∃ before behind, cutAt sep (a ++ (sep ++ b)) = some (before, behind) ∧
      before.length ≤ a.length := by
  induction a with
  | nil =>
    rw [List.nil_append]
    rcases hs : sep ++ b with _ | ⟨c, t⟩
    · rw [(List.append_eq_nil_iff.mp hs).1]
      exact ⟨[], [], rfl, Nat.le_refl _⟩
    · have hprefix : sep.isPrefixOf (c :: t) = true := by
        rw [← hs, List.isPrefixOf_iff_prefix]
        exact List.prefix_append sep b
      rw [cutAt, if_pos hprefix]
      exact ⟨_, _, rfl, Nat.le_refl _⟩
  | cons c a ih =>
    obtain ⟨before, behind, hcut, hle⟩ := ih
    rw [List.cons_append, cutAt]
    split
    · exact ⟨_, _, rfl, Nat.zero_le _⟩
    · rw [hcut]
      exact ⟨_, _, rfl, Nat.succ_le_succ hle⟩

theorem cutAt_eq_none_iff : cutAt sep s = none ↔ ¬sep <:+: s := by
  constructor
  · rintro h ⟨a, b, rfl⟩
    obtain ⟨before, behind, hcut, -⟩ := @exists_cutAt sep a b
    rw [List.append_assoc] at h
    exact nomatch h.symm.trans hcut
  · intro h
    rcases hcut : cutAt sep s with _ | ⟨before, behind⟩
    · rfl
    · exact absurd ⟨before, behind, by rw [List.append_assoc, append_of_cutAt hcut]⟩ h

/-- **A cut is made at the first occurrence.** -/
theorem cutAt_eq_some_iff :
    cutAt sep s = some (before, behind) ↔ IsFirstCut sep s before behind := by
  constructor
  · intro h
    refine ⟨append_of_cutAt h, fun {a b} hs ↦ ?_⟩
    subst hs
    obtain ⟨_, _, hcut, hle⟩ := @exists_cutAt sep a b
    cases h.symm.trans hcut
    exact hle
  · rintro ⟨rfl, hfirst⟩
    obtain ⟨a, b, hcut, hle⟩ := @exists_cutAt sep before behind
    have happend := append_of_cutAt hcut
    obtain ⟨rfl, htail⟩ := List.append_inj happend (Nat.le_antisymm hle (hfirst happend))
    rw [hcut, List.append_cancel_left htail]

theorem IsFirstCut.append_right (h : IsFirstCut sep (before ++ sep) before [])
    (behind : List Char) :
    IsFirstCut sep (before ++ (sep ++ behind)) before behind := by
  refine ⟨rfl, fun {a b} hs ↦ ?_⟩
  by_contra hlt
  -- an occurrence further on the left ends before the text behind begins
  obtain ⟨x, hx, -⟩ : ∃ x, before ++ sep = a ++ sep ++ x ∧ b = x ++ behind := by
    refine exists_append_of_length_le ?_ ?_
    · rw [List.append_assoc, List.append_assoc, hs]
    · simp only [List.length_append]
      omega
  rw [List.append_assoc] at hx
  exact hlt (h.first hx.symm)

theorem cutAt_append_cons {x : List Char} {d : Char} (hsep : sep ≠ []) (hd : d ∉ sep)
    (hx : ¬sep <:+: x) (y : List Char) :
    cutAt sep (x ++ d :: y) = (cutAt sep y).map fun (a, b) ↦ (x ++ d :: a, b) := by
  induction x with
  | nil =>
    have hfront : ¬sep.isPrefixOf (d :: y) = true := by
      rw [List.isPrefixOf_iff_prefix]
      intro hprefix
      obtain ⟨e, sep, rfl⟩ := List.exists_cons_of_ne_nil hsep
      exact hd ((List.cons_prefix_cons.mp hprefix).1 ▸ List.mem_cons_self)
    rw [List.nil_append, cutAt, if_neg hfront]
    rfl
  | cons c x ih =>
    have hfront : ¬sep.isPrefixOf (c :: x ++ d :: y) = true := by
      rw [List.isPrefixOf_iff_prefix]
      exact fun hprefix ↦ hx (prefix_of_prefix_append hprefix (List.cons_ne_nil c x)
        fun hmem ↦ hd (List.mem_of_mem_tail hmem)).isInfix
    rw [List.cons_append] at hfront ⊢
    rw [cutAt, if_neg hfront, ih fun hinfix ↦ hx (List.infix_cons hinfix), Option.map_map]
    rfl

/-! ## Texts between two marks -/

/-- Does `content` stand in `s` between an opening and a closing mark? It has one character at
least. -/
def IsEnclosed (opening closing s before content behind : List Char) : Prop :=
  content ≠ [] ∧ before ++ (opening ++ (content ++ (closing ++ behind))) = s

/-- Of all texts between the two marks, is `content` the one farthest to the left, and the shortest
of those that begin there? -/
structure IsFirstEnclosed (opening closing s before content behind : List Char) : Prop where
  isEnclosed : IsEnclosed opening closing s before content behind
  leftmost : ∀ {a c b}, IsEnclosed opening closing s a c b → before.length ≤ a.length
  shortest : ∀ {a c b}, IsEnclosed opening closing s a c b → a.length = before.length →
    content.length ≤ c.length

/-- The first text between two marks: what stands before the opening mark, the text, and what stands
behind the closing mark. -/
def enclosed? (opening closing s : List Char) : Option (List Char × List Char × List Char) :=
  match cutAt opening s with
  | some (before, c :: t) =>
    (cutAt closing t).map fun (more, behind) ↦ (before, c :: more, behind)
  | _ => none

theorem isEnclosed_of_enclosed? (h : enclosed? opening closing s = some (before, content, behind)) :
    IsEnclosed opening closing s before content behind := by
  unfold enclosed? at h
  split at h
  · rename_i c t hopening
    obtain ⟨⟨more, rest⟩, hclosing, he⟩ := Option.map_eq_some_iff.mp h
    cases he
    refine ⟨List.cons_ne_nil _ _, ?_⟩
    rw [List.cons_append, append_of_cutAt hclosing, append_of_cutAt hopening]
  · exact nomatch h

/-- **What closes a later opening mark closes the first one**, so the text that is found begins and
ends no later than any other. -/
theorem exists_enclosed? {a c b : List Char} (h : IsEnclosed opening closing s a c b) :
    ∃ before content behind, enclosed? opening closing s = some (before, content, behind) ∧
      before.length ≤ a.length ∧ before.length + content.length ≤ a.length + c.length := by
  obtain ⟨hc, rfl⟩ := h
  obtain ⟨before, rest, hopening, hle⟩ := @exists_cutAt opening a (c ++ (closing ++ b))
  have hpos := List.length_pos_iff.mpr hc
  -- the closing mark stands behind the first opening mark and one character
  obtain ⟨x, hx, hrest⟩ : ∃ x, a ++ (opening ++ c) = before ++ opening ++ x ∧
      rest = x ++ (closing ++ b) := by
    refine exists_append_of_length_le ?_ ?_
    · rw [List.append_assoc, append_of_cutAt hopening]
      simp only [List.append_assoc]
    · simp only [List.length_append]
      omega
  have hlength := congrArg List.length hx
  simp only [List.length_append] at hlength
  rcases x with _ | ⟨d, x⟩
  · rw [List.length_nil] at hlength
    omega
  · rw [List.length_cons] at hlength
    obtain ⟨more, behind, hclosing, hmore⟩ := @exists_cutAt closing x b
    rw [hrest, List.cons_append] at hopening
    refine ⟨before, d :: more, behind, ?_, hle, ?_⟩
    · simp only [enclosed?, hopening, hclosing, Option.map_some]
    · rw [List.length_cons]
      omega

theorem enclosed?_eq_none_iff :
    enclosed? opening closing s = none ↔
      ∀ before content behind, ¬IsEnclosed opening closing s before content behind := by
  constructor
  · intro h before content behind henclosed
    obtain ⟨_, _, _, hfound, -⟩ := exists_enclosed? henclosed
    exact nomatch h.symm.trans hfound
  · intro h
    rcases hfound : enclosed? opening closing s with _ | ⟨before, content, behind⟩
    · rfl
    · exact absurd (isEnclosed_of_enclosed? hfound) (h before content behind)

/-- **The text that is found is the one farthest to the left, the shortest that begins there.** -/
theorem enclosed?_eq_some_iff :
    enclosed? opening closing s = some (before, content, behind) ↔
      IsFirstEnclosed opening closing s before content behind := by
  constructor
  · intro h
    refine ⟨isEnclosed_of_enclosed? h, fun {a c b} he ↦ ?_, fun {a c b} he hlength ↦ ?_⟩
    · obtain ⟨_, _, _, hfound, hle, -⟩ := exists_enclosed? he
      cases h.symm.trans hfound
      exact hle
    · obtain ⟨_, _, _, hfound, -, hle⟩ := exists_enclosed? he
      cases h.symm.trans hfound
      omega
  · intro h
    obtain ⟨a, c, b, hfound, hbefore, hcontent⟩ := exists_enclosed? h.isEnclosed
    have he := isEnclosed_of_enclosed? hfound
    have hlength := Nat.le_antisymm hbefore (h.leftmost he)
    have hshortest := h.shortest he hlength
    -- both begin and end at the same places of the text
    obtain ⟨rfl, htail⟩ := List.append_inj (he.2.trans h.isEnclosed.2.symm) hlength
    obtain ⟨rfl, hend⟩ := List.append_inj (List.append_cancel_left htail) (by omega)
    rw [hfound, List.append_cancel_left hend]

theorem exists_isFirstEnclosed {a c b : List Char} (h : IsEnclosed opening closing s a c b) :
    ∃ before content behind, IsFirstEnclosed opening closing s before content behind := by
  obtain ⟨before, content, behind, hfound, -⟩ := exists_enclosed? h
  exact ⟨before, content, behind, enclosed?_eq_some_iff.mp hfound⟩

end HtmlTemplate.Text
