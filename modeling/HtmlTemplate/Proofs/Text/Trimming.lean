import HtmlTemplate.Text.Blank
import Mathlib.Data.List.TakeWhile
import Mathlib.Tactic.Common

/-!
# Texts without outer blanks

A text is its trimmed part between two runs of blanks (`exists_eq_trim`), and blanks around a text
are of no account for its trimmed part (`trim_between`). So there is nothing to trim any more in a
text that was trimmed (`trim_trim`).

A run of blanks at one end of a text and a run at the other end are taken off independently, unless
the text is all blank. In that case both take off everything, so blank texts are a case of their own
in most of the proofs.
-/

namespace HtmlTemplate.Text

variable {a b s : List Char}

theorem trimStart_append (ha : isAllBlank a = true) (s : List Char) :
    trimStart (a ++ s) = trimStart s := by
  rw [trimStart, List.dropWhile_append_of_pos (List.all_eq_true.mp ha), ← trimStart]

private theorem trimEnd_append (s : List Char) (hb : isAllBlank b = true) :
    trimEnd (s ++ b) = trimEnd s := by
  have hrev : ∀ c ∈ b.reverse, isBlank c = true := fun c hc ↦
    List.all_eq_true.mp hb c (List.mem_reverse.mp hc)
  rw [trimEnd, List.reverse_append, List.dropWhile_append_of_pos hrev, ← trimEnd]

theorem trimStart_eq_nil_iff : trimStart s = [] ↔ isAllBlank s = true := by
  rw [trimStart, List.dropWhile_eq_nil_iff, isAllBlank, List.all_eq_true]

theorem trim_eq_nil_iff : trim s = [] ↔ isAllBlank s = true := by
  refine ⟨fun h ↦ ?_, fun h ↦ by rw [trim, trimStart_eq_nil_iff.mpr h]; rfl⟩
  by_contra hs
  -- the first character that is no blank is kept
  have hne : trimStart s ≠ [] := fun hnil ↦ hs (trimStart_eq_nil_iff.mp hnil)
  rw [trim, trimEnd, List.reverse_eq_nil_iff, List.dropWhile_eq_nil_iff] at h
  have hblank := h _ (List.mem_reverse.mpr (List.head_mem hne))
  exact Bool.false_ne_true ((List.head_dropWhile_not isBlank hne).symm.trans hblank)

/-- **Blanks around a text are of no account.** -/
theorem trim_between (ha : isAllBlank a = true) (hb : isAllBlank b = true) :
    trim (a ++ s ++ b) = trim s := by
  rw [List.append_assoc, trim, trimStart_append ha]
  by_cases hs : isAllBlank s = true
  · have hall : isAllBlank (s ++ b) = true := by
      rw [isAllBlank, List.all_append, Bool.and_eq_true]
      exact ⟨hs, hb⟩
    rw [trimStart_eq_nil_iff.mpr hall, trim_eq_nil_iff.mpr hs]
    rfl
  · have hstart : trimStart (s ++ b) = trimStart s ++ b := by
      have hne : trimStart s ≠ [] := fun hnil ↦ hs (trimStart_eq_nil_iff.mp hnil)
      rw [trimStart, List.dropWhile_append, if_neg (by rwa [List.isEmpty_iff]), ← trimStart]
    rw [hstart, trimEnd_append _ hb, ← trim]

theorem exists_eq_trim (s : List Char) :
    ∃ a b, isAllBlank a = true ∧ isAllBlank b = true ∧ s = a ++ trim s ++ b := by
  refine ⟨s.takeWhile isBlank, ((trimStart s).reverse.takeWhile isBlank).reverse, ?_, ?_, ?_⟩
  · exact List.all_takeWhile
  · rw [isAllBlank, List.all_reverse]
    exact List.all_takeWhile
  · rw [List.append_assoc, trim, trimEnd, ← List.reverse_append, List.takeWhile_append_dropWhile,
      List.reverse_reverse, trimStart, List.takeWhile_append_dropWhile]

theorem trim_trim (s : List Char) : trim (trim s) = trim s := by
  obtain ⟨a, b, ha, hb, hs⟩ := exists_eq_trim s
  conv_rhs => rw [hs, trim_between ha hb]

theorem filter_of_isAllBlank {p : Char → Bool} (hp : ∀ c, isBlank c = true → p c = false)
    (h : isAllBlank s = true) : s.filter p = [] :=
  List.filter_eq_nil_iff.mpr fun c hc ↦ by
    rw [hp c (List.all_eq_true.mp h c hc)]
    exact Bool.false_ne_true

theorem filter_trim {p : Char → Bool} (hp : ∀ c, isBlank c = true → p c = false) (s : List Char) :
    (trim s).filter p = s.filter p := by
  obtain ⟨a, b, ha, hb, hs⟩ := exists_eq_trim s
  conv_rhs => rw [hs, List.filter_append, List.filter_append, filter_of_isAllBlank hp ha,
    filter_of_isAllBlank hp hb, List.nil_append, List.append_nil]

theorem mem_of_mem_trim {c : Char} (h : c ∈ trim s) : c ∈ s := by
  obtain ⟨a, b, -, -, hs⟩ := exists_eq_trim s
  rw [hs]
  exact List.mem_append_left _ (List.mem_append_right _ h)

theorem trim_toList {s : String} (h : trimmed s = s) : trim s.toList = s.toList := by
  rw [← String.toList_ofList (l := trim s.toList), ← trimmed, h]

theorem trimmed_trimmed (s : String) : trimmed (trimmed s) = trimmed s := by
  rw [trimmed, trimmed, String.toList_ofList, trim_trim]

end HtmlTemplate.Text
