import HtmlTemplate.Proofs.Number.WholePart
import HtmlTemplate.Proofs.Text.Occurrences
import HtmlTemplate.Proofs.Value.Methods

/-!
# Splitting and joining

The pieces of a text between the occurrences of a separator, with the separator between them, are
the text again, wherever the occurrences stand and however they overlap (`intercalate_pieces`). Each
piece ends in front of the first occurrence of what is left, so none has an occurrence inside
(`not_isInfix_of_mem_pieces`). An empty separator has no pieces in this sense: the text is cut into
its characters instead, and they rejoin as well.

## Overlapping occurrences

A separator may overlap with itself in the text. The text is cut at the first occurrence, and the
search goes on behind it, so an occurrence that begins inside the first one is not found. It is not
in a piece either, since it would have to end in front of the cut or begin behind it.
-/

namespace HtmlTemplate

open Number (StandsFor Whole whole)

variable {sep s part before behind : List Char}

/-! ## Pieces -/

namespace Text

private theorem pieces_ne_nil (h : sep ≠ []) (s : List Char) : pieces sep h s ≠ [] := by
  fun_cases pieces sep h s <;> exact List.cons_ne_nil _ _

/-- **The pieces with the separator between them are the text.** -/
theorem intercalate_pieces (h : sep ≠ []) (s : List Char) :
    sep.intercalate (pieces sep h s) = s := by
  fun_induction pieces sep h s with
  | case1 s hcut => exact List.intercalate_singleton
  | case2 s before behind hcut ih =>
    rw [List.intercalate_cons_of_ne_nil (pieces_ne_nil h behind), ih, List.append_assoc]
    exact append_of_cutAt hcut

/-- Before a first occurrence there is none. -/
theorem IsFirstCut.not_isInfix_before (h : sep ≠ []) (hcut : IsFirstCut sep s before behind) :
    ¬sep <:+: before := by
  rintro ⟨a, b, rfl⟩
  have hpos := List.length_pos_iff.mpr h
  have hfirst : (a ++ sep ++ b).length ≤ a.length := by
    refine hcut.first (b := b ++ (sep ++ behind)) ?_
    rw [← hcut.append, List.append_assoc, List.append_assoc]
  simp only [List.length_append] at hfirst
  omega

/-- **No piece has the separator in it.** -/
theorem not_isInfix_of_mem_pieces (h : sep ≠ []) (hpart : part ∈ pieces sep h s) :
    ¬sep <:+: part := by
  fun_induction pieces sep h s with
  | case1 s hcut =>
    rw [List.mem_singleton.mp hpart]
    exact cutAt_eq_none_iff.mp hcut
  | case2 s before behind hcut ih =>
    obtain rfl | hmem := List.mem_cons.mp hpart
    · exact (cutAt_eq_some_iff.mp hcut).not_isInfix_before h
    · exact ih hmem

end Text

theorem intercalate_singletons (s : List Char) :
    ([] : List Char).intercalate (s.map fun c ↦ [c]) = s := by
  induction s with
  | nil => exact List.intercalate_nil
  | cons c s ih =>
    cases s with
    | nil => exact List.intercalate_singleton
    | cons d s =>
      rw [List.map_cons] at ih
      rw [List.map_cons, List.map_cons, List.intercalate_cons_cons, ih]
      rfl

private theorem intercalate_splitText (sep s : List Char) :
    sep.intercalate (splitText s sep) = s := by
  rw [splitText]
  split_ifs with h
  · exact Text.intercalate_pieces h s
  · rw [not_not.mp h, intercalate_singletons]

namespace Value

/-! ## Parts -/

def parts (s sep : String) : List String := (splitText s.toList sep.toList).map String.ofList

theorem intercalate_parts (s sep : String) : sep.intercalate (parts s sep) = s := by
  have hparts : (parts s sep).map String.toList = splitText s.toList sep.toList := by
    rw [parts, List.map_map]
    exact (List.map_congr_left fun _ _ ↦ String.toList_ofList).trans (List.map_id _)
  rw [← String.toList_inj, String.toList_intercalate, hparts, intercalate_splitText]

theorem itemTexts_map_string (texts : List String) : itemTexts (texts.map string) = texts := by
  induction texts with
  | nil => rw [List.map_nil, itemTexts]
  | cons t texts ih => rw [List.map_cons, itemTexts, ih, toText] <;> exact Value.noConfusion

theorem callMethod_split (s sep : String) :
    (string s).callMethod .split [string sep] = .ok (array ((parts s sep).map string)) := by
  rw [callMethod_string rfl Method.noConfusion, parts, List.map_map]
  rfl

theorem callMethod_split_limit (s sep : String) {limit : Value} (h : limit ≠ undefined) :
    (string s).callMethod .split [string sep, limit] = .ok (array
      (((parts s sep).take ((whole limit.toNumber).clamp 0 (parts s sep).length).toNat).map
        string)) := by
  rw [callMethod_string rfl Method.noConfusion, parts, List.length_map, ← Number.clampTrunc_eq,
    List.map_take, List.map_map]
  show Except.ok (splitValue s (string sep) limit) = _
  rw [splitValue]
  · rw [List.length_map]
    rfl
  · exact h
  · exact Value.noConfusion

private theorem callMethod_split_number (s sep : String) {m : Nat} {x : Float}
    (hx : StandsFor x m) :
    (string s).callMethod .split [string sep, number x] =
      .ok (array (((parts s sep).take m).map string)) := by
  have hm : ((whole x).clamp 0 (parts s sep).length).toNat = min m (parts s sep).length := by
    rw [hx.whole_eq, Whole.clamp]
    omega
  rw [callMethod_split_limit s sep Value.noConfusion, toNumber, hm, ← List.take_eq_take_min]

private theorem callMethod_join (texts : List String) (sep : String) :
    (array (texts.map string)).callMethod .join [string sep] =
      .ok (string (sep.intercalate texts)) := by
  rw [callMethod_array rfl]
  show Except.ok (string (joinItems sep (texts.map string))) = _
  rw [joinItems, itemTexts_map_string]

private theorem not_isInfix_of_mem_parts {s sep text : String} (hsep : sep ≠ "")
    (h : text ∈ parts s sep) :
    ¬sep.toList <:+: text.toList := by
  have hne : sep.toList ≠ [] := mt String.toList_eq_nil_iff.mp hsep
  obtain ⟨part, hpart, rfl⟩ := List.mem_map.mp h
  rw [splitText, dif_pos hne] at hpart
  rw [String.toList_ofList]
  exact Text.not_isInfix_of_mem_pieces hne hpart

/-- **Joining undoes splitting**, no part has the separator in it, and a limit takes that many parts
from the front. -/
theorem join_split (s sep : String) : ∃ texts : List String,
    (string s).callMethod .split [string sep] = .ok (array (texts.map string)) ∧
    (array (texts.map string)).callMethod .join [string sep] = .ok (string s) ∧
    (sep ≠ "" → ∀ text ∈ texts, ¬sep.toList <:+: text.toList) ∧
    ∀ (m : Nat) (x : Float), StandsFor x m →
      (string s).callMethod .split [string sep, number x] =
        .ok (array ((texts.take m).map string)) :=
  ⟨parts s sep, callMethod_split s sep,
    by rw [callMethod_join, intercalate_parts],
    fun hsep _ ↦ not_isInfix_of_mem_parts hsep,
    fun _ _ ↦ callMethod_split_number s sep⟩

/-- The separator of two letters stands in the text twice, and overlaps itself. -/
theorem join_split_overlapping : "aa" ≠ "" ∧ StandsFor (Number.ofNat 1) (1 : Nat) ∧
    ∃ texts : List String,
      (string "aaabaa").callMethod .split [string "aa"] = .ok (array (texts.map string)) ∧
      (array (texts.map string)).callMethod .join [string "aa"] = .ok (string "aaabaa") ∧
      (∀ text ∈ texts, ¬"aa".toList <:+: text.toList) ∧
      (string "aaabaa").callMethod .split [string "aa", number (Number.ofNat 1)] =
        .ok (array ((texts.take 1).map string)) := by
  have hsep : "aa" ≠ "" := by decide
  have h1 : StandsFor (Number.ofNat 1) (1 : Nat) := Number.standsFor_ofNat (by decide)
  obtain ⟨texts, hsplit, hjoin, hnone, hlimit⟩ := join_split "aaabaa" "aa"
  exact ⟨hsep, h1, texts, hsplit, hjoin, hnone hsep, hlimit 1 _ h1⟩

end Value

end HtmlTemplate
