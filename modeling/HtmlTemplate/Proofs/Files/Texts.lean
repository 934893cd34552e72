import HtmlTemplate.Proofs.Files.Ancestors
import HtmlTemplate.Proofs.Text.Scanning

/-!
# Texts of relative paths

The text of a relative path is read as the path again, if it has pieces and the first of them is not
empty (`ofText_text`): behind an empty one the text would begin with a slash. All paths that stand
in front of pieces of a relative path are of this kind.

## Two exceptions

The empty text is read as a path with one empty piece, and a path without pieces is written as the
empty text. A text that begins with a slash is read as an absolute path. Both are ruled out by
asking for a first piece that is not empty.
-/

namespace HtmlTemplate.Path

variable {p q : Path} {ps qs : List String} {s name : String}

/-- Is the path relative, with pieces that a slash can stand between? -/
structure IsPlain (p : Path) : Prop where
  relative : p.absolute = false
  no_slash : ∀ piece ∈ p.pieces, '/' ∉ piece.toList
  begins : p.pieces.getLast? ≠ some ""

theorem ofText_of_ne_slash (h : s.toList.head? ≠ some '/') :
    ofText s = ⟨false, ((s.toList.splitOn '/').map String.ofList).reverse⟩ := by
  rw [ofText]
  split
  · rename_i cs hcs
    rw [hcs] at h
    exact absurd rfl h
  · simp only [Text.pieces_singleton]

theorem ofText_empty : ofText "" = ⟨false, [""]⟩ := by
  rw [ofText_of_ne_slash (by simp)]
  rfl

theorem head?_splitOn_cons {c d : Char} (h : d ≠ c) (s : List Char) :
    ((d :: s).splitOn c).head? ≠ some [] := by
  rw [List.splitOn_cons_eq_if_modifyHead, if_neg (by simpa using h), List.head?_modifyHead]
  simp

theorem isPlain_ofText (hne : s ≠ "") (h : (ofText s).absolute = false) : (ofText s).IsPlain := by
  obtain ⟨c, cs, hs⟩ := List.exists_cons_of_ne_nil (mt String.toList_eq_nil_iff.mp hne)
  have hc : c ≠ '/' := by
    rintro rfl
    rw [ofText, hs] at h
    exact nomatch h
  rw [ofText_of_ne_slash (by rw [hs]; simpa using hc), hs]
  refine ⟨rfl, ?_, ?_⟩
  · intro piece hpiece
    obtain ⟨part, hpart, rfl⟩ := List.mem_map.mp (List.mem_reverse.mp hpiece)
    rw [String.toList_ofList]
    exact Text.not_mem_of_mem_splitOn hpart
  · rw [List.getLast?_reverse, List.head?_map]
    intro hempty
    obtain ⟨part, hpart, hnil⟩ := Option.map_eq_some_iff.mp hempty
    obtain rfl : part = [] := String.ofList_injective hnil
    exact head?_splitOn_cons hc cs hpart

theorem IsPlain.of_suffix (h : IsPlain ⟨false, ps⟩) (hqs : qs <:+ ps) : IsPlain ⟨false, qs⟩ := by
  refine ⟨rfl, fun piece hpiece ↦ h.no_slash piece (hqs.subset hpiece), ?_⟩
  obtain ⟨rs, rfl⟩ := hqs
  cases qs with
  | nil => simp
  | cons q qs =>
    show (q :: qs).getLast? ≠ _
    have hbegins := h.begins
    rwa [List.getLast?_append, List.getLast?_cons, Option.some_or, ← List.getLast?_cons] at hbegins

theorem IsPlain.of_parent? (h : p.IsPlain) (hparent : p.parent? = some q) : q.IsPlain := by
  obtain ⟨absolute, pieces⟩ := p
  obtain rfl : absolute = false := h.relative
  rw [parent?] at hparent
  split at hparent
  · cases hparent
  · rename_i piece ps hsettle
    obtain rfl := Option.some.inj hparent
    have hpieces : piece :: ps <:+ pieces := by
      rw [← hsettle]
      exact settle_suffix false pieces
    exact h.of_suffix ((settle_suffix false ps).trans ((List.suffix_cons piece ps).trans hpieces))

theorem IsPlain.child (h : p.IsPlain) (hname : '/' ∉ name.toList) (hne : name ≠ "") :
    (p.child name).IsPlain := by
  refine ⟨h.relative, List.forall_mem_cons.mpr ⟨hname, h.no_slash⟩, ?_⟩
  show (name :: p.pieces).getLast? ≠ _
  rw [List.getLast?_cons]
  cases hlast : p.pieces.getLast? with
  | none => simpa using hne
  | some piece => exact hlast ▸ h.begins

theorem head?_intercalate_cons {c : Char} (cs : List Char) (parts : List (List Char)) :
    (['/'].intercalate ((c :: cs) :: parts)).head? = some c := by
  cases parts with
  | nil => rw [List.intercalate_singleton, List.head?_cons]
  | cons part parts =>
    rw [List.intercalate_cons_cons]
    rfl

/-- **The text of a path is read as the path.** -/
theorem IsPlain.ofText_text (h : p.IsPlain) (hne : p.pieces ≠ []) : ofText p.text = p := by
  have hlist : p.text.toList = ['/'].intercalate (p.pieces.reverse.map String.toList) := by
    rw [text, h.relative]
    simp [String.toList_intercalate]
  have hhead : p.text.toList.head? ≠ some '/' := by
    obtain ⟨piece, pieces, hpieces⟩ :=
      List.exists_cons_of_ne_nil (mt List.reverse_eq_nil_iff.mp hne)
    have hbegins := h.begins
    rw [← List.head?_reverse, hpieces, List.head?_cons] at hbegins
    obtain ⟨c, cs, hc⟩ :=
      List.exists_cons_of_ne_nil
      (mt String.toList_eq_nil_iff.mp fun he ↦ hbegins (congrArg some he))
    have hmem : piece ∈ p.pieces := List.mem_reverse.mp (hpieces ▸ List.mem_cons_self)
    have hslash := h.no_slash piece hmem
    rw [hc, List.mem_cons, not_or] at hslash
    rw [hlist, hpieces, List.map_cons, hc, head?_intercalate_cons]
    exact fun heq ↦ hslash.1 (Option.some.inj heq).symm
  have hparts : ∀ part ∈ p.pieces.reverse.map String.toList, '/' ∉ part := by
    simpa using h.no_slash
  rw [ofText_of_ne_slash hhead, hlist, List.splitOn_intercalate _ hparts (by simpa using hne),
    List.map_map]
  obtain ⟨absolute, pieces⟩ := p
  obtain rfl : absolute = false := h.relative
  simp [Function.comp_def]

theorem IsPlain.text_eq_empty_iff (h : p.IsPlain) : p.text = "" ↔ p.pieces = [] := by
  constructor
  · intro htext
    by_contra hne
    have hp := h.ofText_text hne
    rw [htext, ofText_empty] at hp
    exact absurd h.begins (by rw [← hp]; simp)
  · intro hnil
    rw [text, h.relative, hnil]
    rfl

end HtmlTemplate.Path
