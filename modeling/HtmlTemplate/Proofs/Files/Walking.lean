import HtmlTemplate.Files.Directory
import Mathlib.Tactic.Common

/-!
# Walking along a path

The pieces of a path lead from location to location, the two dots back to the directory that a
location is in. Walking looks at no file; a directory that follows a path gets where the walk gets,
and everything on the way is a directory (`Directory.walk_of_follow`). Conversely, the way to a file
through names alone is always open (`Directory.follow_of_at?`).

## Walking and following

To follow a path means to look whether each location on the way is a directory. Walking is the same
without looking, so it always gets somewhere, and where following succeeds the two agree. They
differ where a name on the way is missing or a file: two dots behind it lead walking back and
following nowhere.
-/

namespace HtmlTemplate

namespace Path

variable {l : Location} {ps k : List String}

/-- Where pieces lead from a location. The directory of all files is in itself. -/
def walk (l : Location) : List String → Location
  | [] => l
  | p :: ps =>
    if isIdle p then walk l ps
    else if p = ".." then walk l.tail ps
    else walk (p :: l) ps

def locate (current : Location) (p : Path) : Location :=
  walk (if p.absolute then [] else current) p.pieces.reverse

/-- The names among pieces that have no two dots. -/
def names (ps : List String) : List String := ps.filter fun p ↦ !isIdle p

theorem walk_append (l : Location) (ps qs : List String) :
    walk l (ps ++ qs) = walk (walk l ps) qs := by
  induction ps generalizing l with
  | nil => rfl
  | cons p ps ih =>
    rw [List.cons_append, walk, walk]
    split_ifs <;> exact ih _

theorem names_cons_of_isIdle {piece : String} (h : isIdle piece = true) (ps : List String) :
    names (piece :: ps) = names ps :=
  List.filter_cons_of_neg (by rw [h]; decide)

theorem names_cons {piece : String} (h : isIdle piece = false) (ps : List String) :
    names (piece :: ps) = piece :: names ps :=
  List.filter_cons_of_pos (by rw [h]; decide)

theorem exists_suffix_of_suffix_names (h : k <:+ names ps) (hne : k ≠ []) :
    ∃ p us, p :: us <:+ ps ∧ isIdle p = false ∧ names (p :: us) = k := by
  induction ps with
  | nil => exact absurd (List.suffix_nil.mp h) hne
  | cons p ps ih =>
    cases hidle : isIdle p with
    | true =>
      rw [names_cons_of_isIdle hidle] at h
      obtain ⟨q, us, hus, hq, hk⟩ := ih h
      exact ⟨q, us, hus.trans (List.suffix_cons p ps), hq, hk⟩
    | false =>
      rw [names_cons hidle] at h
      obtain rfl | h := List.suffix_cons_iff.mp h
      · exact ⟨p, ps, List.suffix_rfl, hidle, names_cons hidle ps⟩
      · obtain ⟨q, us, hus, hq, hk⟩ := ih h
        exact ⟨q, us, hus.trans (List.suffix_cons p ps), hq, hk⟩

theorem names_reverse (ps : List String) : names ps.reverse = (names ps).reverse :=
  List.filter_reverse

theorem walk_of_notMem (h : ".." ∉ ps) : walk l ps = (names ps).reverse ++ l := by
  induction ps generalizing l with
  | nil => rfl
  | cons p ps ih =>
    obtain ⟨hp, hps⟩ := not_or.mp (mt List.mem_cons.mpr h)
    rw [walk, if_neg (Ne.symm hp), ih hps, ih hps]
    cases hidle : isIdle p with
    | true => rw [names_cons_of_isIdle hidle, if_pos rfl]
    | false =>
      rw [names_cons hidle, if_neg Bool.false_ne_true, List.reverse_cons, List.append_assoc]
      rfl

end Path

namespace Directory

open HtmlTemplate.Path (walk names)

variable {d : Directory} {l m current : Location} {ps qs : List String} {name : String} {f : File}

theorem follow_cons (d : Directory) (l : Location) (p : String) (ps : List String) :
    d.follow l (p :: ps) =
      if d.isDirectory l = false then none
      else if Path.isIdle p then d.follow l ps
      else if p = ".." then l.tail?.bind (d.follow · ps)
      else d.follow (p :: l) ps := by
  cases l <;> simp [follow]

theorem follow_append (d : Directory) (l : Location) (ps qs : List String) :
    d.follow l (ps ++ qs) = (d.follow l ps).bind (d.follow · qs) := by
  induction ps generalizing l with
  | nil => rfl
  | cons p ps ih =>
    rw [List.cons_append, follow_cons, follow_cons]
    split_ifs
    · rfl
    · exact ih l
    · cases l with
      | nil => rfl
      | cons q up => exact ih up
    · exact ih (p :: l)

/-- **A path that is followed leads where it is walked**, wherever the directory is. -/
theorem walk_of_follow (h : d.follow l ps = some m) (current : Location) :
    walk (l ++ current) ps = m ++ current := by
  induction ps generalizing l with
  | nil =>
    rw [follow] at h
    rw [walk, Option.some.inj h]
  | cons p ps ih =>
    rw [follow_cons] at h
    rw [walk]
    split_ifs at h ⊢
    · exact ih h
    · cases l with
      | nil => exact nomatch h
      | cons q up => exact ih h
    · exact ih h

theorem isDirectory_of_at? (h : d.at? (name :: (qs ++ l)) = some f) : d.isDirectory l = true := by
  obtain ⟨before, behind, rfl, -⟩ := List.lookup_eq_some_iff.mp h
  rw [isDirectory, Bool.or_eq_true, List.any_eq_true]
  refine .inr ⟨(name :: (qs ++ l), f), by simp, ?_⟩
  rw [Bool.and_eq_true, List.isSuffixOf_iff_suffix, bne_iff_ne]
  refine ⟨(List.suffix_append qs l).trans (List.suffix_cons name _), fun heq ↦ ?_⟩
  have hlength := congrArg List.length heq
  simp only [List.length_cons, List.length_append] at hlength
  omega

/-- **The way to a file through names is open.** -/
theorem follow_of_at? (h : d.at? (name :: ((names ps).reverse ++ l)) = some f) (hps : ".." ∉ ps)
    (hname : Path.isIdle name = false) (hup : name ≠ "..") :
    d.follow l (ps ++ [name]) = some (name :: ((names ps).reverse ++ l)) := by
  induction ps generalizing l with
  | nil =>
    rw [List.nil_append, follow_cons, isDirectory_of_at? h, hname, if_neg hup]
    rfl
  | cons p ps ih =>
    obtain ⟨hp, hps⟩ := not_or.mp (mt List.mem_cons.mpr hps)
    rw [List.cons_append, follow_cons, isDirectory_of_at? h, if_neg (Ne.symm hp)]
    cases hidle : Path.isIdle p with
    | true =>
      rw [Path.names_cons_of_isIdle hidle] at h ⊢
      exact ih h hps
    | false =>
      have hnames : (names (p :: ps)).reverse ++ l = (names ps).reverse ++ p :: l := by
        rw [Path.names_cons hidle, List.reverse_cons, List.append_assoc]
        rfl
      rw [hnames] at h ⊢
      exact ih h hps

end Directory

end HtmlTemplate
