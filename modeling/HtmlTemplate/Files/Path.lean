import HtmlTemplate.Text.Search

/-!
# Paths as text

A path is read without looking at any file: it is the pieces between its slashes, of which empty
ones and single dots say nothing, except for a dot in front of a relative path. The parent of a path
is what is left in front of its last telling piece, two dots included.

The ancestors of a path are itself and then its parent, the parent of that, and so on
(`ancestors_eq`); a relative path comes to the empty path in the end.
-/

namespace HtmlTemplate

/-- A path: the pieces between its slashes, the last one first. A leading slash is none of them. -/
structure Path where
  absolute : Bool
  pieces : List String
deriving DecidableEq

namespace Path

def ofText (s : String) : Path :=
  let split (cs : List Char) := ((Text.pieces ['/'] (by simp) cs).map String.ofList).reverse
  match s.toList with
  | '/' :: cs => ⟨true, split cs⟩
  | cs => ⟨false, split cs⟩

def text (p : Path) : String :=
  (if p.absolute then "/" else "") ++ "/".intercalate p.pieces.reverse

/-- Does a piece say nothing about where a path leads? -/
def isIdle (piece : String) : Bool := piece = "" || piece = "."

/-- Does the first of some pieces count, given those that stand before it in the path? A dot counts
at the beginning of a relative path. -/
def counts (absolute : Bool) (piece : String) (before : List String) : Bool :=
  !isIdle piece || (piece = "." && before.isEmpty && !absolute)

/-- The pieces without those at the end of the path that do not count. -/
def settle (absolute : Bool) : List String → List String
  | [] => []
  | p :: ps => if counts absolute p ps then p :: ps else settle absolute ps

/-- The path without its last piece that counts, if it has one. -/
def parent? (p : Path) : Option Path :=
  match settle p.absolute p.pieces with
  | [] => none
  | _ :: ps => some ⟨p.absolute, settle p.absolute ps⟩

/-- The rests of the pieces that end in a piece that counts, and the empty rest. -/
def settledTails (absolute : Bool) : List String → List (List String)
  | [] => [[]]
  | p :: ps =>
    if counts absolute p ps then (p :: ps) :: settledTails absolute ps
    else settledTails absolute ps

/-- The path, its parent, the parent of that, and so on. -/
def ancestors (p : Path) : List Path := (settledTails p.absolute p.pieces).map (⟨p.absolute, ·⟩)

/-- The path of a name inside a path. -/
def child (p : Path) (name : String) : Path := ⟨p.absolute, name :: p.pieces⟩

private theorem settledTails_eq (absolute : Bool) (ps : List String) :
    settledTails absolute ps = settle absolute ps ::
      match settle absolute ps with
      | [] => []
      | _ :: qs => settledTails absolute qs := by
  induction ps with
  | nil => rfl
  | cons p ps ih =>
    simp only [settledTails, settle]
    split
    · rfl
    · exact ih

private theorem settledTails_settle (absolute : Bool) (ps : List String) :
    settledTails absolute (settle absolute ps) = settledTails absolute ps := by
  induction ps with
  | nil => rfl
  | cons p ps ih =>
    by_cases h : counts absolute p ps
    · simp [settle, h]
    · simp [settle, settledTails, h, ih]

/-- The ancestors are the path, without what does not count at its end, and the ancestors of its
parent. -/
theorem ancestors_eq (p : Path) :
    p.ancestors = ⟨p.absolute, settle p.absolute p.pieces⟩ ::
      match p.parent? with
      | none => []
      | some q => q.ancestors := by
  rw [ancestors, settledTails_eq, List.map_cons, parent?]
  split
  · rfl
  · rename_i q qs h
    simp [ancestors, settledTails_settle]

end Path

end HtmlTemplate
