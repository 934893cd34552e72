import HtmlTemplate.Files.Path
import Mathlib.Tactic.Common

/-!
# The chain of parents

The ancestors of a path are listed by one recursion over its pieces. They are a chain: it starts at
the path, without the pieces at its end that do not count, and goes from each member to its parent
for as long as there is one (`ancestors_getElem?`).

## Pieces that do not count

Empty pieces and single dots at the end of a path do not count, so a path and its parent differ by
more than one piece now and then. The recursion over the pieces leaves them out as it meets them. A
member of the chain has none at its end (`map_settled_parent?`), which is why the parent of a member
is the next one.
-/

namespace HtmlTemplate.Path

/-- The path without the pieces at its end that do not count. -/
def settled (p : Path) : Path := ⟨p.absolute, settle p.absolute p.pieces⟩

def climb (p : Path) : Nat → Option Path
  | 0 => some p.settled
  | i + 1 => (climb p i).bind parent?

@[simp] theorem settle_settle (absolute : Bool) (ps : List String) :
    settle absolute (settle absolute ps) = settle absolute ps := by
  induction ps with
  | nil => rfl
  | cons p ps ih =>
    by_cases h : counts absolute p ps
    · simp [settle, h]
    · simpa [settle, h] using ih

theorem settle_suffix (absolute : Bool) (ps : List String) : settle absolute ps <:+ ps := by
  induction ps with
  | nil => exact List.suffix_rfl
  | cons p ps ih =>
    rw [settle]
    split
    · exact List.suffix_rfl
    · exact ih.trans (List.suffix_cons p ps)

@[simp] theorem parent?_settled (p : Path) : p.settled.parent? = p.parent? := by
  simp [parent?, settled]

theorem map_settled_parent? (p : Path) : p.parent?.map settled = p.parent? := by
  rw [parent?]
  split
  · rfl
  · simp [settled]

theorem climb_succ (p : Path) (i : Nat) : p.climb (i + 1) = p.parent?.bind (climb · i) := by
  induction i with
  | zero =>
    calc p.climb 1
      _ = p.parent? := parent?_settled p
      _ = p.parent?.map settled := (map_settled_parent? p).symm
      _ = p.parent?.bind (climb · 0) := Option.map_eq_bind
  | succ i ih =>
    rw [climb, ih, Option.bind_assoc]
    rfl

/-- **The ancestors are the chain of parents.** -/
theorem ancestors_getElem? (p : Path) (i : Nat) : p.ancestors[i]? = p.climb i := by
  induction i generalizing p with
  | zero =>
    rw [ancestors_eq]
    rfl
  | succ i ih =>
    rw [ancestors_eq, List.getElem?_cons_succ, climb_succ]
    cases p.parent? with
    | none => rfl
    | some q => exact ih q

end HtmlTemplate.Path
