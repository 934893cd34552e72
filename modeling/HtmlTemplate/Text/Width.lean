/-!
# Byte widths

Positions inside an expression or a text are byte offsets into its UTF-8 form. The library works
on lists of characters, so an offset is the width of what stands before it.
-/

namespace HtmlTemplate.Text

/-- The number of bytes of a text in UTF-8. -/
def width : List Char → Nat
  | [] => 0
  | c :: s => c.utf8Size + width s

@[simp] theorem width_nil : width [] = 0 := rfl

@[simp] theorem width_cons (c : Char) (s : List Char) : width (c :: s) = c.utf8Size + width s :=
  rfl

@[simp] theorem width_append (s t : List Char) : width (s ++ t) = width s + width t := by
  induction s with
  | nil => simp
  | cons c s ih => simp [ih, Nat.add_assoc]

/-- What stands behind the first `n` bytes, if a character ends there. -/
def dropBytes : Nat → List Char → Option (List Char)
  | 0, s => some s
  | _ + 1, [] => none
  | n + 1, c :: s => if c.utf8Size ≤ n + 1 then dropBytes (n + 1 - c.utf8Size) s else none
termination_by _ s => s.length

/-- The first `n` bytes, if a character ends there. -/
def takeBytes : Nat → List Char → Option (List Char)
  | 0, _ => some []
  | _ + 1, [] => none
  | n + 1, c :: s =>
    if c.utf8Size ≤ n + 1 then (takeBytes (n + 1 - c.utf8Size) s).map (c :: ·) else none
termination_by _ s => s.length

/-- The text between two byte offsets; empty when they are not the ends of characters of `s`. -/
def slice (start stop : Nat) (s : List Char) : List Char :=
  (((dropBytes start s).bind (takeBytes (stop - start))).getD [])

@[simp] theorem dropBytes_zero (s : List Char) : dropBytes 0 s = some s := by
  rw [dropBytes]

@[simp] theorem takeBytes_zero (s : List Char) : takeBytes 0 s = some [] := by
  rw [takeBytes]

theorem dropBytes_append (s t : List Char) : dropBytes (width s) (s ++ t) = some t := by
  induction s with
  | nil => simp
  | cons c s ih =>
    obtain ⟨n, hn⟩ : ∃ n, width (c :: s) = n + 1 :=
      ⟨width (c :: s) - 1, by have := Char.utf8Size_pos c; simp only [width_cons]; omega⟩
    have hc : c.utf8Size ≤ n + 1 := by simp only [width_cons] at hn; omega
    have hs : n + 1 - c.utf8Size = width s := by simp only [width_cons] at hn; omega
    rw [hn, List.cons_append, dropBytes, if_pos hc, hs, ih]

theorem takeBytes_append (s t : List Char) : takeBytes (width s) (s ++ t) = some s := by
  induction s with
  | nil => simp
  | cons c s ih =>
    obtain ⟨n, hn⟩ : ∃ n, width (c :: s) = n + 1 :=
      ⟨width (c :: s) - 1, by have := Char.utf8Size_pos c; simp only [width_cons]; omega⟩
    have hc : c.utf8Size ≤ n + 1 := by simp only [width_cons] at hn; omega
    have hs : n + 1 - c.utf8Size = width s := by simp only [width_cons] at hn; omega
    rw [hn, List.cons_append, takeBytes, if_pos hc, hs, ih, Option.map_some]

/-- The text at its own place is read back. -/
theorem slice_append (a s b : List Char) :
    slice (width a) (width a + width s) (a ++ (s ++ b)) = s := by
  simp [slice, dropBytes_append, takeBytes_append]

end HtmlTemplate.Text
