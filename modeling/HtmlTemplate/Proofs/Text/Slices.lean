import HtmlTemplate.Text.Width
import Mathlib.Tactic.Common

/-!
# Slices of a text that stands in another

A slice is taken by byte offsets, so the slice of a text is found in every text that contains it,
moved by the width of what stands before (`slice_append_append`).

## Offsets that cut nothing

Dropping bytes from a text succeeds only at ends of characters, and then what is left stands at the
end of the text, behind so many bytes. So a slice that is taken is a part of the text. That an
offset is a good one is never asked by itself; it follows from the text that is left there.
-/

namespace HtmlTemplate.Text

variable {n : Nat} {s t : List Char}

/-- Is the byte offset an end of a character of the text, or its beginning? -/
def IsBoundary (s : List Char) (n : Nat) : Prop := ∃ a b, s = a ++ b ∧ n = width a

theorem width_pos_of_ne_nil (h : s ≠ []) : 0 < width s := by
  obtain ⟨c, t, rfl⟩ := List.exists_cons_of_ne_nil h
  exact Nat.add_pos_left c.utf8Size_pos _

theorem width_replicate (n : Nat) (c : Char) : width (List.replicate n c) = n * c.utf8Size := by
  induction n with
  | zero => rw [List.replicate_zero, width_nil, Nat.zero_mul]
  | succ n ih => rw [List.replicate_succ, width_cons, ih, Nat.succ_mul, Nat.add_comm]

theorem dropBytes_cons (c : Char) (s : List Char) (n : Nat) (h : c.utf8Size ≤ n) :
    dropBytes n (c :: s) = dropBytes (n - c.utf8Size) s := by
  rcases n with _ | n
  · have := Char.utf8Size_pos c
    omega
  · rw [dropBytes, if_pos h]

theorem takeBytes_cons (c : Char) (s : List Char) (n : Nat) (h : c.utf8Size ≤ n) :
    takeBytes n (c :: s) = (takeBytes (n - c.utf8Size) s).map (c :: ·) := by
  rcases n with _ | n
  · have := Char.utf8Size_pos c
    omega
  · rw [takeBytes, if_pos h]

theorem dropBytes_cons_of_lt {c : Char} (s : List Char) (hn : n ≠ 0) (h : n < c.utf8Size) :
    dropBytes n (c :: s) = none := by
  rcases n with _ | n
  · exact absurd rfl hn
  · rw [dropBytes, if_neg (Nat.not_le.mpr h)]

theorem takeBytes_cons_of_lt {c : Char} (s : List Char) (hn : n ≠ 0) (h : n < c.utf8Size) :
    takeBytes n (c :: s) = none := by
  rcases n with _ | n
  · exact absurd rfl hn
  · rw [takeBytes, if_neg (Nat.not_le.mpr h)]

theorem dropBytes_append_add (s t : List Char) (n : Nat) :
    dropBytes (n + width s) (s ++ t) = dropBytes n t := by
  induction s with
  | nil => rfl
  | cons c s ih =>
    rw [List.cons_append, width_cons, dropBytes_cons _ _ _ (by omega),
      show n + (c.utf8Size + width s) - c.utf8Size = n + width s by omega, ih]

theorem dropBytes_add (h : dropBytes n s = some t) (m : Nat) :
    dropBytes (n + m) s = dropBytes m t := by
  induction s generalizing n with
  | nil =>
    rcases n with _ | n
    · rw [dropBytes_zero] at h
      cases h
      rw [Nat.zero_add]
    · rw [dropBytes] at h
      cases h
  | cons c s ih =>
    by_cases hn : n = 0
    · subst hn
      rw [dropBytes_zero] at h
      cases h
      rw [Nat.zero_add]
    · by_cases hc : c.utf8Size ≤ n
      · rw [dropBytes_cons c s n hc] at h
        rw [dropBytes_cons c s (n + m) (by omega), ← ih h]
        congr 1
        omega
      · rw [dropBytes_cons_of_lt s hn (Nat.lt_of_not_le hc)] at h
        cases h

theorem exists_of_dropBytes (h : dropBytes n s = some t) : ∃ a, s = a ++ t ∧ n = width a := by
  induction s generalizing n with
  | nil =>
    rcases n with _ | n
    · rw [dropBytes_zero] at h
      cases h
      exact ⟨[], rfl, rfl⟩
    · rw [dropBytes] at h
      cases h
  | cons c s ih =>
    by_cases hn : n = 0
    · subst hn
      rw [dropBytes_zero] at h
      cases h
      exact ⟨[], rfl, rfl⟩
    · by_cases hc : c.utf8Size ≤ n
      · rw [dropBytes_cons c s n hc] at h
        obtain ⟨a, rfl, hwidth⟩ := ih h
        refine ⟨c :: a, rfl, ?_⟩
        rw [width_cons]
        omega
      · rw [dropBytes_cons_of_lt s hn (Nat.lt_of_not_le hc)] at h
        cases h

private theorem exists_of_takeBytes (h : takeBytes n s = some t) :
    ∃ b, s = t ++ b ∧ n = width t := by
  induction s generalizing n t with
  | nil =>
    rcases n with _ | n
    · rw [takeBytes_zero] at h
      cases h
      exact ⟨[], rfl, rfl⟩
    · rw [takeBytes] at h
      cases h
  | cons c s ih =>
    by_cases hn : n = 0
    · subst hn
      rw [takeBytes_zero] at h
      cases h
      exact ⟨c :: s, rfl, rfl⟩
    · by_cases hc : c.utf8Size ≤ n
      · rw [takeBytes_cons c s n hc] at h
        obtain ⟨u, hu, rfl⟩ := Option.map_eq_some_iff.mp h
        obtain ⟨b, rfl, hwidth⟩ := ih hu
        refine ⟨b, rfl, ?_⟩
        rw [width_cons]
        omega
      · rw [takeBytes_cons_of_lt s hn (Nat.lt_of_not_le hc)] at h
        cases h

theorem width_slice_le (start stop : Nat) (s : List Char) :
    width (slice start stop s) ≤ width s := by
  unfold slice
  rcases hslice : (dropBytes start s).bind (takeBytes (stop - start)) with _ | t
  · exact Nat.zero_le _
  · obtain ⟨u, hdrop, htake⟩ := Option.bind_eq_some_iff.mp hslice
    obtain ⟨a, rfl, -⟩ := exists_of_dropBytes hdrop
    obtain ⟨b, rfl, -⟩ := exists_of_takeBytes htake
    rw [width_append, width_append, Option.getD_some]
    omega

theorem width_of_dropBytes (h : dropBytes n s = some t) : width t + n = width s := by
  obtain ⟨a, rfl, rfl⟩ := exists_of_dropBytes h
  rw [width_append, Nat.add_comm]

theorem takeBytes_of_dropBytes {a : List Char} (hs : s = a ++ t) (h : dropBytes n s = some t) :
    takeBytes n s = some a := by
  obtain ⟨b, hb, rfl⟩ := exists_of_dropBytes h
  obtain rfl := List.append_cancel_right (hs.symm.trans hb)
  rw [hs, takeBytes_append]

theorem dropBytes_append_of_le (t : List Char) (h : n ≤ width s) :
    dropBytes n (s ++ t) = (dropBytes n s).map (· ++ t) := by
  induction s generalizing n with
  | nil =>
    obtain rfl : n = 0 := Nat.le_zero.mp h
    rw [dropBytes_zero, dropBytes_zero]
    rfl
  | cons c s ih =>
    rw [width_cons] at h
    by_cases hn : n = 0
    · subst hn
      rw [dropBytes_zero, dropBytes_zero]
      rfl
    · by_cases hc : c.utf8Size ≤ n
      · rw [List.cons_append, dropBytes_cons c _ n hc, dropBytes_cons c s n hc, ih (by omega)]
      · have hlt := Nat.lt_of_not_le hc
        rw [List.cons_append, dropBytes_cons_of_lt _ hn hlt, dropBytes_cons_of_lt s hn hlt]
        rfl

theorem takeBytes_append_of_le (t : List Char) (h : n ≤ width s) :
    takeBytes n (s ++ t) = takeBytes n s := by
  induction s generalizing n with
  | nil =>
    obtain rfl : n = 0 := Nat.le_zero.mp h
    rw [takeBytes_zero, takeBytes_zero]
  | cons c s ih =>
    rw [width_cons] at h
    by_cases hn : n = 0
    · subst hn
      rw [takeBytes_zero, takeBytes_zero]
    · by_cases hc : c.utf8Size ≤ n
      · rw [List.cons_append, takeBytes_cons c _ n hc, takeBytes_cons c s n hc, ih (by omega)]
      · have hlt := Nat.lt_of_not_le hc
        rw [List.cons_append, takeBytes_cons_of_lt _ hn hlt, takeBytes_cons_of_lt s hn hlt]

theorem width_takeWhile_le (p : Char → Bool) (s : List Char) : width (s.takeWhile p) ≤ width s := by
  have happend := width_append (s.takeWhile p) (s.dropWhile p)
  rw [List.takeWhile_append_dropWhile] at happend
  omega

theorem width_dropWhile_le (p : Char → Bool) (s : List Char) : width (s.dropWhile p) ≤ width s := by
  have happend := width_append (s.takeWhile p) (s.dropWhile p)
  rw [List.takeWhile_append_dropWhile] at happend
  omega

theorem slice_of_le {start stop : Nat} (h : stop ≤ start) (s : List Char) :
    slice start stop s = [] := by
  rw [slice, Nat.sub_eq_zero_of_le h]
  rcases dropBytes start s with _ | t
  · rfl
  · rw [Option.bind_some, takeBytes_zero]
    rfl

/-- **A slice of a text is a slice of every text around it**, so much further on as is the text. -/
theorem slice_append_append (before s behind : List Char) (start : Nat) {stop : Nat}
    (h : stop ≤ width s) :
    slice (start + width before) (stop + width before) (before ++ (s ++ behind)) =
      slice start stop s := by
  by_cases hlt : start < stop
  · rw [slice, slice, dropBytes_append_add, dropBytes_append_of_le behind (by omega),
      Nat.add_sub_add_right]
    rcases hdrop : dropBytes start s with _ | t
    · rfl
    · have := width_of_dropBytes hdrop
      rw [Option.map_some, Option.bind_some, Option.bind_some,
        takeBytes_append_of_le behind (by omega)]
  · have hle := Nat.le_of_not_lt hlt
    rw [slice_of_le (Nat.add_le_add_right hle _), slice_of_le hle]

end HtmlTemplate.Text
