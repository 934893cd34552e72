import HtmlTemplate.Text.Ascii
import HtmlTemplate.Text.Blank
import HtmlTemplate.Text.Search
import Mathlib.Data.List.TakeWhile
import Mathlib.Tactic.Common

/-!
# Scanners on text that goes on

A scanner stops at the first character outside its class, so on a run of the class followed by such
a character it takes exactly the run. The lemmas here say so for the scanners of the library, with
arbitrary text behind, which is the form that reading back written text needs.

## How the lemmas are stated

A lemma takes a run of the class, a character that ends it, and any text behind that character; the
run with nothing behind it is a case of its own only where it is needed. Cutting at a character and
splitting at it are put in terms of runs, so that what holds of runs is used for them, too.
-/

namespace HtmlTemplate.Text

/-! ## Runs -/

theorem takeWhile_append_stop {p : Char → Bool} {s : List Char} {d : Char} (t : List Char)
    (hs : ∀ c ∈ s, p c = true) (hd : p d = false) : (s ++ d :: t).takeWhile p = s := by
  rw [List.takeWhile_append_of_pos hs, List.takeWhile_cons_of_neg (by simp [hd]), List.append_nil]

theorem dropWhile_append_stop {p : Char → Bool} {s : List Char} {d : Char} (t : List Char)
    (hs : ∀ c ∈ s, p c = true) (hd : p d = false) : (s ++ d :: t).dropWhile p = d :: t := by
  rw [List.dropWhile_append_of_pos hs, List.dropWhile_cons_of_neg (by simp [hd])]

theorem takeWhile_append_cons {p : Char → Bool} {d : Char} (s t : List Char) (hd : p d = false) :
    (s ++ d :: t).takeWhile p = s.takeWhile p := by
  induction s with
  | nil => exact List.takeWhile_cons_of_neg (by simp [hd])
  | cons c s ih => rw [List.cons_append, List.takeWhile_cons, List.takeWhile_cons, ih]

theorem dropWhile_append_cons {p : Char → Bool} {d : Char} (s t : List Char) (hd : p d = false) :
    (s ++ d :: t).dropWhile p = s.dropWhile p ++ d :: t := by
  induction s with
  | nil => exact List.dropWhile_cons_of_neg (by simp [hd])
  | cons c s ih =>
    rw [List.cons_append, List.dropWhile_cons, List.dropWhile_cons, ih]
    split_ifs <;> rfl

theorem takeWhile_append_of_dropWhile {p : Char → Bool} {s u : List Char} {c : Char}
    (t : List Char) (h : s.dropWhile p = c :: u) :
    (s ++ t).takeWhile p = s.takeWhile p ∧ (s ++ t).dropWhile p = c :: (u ++ t) := by
  induction s with
  | nil => cases h
  | cons d s ih =>
    rw [List.cons_append, List.takeWhile_cons, List.dropWhile_cons, List.takeWhile_cons]
    rw [List.dropWhile_cons] at h
    split_ifs at h ⊢
    · exact ⟨by rw [(ih h).1], (ih h).2⟩
    · exact ⟨rfl, by rw [← List.cons_append, h, List.cons_append]⟩

theorem cutAtChar_append_stop {p : Char → Bool} {s : List Char} {d : Char} (t : List Char)
    (hs : ∀ c ∈ s, p c = false) (hd : p d = true) : cutAtChar p (s ++ d :: t) = some (s, t) := by
  induction s with
  | nil => rw [List.nil_append, cutAtChar, if_pos hd]
  | cons c s ih =>
    rw [List.cons_append, cutAtChar, if_neg (by simp [hs c List.mem_cons_self]),
      ih fun e he ↦ hs e (List.mem_cons_of_mem c he), Option.map_some]

theorem takeWhile_of_cutAtChar {p : Char → Bool} {s a b : List Char}
    (h : cutAtChar p s = some (a, b)) :
    s.takeWhile (fun c ↦ !p c) = a ∧ ∃ c, p c = true ∧ s = a ++ c :: b := by
  induction s generalizing a with
  | nil => cases h
  | cons c s ih =>
    rw [cutAtChar] at h
    by_cases hc : p c = true
    · rw [if_pos hc] at h
      cases h
      exact ⟨List.takeWhile_cons_of_neg (by simp [hc]), c, hc, rfl⟩
    · rw [if_neg hc] at h
      obtain ⟨⟨a', b'⟩, hcut, he⟩ := Option.map_eq_some_iff.mp h
      cases he
      obtain ⟨htake, d, hd, rfl⟩ := ih hcut
      exact ⟨by rw [List.takeWhile_cons_of_pos (by simp [hc]), htake], d, hd, rfl⟩

theorem takeWhile_of_cutAtChar_eq_none {p : Char → Bool} {s : List Char}
    (h : cutAtChar p s = none) : s.takeWhile (fun c ↦ !p c) = s := by
  induction s with
  | nil => rfl
  | cons c s ih =>
    rw [cutAtChar] at h
    by_cases hc : p c = true
    · rw [if_pos hc] at h
      cases h
    · rw [if_neg hc, Option.map_eq_none_iff] at h
      rw [List.takeWhile_cons_of_pos (by simp [hc]), ih h]

theorem cutAt_singleton (c : Char) (s : List Char) : cutAt [c] s = cutAtChar (· == c) s := by
  induction s with
  | nil => rfl
  | cons d s ih =>
    have hfront : [c].isPrefixOf (d :: s) = (d == c) := by
      rw [List.isPrefixOf_cons_cons, List.isPrefixOf_nil_left, Bool.and_true, Bool.beq_comm]
    rw [cutAt, cutAtChar, hfront, ih]
    rfl

theorem splitOn_of_cutAtChar_eq_none {c : Char} {s : List Char}
    (h : cutAtChar (· == c) s = none) : s.splitOn c = [s] := by
  refine List.splitOn_eq_singleton fun hmem ↦ ?_
  rw [← takeWhile_of_cutAtChar_eq_none h] at hmem
  simpa using List.mem_takeWhile_imp hmem

theorem splitOn_of_cutAtChar {c : Char} {s a b : List Char}
    (h : cutAtChar (· == c) s = some (a, b)) : s.splitOn c = a :: b.splitOn c := by
  obtain ⟨htake, d, hd, rfl⟩ := takeWhile_of_cutAtChar h
  have hc : c ∉ a := fun hmem ↦ by
    rw [← htake] at hmem
    simpa using List.mem_takeWhile_imp hmem
  obtain rfl : d = c := eq_of_beq hd
  exact List.splitOn_append_cons_self_of_not_mem hc b

theorem pieces_singleton (c : Char) (nonempty : [c] ≠ []) (s : List Char) :
    pieces [c] nonempty s = s.splitOn c := by
  fun_induction pieces with
  | case1 s hcut =>
    rw [cutAt_singleton] at hcut
    exact (splitOn_of_cutAtChar_eq_none hcut).symm
  | case2 s before behind hcut ih =>
    rw [cutAt_singleton] at hcut
    rw [splitOn_of_cutAtChar hcut, ih]

theorem splitOn_append_of_not_mem {c : Char} {a : List Char} (h : c ∉ a) (s : List Char) :
    (a ++ s).splitOn c = (s.splitOn c).modifyHead (a ++ ·) := by
  induction a with
  | nil => exact (congrFun List.modifyHead_id _).symm
  | cons d a ih =>
    obtain ⟨hd, ha⟩ := not_or.mp (mt List.mem_cons.mpr h)
    rw [List.cons_append, List.splitOn_cons_eq_if_modifyHead,
      if_neg fun he ↦ hd (eq_of_beq he).symm, ih ha, List.modifyHead_modifyHead]
    rfl

theorem not_mem_of_mem_splitOn {c : Char} {s part : List Char} (h : part ∈ s.splitOn c) :
    c ∉ part := by
  induction s generalizing part with
  | nil =>
    rw [List.mem_singleton.mp h]
    exact List.not_mem_nil
  | cons d s ih =>
    rw [List.splitOn_cons_eq_if_modifyHead] at h
    split at h
    · rcases List.mem_cons.mp h with rfl | h
      · exact List.not_mem_nil
      · exact ih h
    · rename_i hd
      obtain ⟨first, parts, hs⟩ := List.exists_cons_of_ne_nil (List.splitOn_ne_nil c s)
      rw [hs, List.modifyHead_cons] at h
      rcases List.mem_cons.mp h with rfl | h
      · exact List.not_mem_cons_of_ne_of_not_mem (fun hcd ↦ hd (beq_of_eq hcd.symm))
          (ih (hs ▸ List.mem_cons_self))
      · exact ih (hs ▸ List.mem_cons_of_mem _ h)

@[simp] theorem trimStart_cons_of_blank {c : Char} (s : List Char) (h : isBlank c = true) :
    trimStart (c :: s) = trimStart s := by
  rw [trimStart, List.dropWhile_cons_of_pos h, ← trimStart]

@[simp] theorem trimStart_cons_of_not_blank {c : Char} (s : List Char) (h : isBlank c = false) :
    trimStart (c :: s) = c :: s := by
  rw [trimStart, List.dropWhile_cons_of_neg (by simp [h])]

/-! ## Occurrences

A text occurs in another one if it is in front of an end of it. -/

theorem occursIn_of_cons {sep s : List Char} {c : Char} (h : occursIn sep (c :: s) = false) :
    sep.isPrefixOf (c :: s) = false ∧ occursIn sep s = false := by
  rw [occursIn, cutAt] at h
  by_cases hp : sep.isPrefixOf (c :: s) = true
  · rw [if_pos hp] at h
    exact absurd h (by simp)
  · rw [if_neg hp, Option.isSome_map] at h
    exact ⟨by rwa [Bool.not_eq_true] at hp, h⟩

theorem occursIn_cons_iff {sep s : List Char} {c : Char} :
    occursIn sep (c :: s) = false ↔ sep.isPrefixOf (c :: s) = false ∧ occursIn sep s = false := by
  refine ⟨occursIn_of_cons, fun ⟨hp, hs⟩ ↦ ?_⟩
  rw [occursIn, cutAt, if_neg (by simp [hp]), Option.isSome_map]
  exact hs

theorem occursIn_of_cutAt {sep s a b : List Char} (hsep : sep ≠ [])
    (h : cutAt sep s = some (a, b)) : occursIn sep a = false := by
  induction s generalizing a with
  | nil =>
    rw [cutAt, if_neg (by simpa using hsep)] at h
    exact absurd h (by simp)
  | cons c s ih =>
    rw [cutAt] at h
    split at h
    · simp only [Option.some.injEq, Prod.mk.injEq] at h
      rw [← h.1, occursIn, cutAt, if_neg (by simpa using hsep)]
      rfl
    · rename_i hp
      obtain ⟨⟨a', b'⟩, hab, he⟩ := Option.map_eq_some_iff.mp h
      simp only [Prod.mk.injEq] at he
      obtain ⟨rfl, rfl⟩ := he
      refine occursIn_cons_iff.mpr ⟨?_, ih hab⟩
      rw [List.isPrefixOf_iff_prefix] at hp
      rw [← Bool.not_eq_true, List.isPrefixOf_iff_prefix]
      refine fun hpre ↦ hp (hpre.trans ?_)
      rw [← append_of_cutAt hab]
      exact List.prefix_append (c :: a') _

/-- Where a text goes on with a character that a pattern has in front at most, the pattern does not
run over into what follows. -/
theorem prefix_of_prefix_append {p x y : List Char} {d : Char} (h : p <+: x ++ d :: y)
    (hx : x ≠ []) (hd : d ∉ p.tail) : p <+: x := by
  rcases List.prefix_or_prefix_of_prefix h (List.prefix_append x (d :: y)) with hp | ⟨r, rfl⟩
  · exact hp
  · rw [List.prefix_append_right_inj] at h
    cases r with
    | nil => exact ⟨[], by simp⟩
    | cons e r =>
      obtain ⟨c, x, rfl⟩ := List.exists_cons_of_ne_nil hx
      rw [List.cons_prefix_cons] at h
      refine absurd ?_ hd
      rw [List.cons_append, List.tail_cons, List.mem_append, h.1]
      exact Or.inr List.mem_cons_self

/-! ## ASCII letters

Letters are compared by their scalar values, and lowering a capital adds 32 to its own. -/

theorem isUpper_iff {c : Char} : c.isUpper = true ↔ 65 ≤ c.toNat ∧ c.toNat ≤ 90 := by
  delta Char.isUpper
  simp [UInt32.le_iff_toNat_le, ← Char.toNat_val]

theorem isLower_iff {c : Char} : c.isLower = true ↔ 97 ≤ c.toNat ∧ c.toNat ≤ 122 := by
  delta Char.isLower
  simp [UInt32.le_iff_toNat_le, ← Char.toNat_val]

theorem isDigit_iff {c : Char} : c.isDigit = true ↔ 48 ≤ c.toNat ∧ c.toNat ≤ 57 := by
  delta Char.isDigit
  simp [UInt32.le_iff_toNat_le, ← Char.toNat_val]

theorem isAlpha_iff {c : Char} : c.isAlpha = true ↔ c.isUpper = true ∨ c.isLower = true := by
  delta Char.isAlpha
  rw [Bool.or_eq_true]

theorem isUpper_of_isLower {c : Char} (h : c.isLower = true) : c.isUpper = false := by
  rw [← Bool.not_eq_true, isUpper_iff]
  rw [isLower_iff] at h
  omega

theorem toLower_of_not_isUpper {c : Char} (h : c.isUpper = false) : c.toLower = c := by
  delta Char.isUpper at h
  rw [decide_eq_false_iff_not] at h
  exact dif_neg h

theorem toNat_toLower {c : Char} (h : c.isUpper = true) : c.toLower.toNat = c.toNat + 32 := by
  have hc := isUpper_iff.mp h
  delta Char.isUpper at h
  rw [decide_eq_true_eq] at h
  have hlower : c.toLower = ⟨c.val + ('a'.val - 'A'.val), _⟩ := dif_pos h
  rw [hlower, ← Char.toNat_val, ← Char.toNat_val, UInt32.toNat_add]
  rw [← Char.toNat_val] at hc
  simp only [Char.reduceVal, UInt32.reduceSub, UInt32.reduceToNat]
  omega

theorem isLower_toLower {c : Char} (h : c.isAlpha = true) : c.toLower.isLower = true := by
  rcases isAlpha_iff.mp h with hu | hl
  · have := isUpper_iff.mp hu
    rw [isLower_iff, toNat_toLower hu]
    omega
  · rwa [toLower_of_not_isUpper (isUpper_of_isLower hl)]

private theorem isUpper_toLower (c : Char) : c.toLower.isUpper = false := by
  by_cases h : c.isUpper = true
  · exact isUpper_of_isLower (isLower_toLower (isAlpha_iff.mpr (Or.inl h)))
  · rw [Bool.not_eq_true] at h
    rwa [toLower_of_not_isUpper h]

theorem lowerAscii_of_not_isUpper {s : List Char} (h : ∀ c ∈ s, c.isUpper = false) :
    lowerAscii s = s := by
  rw [lowerAscii, List.map_congr_left fun c hc ↦ toLower_of_not_isUpper (h c hc), List.map_id']

theorem isUpper_of_mem_lowerAscii {s : List Char} {c : Char} (h : c ∈ lowerAscii s) :
    c.isUpper = false := by
  obtain ⟨d, _, rfl⟩ := List.mem_map.mp h
  exact isUpper_toLower d

@[simp] theorem lowerAscii_append (s t : List Char) :
    lowerAscii (s ++ t) = lowerAscii s ++ lowerAscii t := List.map_append

theorem beginsWithLowered_iff {start s : List Char} :
    beginsWithLowered start s = true ↔ start <+: lowerAscii s := by
  rw [beginsWithLowered, List.isPrefixOf_iff_prefix, lowerAscii, List.map_take, ← lowerAscii]
  constructor
  · exact fun h ↦ h.trans (List.take_prefix _ _)
  · intro h
    rw [List.prefix_take_iff]
    exact ⟨h, Nat.le_refl _⟩

end HtmlTemplate.Text
