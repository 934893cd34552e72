import HtmlTemplate.Proofs.Text.Bytes
import HtmlTemplate.Proofs.Text.Slices

/-!
# Scanning the bytes of a text

A scanner that moves an offset over the bytes of a text asks of single bytes whether they are of a
class. If all characters of the class are ASCII, then the bytes of other characters are of none, and
the offset moves from the end of a character to the end of a character: where `r` is left of the
text, the scanner moves behind the characters of the class in front of `r` (`dropBytes_skipBytes`).

## Why bytes suffice

In UTF-8 every byte of a character behind ASCII is 128 or more, and so is of no class of ASCII
characters. A scanner that asks for such a class at an offset where a character begins is therefore
told about that character, and where it stops, a character begins again.
-/

namespace HtmlTemplate.Text

variable {p : Char → Bool} {s r : List Char} {c : Char} {i : Nat}

/-- All characters of the class are ASCII. -/
def IsAsciiClass (p : Char → Bool) : Prop := ∀ c, p c = true → c.toNat < 128

/-- Is the byte, as a character, of the class? -/
def byteIn (p : Char → Bool) (b : UInt8) : Bool := p (Char.ofNat b.toNat)

def byteAt (p : Char → Bool) (bs : List UInt8) (i : Nat) : Bool := bs[i]?.any (byteIn p)

private theorem lt_of_byteAt {bs : List UInt8} (h : byteAt p bs i = true) : i < bs.length := by
  by_contra hi
  rw [byteAt, List.getElem?_eq_none (Nat.not_lt.mp hi)] at h
  cases h

def skipBytes (p : Char → Bool) (bs : List UInt8) (i : Nat) : Nat :=
  if byteAt p bs i then skipBytes p bs (i + 1) else i
termination_by bs.length - i
decreasing_by
  have := lt_of_byteAt ‹_›
  omega

/-! ## Classes -/

theorem isAsciiClass_isDigit : IsAsciiClass Char.isDigit := fun c hc ↦ by
  have := isDigit_iff.mp hc
  omega

theorem isAsciiClass_beq {d : Char} (hd : d.toNat < 128) : IsAsciiClass (· == d) := fun c hc ↦ by
  rwa [eq_of_beq hc]

theorem IsAsciiClass.or {q : Char → Bool} (hp : IsAsciiClass p) (hq : IsAsciiClass q) :
    IsAsciiClass fun c ↦ p c || q c := fun c hc ↦
  (Bool.or_eq_true_iff.mp hc).elim (hp c) (hq c)

/-! ## The bytes of a character -/

theorem byteIn_ofNat (hc : c.toNat < 128) : byteIn p (UInt8.ofNat c.toNat) = p c := by
  rw [byteIn, UInt8.toNat_ofNat', Nat.mod_eq_of_lt (by omega), Char.ofNat_toNat]

theorem byteIn_of_mem (hp : IsAsciiClass p) (hc : 128 ≤ c.toNat) {b : UInt8}
    (hb : b ∈ String.utf8EncodeChar c) : byteIn p b = false := by
  have hle := le_of_mem_utf8EncodeChar hc hb
  have hlt := b.toNat_lt
  have htoNat : (Char.ofNat b.toNat).toNat = b.toNat := by
    rw [Char.ofNat, dif_pos (Or.inl (by omega))]
    rfl
  rw [← Bool.not_eq_true]
  intro h
  have := hp _ h
  omega

/-- A character has a byte, and every byte of it is in a class if the character is. -/
theorem byteIn_utf8EncodeChar (hp : IsAsciiClass p) (c : Char) :
    ∃ b bs, String.utf8EncodeChar c = b :: bs ∧ byteIn p b = p c ∧
      ∀ b' ∈ bs, byteIn p b' = p c := by
  rcases Nat.lt_or_ge c.toNat 128 with hc | hc
  · exact ⟨_, [], utf8EncodeChar_of_ascii hc, byteIn_ofNat hc, nofun⟩
  · have hpc : p c = false := by
      rw [← Bool.not_eq_true]
      intro h
      have := hp c h
      omega
    rcases hbytes : String.utf8EncodeChar c with _ | ⟨b, bs⟩
    · have := String.length_utf8EncodeChar c
      rw [hbytes, List.length_nil] at this
      exact absurd this.symm (Nat.ne_of_gt c.utf8Size_pos)
    · have hin : ∀ b' ∈ b :: bs, byteIn p b' = p c := fun b' hb' ↦ by
        rw [hpc, byteIn_of_mem hp hc (hbytes ▸ hb')]
      exact ⟨b, bs, rfl, List.forall_mem_cons.mp hin⟩

theorem all_utf8 (hp : IsAsciiClass p) (s : List Char) : (utf8 s).all (byteIn p) = s.all p := by
  induction s with
  | nil => rfl
  | cons c s ih =>
    obtain ⟨b, bs, hbytes, hb, hbs⟩ := byteIn_utf8EncodeChar hp c
    have htail : p c = true → bs.all (byteIn p) = true := fun h ↦
      List.all_eq_true.mpr fun b' hb' ↦ (hbs b' hb').trans h
    rw [utf8_cons, List.all_append, ih, List.all_cons, hbytes, List.all_cons, hb, Bool.eq_iff_iff]
    simp only [Bool.and_eq_true]
    tauto

theorem any_utf8 (hp : IsAsciiClass p) (s : List Char) : (utf8 s).any (byteIn p) = s.any p := by
  induction s with
  | nil => rfl
  | cons c s ih =>
    obtain ⟨b, bs, hbytes, hb, hbs⟩ := byteIn_utf8EncodeChar hp c
    have htail : bs.any (byteIn p) = true → p c = true := fun h ↦ by
      obtain ⟨b', hb', hin⟩ := List.any_eq_true.mp h
      rw [← hbs b' hb', hin]
    rw [utf8_cons, List.any_append, ih, List.any_cons, hbytes, List.any_cons, hb, Bool.eq_iff_iff]
    simp only [Bool.or_eq_true]
    tauto

/-! ## Offsets -/

theorem utf8Size_of_ascii (hc : c.toNat < 128) : c.utf8Size = 1 := by
  rw [← String.length_utf8EncodeChar, utf8EncodeChar_of_ascii hc, List.length_singleton]

theorem width_of_ascii (h : ∀ c ∈ s, c.toNat < 128) : width s = s.length := by
  induction s with
  | nil => rfl
  | cons c s ih =>
    obtain ⟨hc, hs⟩ := List.forall_mem_cons.mp h
    rw [width_cons, ih hs, utf8Size_of_ascii hc, List.length_cons, Nat.add_comm]

/-- The bytes behind an offset are those of the text behind it. -/
theorem drop_utf8 (h : dropBytes i s = some r) : (utf8 s).drop i = utf8 r := by
  obtain ⟨a, rfl, rfl⟩ := exists_of_dropBytes h
  rw [utf8_append, List.drop_left' (length_utf8 a)]

theorem dropBytes_succ (h : dropBytes i s = some (c :: r)) (hc : c.toNat < 128) :
    dropBytes (i + 1) s = some r := by
  have hsize := utf8Size_of_ascii hc
  rw [dropBytes_add h, dropBytes_cons c r 1 hsize.le, hsize, Nat.sub_self, dropBytes_zero]

/-- At the end of a character, the byte tells of the next character. -/
theorem byteAt_utf8 (hp : IsAsciiClass p) (h : dropBytes i s = some r) :
    byteAt p (utf8 s) i = r.head?.any p := by
  obtain ⟨a, rfl, rfl⟩ := exists_of_dropBytes h
  rw [byteAt, utf8_append, List.getElem?_append_right (length_utf8 a).le, length_utf8, Nat.sub_self]
  rcases r with _ | ⟨c, r⟩
  · rfl
  · obtain ⟨b, bs, hbytes, hb, -⟩ := byteIn_utf8EncodeChar hp c
    rw [utf8_cons, hbytes]
    exact hb

/-- **A scanner of bytes stops where a scanner of characters does.** -/
theorem dropBytes_skipBytes (hp : IsAsciiClass p) (h : dropBytes i s = some r) :
    dropBytes (skipBytes p (utf8 s) i) s = some (r.dropWhile p) := by
  induction r generalizing i with
  | nil =>
    rw [skipBytes, byteAt_utf8 hp h, if_neg (by simp), h]
    rfl
  | cons c r ih =>
    rw [skipBytes, byteAt_utf8 hp h, List.head?_cons, Option.any_some]
    by_cases hc : p c = true
    · rw [if_pos hc, ih (dropBytes_succ h (hp c hc)), List.dropWhile_cons_of_pos hc]
    · rw [if_neg hc, h, List.dropWhile_cons_of_neg hc]

theorem skipBytes_utf8 (hp : IsAsciiClass p) (h : dropBytes i s = some r) :
    skipBytes p (utf8 s) i = i + (r.takeWhile p).length := by
  induction r generalizing i with
  | nil =>
    rw [skipBytes, byteAt_utf8 hp h, if_neg (by simp)]
    rfl
  | cons c r ih =>
    rw [skipBytes, byteAt_utf8 hp h, List.head?_cons, Option.any_some]
    by_cases hc : p c = true
    · rw [if_pos hc, ih (dropBytes_succ h (hp c hc)), List.takeWhile_cons_of_pos hc,
        List.length_cons]
      omega
    · rw [if_neg hc, List.takeWhile_cons_of_neg hc]
      rfl

end HtmlTemplate.Text
