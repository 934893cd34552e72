import HtmlTemplate.Proofs.Text.Scanning
import HtmlTemplate.Text.Width

/-!
# Searching the bytes of a text

A text without regard to the case of ASCII letters can be looked for byte by byte, since a byte of
another letter is never one of ASCII. What is found in this way is found at the end of a character,
and it is what a search by characters finds (`findBytes?_utf8`).

## Where a match begins

A match of an ASCII text begins with a byte of ASCII, which is a character for itself, and ends
behind one. So the offset that is found can be cut at, although the search goes over bytes in the
middle of characters. That no slice on the way is out of range needs no more than that the search
stops where less is left than it looks for.
-/

namespace HtmlTemplate.Text

/-- The bytes of a text in UTF-8. -/
def utf8 (s : List Char) : List UInt8 := s.flatMap String.utf8EncodeChar

/-- A byte, in lower case if it is an ASCII capital. -/
def lowerByte (b : UInt8) : UInt8 := if 65 ≤ b.toNat ∧ b.toNat ≤ 90 then b + 32 else b

def sliceBytes? (start stop : Nat) (bs : List UInt8) : Option (List UInt8) :=
  if start ≤ stop ∧ stop ≤ bs.length then some ((bs.drop start).take (stop - start)) else none

/-- The first offset at which bytes stand in others, apart from the case of ASCII letters. The outer
option is empty if a slice on the way is out of range. -/
def findBytes? (needle bs : List UInt8) : Option (Option Nat) :=
  if bs.length < needle.length then some none
  else
    (List.range (bs.length - needle.length + 1)).findM? fun i ↦
      (sliceBytes? i (i + needle.length) bs).map fun t ↦ t.map lowerByte == needle.map lowerByte

/-! ## The bytes of a character -/

theorem utf8_cons (c : Char) (s : List Char) : utf8 (c :: s) = String.utf8EncodeChar c ++ utf8 s :=
  List.flatMap_cons

theorem utf8_append (s t : List Char) : utf8 (s ++ t) = utf8 s ++ utf8 t := List.flatMap_append

theorem length_utf8 (s : List Char) : (utf8 s).length = width s := by
  induction s with
  | nil => rfl
  | cons c s ih => rw [utf8_cons, List.length_append, String.length_utf8EncodeChar, ih, width_cons]

theorem utf8EncodeChar_of_ascii {c : Char} (h : c.toNat < 128) :
    String.utf8EncodeChar c = [UInt8.ofNat c.toNat] :=
  if_pos (Nat.le_of_lt_succ h)

theorem le_of_mem_utf8EncodeChar {c : Char} {b : UInt8} (hc : 128 ≤ c.toNat)
    (h : b ∈ String.utf8EncodeChar c) : 128 ≤ b.toNat := by
  have hc : ¬c.val.toNat ≤ 127 := Nat.not_le.mpr hc
  rw [String.utf8EncodeChar, if_neg hc] at h
  split_ifs at h <;> simp only [List.mem_cons, List.not_mem_nil, or_false] at h
  · rcases h with rfl | rfl <;> rw [UInt8.toNat_ofNat'] <;> omega
  · rcases h with rfl | rfl | rfl <;> rw [UInt8.toNat_ofNat'] <;> omega
  · rcases h with rfl | rfl | rfl | rfl <;> rw [UInt8.toNat_ofNat'] <;> omega

/-! ## Lower case

A byte is lowered by the rule for ASCII capitals, and the bytes of other characters are not
capitals. -/

theorem toNat_lowerByte_lt_iff (b : UInt8) : (lowerByte b).toNat < 128 ↔ b.toNat < 128 := by
  rw [lowerByte]
  split_ifs with h
  · rw [UInt8.toNat_add, show (32 : UInt8).toNat = 32 from rfl]
    omega
  · exact Iff.rfl

theorem lowerByte_ofNat {c : Char} (h : c.toNat < 128) :
    lowerByte (UInt8.ofNat c.toNat) = UInt8.ofNat c.toLower.toNat := by
  have hn : (UInt8.ofNat c.toNat).toNat = c.toNat := by
    rw [UInt8.toNat_ofNat']
    omega
  rw [lowerByte, hn]
  by_cases hc : c.isUpper = true
  · rw [if_pos (isUpper_iff.mp hc), toNat_toLower hc]
    exact (UInt8.ofNat_add c.toNat 32).symm
  · rw [if_neg fun h ↦ hc (isUpper_iff.mpr h), toLower_of_not_isUpper (Bool.not_eq_true _ ▸ hc)]

theorem toNat_toLower_lt_iff (c : Char) : c.toLower.toNat < 128 ↔ c.toNat < 128 := by
  by_cases hc : c.isUpper = true
  · have := isUpper_iff.mp hc
    rw [toNat_toLower hc]
    omega
  · rw [toLower_of_not_isUpper (Bool.not_eq_true _ ▸ hc)]

theorem ofNat_toNat_inj {c d : Char} (hc : c.toNat < 128) (hd : d.toNat < 128) :
    UInt8.ofNat c.toNat = UInt8.ofNat d.toNat ↔ c = d := by
  refine ⟨fun h ↦ ?_, fun h ↦ h ▸ rfl⟩
  have h := congrArg UInt8.toNat h
  rw [UInt8.toNat_ofNat', UInt8.toNat_ofNat', Nat.mod_eq_of_lt (by omega),
    Nat.mod_eq_of_lt (by omega)] at h
  exact Char.toNat_inj.mp h

/-- A text that a search can look for: it is ASCII, without capitals. -/
def IsLowerAscii (needle : List Char) : Prop := ∀ c ∈ needle, c.toNat < 128 ∧ c.isUpper = false

theorem IsLowerAscii.tail {c : Char} {needle : List Char} (h : IsLowerAscii (c :: needle)) :
    IsLowerAscii needle := fun d hd ↦ h d (List.mem_cons_of_mem c hd)

theorem map_lowerByte_utf8 {needle : List Char} (h : IsLowerAscii needle) :
    (utf8 needle).map lowerByte = utf8 needle := by
  induction needle with
  | nil => rfl
  | cons c needle ih =>
    obtain ⟨hc, hupper⟩ := h c List.mem_cons_self
    rw [utf8_cons, List.map_append, ih h.tail, utf8EncodeChar_of_ascii hc, List.map_singleton,
      lowerByte_ofNat hc, toLower_of_not_isUpper hupper]

theorem utf8_prefix_iff {needle : List Char} (h : IsLowerAscii needle) (s : List Char) :
    utf8 needle <+: (utf8 s).map lowerByte ↔ needle <+: lowerAscii s := by
  induction needle generalizing s with
  | nil => exact iff_of_true List.nil_prefix List.nil_prefix
  | cons d needle ih =>
    have hd := (h d List.mem_cons_self).1
    rcases s with _ | ⟨c, s⟩
    · rw [utf8_cons, utf8EncodeChar_of_ascii hd]
      exact iff_of_false (fun h ↦ List.cons_ne_nil _ _ (List.prefix_nil.mp h))
        fun h ↦ List.cons_ne_nil _ _ (List.prefix_nil.mp h)
    rw [utf8_cons, utf8_cons, utf8EncodeChar_of_ascii hd, List.map_append, List.singleton_append,
      lowerAscii, List.map_cons, ← lowerAscii, List.cons_prefix_cons]
    by_cases hc : c.toNat < 128
    · rw [utf8EncodeChar_of_ascii hc, List.map_singleton, List.singleton_append,
        List.cons_prefix_cons, lowerByte_ofNat hc,
        ofNat_toNat_inj hd ((toNat_toLower_lt_iff c).mpr hc), ih h.tail]
    · -- the bytes of another character begin with none of ASCII
      refine iff_of_false (fun hp ↦ ?_) fun hs ↦ hc ((toNat_toLower_lt_iff c).mp (hs.1 ▸ hd))
      rcases hbytes : String.utf8EncodeChar c with _ | ⟨b, bs⟩
      · have := String.length_utf8EncodeChar c
        rw [hbytes, List.length_nil] at this
        exact absurd this.symm (Nat.ne_of_gt c.utf8Size_pos)
      · rw [hbytes, List.map_cons, List.cons_append, List.cons_prefix_cons] at hp
        have hb :=
          le_of_mem_utf8EncodeChar (Nat.not_lt.mp hc) (hbytes ▸ List.mem_cons_self (l := bs))
        have hlow := (toNat_lowerByte_lt_iff b).mp (by
          rw [← hp.1, UInt8.toNat_ofNat']
          omega)
        omega

/-! ## Where a search ends -/

theorem exists_append_of_getElem? {s : List Char} {i : Nat} {b : UInt8} (h : (utf8 s)[i]? = some b)
    (hb : b.toNat < 128) : ∃ before behind, s = before ++ behind ∧ width before = i := by
  induction s generalizing i with
  | nil => cases h
  | cons c s ih =>
    rw [utf8_cons, List.getElem?_append, String.length_utf8EncodeChar] at h
    by_cases hi : i < c.utf8Size
    · rw [if_pos hi] at h
      by_cases hc : c.toNat < 128
      · refine ⟨[], c :: s, rfl, ?_⟩
        rw [utf8EncodeChar_of_ascii hc] at h
        have := (List.getElem?_eq_some_iff.mp h).1
        rw [List.length_singleton] at this
        rw [width_nil]
        omega
      · have := le_of_mem_utf8EncodeChar (Nat.not_lt.mp hc) (List.mem_of_getElem? h)
        omega
    · rw [if_neg hi] at h
      obtain ⟨before, behind, rfl, hwidth⟩ := ih h
      refine ⟨c :: before, behind, rfl, ?_⟩
      rw [width_cons]
      omega

theorem findM?_of_some {α : Type} {l : List α} {f : α → Option Bool} {p : α → Bool}
    (h : ∀ a ∈ l, f a = some (p a)) : l.findM? f = some (l.find? p) := by
  induction l with
  | nil => rfl
  | cons a l ih =>
    have hrest := ih fun b hb ↦ h b (List.mem_cons_of_mem a hb)
    rw [List.findM?, h a List.mem_cons_self, List.find?_cons, hrest]
    by_cases ha : p a = true
    · rw [ha]
      rfl
    · rw [Bool.not_eq_true] at ha
      rw [ha]
      rfl

/-- The text is found at the offset `i`: it is in front of what stands behind `i` bytes. -/
def FoundAt (needle s : List Char) (i : Nat) : Prop :=
  ∃ before behind, s = before ++ behind ∧ width before = i ∧ needle <+: lowerAscii behind

theorem FoundAt.lt_width {needle s : List Char} {i : Nat} (h : FoundAt needle s i)
    (hneedle : needle ≠ []) : i < width s := by
  obtain ⟨before, behind, rfl, rfl, hp⟩ := h
  rcases behind with _ | ⟨c, behind⟩
  · exact absurd (List.prefix_nil.mp hp) hneedle
  · have := c.utf8Size_pos
    rw [width_append, width_cons]
    omega

section Search

variable {needle : List Char} (hneedle : needle ≠ []) (hlower : IsLowerAscii needle)

include hneedle hlower

theorem foundAt_iff (s : List Char) (i : Nat) :
    FoundAt needle s i ↔ utf8 needle <+: ((utf8 s).drop i).map lowerByte := by
  constructor
  · rintro ⟨before, behind, rfl, rfl, hp⟩
    rw [utf8_append, List.drop_left' (length_utf8 before)]
    exact (utf8_prefix_iff hlower behind).mpr hp
  · intro hp
    obtain ⟨d, rest, rfl⟩ := List.exists_cons_of_ne_nil hneedle
    have hd := (hlower d List.mem_cons_self).1
    -- the first byte that is found is one of ASCII, so a character begins there
    obtain ⟨b, hb, hbound⟩ : ∃ b, (utf8 s)[i]? = some b ∧ b.toNat < 128 := by
      have hfirst : (((utf8 s).drop i).map lowerByte)[0]? = some (UInt8.ofNat d.toNat) := by
        obtain ⟨t, ht⟩ := hp
        rw [← ht, utf8_cons, utf8EncodeChar_of_ascii hd]
        rfl
      rw [List.getElem?_map, List.getElem?_drop, Nat.add_zero, Option.map_eq_some_iff] at hfirst
      obtain ⟨b, hb, hlow⟩ := hfirst
      refine ⟨b, hb, (toNat_lowerByte_lt_iff b).mp ?_⟩
      rw [hlow, UInt8.toNat_ofNat']
      omega
    obtain ⟨before, behind, rfl, rfl⟩ := exists_append_of_getElem? hb hbound
    rw [utf8_append, List.drop_left' (length_utf8 before)] at hp
    exact ⟨before, behind, rfl, rfl, (utf8_prefix_iff hlower behind).mp hp⟩

theorem FoundAt.add_length_le {s : List Char} {i : Nat} (h : FoundAt needle s i) :
    i + (utf8 needle).length ≤ (utf8 s).length := by
  have hp := ((foundAt_iff hneedle hlower s i).mp h).length_le
  have hpos : 0 < (utf8 needle).length := by
    obtain ⟨d, rest, rfl⟩ := List.exists_cons_of_ne_nil hneedle
    have := d.utf8Size_pos
    rw [length_utf8, width_cons]
    omega
  rw [List.length_map, List.length_drop] at hp
  omega

/-- **A search by bytes is one by characters.** No slice on the way is out of range, and the first
offset is given at which the text is found. -/
theorem findBytes?_utf8 (s : List Char) :
    ∃ found, findBytes? (utf8 needle) (utf8 s) = some found ∧
      match found with
      | none => ∀ i, ¬FoundAt needle s i
      | some i => FoundAt needle s i ∧ ∀ j < i, ¬FoundAt needle s j := by
  by_cases hlength : (utf8 s).length < (utf8 needle).length
  · refine ⟨none, if_pos hlength, fun i hi ↦ ?_⟩
    have := hi.add_length_le hneedle hlower
    omega
  -- every slice is in range, and tells whether the text is found there
  let found (i : Nat) : Bool := (utf8 needle).isPrefixOf (((utf8 s).drop i).map lowerByte)
  have hfound (i : Nat) : found i = true ↔ FoundAt needle s i := by
    rw [List.isPrefixOf_iff_prefix, foundAt_iff hneedle hlower]
  have hslice : ∀ i ∈ List.range ((utf8 s).length - (utf8 needle).length + 1),
      ((sliceBytes? i (i + (utf8 needle).length) (utf8 s)).map fun t ↦
        t.map lowerByte == (utf8 needle).map lowerByte) = some (found i) := by
    intro i hi
    rw [List.mem_range] at hi
    rw [sliceBytes?, if_pos (by omega), Option.map_some, Nat.add_sub_cancel_left,
      map_lowerByte_utf8 hlower, List.map_take, Option.some.injEq, Bool.eq_iff_iff, beq_iff_eq,
      List.isPrefixOf_iff_prefix, List.prefix_iff_eq_take, eq_comm]
  rw [findBytes?, if_neg hlength, findM?_of_some hslice]
  refine ⟨_, rfl, ?_⟩
  rcases hfirst : (List.range ((utf8 s).length - (utf8 needle).length + 1)).find? found with _ | i
  · intro i hi
    have := hi.add_length_le hneedle hlower
    have hnot := List.find?_range_eq_none.mp hfirst i (by omega)
    rw [(hfound i).mpr hi] at hnot
    exact absurd hnot (by decide)
  · obtain ⟨hi, -, hbefore⟩ := List.find?_range_eq_some.mp hfirst
    refine ⟨(hfound i).mp hi, fun j hj hfoundAt ↦ ?_⟩
    have := hbefore j hj
    rw [(hfound j).mpr hfoundAt] at this
    exact absurd this (by decide)

end Search

end HtmlTemplate.Text
