import HtmlTemplate.Proofs.Number.ReadBack

/-!
# The longest number in front of a text

Reading in front of a text takes the longest literal there, whatever follows it, and is not a number
exactly if no literal is in front (`floatInFront_longest`).

## By a cursor

A reader can find the end of the literal on the bytes of the text, moving an offset over the sign,
the digits, the point and the exponent, and give what is in front of the offset to a general reader.
Slices are checked, and a text that the general reader refuses is a fault of its own, so no fault
means that every slice ends where a character ends, and that every text that is given away is a
number (`floatByCursor_eq`).

## What longest means

The scanner never gives back a part of a literal: where a longer beginning of the text is a literal,
it goes on. So the literal that it reads has no longer one in front of the same text, and where it
reads none there is none at all.
-/

namespace HtmlTemplate.Number

variable {s t p : List Char} {v : Rat} {x : Float} {negative : Bool} {i : Nat}

/-! ## Literals are numbers -/

theorem HasValue.isNaN_withSign (h : HasValue x v) (negative : Bool) :
    (withSign negative x).isNaN = false := by
  obtain ⟨m, e, hexact, -⟩ := h
  rw [← Bool.not_eq_true, isNaN_iff]
  cases negative
  · exact fun h ↦ Exact.noConfusion (h.symm.trans hexact)
  · exact fun h ↦ Exact.noConfusion (h.symm.trans (exact_neg hexact))

private theorem isNaN_withSign_infinity (negative : Bool) :
    (withSign negative infinity).isNaN = false := by
  cases negative <;> rfl

theorem IsLiteral.isNaN_eq_false (h : IsLiteral s x) : x.isNaN = false := by
  cases h with
  | word => exact isNaN_withSign_infinity _
  | decimal _ _ hx =>
    obtain ⟨w, hw⟩ | rfl := hx.hasValue_or_eq_infinity
    · exact hw.isNaN_withSign _
    · exact isNaN_withSign_infinity _

/-! ## The longest literal -/

def scanLiteral (s : List Char) : Option (Float × List Char) :=
  let (negative, t) := Decimal.scanSign s
  if infinityWord.isPrefixOf t then some (withSign negative infinity, t.drop infinityWord.length)
  else (Decimal.scan t).map fun (d, r) ↦ (withSign negative d.toFloat, r)

/-- The longest literal in front of a text, and its value. -/
structure IsLongestLiteral (t p : List Char) (x : Float) : Prop where
  front : p <+: t
  literal : IsLiteral p x
  length_le : ∀ q y, q <+: t → IsLiteral q y → q.length ≤ p.length

private theorem exists_isLiteral {r : List Char} (h : scanLiteral t = some (x, r)) :
    ∃ p, IsLiteral p x ∧ t = p ++ r := by
  obtain ⟨sign, hsign, ht⟩ := exists_isSign t
  rw [scanLiteral] at h
  dsimp only at h
  split at h
  next hword =>
    obtain ⟨u, hu⟩ := List.isPrefixOf_iff_prefix.mp hword
    cases h
    refine ⟨sign ++ infinityWord, .word hsign, ?_⟩
    rw [← hu, List.drop_left, List.append_assoc, hu, ← ht]
  next =>
    obtain ⟨⟨d, r'⟩, hscan, hx⟩ := Option.map_eq_some_iff.mp h
    cases hx
    obtain ⟨u, hu, hr⟩ := exists_isDecimal hscan
    refine ⟨sign ++ u, .decimal hsign hu d.isNearest_toFloat, ?_⟩
    rw [List.append_assoc, ← hr, ← ht]

/-- The scanner stops before the end of no literal, whatever follows. -/
theorem IsLiteral.exists_scanLiteral_append (h : IsLiteral p x) (t : List Char) :
    ∃ y r, scanLiteral (p ++ t) = some (y, r) ∧ r.length ≤ t.length := by
  cases h with
  | @word sign negative hsign =>
    refine ⟨withSign negative infinity, t, ?_, le_rfl⟩
    rw [List.append_assoc, scanLiteral, scanSign_infinityWord_append hsign]
    dsimp only
    rw [if_pos (List.isPrefixOf_iff_prefix.mpr (List.prefix_append _ _)), List.drop_left]
  | @decimal sign s negative _ _ hsign hs =>
    obtain ⟨d, r, hscan, hr⟩ := hs.exists_scan_append t
    refine ⟨withSign negative d.toFloat, r, ?_, hr⟩
    rw [List.append_assoc, scanLiteral, hs.scanSign_append hsign]
    dsimp only
    rw [if_neg (mt List.isPrefixOf_iff_prefix.mp (hs.not_infinityWord_prefix t)), hscan,
      Option.map_some]

/-- **What is scanned is the longest literal.** -/
theorem isLongestLiteral_of_scanLiteral {r : List Char} (h : scanLiteral t = some (x, r)) :
    ∃ p, IsLongestLiteral t p x := by
  obtain ⟨p, hp, rfl⟩ := exists_isLiteral h
  refine ⟨p, List.prefix_append p r, hp, fun q y hq hliteral ↦ ?_⟩
  obtain ⟨u, hu⟩ := hq
  obtain ⟨y', r', hscan, hle⟩ := hliteral.exists_scanLiteral_append u
  rw [hu, h] at hscan
  cases hscan
  have hlength := congrArg List.length hu
  rw [List.length_append, List.length_append] at hlength
  omega

theorem not_isLiteral_of_scanLiteral (h : scanLiteral t = none) (hp : p <+: t) (x : Float) :
    ¬IsLiteral p x := by
  intro hliteral
  obtain ⟨u, rfl⟩ := hp
  obtain ⟨y, r, hscan, -⟩ := hliteral.exists_scanLiteral_append u
  rw [h] at hscan
  cases hscan

theorem floatInFront_eq (s : String) :
    floatInFront s = ((scanLiteral (Text.trimStart s.toList)).map Prod.fst).getD nan := by
  rw [floatInFront, scanLiteral]
  dsimp only
  split
  · rfl
  · rcases Decimal.scan (Decimal.scanSign (Text.trimStart s.toList)).2 with _ | ⟨d, r⟩ <;> rfl

/-! ## Reading by a cursor -/

/-- Why reading by a cursor breaks off. -/
inductive CursorFault where
  /-- A slice does not begin and end where characters do. -/
  | slice
  /-- The general reader does not take the text for a number. -/
  | refused

def isExponentMark (c : Char) : Bool := c == 'e' || c == 'E'

def signEnd (bytes : List UInt8) (i : Nat) : Nat :=
  if Text.byteAt isSignChar bytes i then i + 1 else i

/-- Moves behind digits and a point with digits, if one is there, and counts the digits. -/
def mantissaEnd (bytes : List UInt8) (i : Nat) : Nat × Nat :=
  let wholeEnd := Text.skipBytes Char.isDigit bytes i
  if Text.byteAt (· == '.') bytes wholeEnd then
    let fractionEnd := Text.skipBytes Char.isDigit bytes (wholeEnd + 1)
    (wholeEnd - i + (fractionEnd - (wholeEnd + 1)), fractionEnd)
  else (wholeEnd - i, wholeEnd)

def exponentEnd (bytes : List UInt8) (i : Nat) : Nat :=
  if Text.byteAt isExponentMark bytes i then
    let start := signEnd bytes (i + 1)
    let stop := Text.skipBytes Char.isDigit bytes start
    if start < stop then stop else i
  else i

/-- The value of the longest literal in front of a text without blanks in front. -/
def floatByCursor (s : List Char) : Except CursorFault Float := do
  let bytes := Text.utf8 s
  let start := signEnd bytes 0
  let unsigned ← (Text.dropBytes start s).elim (throw .slice) pure
  if infinityWord.isPrefixOf unsigned then
    return if s.head? = some '-' then -infinity else infinity
  let (digits, stop) := mantissaEnd bytes start
  if digits = 0 then return nan
  let literal ← (Text.takeBytes (exponentEnd bytes stop) s).elim (throw .slice) pure
  (generalValue? literal).elim (throw .refused) pure

theorem isAsciiClass_isExponentMark : Text.IsAsciiClass isExponentMark :=
  (Text.isAsciiClass_beq (by decide)).or (Text.isAsciiClass_beq (by decide))

section

variable {r : List Char} (h : Text.dropBytes i s = some r)

include h

theorem dropBytes_signEnd :
    Text.dropBytes (signEnd (Text.utf8 s) i) s = some (Decimal.scanSign r).2 := by
  rw [signEnd, Text.byteAt_utf8 isAsciiClass_isSignChar h]
  rcases r with _ | ⟨c, r⟩
  · exact h
  rw [List.head?_cons, Option.any_some]
  by_cases hc : isSignChar c = true
  · rw [if_pos hc, Text.dropBytes_succ h (isAsciiClass_isSignChar c hc)]
    simp only [isSignChar, Bool.or_eq_true, beq_iff_eq] at hc
    rcases hc with rfl | rfl <;> rfl
  · rw [if_neg hc, h, scanSign_of_head (Bool.not_eq_true _ ▸ hc)]

theorem dropBytes_skipDigits :
    Text.dropBytes (Text.skipBytes Char.isDigit (Text.utf8 s) i) s = some (Decimal.scanDigits r).2 ∧
    Text.skipBytes Char.isDigit (Text.utf8 s) i - i = (Decimal.scanDigits r).1.length := by
  refine ⟨Text.dropBytes_skipBytes Text.isAsciiClass_isDigit h, ?_⟩
  rw [Text.skipBytes_utf8 Text.isAsciiClass_isDigit h, Nat.add_sub_cancel_left]
  rfl

private theorem dropBytes_mantissaEnd :
    Text.dropBytes (mantissaEnd (Text.utf8 s) i).2 s =
      some (Decimal.scanFraction (Decimal.scanDigits r).2).2 ∧
    (mantissaEnd (Text.utf8 s) i).1 = (Decimal.scanDigits r).1.length +
      (Decimal.scanFraction (Decimal.scanDigits r).2).1.length := by
  obtain ⟨hwhole, hcount⟩ := dropBytes_skipDigits h
  rw [mantissaEnd]
  dsimp only
  rw [Text.byteAt_utf8 (Text.isAsciiClass_beq (by decide)) hwhole, hcount]
  rcases hrest : (Decimal.scanDigits r).2 with _ | ⟨c, u⟩ <;> rw [hrest] at hwhole
  · exact ⟨hwhole, rfl⟩
  · rw [List.head?_cons, Option.any_some]
    by_cases hc : c = '.'
    · subst hc
      obtain ⟨hfraction, hcount'⟩ :=
        dropBytes_skipDigits (Text.dropBytes_succ hwhole (by decide))
      rw [if_pos (by rfl)]
      exact ⟨hfraction, congrArg _ hcount'⟩
    · have hnone : Decimal.scanFraction (c :: u) = ([], c :: u) :=
        scanFraction_of_ne (by rintro _ ⟨⟩; exact hc)
      rw [if_neg (by simpa using hc), hnone]
      exact ⟨hwhole, rfl⟩

private theorem dropBytes_exponentEnd :
    Text.dropBytes (exponentEnd (Text.utf8 s) i) s = some (Decimal.scanExponent r).2 := by
  rw [exponentEnd, Text.byteAt_utf8 isAsciiClass_isExponentMark h]
  rcases r with _ | ⟨c, r⟩
  · exact h
  rw [List.head?_cons, Option.any_some, Decimal.scanExponent]
  by_cases hc : isExponentMark c = true
  · have hmark : c = 'e' ∨ c = 'E' := by simpa [isExponentMark] using hc
    have hstart := dropBytes_signEnd (Text.dropBytes_succ h (isAsciiClass_isExponentMark c hc))
    obtain ⟨hstop, hcount⟩ := dropBytes_skipDigits hstart
    rw [if_pos hc, if_pos hmark]
    dsimp only
    by_cases hdigits : (Decimal.scanDigits (Decimal.scanSign r).2).1 = []
    · rw [hdigits, List.length_nil] at hcount
      rw [if_neg (by omega), hdigits]
      exact h
    · have hpos := List.length_pos_iff.mpr hdigits
      rw [if_pos (by omega), if_neg (by simpa using hdigits)]
      exact hstop
  · have hmark : ¬(c = 'e' ∨ c = 'E') := by simpa [isExponentMark] using hc
    rw [if_neg hc, if_neg hmark, h]

end

private theorem scanSign_fst (s : List Char) :
    (Decimal.scanSign s).1 = decide (s.head? = some '-') := by
  unfold Decimal.scanSign
  split
  · rfl
  · rfl
  · rename_i hminus _
    symm
    rw [decide_eq_false_iff_not, List.head?_eq_some_iff]
    rintro ⟨t, rfl⟩
    exact hminus t rfl

/-- **The cursor meets no fault**, and stops behind the longest literal. -/
theorem floatByCursor_eq (s : List Char) :
    floatByCursor s = .ok (((scanLiteral s).map Prod.fst).getD nan) := by
  obtain ⟨sign, hsign, hs⟩ := exists_isSign s
  have hstart := dropBytes_signEnd (Text.dropBytes_zero s)
  obtain ⟨hmantissa, hdigits⟩ := dropBytes_mantissaEnd hstart
  have hstop := dropBytes_exponentEnd hmantissa
  rw [floatByCursor, scanLiteral]
  dsimp only
  rw [hstart, Option.elim_some, pure_bind, hdigits]
  by_cases hword : infinityWord.isPrefixOf (Decimal.scanSign s).2 = true
  · rw [if_pos hword, if_pos hword, scanSign_fst]
    simp only [withSign, decide_eq_true_eq]
    rfl
  rw [if_neg hword, if_neg hword]
  rcases hscan : Decimal.scan (Decimal.scanSign s).2 with _ | ⟨d, r⟩
  · rw [Decimal.scan_eq, ite_eq_left_iff] at hscan
    simp only [reduceCtorEq, imp_false, not_not, Bool.and_eq_true, List.isEmpty_iff] at hscan
    rw [hscan.1, hscan.2]
    rfl
  · obtain ⟨u, hu, ht⟩ := exists_isDecimal hscan
    rw [Decimal.scan_eq] at hscan
    split at hscan
    · cases hscan
    next hne =>
      cases hscan
      have hliteral := hs.trans (congrArg (sign ++ ·) ht)
      rw [← List.append_assoc] at hliteral
      have htake := Text.takeBytes_of_dropBytes hliteral hstop
      have hpos : ¬(Decimal.scanDigits (Decimal.scanSign s).2).1.length +
          (Decimal.scanFraction (Decimal.scanDigits (Decimal.scanSign s).2).2).1.length = 0 := by
        simpa [Nat.add_eq_zero_iff] using hne
      rw [if_neg hpos, htake, Option.elim_some, pure_bind,
        generalValue?_of_isDecimal hsign hu (Decimal.isNearest_toFloat _)]
      rfl

/-! ## Texts -/

/-- **The longest literal in front of a text is read**, and only a text without one is not a number.
A cursor on the bytes comes to the same without a fault. -/
theorem floatInFront_longest (s : String) :
    ((∃ p, IsLongestLiteral (Text.trimStart s.toList) p (floatInFront s)) ∨
      floatInFront s = nan ∧ ∀ p x, p <+: Text.trimStart s.toList → ¬IsLiteral p x) ∧
    ((floatInFront s).isNaN = true ↔ ∀ p x, p <+: Text.trimStart s.toList → ¬IsLiteral p x) ∧
    floatByCursor (Text.trimStart s.toList) = .ok (floatInFront s) := by
  have hor : (∃ p, IsLongestLiteral (Text.trimStart s.toList) p (floatInFront s)) ∨
      floatInFront s = nan ∧ ∀ p x, p <+: Text.trimStart s.toList → ¬IsLiteral p x := by
    rw [floatInFront_eq]
    rcases hscan : scanLiteral (Text.trimStart s.toList) with _ | ⟨x, r⟩
    · exact .inr ⟨rfl, fun p x hp ↦ not_isLiteral_of_scanLiteral hscan hp x⟩
    · exact .inl (isLongestLiteral_of_scanLiteral hscan)
  refine ⟨hor, ?_, by rw [floatByCursor_eq, floatInFront_eq]⟩
  rcases hor with ⟨p, hp⟩ | ⟨hnan, hnone⟩
  · rw [hp.literal.isNaN_eq_false]
    exact iff_of_false Bool.false_ne_true fun h ↦ h p _ hp.front hp.literal
  · rw [hnan]
    exact iff_of_true rfl hnone

end HtmlTemplate.Number
