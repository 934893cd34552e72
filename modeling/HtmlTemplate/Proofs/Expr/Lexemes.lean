import HtmlTemplate.Expr.Lexer
import HtmlTemplate.Proofs.Text.Scanning
import Mathlib.Data.List.Find

/-!
# Where a lexeme ends

A lexeme that was scanned to the end of a text, or up to something else in it, is scanned in the
same way when the text goes on with a character that no lexeme can take up: a break. Blanks are
breaks, and so are most marks, the plus among them. The only mark that a scanner looks past is the
sign of an exponent, and there the number without its exponent is no lexeme, because a name would
follow it.

## What is not a break

A lexeme is cut off at the first character that does not belong to it, and some scanners look at one
character more to see that. A sign behind the mark of an exponent is the only case in which a
character that is taken by another lexeme is looked at. A quotation mark is no break either, nor is
a digit or a letter, since a name or a number could go on with it.
-/

namespace HtmlTemplate.Expr

open Number (Decimal isHexDigit)
open Text (takeWhile_append_cons dropWhile_append_cons)

/-- Can no lexeme that is complete go on with the character? -/
structure IsBreak (x : Char) : Prop where
  part : isNamePart x = false
  point : x ≠ '.'
  punct : ∀ p : Punct, x ∉ p.text.toList.tail

theorem isBreak_plus : IsBreak '+' where
  part := by decide
  point := by decide
  punct p := by cases p <;> decide

namespace IsBreak

variable {x : Char}

theorem nameStart (h : IsBreak x) : isNameStart x = false := by
  have := h.part
  rw [isNamePart, Bool.or_eq_false_iff] at this
  exact this.1

theorem digit (h : IsBreak x) : x.isDigit = false := by
  have := h.part
  rw [isNamePart, Bool.or_eq_false_iff] at this
  exact this.2

theorem alpha (h : IsBreak x) : x.isAlpha = false := by
  have := h.nameStart
  rw [isNameStart, Bool.or_eq_false_iff, Bool.or_eq_false_iff, Text.isAlphabetic,
    Bool.or_eq_false_iff] at this
  exact this.1.1.1

theorem hexDigit (h : IsBreak x) : isHexDigit x = false := by
  have halpha : x.isUpper = false ∧ x.isLower = false := Bool.or_eq_false_iff.mp h.alpha
  rw [isHexDigit, Number.isDigitOf, Number.digitValue, h.digit, halpha.1, halpha.2]
  rfl

end IsBreak

theorem isNamePart_of_isBlank {c : Char} (h : Text.isBlank c = true) : isNamePart c = false := by
  have hnumbers : ∀ n ∈ [0x20, 0x85, 0xa0, 0x1680, 0x2028, 0x2029, 0x202f, 0x205f, 0x3000] ++
      List.range' 0x09 5 ++ List.range' 0x2000 11, isNamePart (Char.ofNat n) = false := by
    decide +kernel
  rw [← Char.ofNat_toNat c]
  refine hnumbers _ ?_
  simp only [Text.isBlank, Bool.or_eq_true, Bool.and_eq_true, beq_iff_eq, decide_eq_true_eq] at h
  simp only [List.mem_append, List.mem_cons, List.not_mem_nil, List.mem_range'_1]
  omega

theorem isBreak_of_isBlank {c : Char} (h : Text.isBlank c = true) : IsBreak c where
  part := isNamePart_of_isBlank h
  point := by
    rintro rfl
    exact absurd h (by decide)
  punct p hmem := by
    have hall : p.text.toList.tail.all (!Text.isBlank ·) = true := by cases p <;> rfl
    have hblank := List.all_eq_true.mp hall c hmem
    rw [h] at hblank
    cases hblank

variable {x : Char}

/-! ## Numbers

The parts of a number are scanned one behind another: digits, a fraction, an exponent. Each of them
is left where it was if it is not complete. -/

theorem scanFraction_append (s t : List Char) (hx : IsBreak x) :
    Decimal.scanFraction (s ++ x :: t) =
      ((Decimal.scanFraction s).1, (Decimal.scanFraction s).2 ++ x :: t) := by
  rcases s with _ | ⟨c, s⟩
  · rw [List.nil_append]
    unfold Decimal.scanFraction
    split
    · rename_i heq
      exact absurd (List.cons.inj heq).1 hx.point
    · rfl
  · by_cases hc : c = '.'
    · subst hc
      rw [List.cons_append, Decimal.scanFraction, Decimal.scanFraction, Decimal.scanDigits,
        Decimal.scanDigits, takeWhile_append_cons s t hx.digit, dropWhile_append_cons s t hx.digit]
    · have hno (u : List Char) : Decimal.scanFraction (c :: u) = ([], c :: u) := by
        unfold Decimal.scanFraction
        split
        · rename_i heq
          exact absurd (List.cons.inj heq).1 hc
        · rfl
      rw [List.cons_append, hno, hno]
      rfl

private theorem scanSign_append {s : List Char} (t : List Char) (hs : s ≠ []) :
    Decimal.scanSign (s ++ x :: t) =
      ((Decimal.scanSign s).1, (Decimal.scanSign s).2 ++ x :: t) := by
  obtain ⟨c, s, rfl⟩ := List.exists_cons_of_ne_nil hs
  rw [List.cons_append]
  unfold Decimal.scanSign
  split
  · rename_i heq
    obtain ⟨rfl, rfl⟩ := List.cons.inj heq
    rfl
  · rename_i heq
    obtain ⟨rfl, rfl⟩ := List.cons.inj heq
    rfl
  · rename_i hminus hplus
    split
    · rename_i heq
      exact absurd (by rw [(List.cons.inj heq).1]) (hminus (s ++ x :: t))
    · rename_i heq
      exact absurd (by rw [(List.cons.inj heq).1]) (hplus (s ++ x :: t))
    · rfl

theorem scanExponent_of_not_mark {c : Char} (s : List Char) (hc : ¬(c = 'e' ∨ c = 'E')) :
    Decimal.scanExponent (c :: s) = (0, c :: s) := by
  rw [Decimal.scanExponent, if_neg hc]

theorem scanExponent_append {s : List Char} (t : List Char) (hx : IsBreak x)
    (hs : (Decimal.scanExponent s).2.head?.any isNameStart = false) :
    Decimal.scanExponent (s ++ x :: t) =
      ((Decimal.scanExponent s).1, (Decimal.scanExponent s).2 ++ x :: t) := by
  have hmark : ¬(x = 'e' ∨ x = 'E') := by
    rintro (rfl | rfl) <;> exact absurd hx.alpha (by decide)
  rcases s with _ | ⟨c, s⟩
  · rw [List.nil_append, scanExponent_of_not_mark t hmark]
    rfl
  · rw [List.cons_append]
    by_cases hc : c = 'e' ∨ c = 'E'
    · rw [Decimal.scanExponent, Decimal.scanExponent, if_pos hc, if_pos hc]
      rw [Decimal.scanExponent, if_pos hc] at hs
      by_cases hdigits : (Decimal.scanDigits (Decimal.scanSign s).2).1.isEmpty = true
      · -- without digits the mark would begin a name right behind the number
        dsimp only at hs
        rw [if_pos hdigits] at hs
        have hstart : isNameStart c = true := by rcases hc with rfl | rfl <;> decide
        exact absurd (hs.symm.trans hstart) Bool.false_ne_true
      · have hne : s ≠ [] := by
          rintro rfl
          exact hdigits rfl
        have hscan : Decimal.scanDigits ((Decimal.scanSign s).2 ++ x :: t) =
            ((Decimal.scanDigits (Decimal.scanSign s).2).1,
              (Decimal.scanDigits (Decimal.scanSign s).2).2 ++ x :: t) := by
          rw [Decimal.scanDigits, takeWhile_append_cons _ t hx.digit,
            dropWhile_append_cons _ t hx.digit]
          rfl
        rw [scanSign_append t hne]
        dsimp only
        rw [hscan]
        dsimp only
        rw [if_neg hdigits, if_neg hdigits]
    · rw [scanExponent_of_not_mark _ hc, scanExponent_of_not_mark _ hc]
      rfl

private theorem scanDecimal_append {s rest : List Char} {d : Decimal} (t : List Char)
    (hx : IsBreak x)
    (h : Decimal.scan s = some (d, rest)) (hrest : rest.head?.any isNameStart = false) :
    Decimal.scan (s ++ x :: t) = some (d, rest ++ x :: t) := by
  simp only [Decimal.scan] at h ⊢
  have hwhole : Decimal.scanDigits (s ++ x :: t) =
      ((Decimal.scanDigits s).1, (Decimal.scanDigits s).2 ++ x :: t) := by
    rw [Decimal.scanDigits, takeWhile_append_cons s t hx.digit, dropWhile_append_cons s t hx.digit]
    rfl
  rw [hwhole]
  dsimp only
  rw [scanFraction_append _ t hx]
  dsimp only
  split_ifs at h ⊢ with hempty
  simp only [Option.some.injEq, Prod.mk.injEq] at h
  obtain ⟨rfl, rfl⟩ := h
  rw [scanExponent_append t hx hrest]

theorem endNumber_eq_ok_iff {source rest rest' : List Char} {v w : Float} :
    endNumber source v rest = .ok (w, rest') ↔
      v = w ∧ rest = rest' ∧ rest.head?.any isNameStart = false := by
  unfold endNumber
  split
  · simp
  · rename_i c s
    split_ifs with hc
    · simp [hc]
    · simp [hc]

private theorem dropHexMark_append {s : List Char} (t : List Char) (hs : s ≠ []) (hx : IsBreak x) :
    Number.dropHexMark (s ++ x :: t) = (Number.dropHexMark s).map (· ++ x :: t) := by
  have halpha := hx.alpha
  rcases s with _ | ⟨c, _ | ⟨d, s⟩⟩
  · exact absurd rfl hs
  · rw [List.cons_append, List.nil_append]
    unfold Number.dropHexMark
    split
    · rename_i heq
      rw [(List.cons.inj (List.cons.inj heq).2).1] at halpha
      exact absurd halpha (by decide)
    · rename_i heq
      rw [(List.cons.inj (List.cons.inj heq).2).1] at halpha
      exact absurd halpha (by decide)
    · split <;> simp_all
  · rw [List.cons_append, List.cons_append]
    unfold Number.dropHexMark
    split <;> split <;> simp_all

theorem scanNumber_append {s rest : List Char} {v : Float} (t : List Char) (hs : s ≠ [])
    (hx : IsBreak x) (h : scanNumber s = .ok (v, rest)) :
    scanNumber (s ++ x :: t) = .ok (v, rest ++ x :: t) := by
  have hend {source u : List Char} {w : Float} (hw : endNumber source w u = .ok (v, rest))
      (source' : List Char) : endNumber source' w (u ++ x :: t) = .ok (v, rest ++ x :: t) := by
    obtain ⟨rfl, rfl, hu⟩ := endNumber_eq_ok_iff.mp hw
    refine endNumber_eq_ok_iff.mpr ⟨rfl, rfl, ?_⟩
    rcases u with _ | ⟨c, u⟩
    · exact hx.nameStart
    · exact hu
  unfold scanNumber at h ⊢
  rw [dropHexMark_append t hs hx]
  rcases hhex : Number.dropHexMark s with _ | hex
  · rw [hhex] at h
    dsimp only [Option.map] at h ⊢
    rcases hscan : Decimal.scan s with _ | ⟨d, u⟩
    · rw [hscan] at h
      cases h
    · rw [hscan] at h
      dsimp only at h
      rw [scanDecimal_append t hx hscan (endNumber_eq_ok_iff.mp h).2.2]
      exact hend h _
  · rw [hhex] at h
    dsimp only [Option.map] at h ⊢
    rw [takeWhile_append_cons hex t hx.hexDigit, dropWhile_append_cons hex t hx.hexDigit]
    split_ifs at h ⊢ with hbad
    exact hend h _

/-! ## Strings

Inside a string every character counts, so nothing has to be said of what follows but that the
closing quote is there. -/

theorem scanHexEscape_append {n : Nat} {s rest : List Char} {c : Char} (t : List Char)
    (h : scanHexEscape n s = .ok (c, rest)) : scanHexEscape n (s ++ t) = .ok (c, rest ++ t) := by
  simp only [scanHexEscape] at h ⊢
  by_cases hlen : ((s.take n).takeWhile isHexDigit).length = n
  · have hn : n ≤ s.length := by
      have := (List.takeWhile_prefix (l := s.take n) isHexDigit).length_le
      rw [hlen, List.length_take] at this
      omega
    rw [List.take_append_of_le_length hn, if_pos hlen]
    rw [if_pos hlen] at h
    split at h
    · simp only [Except.ok.injEq, Prod.mk.injEq] at h
      obtain ⟨rfl, rfl⟩ := h
      rw [hlen, List.drop_append_of_le_length hn]
    · cases h
  · rw [if_neg hlen] at h
    cases h

private theorem scanUnicodeEscape_append {s rest : List Char} {c : Char} (t : List Char)
    (h : scanUnicodeEscape s = .ok (c, rest)) :
    scanUnicodeEscape (s ++ t) = .ok (c, rest ++ t) := by
  rcases s with _ | ⟨d, s⟩
  · cases h
  by_cases hd : d = '{'
  · subst hd
    rw [List.cons_append]
    simp only [scanUnicodeEscape] at h ⊢
    rcases hdrop : s.dropWhile isHexDigit with _ | ⟨e, u⟩
    · rw [hdrop] at h
      cases h
    · obtain ⟨htake, hdrop'⟩ := Text.takeWhile_append_of_dropWhile t hdrop
      rw [hdrop] at h
      rw [htake, hdrop']
      dsimp only at h ⊢
      split at h
      · rename_i value hvalue
        simp only [Except.ok.injEq, Prod.mk.injEq] at h
        obtain ⟨rfl, rfl⟩ := h
        rfl
      · cases h
  · have hno (u : List Char) : scanUnicodeEscape (d :: u) = scanHexEscape 4 (d :: u) := by
      unfold scanUnicodeEscape
      split
      · rename_i heq
        exact absurd (List.cons.inj heq).1 hd
      · rfl
    rw [hno] at h
    rw [List.cons_append, hno, ← List.cons_append]
    exact scanHexEscape_append t h

theorem scanEscape_append {s cs rest : List Char} (t : List Char) (hrest : rest ≠ [])
    (h : scanEscape s = .ok (cs, rest)) : scanEscape (s ++ t) = .ok (cs, rest ++ t) := by
  rcases s with _ | ⟨c, s⟩
  · cases h
  simp only [List.cons_append, scanEscape] at h ⊢
  rcases hshort : shortEscape? c with _ | e
  · rw [hshort] at h
    dsimp only at h ⊢
    split_ifs at h ⊢ with hx hu hlf hcr
    · obtain ⟨p, hp, he⟩ := map_eq_ok_iff.mp h
      simp only [Prod.mk.injEq] at he
      obtain ⟨rfl, rfl⟩ := he
      rw [scanHexEscape_append t hp]
      rfl
    · obtain ⟨p, hp, he⟩ := map_eq_ok_iff.mp h
      simp only [Prod.mk.injEq] at he
      obtain ⟨rfl, rfl⟩ := he
      rw [scanUnicodeEscape_append t hp]
      rfl
    · simp only [Except.ok.injEq, Prod.mk.injEq] at h
      obtain ⟨rfl, rfl⟩ := h
      rfl
    · -- a carriage return takes a line feed behind it along
      rcases s with _ | ⟨d, s⟩
      · simp only [Except.ok.injEq, Prod.mk.injEq] at h
        exact absurd h.2.symm hrest
      · rw [List.cons_append]
        split at h
        · rename_i heq
          obtain ⟨rfl, rfl⟩ := List.cons.inj heq
          simp only [Except.ok.injEq, Prod.mk.injEq] at h
          obtain ⟨rfl, rfl⟩ := h
          rfl
        · rename_i hno
          simp only [Except.ok.injEq, Prod.mk.injEq] at h
          obtain ⟨rfl, rfl⟩ := h
          split
          · rename_i heq
            exact absurd (by rw [(List.cons.inj heq).1]) (hno s)
          · rfl
    · simp only [Except.ok.injEq, Prod.mk.injEq] at h
      obtain ⟨rfl, rfl⟩ := h
      rfl
  · rw [hshort] at h
    simp only [Except.ok.injEq, Prod.mk.injEq] at h
    obtain ⟨rfl, rfl⟩ := h
    rfl

/-- A string ends at its closing quote, whatever follows. -/
theorem scanString_append {q : Char} {s value rest : List Char} (t : List Char)
    (h : scanString q s = .ok (value, rest)) : scanString q (s ++ t) = .ok (value, rest ++ t) := by
  fun_induction scanString q s generalizing value with
  | case1 => cases h
  | case2 s =>
    simp only [Except.ok.injEq, Prod.mk.injEq] at h
    obtain ⟨rfl, rfl⟩ := h
    rw [List.cons_append, scanString, if_pos rfl]
  | case3 => cases h
  | case4 => cases h
  | case5 s cs u he hq hline ih =>
    obtain ⟨⟨more, rest'⟩, hp, hv⟩ := map_eq_ok_iff.mp h
    simp only [Prod.mk.injEq] at hv
    obtain ⟨rfl, rfl⟩ := hv
    -- an escape at the very end would leave the string open
    have hu : u ≠ [] := by
      rintro rfl
      rw [scanString] at hp
      cases hp
    rw [List.cons_append, scanString, if_neg hq, if_neg hline, if_pos rfl]
    split
    · rename_i he'
      rw [scanEscape_append t hu he] at he'
      cases he'
    · rename_i he'
      rw [scanEscape_append t hu he, Except.ok.injEq, Prod.mk.injEq] at he'
      obtain ⟨rfl, rfl⟩ := he'
      rw [ih hp]
      rfl
  | case6 c s hq hline hescape ih =>
    obtain ⟨⟨more, rest'⟩, hp, hv⟩ := map_eq_ok_iff.mp h
    simp only [Prod.mk.injEq] at hv
    obtain ⟨rfl, rfl⟩ := hv
    rw [List.cons_append, scanString, if_neg hq, if_neg hline, if_neg hescape, ih hp]
    rfl

/-! ## Tokens -/

private theorem inFront?_append {c : Char} (s t : List Char) (hx : IsBreak x) :
    Punct.inFront? (c :: (s ++ x :: t)) = Punct.inFront? (c :: s) := by
  unfold Punct.inFront?
  refine List.find?_congr fun p _ ↦ ?_
  rw [Bool.eq_iff_iff, List.isPrefixOf_iff_prefix, List.isPrefixOf_iff_prefix, ← List.cons_append]
  constructor
  · exact fun hp ↦ Text.prefix_of_prefix_append hp (List.cons_ne_nil c s) (hx.punct p)
  · exact fun hp ↦ hp.trans (List.prefix_append _ _)

/-- **A token does not depend on what follows it**, if that begins with a break. -/
theorem scanToken_append {c : Char} {s rest : List Char} {kind : Token.Kind} (t : List Char)
    (hx : IsBreak x) (h : scanToken c s = .ok (kind, rest)) :
    scanToken c (s ++ x :: t) = .ok (kind, rest ++ x :: t) := by
  have hhead : (s ++ x :: t).head?.any Char.isDigit = s.head?.any Char.isDigit := by
    rcases s with _ | ⟨d, s⟩
    · exact hx.digit
    · rfl
  -- a point in front of a digit is a number, and the break is no digit
  unfold scanToken at h ⊢
  rw [hhead]
  split_ifs at h ⊢ with hnumber hstring hname
  · obtain ⟨p, hp, he⟩ := map_eq_ok_iff.mp h
    simp only [Prod.mk.injEq] at he
    obtain ⟨rfl, rfl⟩ := he
    rw [← List.cons_append, scanNumber_append t (List.cons_ne_nil c s) hx hp]
    rfl
  · obtain ⟨p, hp, he⟩ := map_eq_ok_iff.mp h
    simp only [Prod.mk.injEq] at he
    obtain ⟨rfl, rfl⟩ := he
    rw [scanString_append (x :: t) hp]
    rfl
  · simp only [Except.ok.injEq, Prod.mk.injEq] at h
    obtain ⟨rfl, rfl⟩ := h
    rw [takeWhile_append_cons s t hx.part, dropWhile_append_cons s t hx.part]
  · rw [inFront?_append s t hx]
    rcases hp : Punct.inFront? (c :: s) with _ | p
    · rw [hp] at h
      cases h
    · rw [hp] at h
      dsimp only at h ⊢
      have hprefix := List.isPrefixOf_iff_prefix.mp
        (List.find?_some (p := fun p : Punct ↦ p.text.toList.isPrefixOf (c :: s)) hp)
      have hlen := hprefix.length_le
      rw [String.length_toList, List.length_cons] at hlen
      simp only [Except.ok.injEq, Prod.mk.injEq] at h
      obtain ⟨rfl, rfl⟩ := h
      rw [List.drop_append_of_le_length (by omega)]

end HtmlTemplate.Expr
