import HtmlTemplate.Proofs.Expr.Extents

/-!
# Texts that are cut short

The converse of what holds for texts that go on. A scanner that stops inside a text has not used
what it left: it scans the same lexeme if the text ends there, or anywhere behind. So the text up to
the end of one of its tokens has the tokens up to that one (`exists_tokensFrom_of_isPrefix`).

## Why not the same as going on

That a lexeme is scanned in the same way when more follows needs a break, and that it is scanned in
the same way when less follows does not: a scanner that stops has seen why, or has seen nothing more
at all. Only for the exponent of a number and the line break in a string the shorter text could be
read differently, and these are looked at apart.
-/

namespace HtmlTemplate.Expr

open Number (Decimal isHexDigit)
open Text (isBlank width)

variable {s t rest : List Char}

/-! ## Runs

A run of characters of a class is as long in a text as in any beginning of the text that contains
it. -/

theorem head?_of_isPrefix {α : Type} {t r : List α} (h : t <+: r) : t = [] ∨ t.head? = r.head? := by
  rcases t with _ | ⟨c, t⟩
  · exact Or.inl rfl
  · obtain ⟨u, rfl⟩ := h
    exact Or.inr rfl

theorem any_head?_of_isPrefix {p : Char → Bool} {r : List Char} (h : t <+: r)
    (hr : r.head?.any p = false) : t.head?.any p = false := by
  rcases head?_of_isPrefix h with rfl | heq
  · rfl
  · rw [heq, hr]

theorem takeWhile_append_of_isPrefix {p : Char → Bool} (h : t <+: s.dropWhile p) :
    (s.takeWhile p ++ t).takeWhile p = s.takeWhile p ∧ (s.takeWhile p ++ t).dropWhile p = t := by
  have hrun : ∀ c ∈ s.takeWhile p, p c = true := fun c hc ↦ List.mem_takeWhile_imp hc
  have hstop : t.head?.any p = false := by
    refine any_head?_of_isPrefix h ?_
    have hfront := List.head?_dropWhile_not p s
    rcases hhead : (s.dropWhile p).head? with _ | c
    · rfl
    · rw [hhead] at hfront
      exact hfront
  rw [List.takeWhile_append_of_pos hrun, List.dropWhile_append_of_pos hrun]
  rcases t with _ | ⟨c, t⟩
  · exact ⟨List.append_nil _, rfl⟩
  · have hc : ¬p c = true := by
      intro hc
      exact Bool.false_ne_true (hstop.symm.trans hc)
    rw [List.takeWhile_cons_of_neg hc, List.dropWhile_cons_of_neg hc, List.append_nil]
    exact ⟨rfl, rfl⟩

/-! ## Numbers -/

theorem scanDigits_of_isPrefix (h : t <+: (Decimal.scanDigits s).2) :
    Decimal.scanDigits ((Decimal.scanDigits s).1 ++ t) = ((Decimal.scanDigits s).1, t) := by
  obtain ⟨htake, hdrop⟩ := takeWhile_append_of_isPrefix h
  rw [Decimal.scanDigits]
  exact Prod.ext htake hdrop

private theorem scanSign_of_isPrefix (s : List Char) : ∃ u, s = u ++ (Decimal.scanSign s).2 ∧
    ∀ t, t <+: (Decimal.scanSign s).2 →
      Decimal.scanSign (u ++ t) = ((Decimal.scanSign s).1, t) := by
  unfold Decimal.scanSign
  split
  · exact ⟨['-'], rfl, fun t _ ↦ rfl⟩
  · exact ⟨['+'], rfl, fun t _ ↦ rfl⟩
  · rename_i hminus hplus
    refine ⟨[], rfl, fun t ht ↦ ?_⟩
    rw [List.nil_append]
    split
    · obtain ⟨r, hr⟩ := ht
      exact absurd hr.symm (hminus _)
    · obtain ⟨r, hr⟩ := ht
      exact absurd hr.symm (hplus _)
    · rfl

private theorem scanFraction_of_isPrefix (s : List Char) :
    ∃ u, s = u ++ (Decimal.scanFraction s).2 ∧
    ∀ t, t <+: (Decimal.scanFraction s).2 →
      Decimal.scanFraction (u ++ t) = ((Decimal.scanFraction s).1, t) := by
  unfold Decimal.scanFraction
  split
  · rename_i s
    refine ⟨'.' :: (Decimal.scanDigits s).1, ?_, fun t ht ↦ scanDigits_of_isPrefix ht⟩
    rw [List.cons_append, Decimal.scanDigits, List.takeWhile_append_dropWhile]
  · rename_i hpoint
    refine ⟨[], rfl, fun t ht ↦ ?_⟩
    rw [List.nil_append]
    split
    · obtain ⟨r, hr⟩ := ht
      exact absurd hr.symm (hpoint _)
    · rfl

theorem scanExponent_of_isPrefix (hs : (Decimal.scanExponent s).2.head?.any isNameStart = false) :
    ∃ u, s = u ++ (Decimal.scanExponent s).2 ∧ ∀ t, t <+: (Decimal.scanExponent s).2 →
      Decimal.scanExponent (u ++ t) = ((Decimal.scanExponent s).1, t) := by
  rcases s with _ | ⟨c, s⟩
  · refine ⟨[], rfl, fun t ht ↦ ?_⟩
    rw [List.prefix_nil.mp ht]
    rfl
  by_cases hc : c = 'e' ∨ c = 'E'
  · rw [Decimal.scanExponent, if_pos hc] at hs ⊢
    dsimp only at hs ⊢
    by_cases hdigits : (Decimal.scanDigits (Decimal.scanSign s).2).1.isEmpty = true
    · rw [if_pos hdigits] at hs
      have hstart : isNameStart c = true := by rcases hc with rfl | rfl <;> decide
      exact absurd (hs.symm.trans hstart) Bool.false_ne_true
    · rw [if_neg hdigits]
      dsimp only
      obtain ⟨u, hu, hsign⟩ := scanSign_of_isPrefix s
      have hrun : (Decimal.scanDigits (Decimal.scanSign s).2).1 ++
          (Decimal.scanDigits (Decimal.scanSign s).2).2 = (Decimal.scanSign s).2 :=
        List.takeWhile_append_dropWhile
      refine ⟨c :: (u ++ (Decimal.scanDigits (Decimal.scanSign s).2).1), ?_, fun t ht ↦ ?_⟩
      · rw [List.cons_append, List.append_assoc, hrun, ← hu]
      · have hread := hsign ((Decimal.scanDigits (Decimal.scanSign s).2).1 ++ t)
          (by conv_rhs => rw [← hrun]
              exact (List.prefix_append_right_inj _).mpr ht)
        rw [List.cons_append, List.append_assoc, Decimal.scanExponent, if_pos hc, hread]
        dsimp only
        rw [scanDigits_of_isPrefix ht]
        dsimp only
        rw [if_neg hdigits]
  · rw [scanExponent_of_not_mark s hc]
    refine ⟨[], rfl, fun t ht ↦ ?_⟩
    rcases head?_of_isPrefix ht with rfl | heq
    · rfl
    · obtain ⟨r, rfl⟩ := List.head?_eq_some_iff.mp heq
      exact scanExponent_of_not_mark r hc

private theorem scanDecimal_of_isPrefix {d : Decimal} (h : Decimal.scan s = some (d, rest))
    (hrest : rest.head?.any isNameStart = false) :
    ∃ u, s = u ++ rest ∧ ∀ t, t <+: rest → Decimal.scan (u ++ t) = some (d, t) := by
  simp only [Decimal.scan] at h
  split_ifs at h with hempty
  simp only [Option.some.injEq, Prod.mk.injEq] at h
  obtain ⟨rfl, rfl⟩ := h
  have hwhole : (Decimal.scanDigits s).1 ++ (Decimal.scanDigits s).2 = s :=
    List.takeWhile_append_dropWhile
  obtain ⟨u, hu, hfraction⟩ := scanFraction_of_isPrefix (Decimal.scanDigits s).2
  obtain ⟨v, hv, hexponent⟩ := scanExponent_of_isPrefix hrest
  refine ⟨(Decimal.scanDigits s).1 ++ (u ++ v), ?_, fun t ht ↦ ?_⟩
  · rw [List.append_assoc, List.append_assoc, ← hv, ← hu, hwhole]
  have hbehind : v ++ t <+: (Decimal.scanFraction (Decimal.scanDigits s).2).2 := by
    conv_rhs => rw [hv]
    exact (List.prefix_append_right_inj v).mpr ht
  have hinside : u ++ (v ++ t) <+: (Decimal.scanDigits s).2 := by
    conv_rhs => rw [hu]
    exact (List.prefix_append_right_inj u).mpr hbehind
  rw [List.append_assoc, List.append_assoc, Decimal.scan, scanDigits_of_isPrefix hinside]
  dsimp only
  rw [hfraction _ hbehind]
  dsimp only
  rw [if_neg hempty, hexponent t ht]

private theorem dropHexMark_of_isPrefix (h : t <+: s) (hs : Number.dropHexMark s = none) :
    Number.dropHexMark t = none := by
  obtain ⟨r, rfl⟩ := h
  unfold Number.dropHexMark at hs ⊢
  split at hs
  · cases hs
  · cases hs
  · rename_i hlower hupper
    split
    · exact absurd rfl (hlower _)
    · exact absurd rfl (hupper _)
    · rfl

private theorem exists_of_dropHexMark {hex : List Char} (h : Number.dropHexMark s = some hex) :
    ∃ a b, s = a :: b :: hex ∧ ∀ u, Number.dropHexMark (a :: b :: u) = some u := by
  unfold Number.dropHexMark at h
  split at h
  · cases h
    exact ⟨_, _, rfl, fun _ ↦ rfl⟩
  · cases h
    exact ⟨_, _, rfl, fun _ ↦ rfl⟩
  · cases h

theorem scanNumber_of_isPrefix {v : Float} (h : scanNumber s = .ok (v, rest)) :
    ∃ u, s = u ++ rest ∧ ∀ t, t <+: rest → scanNumber (u ++ t) = .ok (v, t) := by
  unfold scanNumber at h
  rcases hhex : Number.dropHexMark s with _ | hex
  · rw [hhex] at h
    dsimp only at h
    rcases hscan : Decimal.scan s with _ | ⟨d, r⟩
    · rw [hscan] at h
      cases h
    rw [hscan] at h
    obtain ⟨rfl, rfl, hr⟩ := endNumber_eq_ok_iff.mp h
    obtain ⟨u, rfl, hu⟩ := scanDecimal_of_isPrefix hscan hr
    refine ⟨u, rfl, fun t ht ↦ ?_⟩
    have hnone := dropHexMark_of_isPrefix ((List.prefix_append_right_inj u).mpr ht) hhex
    rw [scanNumber, hnone]
    dsimp only
    rw [hu t ht]
    exact endNumber_eq_ok_iff.mpr ⟨rfl, rfl, any_head?_of_isPrefix ht hr⟩
  · obtain ⟨a, b, rfl, hmark⟩ := exists_of_dropHexMark hhex
    rw [hhex] at h
    dsimp only at h
    split_ifs at h with hbad
    obtain ⟨rfl, rfl, hr⟩ := endNumber_eq_ok_iff.mp h
    refine ⟨a :: b :: hex.takeWhile isHexDigit, ?_, fun t ht ↦ ?_⟩
    · rw [List.cons_append, List.cons_append, List.takeWhile_append_dropWhile]
    · obtain ⟨htake, hdrop⟩ := takeWhile_append_of_isPrefix ht
      rw [List.cons_append, List.cons_append, scanNumber, hmark]
      dsimp only
      rw [htake, hdrop, if_neg hbad]
      exact endNumber_eq_ok_iff.mpr ⟨rfl, rfl, any_head?_of_isPrefix ht hr⟩

/-! ## Strings -/

theorem scanHexEscape_of_isPrefix {n : Nat} {c : Char} (h : scanHexEscape n s = .ok (c, rest)) :
    ∃ u, s = u ++ rest ∧ u.length = n ∧ ∀ t, scanHexEscape n (u ++ t) = .ok (c, t) := by
  simp only [scanHexEscape] at h
  by_cases hlen : ((s.take n).takeWhile isHexDigit).length = n
  · have hn : (s.take n).length = n := by
      have hle := List.IsPrefix.length_le (List.takeWhile_prefix (l := s.take n) isHexDigit)
      rw [hlen] at hle
      exact Nat.le_antisymm (List.length_take_le n s) hle
    rw [if_pos hlen, hlen] at h
    split at h
    · rename_i hchar
      simp only [Except.ok.injEq, Prod.mk.injEq] at h
      obtain ⟨rfl, rfl⟩ := h
      refine ⟨s.take n, (List.take_append_drop n s).symm, hn, fun t ↦ ?_⟩
      simp only [scanHexEscape]
      rw [List.take_left' hn, if_pos hlen, hchar, hlen, List.drop_left' hn]
    · cases h
  · rw [if_neg hlen] at h
    cases h

private theorem scanUnicodeEscape_of_isPrefix {c : Char} (h : scanUnicodeEscape s = .ok (c, rest)) :
    ∃ u, s = u ++ rest ∧ ∀ t, scanUnicodeEscape (u ++ t) = .ok (c, t) := by
  unfold scanUnicodeEscape at h
  split at h
  · rename_i s
    dsimp only at h
    split at h
    · cases h
    · rename_i e r hdrop
      split at h
      · rename_i value hvalue
        simp only [Except.ok.injEq, Prod.mk.injEq] at h
        obtain ⟨rfl, rfl⟩ := h
        have hrun : ∀ d ∈ s.takeWhile isHexDigit, isHexDigit d = true :=
          fun d hd ↦ List.mem_takeWhile_imp hd
        have hstop : isHexDigit e = false := by
          have hfront := List.head?_dropWhile_not isHexDigit s
          rwa [hdrop] at hfront
        refine ⟨'{' :: (s.takeWhile isHexDigit ++ [e]), ?_, fun t ↦ ?_⟩
        · rw [List.cons_append, List.append_assoc, List.singleton_append, ← hdrop,
            List.takeWhile_append_dropWhile]
        · rw [List.cons_append, List.append_assoc, List.singleton_append]
          simp only [scanUnicodeEscape]
          rw [Text.takeWhile_append_stop t hrun hstop, Text.dropWhile_append_stop t hrun hstop]
          dsimp only
          rw [hvalue]
      · cases h
  · rename_i hbrace
    obtain ⟨u, rfl, hlen, hu⟩ := scanHexEscape_of_isPrefix h
    obtain ⟨d, u, rfl⟩ := List.exists_cons_of_length_eq_add_one hlen
    refine ⟨d :: u, rfl, fun t ↦ ?_⟩
    rw [← hu t]
    unfold scanUnicodeEscape
    split
    · rename_i heq
      exact absurd (by rw [← (List.cons.inj heq).1]; rfl) (hbrace (u ++ rest))
    · rfl

theorem scanEscape_of_isPrefix {cs : List Char} (h : scanEscape s = .ok (cs, rest)) :
    ∃ u, s = u ++ rest ∧ ∀ t, t <+: rest → scanEscape (u ++ t) = .ok (cs, t) := by
  rcases s with _ | ⟨c, s⟩
  · cases h
  simp only [scanEscape] at h
  rcases hshort : shortEscape? c with _ | e
  · rw [hshort] at h
    dsimp only at h
    split_ifs at h with hx hu hlf hcr
    · obtain ⟨⟨e, r⟩, hp, he⟩ := map_eq_ok_iff.mp h
      simp only [Prod.mk.injEq] at he
      obtain ⟨rfl, rfl⟩ := he
      obtain ⟨u, rfl, -, hu⟩ := scanHexEscape_of_isPrefix hp
      refine ⟨c :: u, rfl, fun t _ ↦ ?_⟩
      simp only [List.cons_append, scanEscape]
      rw [hshort, if_pos hx, hu t]
      rfl
    · obtain ⟨⟨e, r⟩, hp, he⟩ := map_eq_ok_iff.mp h
      simp only [Prod.mk.injEq] at he
      obtain ⟨rfl, rfl⟩ := he
      obtain ⟨u, rfl, hread⟩ := scanUnicodeEscape_of_isPrefix hp
      refine ⟨c :: u, rfl, fun t _ ↦ ?_⟩
      simp only [List.cons_append, scanEscape]
      rw [hshort, if_neg hx, if_pos hu, hread t]
      rfl
    · simp only [Except.ok.injEq, Prod.mk.injEq] at h
      obtain ⟨rfl, rfl⟩ := h
      refine ⟨[c], rfl, fun t _ ↦ ?_⟩
      simp only [List.singleton_append, scanEscape]
      rw [hshort, if_neg hx, if_neg hu, if_pos hlf]
    · split at h
      · rename_i r
        simp only [Except.ok.injEq, Prod.mk.injEq] at h
        obtain ⟨rfl, rfl⟩ := h
        refine ⟨[c, '\n'], rfl, fun t _ ↦ ?_⟩
        simp only [List.cons_append, List.nil_append, scanEscape]
        rw [hshort, if_neg hx, if_neg hu, if_neg hlf, if_pos hcr]
      · -- a carriage return alone: where the text ends there is no line feed either
        rename_i hno
        simp only [Except.ok.injEq, Prod.mk.injEq] at h
        obtain ⟨rfl, rfl⟩ := h
        refine ⟨[c], rfl, fun t ht ↦ ?_⟩
        simp only [List.singleton_append, scanEscape]
        rw [hshort, if_neg hx, if_neg hu, if_neg hlf, if_pos hcr]
        dsimp only
        split
        · obtain ⟨r, hr⟩ := ht
          exact absurd hr.symm (hno _)
        · rfl
    · simp only [Except.ok.injEq, Prod.mk.injEq] at h
      obtain ⟨rfl, rfl⟩ := h
      refine ⟨[c], rfl, fun t _ ↦ ?_⟩
      simp only [List.singleton_append, scanEscape]
      rw [hshort, if_neg hx, if_neg hu, if_neg hlf, if_neg hcr]
  · rw [hshort] at h
    simp only [Except.ok.injEq, Prod.mk.injEq] at h
    obtain ⟨rfl, rfl⟩ := h
    refine ⟨[c], rfl, fun t _ ↦ ?_⟩
    simp only [List.singleton_append, scanEscape]
    rw [hshort]

theorem scanString_of_isPrefix {q : Char} {value : List Char}
    (h : scanString q s = .ok (value, rest)) :
    ∃ u, s = u ++ rest ∧ scanString q u = .ok (value, []) := by
  fun_induction scanString q s generalizing value with
  | case1 => cases h
  | case2 s =>
    simp only [Except.ok.injEq, Prod.mk.injEq] at h
    obtain ⟨rfl, rfl⟩ := h
    exact ⟨[q], rfl, by rw [scanString, if_pos rfl]⟩
  | case3 => cases h
  | case4 => cases h
  | case5 s cs r he hq hline ih =>
    obtain ⟨⟨more, rest'⟩, hp, hv⟩ := map_eq_ok_iff.mp h
    simp only [Prod.mk.injEq] at hv
    obtain ⟨rfl, rfl⟩ := hv
    obtain ⟨v, rfl, hv⟩ := ih hp
    obtain ⟨u, rfl, hu⟩ := scanEscape_of_isPrefix he
    have hescape := hu v (List.prefix_append v rest')
    refine ⟨'\\' :: (u ++ v), by simp, ?_⟩
    rw [scanString, if_neg hq, if_neg hline, if_pos rfl]
    split
    · rename_i he'
      rw [hescape] at he'
      cases he'
    · rename_i he'
      rw [hescape, Except.ok.injEq, Prod.mk.injEq] at he'
      obtain ⟨rfl, rfl⟩ := he'
      rw [hv]
      rfl
  | case6 c s hq hline hescape ih =>
    obtain ⟨⟨more, rest'⟩, hp, hv⟩ := map_eq_ok_iff.mp h
    simp only [Prod.mk.injEq] at hv
    obtain ⟨rfl, rfl⟩ := hv
    obtain ⟨v, rfl, hv⟩ := ih hp
    refine ⟨c :: v, rfl, ?_⟩
    rw [scanString, if_neg hq, if_neg hline, if_neg hescape, hv]
    rfl

/-! ## Tokens -/

theorem inFront?_of_isPrefix {p : Punct} (h : Punct.inFront? s = some p) (ht : t <+: s)
    (hp : p.text.toList <+: t) : Punct.inFront? t = some p := by
  unfold Punct.inFront? at h ⊢
  obtain ⟨-, before, behind, hall, hno⟩ := List.find?_eq_some_iff_append.mp h
  refine List.find?_eq_some_iff_append.mpr
    ⟨List.isPrefixOf_iff_prefix.mpr hp, before, behind, hall, fun q hq ↦ ?_⟩
  have hlonger := hno q hq
  rw [Bool.not_eq_true', Bool.eq_false_iff, ne_eq, List.isPrefixOf_iff_prefix] at hlonger ⊢
  exact fun hqt ↦ hlonger (hqt.trans ht)

def startsNumber (c : Char) (s : List Char) : Bool :=
  c.isDigit || (c = '.' && s.head?.any Char.isDigit)

private theorem startsNumber_of_isPrefix {c : Char} (h : t <+: s) (hs : ¬startsNumber c s = true) :
    ¬startsNumber c t = true := by
  rw [startsNumber, Bool.or_eq_true, Bool.and_eq_true, not_or, not_and] at hs ⊢
  refine ⟨hs.1, fun hc ↦ ?_⟩
  rw [any_head?_of_isPrefix h (Bool.eq_false_iff.mpr (hs.2 hc))]
  exact Bool.false_ne_true

/-- A point alone is no number, so the digit that makes it one is read with it. -/
theorem startsNumber_of_scanNumber {c : Char} {u : List Char} {v : Float}
    (h : scanNumber (c :: u) = .ok (v, [])) (hs : startsNumber c (u ++ rest) = true)
    (t : List Char) :
    startsNumber c (u ++ t) = true := by
  rcases u with _ | ⟨d, u⟩
  · rw [startsNumber, Bool.or_eq_true] at hs ⊢
    rcases hs with hdigit | hpoint
    · exact Or.inl hdigit
    · rw [Bool.and_eq_true, decide_eq_true_eq] at hpoint
      rw [hpoint.1] at h
      cases h
  · exact hs

/-- **A token is still scanned if the text ends behind it**, or anywhere further on. -/
theorem scanToken_of_isPrefix {c : Char} {kind : Token.Kind}
    (h : scanToken c s = .ok (kind, rest)) :
    ∃ u, s = u ++ rest ∧ ∀ t, t <+: rest → scanToken c (u ++ t) = .ok (kind, t) := by
  unfold scanToken at h
  rw [← startsNumber] at h
  split_ifs at h with hnumber hstring hname
  · obtain ⟨⟨v, r⟩, hp, he⟩ := map_eq_ok_iff.mp h
    simp only [Prod.mk.injEq] at he
    obtain ⟨rfl, rfl⟩ := he
    -- a text that is cut behind its number still begins with one
    obtain ⟨u, hu, hread⟩ := scanNumber_of_isPrefix hp
    have halone := hread [] List.nil_prefix
    rw [List.append_nil] at halone
    rcases u with _ | ⟨d, u⟩
    · cases halone
    · obtain ⟨rfl, rfl⟩ := List.cons.inj hu
      refine ⟨u, rfl, fun t ht ↦ ?_⟩
      rw [scanToken, ← startsNumber, if_pos (startsNumber_of_scanNumber halone hnumber t),
        ← List.cons_append, hread t ht]
      rfl
  · obtain ⟨⟨v, r⟩, hp, he⟩ := map_eq_ok_iff.mp h
    simp only [Prod.mk.injEq] at he
    obtain ⟨rfl, rfl⟩ := he
    obtain ⟨u, rfl, hread⟩ := scanString_of_isPrefix hp
    refine ⟨u, rfl, fun t ht ↦ ?_⟩
    rw [scanToken, ← startsNumber, if_pos hstring, scanString_append t hread,
      if_neg (startsNumber_of_isPrefix ((List.prefix_append_right_inj u).mpr ht) hnumber)]
    rfl
  · simp only [Except.ok.injEq, Prod.mk.injEq] at h
    obtain ⟨rfl, rfl⟩ := h
    refine ⟨s.takeWhile isNamePart, List.takeWhile_append_dropWhile.symm, fun t ht ↦ ?_⟩
    obtain ⟨htake, hdrop⟩ := takeWhile_append_of_isPrefix ht
    -- a text that begins no number begins none when it is cut
    have hfront : s.takeWhile isNamePart ++ t <+: s := by
      conv_rhs => rw [← List.takeWhile_append_dropWhile (p := isNamePart) (l := s)]
      exact (List.prefix_append_right_inj _).mpr ht
    rw [scanToken, ← startsNumber, if_neg (startsNumber_of_isPrefix hfront hnumber), if_neg hstring,
      if_pos hname, htake, hdrop]
  · rcases hfront : Punct.inFront? (c :: s) with _ | p
    · rw [hfront] at h
      cases h
    rw [hfront] at h
    simp only [Except.ok.injEq, Prod.mk.injEq] at h
    obtain ⟨rfl, rfl⟩ := h
    obtain ⟨r, hr⟩ := List.isPrefixOf_iff_prefix.mp
      (List.find?_some (p := fun p : Punct ↦ p.text.toList.isPrefixOf (c :: s)) hfront)
    have hlength : p.text.length = p.text.toList.length := String.length_toList.symm
    rcases htext : p.text.toList with _ | ⟨d, u⟩
    · exact absurd htext (by cases p <;> decide)
    · rw [htext, List.cons_append] at hr
      obtain ⟨rfl, rfl⟩ := List.cons.inj hr
      rw [htext, List.length_cons] at hlength
      have hdrop (w : List Char) : (u ++ w).drop (p.text.length - 1) = w :=
        List.drop_left' (by rw [hlength, Nat.add_sub_cancel])
      rw [hdrop]
      refine ⟨u, rfl, fun t ht ↦ ?_⟩
      have hshort : u ++ t <+: u ++ r := (List.prefix_append_right_inj u).mpr ht
      rw [scanToken, ← startsNumber, if_neg (startsNumber_of_isPrefix hshort hnumber),
        if_neg hstring, if_neg hname,
        inFront?_of_isPrefix hfront (List.cons_prefix_cons.mpr ⟨rfl, hshort⟩)
          (by rw [htext, ← List.cons_append]; exact List.prefix_append _ _)]
      dsimp only
      rw [hdrop]

/-- **A beginning of the tokens of a text is the tokens of a beginning of it**, which ends where the
last of them does. -/
theorem exists_tokensFrom_of_isPrefix {offset : Nat} {l : Lexed} (h : tokensFrom offset s = .ok l)
    {us : List Token} (hus : us <+: l.tokens) :
    ∃ a m, a <+: s ∧ tokensFrom offset a = .ok m ∧ m.tokens = us ∧
      m.stop = us.getLast?.elim offset (·.span.stop) := by
  refine tokensFrom_induction (motive := fun offset s l ↦ ∀ us, us <+: l.tokens →
    ∃ a m, a <+: s ∧ tokensFrom offset a = .ok m ∧ m.tokens = us ∧
      m.stop = us.getLast?.elim offset (·.span.stop)) ?_ ?_ h us hus
  · intro offset s _ us hus
    rw [List.prefix_nil.mp hus]
    exact ⟨[], _, List.nil_prefix, tokensFrom_of_blank offset rfl, rfl, rfl⟩
  · intro offset s c t kind rest l hs hscan _ ih us hus
    rcases us with _ | ⟨u, us⟩
    · exact ⟨[], _, List.nil_prefix, tokensFrom_of_blank offset rfl, rfl, rfl⟩
    obtain ⟨rfl, hmore⟩ := List.cons_prefix_cons.mp hus
    obtain ⟨b, m, hb, hm, rfl, hstop⟩ := ih us hmore
    obtain ⟨v, rfl, hread⟩ := scanToken_of_isPrefix hscan
    -- the blanks in front, the token, and what has the other tokens
    have htext : s.takeWhile isBlank ++ c :: (v ++ rest) = s := by
      rw [← hs, List.takeWhile_append_dropWhile]
    have hfront : c :: (v ++ b) <+: c :: (v ++ rest) :=
      List.cons_prefix_cons.mpr ⟨rfl, (List.prefix_append_right_inj v).mpr hb⟩
    obtain ⟨htake, hdrop⟩ := takeWhile_append_of_isPrefix (s := s) (t := c :: (v ++ b))
      (p := isBlank) (by rw [hs]; exact hfront)
    have hconsumed (w : List Char) : consumed (c :: (v ++ w)) w = c :: v := by
      rw [consumed, ← List.cons_append, List.length_append, Nat.add_sub_cancel, List.take_left]
    refine ⟨s.takeWhile isBlank ++ c :: (v ++ b),
      m.cons ⟨kind, tokenStart offset s, tokenStart offset s + width (c :: v)⟩, ?_, ?_, ?_, ?_⟩
    · conv_rhs => rw [← htext]
      exact (List.prefix_append_right_inj _).mpr hfront
    · have hstart :
          tokenStart offset (s.takeWhile isBlank ++ c :: (v ++ b)) = tokenStart offset s := by
        rw [tokenStart, tokenStart, htake]
      rw [hconsumed] at hm
      rw [tokensFrom_of_token offset hdrop (hread b hb), hconsumed, hstart, hm]
      rfl
    · rw [hconsumed]
      rfl
    · rw [Lexed.cons, hstop, List.getLast?_cons]
      rcases m.tokens.getLast? <;> rfl

end HtmlTemplate.Expr
