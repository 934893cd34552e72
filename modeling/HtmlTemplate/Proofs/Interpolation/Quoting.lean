import HtmlTemplate.Interpolation
import HtmlTemplate.Proofs.Expr.Narrowing

/-!
# Quoted text is lexed as it was

A text that is written as a string literal is scanned back to the same text, and the scan stops at
the closing quote, whatever follows: no character of the text ends the literal early or loses its
meaning.

## What follows

Nothing is asked of what stands behind the literal: not that it begins with a break, and not that it
has tokens. If it has none, the whole has none either, with the same fault further on.

## Texts that do not fit

Only the spans depend on the width of the offsets. What a literal of more than `2 ^ 32` bytes keeps
is its text, and the tokens behind it keep their kinds; their spans are those of other places.
-/

namespace HtmlTemplate.Interpolation

open HtmlTemplate.Expr

theorem scanHexEscape_hexByte {c : Char} (hc : c.toNat < 0x20) (r : List Char) :
    scanHexEscape 4 ('0' :: '0' :: (hexByte c.toNat ++ r)) = .ok (c, r) := by
  have hdigits : ∀ n < 0x20, ('0' :: '0' :: hexByte n).all Number.isHexDigit = true ∧
      Number.ofDigits 16 ('0' :: '0' :: hexByte n) = n := by decide
  obtain ⟨hhex, hvalue⟩ := hdigits c.toNat hc
  have htake : ('0' :: '0' :: (hexByte c.toNat ++ r)).take 4 = '0' :: '0' :: hexByte c.toNat := rfl
  have hall : ('0' :: '0' :: hexByte c.toNat).takeWhile Number.isHexDigit
      = '0' :: '0' :: hexByte c.toNat :=
    List.takeWhile_eq_self_iff.mpr fun d hd ↦ List.all_eq_true.mp hhex d hd
  have hlength : ('0' :: '0' :: hexByte c.toNat).length = 4 := rfl
  simp only [scanHexEscape]
  rw [htake, hall, if_pos hlength, hvalue, Text.charOf?_toNat]
  rfl

private theorem scanEscape_control {c : Char} (hc : c.toNat < 0x20) (r : List Char) :
    scanEscape ('u' :: '0' :: '0' :: (hexByte c.toNat ++ r)) = .ok ([c], r) := by
  have hunicode : scanUnicodeEscape ('0' :: '0' :: (hexByte c.toNat ++ r)) = .ok (c, r) := by
    rw [← scanHexEscape_hexByte hc r]
    rfl
  have hstep : scanEscape ('u' :: '0' :: '0' :: (hexByte c.toNat ++ r)) =
      (scanUnicodeEscape ('0' :: '0' :: (hexByte c.toNat ++ r))).map
        fun p ↦ ([p.1], p.2) := rfl
  rw [hstep, hunicode]
  rfl

theorem scanString_quoteChar (c : Char) {s value rest : List Char}
    (h : scanString '"' s = .ok (value, rest)) :
    scanString '"' (quoteChar c ++ s) = .ok (c :: value, rest) := by
  have hescaped {u : List Char} (hu : scanEscape u = .ok ([c], s)) :
      scanString '"' ('\\' :: u) = .ok (c :: value, rest) := by
    rw [scanString, if_neg (by decide), if_neg (by decide), if_pos rfl]
    split
    · rename_i hu'
      rw [hu] at hu'
      cases hu'
    · rename_i hu'
      rw [hu] at hu'
      cases hu'
      rw [h]
      rfl
  unfold quoteChar
  split_ifs with h1 h2 h3 h4 h5 h6 h7 h8
  · exact hescaped (by rw [h1]; rfl)
  · exact hescaped (by rw [h2]; rfl)
  · exact hescaped (by rw [h3]; rfl)
  · exact hescaped (by rw [h4]; rfl)
  · exact hescaped (by rw [h5]; rfl)
  · exact hescaped (by rw [h6]; rfl)
  · exact hescaped (by rw [h7]; rfl)
  · exact hescaped (scanEscape_control h8 s)
  · rw [List.singleton_append, scanString, if_neg h1, if_neg (not_or.mpr ⟨h3, h4⟩), if_neg h2, h]
    rfl

private theorem scanString_quoted (s r : List Char) :
    scanString '"' (s.flatMap quoteChar ++ '"' :: r) = .ok (s, r) := by
  induction s with
  | nil => rw [List.flatMap_nil, List.nil_append, scanString, if_pos rfl]
  | cons c s ih =>
    rw [List.flatMap_cons, List.append_assoc]
    exact scanString_quoteChar c ih

private theorem scanToken_quote (s r : List Char) :
    scanToken '"' (s.flatMap quoteChar ++ '"' :: r) = .ok (.string (String.ofList s), r) := by
  rw [scanToken, if_neg (by simp), if_pos (Or.inl rfl), scanString_quoted]
  rfl

/-- **A quoted text is one token**, whatever follows it. -/
theorem tokensFrom_quote (offset : Nat) (s r : List Char) :
    tokensFrom offset (quote s ++ r) =
      (tokensFrom (offset + Text.width (quote s)) r).map
        (Lexed.cons ⟨.string (String.ofList s), offset, offset + Text.width (quote s)⟩) := by
  have hquote : quote s ++ r = '"' :: (s.flatMap quoteChar ++ '"' :: r) := by
    rw [quote, List.cons_append, List.append_assoc, List.singleton_append]
  have hconsumed : consumed (quote s ++ r) r = quote s := by
    rw [consumed, List.length_append, Nat.add_sub_cancel, List.take_left]
  rw [hquote] at hconsumed ⊢
  rw [tokensFrom_of_token offset (s := '"' :: _) rfl (scanToken_quote s r), hconsumed]
  rfl

/-- A source that begins with a quoted text is lexed exactly when what stands behind it is. -/
theorem tokenize_quote_append {text source : String} {lexed : Lexed} :
    tokenize (String.ofList (quote text.toList) ++ source) = .ok lexed ↔
      ∃ l, tokenize source = .ok l ∧
        lexed = (l.shift (Text.width (quote text.toList))).cons
          ⟨.string text, 0, Text.width (quote text.toList)⟩ := by
  have htext : (String.ofList (quote text.toList) ++ source).toList =
      quote text.toList ++ source.toList := by
    rw [String.toList_append, String.toList_ofList]
  have hmoved {l : Lexed} (hl : tokensFrom 0 source.toList = .ok l) :
      tokensFrom (Text.width (quote text.toList)) source.toList =
        .ok (l.shift (Text.width (quote text.toList))) := by
    have h := tokensFrom_shift (Text.width (quote text.toList)) hl
    rwa [Nat.zero_add] at h
  rw [tokenize, htext, tokensFrom_quote, String.ofList_toList, Nat.zero_add, map_eq_ok_iff]
  constructor
  · rintro ⟨m, hm, rfl⟩
    -- the rest has tokens where it stands, so it has them at the beginning too
    obtain ⟨l, hl⟩ := exists_tokensFrom hm 0
    rw [hmoved hl] at hm
    cases hm
    exact ⟨l, hl, rfl⟩
  · rintro ⟨l, hl, rfl⟩
    exact ⟨_, hmoved hl, rfl⟩

/-- **Quoting and lexing are inverse in every context.** A source that begins with a quoted text is
lexed exactly when what stands behind it is, and then its first token is the text and the others are
those of the rest. If all offsets fit into 32 bits, the first token spans all of its literal and
nothing else, and the other tokens are moved behind the literal; if not, the spans are what 32 bits
keep of these. -/
theorem tokenizeNarrow_quote_append (text source : String) :
    (∀ lexed, tokenizeNarrow (String.ofList (quote text.toList) ++ source) = .ok lexed ↔
      ∃ l, tokenize source = .ok l ∧
        lexed = ((l.shift (Text.width (quote text.toList))).cons
          ⟨.string text, 0, Text.width (quote text.toList)⟩).narrow) ∧
    (Text.width (String.ofList (quote text.toList) ++ source).toList < UInt32.size →
      (∀ lexed, tokenizeNarrow (String.ofList (quote text.toList) ++ source) = .ok lexed ↔
        ∃ l, tokenizeNarrow source = .ok l ∧
          lexed = (l.shift (Text.width (quote text.toList))).cons
            ⟨.string text, 0, Text.width (quote text.toList)⟩) ∧
      Text.slice 0 (Text.width (quote text.toList))
        (String.ofList (quote text.toList) ++ source).toList = quote text.toList) := by
  have htext : (String.ofList (quote text.toList) ++ source).toList =
      quote text.toList ++ source.toList := by
    rw [String.toList_append, String.toList_ofList]
  refine ⟨fun lexed ↦ ?_, fun hwidth ↦ ⟨fun lexed ↦ ?_, ?_⟩⟩
  · rw [tokenizeNarrow_eq_ok_iff]
    constructor
    · rintro ⟨m, hm, rfl⟩
      obtain ⟨l, hl, rfl⟩ := tokenize_quote_append.mp hm
      exact ⟨l, hl, rfl⟩
    · rintro ⟨l, hl, rfl⟩
      exact ⟨_, tokenize_quote_append.mpr ⟨l, hl, rfl⟩, rfl⟩
  · have hrest : Text.width source.toList < UInt32.size := by
      rw [htext, Text.width_append] at hwidth
      omega
    rw [tokenizeNarrow_eq hwidth, tokenizeNarrow_eq hrest]
    exact tokenize_quote_append
  · have hslice := Text.slice_append [] (quote text.toList) source.toList
    rw [htext]
    rwa [Text.width_nil, Nat.zero_add, List.nil_append] at hslice

/-- A quotation mark in the text does not end the literal. -/
theorem tokenizeNarrow_quote_append_mark :
    tokenizeNarrow (String.ofList (quote "\"".toList) ++ "a") =
      .ok ⟨[⟨.string "\"", 0, 4⟩, ⟨.name "a", 4, 5⟩], 5⟩ := by
  have hsource : tokenize "a" = .ok ⟨[⟨.name "a", 0, 1⟩], 1⟩ :=
    tokensFrom_single (c := 'a') (t := []) rfl rfl
  have hwidth : Text.width (String.ofList (quote "\"".toList) ++ "a").toList < UInt32.size := by
    decide
  obtain ⟨hiff, -⟩ := (tokenizeNarrow_quote_append "\"" "a").2 hwidth
  exact (hiff _).mpr ⟨_, (tokenizeNarrow_eq (by decide)).trans hsource, rfl⟩

theorem tokensFrom_quote_nil (s : List Char) :
    tokensFrom 0 (quote s) = .ok ⟨[⟨.string (String.ofList s), 0, Text.width (quote s)⟩],
      Text.width (quote s)⟩ := by
  have h := tokensFrom_quote 0 s []
  rw [List.append_nil, Nat.zero_add, tokensFrom_of_blank (s := []) _ rfl] at h
  exact h

/-! ## Texts that do not fit -/

private theorem flatMap_quoteChar_replicate (n : Nat) :
    (List.replicate n 'a').flatMap quoteChar = List.replicate n 'a' := by
  induction n with
  | zero => rfl
  | succ n ih =>
    rw [List.replicate_succ, List.flatMap_cons, ih]
    rfl

/-- **The literal of a text of `2 ^ 32` bytes has another span**: its own mark and one letter. -/
theorem span_of_long_quote :
    tokenizeNarrow
        (String.ofList (quote (String.ofList (List.replicate UInt32.size 'a')).toList) ++ "") =
      .ok ⟨[⟨.string (String.ofList (List.replicate UInt32.size 'a')), 0, 2⟩], 2⟩ ∧
    Text.width (quote (String.ofList (List.replicate UInt32.size 'a')).toList) ≠ 2 := by
  have hwidth : Text.width (quote (List.replicate UInt32.size 'a')) = UInt32.size + 2 := by
    rw [quote, flatMap_quoteChar_replicate, Text.width_cons, Text.width_append,
      Text.width_replicate, show 'a'.utf8Size = 1 from rfl, show '"'.utf8Size = 1 from rfl,
      show Text.width ['"'] = 1 from rfl, Nat.mul_one, Nat.add_comm 1, Nat.add_assoc]
  have htokens : tokenize (String.ofList (quote (List.replicate UInt32.size 'a'))) =
      .ok ⟨[⟨.string (String.ofList (List.replicate UInt32.size 'a')), 0, UInt32.size + 2⟩],
        UInt32.size + 2⟩ := by
    rw [tokenize, String.toList_ofList, tokensFrom_quote_nil, hwidth]
  rw [String.toList_ofList, String.append_empty, hwidth]
  exact ⟨tokenizeNarrow_eq_ok_iff.mpr ⟨_, htokens, rfl⟩, by decide⟩

end HtmlTemplate.Interpolation
