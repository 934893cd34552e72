import HtmlTemplate.Expr.Narrow
import HtmlTemplate.Proofs.Expr.Completeness
import HtmlTemplate.Proofs.Expr.Excerpts
import HtmlTemplate.Proofs.Expr.Splitting

/-!
# Spans of 32 bits

No span of a source ends behind it, so in a source that is shorter than `2 ^ 32` bytes nothing is
lost when the offsets are kept in 32 bits (`tokenizeNarrow_eq`, `parseNarrow_eq`). In a longer
source the kinds of the tokens are still right, and with them the shape of the tree
(`exists_parse_of_narrow`).

## Why the bound is sharp

Blanks of `2 ^ 32` bytes move every token of a source by a whole turn, and what is kept of its spans
is what it was without the blanks (`tokenizeNarrow_append`). The spans then point into the blanks.

## What is proved of narrow spans

The parser decides nothing by a span, so it can be given tokens with any spans, and what it makes of
them is said by the grammar for these tokens. A theorem about the tree of a source of any length is
therefore one about a derivation from the narrow tokens, and is compared with the tree of the same
source with wide spans through the kinds of the tokens, which are the same (`Derives.of_kinds`).
-/

namespace HtmlTemplate.Expr

open Text (isBlank width)

variable {s : List Char} {l : Lexed} {source : String} {e : Expr}

/-! ## Below the bound -/

theorem Span.IsIn.narrow_eq {span : Span} (h : span.IsIn s) (hs : width s < UInt32.size) :
    span.narrow = span := by
  have hstop := h.stop_le.trans_lt hs
  rw [narrow, Nat.mod_eq_of_lt (h.start_le_stop.trans_lt hstop), Nat.mod_eq_of_lt hstop]

theorem Lexed.narrow_eq (h : ∀ p ∈ l.places, p.narrow = p) : l.narrow = l := by
  have htokens : l.tokens.map Token.narrow = l.tokens := by
    refine (List.map_congr_left fun t ht ↦ ?_).trans (List.map_id _)
    exact congrArg (Token.mk t.kind) (h _ (List.mem_append_left _ (List.mem_map_of_mem ht)))
  have hstop := h ⟨l.stop, l.stop⟩ (List.mem_append_right _ (List.mem_singleton_self _))
  rw [narrow, htokens, (Span.mk.inj hstop).1]

/-- **Below `2 ^ 32` bytes no span is changed**, of the tokens or of an error. -/
theorem tokenizeNarrow_eq (h : width source.toList < UInt32.size) :
    tokenizeNarrow source = tokenize source := by
  unfold tokenizeNarrow
  rcases hlexed : tokenize source with err | l
  · have hspan := (isIn_of_tokensFrom_error [] hlexed).narrow_eq h
    exact congrArg (fun span ↦ Except.error (SyntaxError.mk err.fault span)) hspan
  · have hplaces p (hp : p ∈ l.places) := (isIn_of_mem_places [] hlexed p hp).narrow_eq h
    exact congrArg Except.ok (Lexed.narrow_eq hplaces)

theorem parseNarrow_eq (h : width source.toList < UInt32.size) :
    parseNarrow source = parse source := by
  rw [parseNarrow, tokenizeNarrow_eq h, parse]

/-! ## Sources of any length -/

theorem tokenizeNarrow_eq_ok_iff :
    tokenizeNarrow source = .ok l ↔ ∃ m, tokenize source = .ok m ∧ l = m.narrow := by
  unfold tokenizeNarrow
  rcases tokenize source with err | m
  · exact ⟨nofun, nofun⟩
  · constructor
    · exact fun h ↦ ⟨m, rfl, (Except.ok.inj h).symm⟩
    · rintro ⟨_, hm, rfl⟩
      cases hm
      rfl

private theorem parseNarrow_eq_ok_iff : parseNarrow source = .ok e ↔
    ∃ m, tokenize source = .ok m ∧ Derives .conditional m.narrow.tokens (.expr e) := by
  rw [parseNarrow, bind_eq_ok_iff]
  constructor
  · rintro ⟨_, hl, he⟩
    obtain ⟨m, hm, rfl⟩ := tokenizeNarrow_eq_ok_iff.mp hl
    exact ⟨m, hm, ofTokens_eq_ok_iff.mp he⟩
  · rintro ⟨m, hm, he⟩
    exact ⟨_, tokenizeNarrow_eq_ok_iff.mpr ⟨m, hm, rfl⟩, ofTokens_eq_ok_iff.mpr he⟩

/-- **The width of the offsets does not decide what is an expression.** -/
theorem exists_parse_of_narrow (h : parseNarrow source = .ok e) :
    ∃ m e', tokenize source = .ok m ∧ Derives .conditional m.narrow.tokens (.expr e) ∧
      parse source = .ok e' ∧ Derives .conditional m.tokens (.expr e') := by
  obtain ⟨m, hm, he⟩ := parseNarrow_eq_ok_iff.mp h
  have hkinds : m.tokens.map Token.kind = m.narrow.tokens.map Token.kind := by
    rw [Lexed.narrow, List.map_map]
    rfl
  obtain ⟨e', he'⟩ := he.of_kinds hkinds
  exact ⟨m, e', hm, he, parse_eq_ok_iff_exists.mpr ⟨m, hm, he'⟩, he'⟩

/-! ## At the bound

The blanks are taken to be exactly as many as the offsets can count. Any multiple would do. -/

theorem Span.narrow_shift {d : Nat} (hd : UInt32.size ∣ d) (span : Span) :
    (span.shift d).narrow = span.narrow := by
  obtain ⟨n, rfl⟩ := hd
  rw [shift, narrow, Nat.add_mul_mod_self_left, Nat.add_mul_mod_self_left, narrow]

theorem Lexed.narrow_shift {d : Nat} (hd : UInt32.size ∣ d) (l : Lexed) :
    (l.shift d).narrow = l.narrow := by
  have htokens : (l.tokens.map (Token.shift d)).map Token.narrow = l.tokens.map Token.narrow := by
    rw [List.map_map]
    exact List.map_congr_left fun t _ ↦ congrArg (Token.mk t.kind) (t.span.narrow_shift hd)
  have hstop := congrArg Span.stop (Span.narrow_shift hd ⟨l.stop, l.stop⟩)
  exact congrArg₂ Lexed.mk htokens hstop

/-- **Blanks that fill all offsets leave no trace** on what stands behind them. -/
theorem tokenizeNarrow_append {before : List Char} (hblank : before.dropWhile isBlank = [])
    (hwidth : UInt32.size ∣ width before) (h : tokenize source = .ok l) :
    tokenizeNarrow (String.ofList before ++ source) = tokenizeNarrow source := by
  have htext : (String.ofList before ++ source).toList = before ++ source.toList := by
    rw [String.toList_append, String.toList_ofList]
  have hmoved : tokenize (String.ofList before ++ source) = .ok (l.shift (width before)) := by
    rw [tokenize, htext, tokensFrom_blank_append 0 hblank]
    exact tokensFrom_shift _ h
  rw [tokenizeNarrow_eq_ok_iff.mpr ⟨_, hmoved, rfl⟩, tokenizeNarrow_eq_ok_iff.mpr ⟨_, h, rfl⟩,
    Lexed.narrow_shift hwidth]

theorem parseNarrow_turn (h : tokenize source = .ok l) :
    parseNarrow (String.ofList (List.replicate UInt32.size ' ') ++ source) =
      parseNarrow source := by
  have hblank : (List.replicate UInt32.size ' ').dropWhile isBlank = [] := by
    refine List.dropWhile_eq_nil_iff.mpr fun c hc ↦ ?_
    rw [List.eq_of_mem_replicate hc]
    rfl
  have hwidth : UInt32.size ∣ width (List.replicate UInt32.size ' ') :=
    ⟨' '.utf8Size, Text.width_replicate UInt32.size ' '⟩
  rw [parseNarrow, parseNarrow, tokenizeNarrow_append hblank hwidth h]

theorem excerpt_turn (source : String) :
    Span.excerpt (String.ofList (List.replicate UInt32.size ' ') ++ source) ⟨0, 1⟩ = " " := by
  have htext : (String.ofList (List.replicate UInt32.size ' ') ++ source).toList =
      [] ++ ([' '] ++ (List.replicate (UInt32.size - 1) ' ' ++ source.toList)) := by
    rw [String.toList_append, String.toList_ofList, List.nil_append, ← List.append_assoc,
      List.singleton_append, ← List.replicate_succ, Nat.sub_add_cancel (by decide)]
  rw [Span.excerpt, htext]
  exact congrArg String.ofList (Text.slice_append [] [' '] _)

end HtmlTemplate.Expr
