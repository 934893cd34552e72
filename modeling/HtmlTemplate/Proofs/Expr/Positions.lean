import HtmlTemplate.Proofs.Expr.Extents
import HtmlTemplate.Proofs.Text.Slices

/-!
# Where tokens and errors stand

The span of a token, and the span of the lexeme at which lexing fails, is the range of bytes of a
part of the source. The tokens stand one behind another, and behind them the end marker, so the
beginning of a span tells which of them it is.

## The end marker

The end of the input is a place with an empty span, at the width of the source. It is counted among
the places of the tokens (`Lexed.places`), so that an error that stands there is not a case of its
own. Its span is the only empty one, so no two places have one span.
-/

namespace HtmlTemplate.Expr

open Text (isBlank width IsBoundary)

/-! ## Spans of parts of a text

A part of a text is what stands between two others. Its range of bytes begins and ends at
characters, so it can be cut out again. -/

/-- Is the span the range of bytes of a part of the text? -/
def Span.IsIn (s : List Char) (span : Span) : Prop :=
  ∃ a b c, s = a ++ (b ++ c) ∧ span.start = width a ∧ span.stop = width a + width b

namespace Span.IsIn

variable {s : List Char} {span : Span}

theorem start_le_stop (h : span.IsIn s) : span.start ≤ span.stop := by
  obtain ⟨a, b, c, -, hstart, hstop⟩ := h
  omega

theorem stop_le (h : span.IsIn s) : span.stop ≤ width s := by
  obtain ⟨a, b, c, rfl, -, hstop⟩ := h
  rw [Text.width_append, Text.width_append]
  omega

theorem isBoundary_start (h : span.IsIn s) : IsBoundary s span.start := by
  obtain ⟨a, b, c, rfl, hstart, -⟩ := h
  exact ⟨a, b ++ c, rfl, hstart⟩

theorem isBoundary_stop (h : span.IsIn s) : IsBoundary s span.stop := by
  obtain ⟨a, b, c, rfl, -, hstop⟩ := h
  exact ⟨a ++ b, c, (List.append_assoc a b c).symm, by rw [hstop, Text.width_append]⟩

end Span.IsIn

theorem append_consumed (before : List Char) {s rest : List Char} {c : Char} {t : List Char}
    (hs : s.dropWhile isBlank = c :: t) (hrest : rest <:+ c :: t) :
    before ++ s.takeWhile isBlank ++ consumed (c :: t) rest ++ rest = before ++ s := by
  rw [List.append_assoc, consumed_append hrest, ← hs, List.append_assoc,
    List.takeWhile_append_dropWhile]

theorem isIn_consumed {before s rest : List Char} {c : Char} {t : List Char}
    (hs : s.dropWhile isBlank = c :: t) (hrest : rest <:+ c :: t) :
    Span.IsIn (before ++ s) ⟨tokenStart (width before) s,
      tokenStart (width before) s + width (consumed (c :: t) rest)⟩ := by
  refine ⟨before ++ s.takeWhile isBlank, consumed (c :: t) rest, rest, ?_, ?_, ?_⟩
  · rw [← List.append_assoc, append_consumed before hs hrest]
  · rw [tokenStart, Text.width_append]
  · rw [tokenStart, Text.width_append]

/-! ## The places of the tokens -/

/-- Where the tokens stand, and behind them the end marker. -/
def Lexed.places (l : Lexed) : List Span := l.tokens.map Token.span ++ [⟨l.stop, l.stop⟩]

variable {offset : Nat} {s : List Char} {l : Lexed}

theorem consumed_ne_nil {c : Char} {t rest : List Char} {kind : Token.Kind}
    (h : scanToken c t = .ok (kind, rest)) : consumed (c :: t) rest ≠ [] := by
  intro hnil
  have hread := consumed_append (suffix_of_scanToken h)
  rw [hnil, List.nil_append] at hread
  have := length_of_scanToken h
  rw [hread, List.length_cons] at this
  omega

/-- **The tokens stand one behind another**, and the end marker behind them. -/
theorem pairwise_places (h : tokensFrom offset s = .ok l) :
    (∀ p ∈ l.places, offset ≤ p.start) ∧ l.places.Pairwise fun p q ↦ p.start < q.start := by
  refine tokensFrom_induction (motive := fun offset _ l ↦ (∀ p ∈ l.places, offset ≤ p.start) ∧
    l.places.Pairwise fun p q ↦ p.start < q.start) ?_ ?_ h
  · intro offset s _
    refine ⟨fun p hp ↦ ?_, List.pairwise_singleton _ _⟩
    rw [List.mem_singleton.mp hp]
    exact Nat.le_add_right _ _
  · rintro offset s c t kind rest l - hscan - ⟨hle, hpairwise⟩
    have hwidth := Text.width_pos_of_ne_nil (consumed_ne_nil hscan)
    have hstart : offset ≤ tokenStart offset s := Nat.le_add_right _ _
    refine ⟨fun p hp ↦ ?_, List.pairwise_cons.mpr ⟨fun p hp ↦ ?_, hpairwise⟩⟩
    · rcases List.mem_cons.mp hp with rfl | hp
      · exact hstart
      · have := hle p hp
        omega
    · have := hle p hp
      show tokenStart offset s < p.start
      omega

/-- Every place ends before the next one begins, the end marker's included. -/
theorem pairwise_places_apart (h : tokensFrom offset s = .ok l) :
    l.places.Pairwise fun p q ↦ p.stop ≤ q.start := by
  refine tokensFrom_induction
    (motive := fun _ _ l ↦ l.places.Pairwise fun p q ↦ p.stop ≤ q.start) ?_ ?_ h
  · exact fun _ _ _ ↦ List.pairwise_singleton _ _
  · exact fun _ _ _ _ _ _ _ _ _ hrest ih ↦
      List.pairwise_cons.mpr ⟨(pairwise_places hrest).1, ih⟩

theorem start_lt_stop_of_mem (h : tokensFrom offset s = .ok l) :
    ∀ t ∈ l.tokens, t.span.start < t.span.stop := by
  refine tokensFrom_induction
    (motive := fun _ _ l ↦ ∀ t ∈ l.tokens, t.span.start < t.span.stop) ?_ ?_ h
  · exact fun _ _ _ t ht ↦ absurd ht List.not_mem_nil
  · intro offset s c t kind rest l _ hscan _ ih u hu
    rcases List.mem_cons.mp hu with rfl | hu
    · exact Nat.lt_add_of_pos_right (Text.width_pos_of_ne_nil (consumed_ne_nil hscan))
    · exact ih u hu

/-- A span is the place of one token at most. -/
theorem getElem?_places_inj (h : tokensFrom offset s = .ok l) {i j : Nat} {span : Span}
    (hi : l.places[i]? = some span) (hj : l.places[j]? = some span) : i = j := by
  have hnodup : l.places.Nodup :=
    (pairwise_places h).2.imp fun hlt ↦ ne_of_apply_ne Span.start (Nat.ne_of_lt hlt)
  have hlt : i < l.places.length := (List.getElem?_eq_some_iff.mp hi).1
  exact (List.getElem?_inj hlt hnodup).mp (hi.trans hj.symm)

/-! ## Parts of the source -/

/-- **The place of a token is a part of the source**, and so is the end marker. -/
theorem isIn_of_mem_places (before : List Char) (h : tokensFrom (width before) s = .ok l) :
    ∀ p ∈ l.places, p.IsIn (before ++ s) := by
  refine tokensFrom_induction (motive := fun offset s l ↦ ∀ before, offset = width before →
    ∀ p ∈ l.places, p.IsIn (before ++ s)) ?_ ?_ h before rfl
  · rintro _ s hs before rfl p hp
    have hall : s.takeWhile isBlank = s :=
      List.takeWhile_eq_self_iff.mpr (List.dropWhile_eq_nil_iff.mp hs)
    rw [List.mem_singleton.mp hp, hall]
    exact ⟨before ++ s, [], [], by simp, (Text.width_append before s).symm,
      (Text.width_append before s).symm⟩
  · rintro _ s c t kind rest l hs hscan - ih before rfl p hp
    have hrest := suffix_of_scanToken hscan
    rcases List.mem_cons.mp hp with rfl | hp
    · exact isIn_consumed hs hrest
    · -- the other tokens stand behind this one
      rw [← append_consumed before hs hrest]
      refine ih _ ?_ p hp
      rw [tokenStart, Text.width_append, Text.width_append]

/-- **A lexing error is at a part of the source**: what was read of the lexeme that is none. -/
theorem isIn_of_tokensFrom_error (before : List Char) {err : SyntaxError}
    (h : tokensFrom (width before) s = .error err) : err.span.IsIn (before ++ s) := by
  induction hn : s.length using Nat.strong_induction_on generalizing before s with
  | _ n ih =>
    subst hn
    rcases hs : s.dropWhile isBlank with _ | ⟨c, t⟩
    · rw [tokensFrom_of_blank _ hs] at h
      cases h
    rcases hscan : scanToken c t with stop | ⟨kind, rest⟩
    · rw [tokensFrom_of_stop _ hs hscan] at h
      cases h
      have hunread := unread_scanToken c t
      rw [hscan] at hunread
      exact isIn_consumed hs hunread
    · rw [tokensFrom_of_token _ hs hscan, map_eq_error_iff, tokenStart, ← Text.width_append,
        ← Text.width_append] at h
      rw [← append_consumed before hs (suffix_of_scanToken hscan)]
      refine ih rest.length ?_ _ h rfl
      have := length_of_scanToken hscan
      have := (List.dropWhile_suffix (l := s) isBlank).length_le
      rw [hs, List.length_cons] at this
      omega

end HtmlTemplate.Expr
