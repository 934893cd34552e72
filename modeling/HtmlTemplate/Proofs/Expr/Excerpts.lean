import HtmlTemplate.Proofs.Expr.Grammar
import HtmlTemplate.Proofs.Expr.Positions
import HtmlTemplate.Proofs.Expr.Truncation

/-!
# Excerpts of a source

What a source reads from the beginning of one of its tokens to the end of another is a source
itself. It has the tokens between them and no others, moved to the beginning: no token looks back to
what was cut off in front of it, and none needs what was cut off behind it.

## Cutting at tokens

A source is cut at the beginning of a token and at the end of one. Cutting in front is the easier
part, since the scanner of a token is given what stands behind the tokens before it and nothing
else. For the cut behind a token it matters that a token ends where it does, whatever follows: it is
the longest one at its place, and with less behind it there is no longer one.
-/

namespace HtmlTemplate.Expr

open Text (isBlank width)

variable {offset : Nat} {s : List Char} {l : Lexed} {us ts vs : List Token}

/-- What stands in a source at a span. -/
def Span.excerpt (source : String) (span : Span) : String :=
  String.ofList (Text.slice span.start span.stop source.toList)

theorem spanOf_of_tokensFrom {t : Token} (h : tokensFrom offset s = .ok l)
    (hl : l.tokens = t :: ts) :
    spanOf (t :: ts) = ⟨t.span.start, (lastSpan (t :: ts)).stop⟩ := by
  have hfull := start_lt_stop_of_mem h
  have hapart := List.pairwise_map.mp (List.pairwise_append.mp (pairwise_places_apart h)).1
  rw [hl] at hfull hapart
  rcases List.eq_nil_or_concat ts with rfl | ⟨r, u, rfl⟩
  · exact t.span.cover_self
  · have ht := hfull t List.mem_cons_self
    have hu := hfull u (by simp)
    have hbefore : t.span.stop ≤ u.span.start := (List.pairwise_cons.mp hapart).1 u (by simp)
    rw [List.concat_eq_append, spanOf, lastSpan_cons_concat]
    show Span.mk (min t.span.start u.span.start) (max t.span.stop u.span.stop) = _
    rw [Nat.min_eq_left (by omega), Nat.max_eq_right (by omega)]

/-- **An end of the tokens of a text is the tokens of an end of it**, which begins where the first
of them does. -/
theorem exists_tokensFrom_of_isSuffix (h : tokensFrom offset s = .ok l) (hl : l.tokens = us ++ ts) :
    ∃ a b, s = a ++ b ∧ tokensFrom (offset + width a) b = .ok ⟨ts, l.stop⟩ ∧
      ∀ t ∈ ts.head?, t.span.start = offset + width a := by
  refine tokensFrom_induction (motive := fun offset s l ↦ ∀ us, l.tokens = us ++ ts →
    ∃ a b, s = a ++ b ∧ tokensFrom (offset + width a) b = .ok ⟨ts, l.stop⟩ ∧
      ∀ t ∈ ts.head?, t.span.start = offset + width a) ?_ ?_ h us hl
  · intro offset s hs us hl
    obtain ⟨-, rfl⟩ := List.append_eq_nil_iff.mp hl.symm
    exact ⟨[], s, rfl, tokensFrom_of_blank offset hs, nofun⟩
  · intro offset s c t kind rest l hs hscan hrest ih us hl
    have htext : s.takeWhile isBlank ++ (c :: t) = s := by
      rw [← hs, List.takeWhile_append_dropWhile]
    rcases us with _ | ⟨u, us⟩
    · -- nothing is cut off but the blanks in front
      have hall := tokensFrom_of_token offset hs hscan
      rw [hrest] at hall
      rw [List.nil_append] at hl
      refine ⟨s.takeWhile isBlank, c :: t, htext.symm, ?_, ?_⟩
      · have hblank : (s.takeWhile isBlank).dropWhile isBlank = [] :=
          List.dropWhile_eq_nil_iff.mpr fun _ ↦ List.mem_takeWhile_imp
        rw [← tokensFrom_blank_append offset hblank, htext, hall, ← hl]
        rfl
      · rw [← hl]
        rintro u hu
        obtain rfl := Option.some.inj hu
        rfl
    · obtain ⟨a, b, rfl, hb, hstart⟩ := ih us (List.cons.inj hl).2
      have hwidth : tokenStart offset s + width (consumed (c :: t) (a ++ b)) + width a =
          offset + width (s.takeWhile isBlank ++ consumed (c :: t) (a ++ b) ++ a) := by
        rw [tokenStart, Text.width_append, Text.width_append, Nat.add_assoc, Nat.add_assoc,
          Nat.add_assoc]
      rw [hwidth] at hb hstart
      refine ⟨_, b, ?_, hb, hstart⟩
      rw [List.append_assoc, List.append_assoc, consumed_append (suffix_of_scanToken hscan), htext]

/-- **An excerpt of a source has the tokens in it**, moved to the beginning. -/
theorem exists_excerpt (h : tokensFrom 0 s = .ok l) (hl : l.tokens = us ++ (ts ++ vs))
    (hts : ts ≠ []) :
    ∃ m, tokensFrom 0 (Text.slice (spanOf ts).start (spanOf ts).stop s) = .ok m ∧
      m.shift (spanOf ts).start = ⟨ts, (spanOf ts).stop⟩ := by
  obtain ⟨a, b, rfl, hb, hstart⟩ := exists_tokensFrom_of_isSuffix h hl
  obtain ⟨e, m, ⟨c, rfl⟩, hm, rfl, hstop⟩ :=
    exists_tokensFrom_of_isPrefix hb (List.prefix_append ts vs)
  rw [Nat.zero_add] at hm hstart hstop
  obtain ⟨t, r, ht⟩ := List.exists_cons_of_ne_nil hts
  have hspan : spanOf m.tokens = ⟨width a, m.stop⟩ := by
    have hfirst : t.span.start = width a := hstart t (by rw [ht]; rfl)
    rw [ht, List.getLast?_cons] at hstop
    rw [hstop, ht, spanOf_of_tokensFrom hm ht, lastSpan, List.getLast?_cons, Option.elim_some,
      hfirst]
    rfl
  have hwidth : m.stop = width a + width e := stop_of_tokensFrom hm
  rw [hspan, hwidth, Text.slice_append]
  obtain ⟨n, hn⟩ := exists_tokensFrom hm 0
  have hmoved := tokensFrom_shift (width a) hn
  rw [Nat.zero_add, hm] at hmoved
  refine ⟨n, hn, ?_⟩
  rw [← Except.ok.inj hmoved, ← hwidth]

theorem tokensFrom_lexeme {t : Token} (h : tokensFrom 0 s = .ok l) (ht : t ∈ l.tokens) :
    tokensFrom 0 (Text.slice t.span.start t.span.stop s) =
      .ok ⟨[⟨t.kind, 0, t.span.stop - t.span.start⟩], t.span.stop - t.span.start⟩ := by
  obtain ⟨us, vs, hl⟩ := List.append_of_mem ht
  have hl : l.tokens = us ++ ([t] ++ vs) := hl
  obtain ⟨⟨tokens, stop⟩, hm, hshift⟩ := exists_excerpt h hl (List.cons_ne_nil t [])
  obtain ⟨htokens, hstop⟩ := Lexed.mk.inj hshift
  obtain ⟨⟨kind, start, last⟩, rfl, htoken⟩ := List.map_eq_singleton_iff.mp htokens
  obtain ⟨hkind, hspan⟩ := Token.mk.inj htoken
  obtain ⟨hstart, hlast⟩ := Span.mk.inj hspan
  have hkind : kind = t.kind := hkind
  rw [show spanOf [t] = t.span from t.span.cover_self] at hm hstart hlast hstop
  have hstart : start = 0 := Nat.add_eq_right.mp hstart
  have hlast : last = t.span.stop - t.span.start := Nat.eq_sub_of_add_eq hlast
  have hstop : stop = t.span.stop - t.span.start := Nat.eq_sub_of_add_eq hstop
  rw [hstart, hlast, hstop, hkind] at hm
  exact hm

/-! ## Names

A name is written in one way only, so what stands at the span of a name is the name. -/

theorem toList_append_of_scanToken {c : Char} {t rest : List Char} {text : String}
    (h : scanToken c t = .ok (.name text, rest)) : text.toList ++ rest = c :: t := by
  unfold scanToken at h
  split_ifs at h
  · obtain ⟨_, -, hkind⟩ := map_eq_ok_iff.mp h
    cases hkind
  · obtain ⟨_, -, hkind⟩ := map_eq_ok_iff.mp h
    cases hkind
  · cases h
    rw [String.toList_ofList, List.cons_append, List.takeWhile_append_dropWhile]
  · split at h <;> cases h

theorem eq_toList_of_tokensFrom {text : String} {n : Nat}
    (h : tokensFrom 0 s = .ok ⟨[⟨.name text, 0, n⟩], n⟩) : s = text.toList := by
  rcases hs : s.dropWhile isBlank with _ | ⟨c, t⟩
  · rw [tokensFrom_of_blank 0 hs] at h
    cases h
  rcases hscan : scanToken c t with stop | ⟨kind, rest⟩
  · rw [tokensFrom_of_stop 0 hs hscan] at h
    cases h
  rw [tokensFrom_of_token 0 hs hscan, map_eq_ok_iff] at h
  obtain ⟨⟨more, stop⟩, hmore, hall⟩ := h
  obtain ⟨htokens, rfl⟩ := Lexed.mk.inj hall
  obtain ⟨htoken, rfl⟩ := List.cons.inj htokens
  obtain ⟨rfl, hspan⟩ := Token.mk.inj htoken
  obtain ⟨hstart, hstop⟩ := Span.mk.inj hspan
  -- neither the blanks in front nor what is behind the name have any width
  have hfront : s.takeWhile isBlank = [] := by
    by_contra hne
    have := Text.width_pos_of_ne_nil hne
    rw [tokenStart] at hstart
    omega
  have hbehind : rest = [] := by
    by_contra hne
    have := Text.width_pos_of_ne_nil hne
    have hend := stop_of_tokensFrom hmore
    rw [hstop] at hend
    omega
  rw [← List.takeWhile_append_dropWhile (p := isBlank) (l := s), hs, hfront, List.nil_append,
    ← toList_append_of_scanToken hscan, hbehind, List.append_nil]

/-- **The excerpt of a name is the name.** -/
theorem slice_of_name {t : Token} {text : String} (h : tokensFrom 0 s = .ok l) (ht : t ∈ l.tokens)
    (hname : t.kind = .name text) : Text.slice t.span.start t.span.stop s = text.toList := by
  have halone := tokensFrom_lexeme h ht
  rw [hname] at halone
  exact eq_toList_of_tokensFrom halone

theorem excerpt_of_name {source : String} {t : Token} {text : String} (h : tokenize source = .ok l)
    (ht : t ∈ l.tokens) (hname : t.kind = .name text) : t.span.excerpt source = text := by
  rw [Span.excerpt, slice_of_name h ht hname, String.ofList_toList]

end HtmlTemplate.Expr
