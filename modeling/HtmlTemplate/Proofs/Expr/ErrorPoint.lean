import HtmlTemplate.Proofs.Expr.Positions
import HtmlTemplate.Proofs.Expr.Splitting
import HtmlTemplate.Proofs.Expr.Truncation
import HtmlTemplate.Proofs.Expr.ViablePrefix

/-!
# Which token a syntax error is at

A source that has tokens and is no expression fails at one of its tokens, or at the end marker
behind them. The tokens before that one are the beginning of an expression, and with it they are
not: it is the first token at which it is clear that the source is none. At the end marker nothing
is wrong yet, so there the source can be completed, and the error has another code.

The completion is a source too. What stands before the error is cut off there, which leaves its
tokens as they are, and the missing tokens are written behind it, between blanks.

## Both halves

That the tokens in front of the error begin an expression is the viable half: the parser never goes
on behind a mistake (`HtmlTemplate.Proofs.Expr.ViablePrefix`). That they do not together with the
token at the error is the other half: a refusal of the parser is one whatever stands behind the
token (`not_beginsExpression`). The two say what the place of the error is without the parser, so
there is no more than one such place.
-/

namespace HtmlTemplate.Expr

open Text (isBlank width)

/-- Is there an expression with tokens of these kinds in front? -/
def BeginsExpression (ks : List Token.Kind) : Prop :=
  ∃ source lexed e, tokenize source = .ok lexed ∧ parse source = .ok e ∧ ks <+: lexed.kinds

/-! ## Sources of completions

The tokens that complete an expression are a name, a colon and the marks that close (`completing`).
Each of them is written with a blank behind it, which keeps it apart from the next one. -/

theorem exists_scanToken_of_completing {k : Token.Kind} (hk : k ∈ completing) :
    ∃ c t, isBlank c = false ∧ scanToken c t = .ok (k, []) := by
  simp only [completing, List.mem_cons, List.not_mem_nil, or_false] at hk
  rcases hk with rfl | rfl | rfl | rfl | rfl
  · exact ⟨'a', [], rfl, rfl⟩
  · exact ⟨':', [], rfl, scanToken_of_inFront? (by decide) rfl⟩
  · exact ⟨')', [], rfl, scanToken_of_inFront? (by decide) rfl⟩
  · exact ⟨']', [], rfl, scanToken_of_inFront? (by decide) rfl⟩
  · exact ⟨'\x7d', [], rfl, scanToken_of_inFront? (by decide) rfl⟩

theorem exists_tokensFrom_of_completing {ks : List Token.Kind} (hks : ∀ k ∈ ks, k ∈ completing) :
    ∃ s, ∀ offset, ∃ l, tokensFrom offset (' ' :: s) = .ok l ∧ l.kinds = ks := by
  induction ks with
  | nil => exact ⟨[], fun offset ↦ ⟨_, tokensFrom_of_blank offset rfl, rfl⟩⟩
  | cons k ks ih =>
    obtain ⟨s, hs⟩ := ih fun k hk ↦ hks k (List.mem_cons_of_mem _ hk)
    obtain ⟨c, t, hc, hscan⟩ := exists_scanToken_of_completing (hks k List.mem_cons_self)
    refine ⟨c :: t ++ ' ' :: s, fun offset ↦ ?_⟩
    obtain ⟨l, hl, hkind⟩ : ∃ l, tokensFrom (offset + 1) (c :: t) = .ok l ∧ l.kinds = [k] := by
      have hfirst := tokensFrom_shift (offset + 1) (tokensFrom_single hc hscan)
      rw [Nat.zero_add] at hfirst
      exact ⟨_, hfirst, rfl⟩
    obtain ⟨m, hm, hkinds⟩ := hs l.stop
    refine ⟨l.append m, ?_, ?_⟩
    · have hblank := tokensFrom_blank_append offset (s := [' ']) rfl (c :: t ++ ' ' :: s)
      rw [List.singleton_append] at hblank
      rw [hblank, show offset + width [' '] = offset + 1 from rfl,
        tokensFrom_append s (isBreak_of_isBlank rfl) hl, hm]
      rfl
    · rw [kinds_append, hkind, hkinds]
      rfl

/-- **What begins an expression can be completed** to a source that is one. -/
theorem exists_parse_of_begins {s : List Char} {l : Lexed} (hs : tokensFrom 0 s = .ok l)
    (h : Begins .conditional l.tokens) :
    ∃ more m e, tokensFrom 0 (s ++ ' ' :: more) = .ok (l.append m) ∧
      ofTokens (l.append m) = .ok e := by
  obtain ⟨vs, p, hvs, hp⟩ := h
  have hkinds : ∀ k ∈ vs.map Token.kind, k ∈ completing := by
    intro k hk
    obtain ⟨v, hv, rfl⟩ := List.mem_map.mp hk
    exact hvs v hv
  obtain ⟨more, hmore⟩ := exists_tokensFrom_of_completing hkinds
  obtain ⟨m, hm, hkinds⟩ := hmore l.stop
  have hlike : p.HasLike .conditional (l.append m).tokens := by
    refine hp.of_kinds ?_
    rw [List.map_append, ← hkinds]
    exact List.map_append
  obtain ⟨a, rfl⟩ := hp.exists_expr rfl
  obtain ⟨e, he⟩ := hlike
  refine ⟨more, m, e, ?_, ofTokens_eq_ok_iff.mpr he⟩
  rw [tokensFrom_append more (isBreak_of_isBlank rfl) hs, hm]
  rfl

theorem parse_ofList {s : List Char} {l : Lexed} (h : tokensFrom 0 s = .ok l) :
    tokenize (String.ofList s) = .ok l ∧ parse (String.ofList s) = ofTokens l := by
  have htokens : tokenize (String.ofList s) = .ok l := by rw [tokenize, String.toList_ofList, h]
  rw [parse, htokens]
  exact ⟨rfl, rfl⟩

/-! ## Beginnings of expressions -/

theorem BeginsExpression.of_isPrefix {ks ks' : List Token.Kind} (h : BeginsExpression ks)
    (hfront : ks' <+: ks) : BeginsExpression ks' := by
  obtain ⟨source, lexed, e, htokens, he, hks⟩ := h
  exact ⟨source, lexed, e, htokens, he, hfront.trans hks⟩

/-- The tokens in front of a source begin an expression if they can be completed at all: what stands
behind them is cut off. -/
theorem beginsExpression_of_begins {s : List Char} {l : Lexed} {us : List Token}
    (hs : tokensFrom 0 s = .ok l) (hus : us <+: l.tokens) (h : Begins .conditional us) :
    BeginsExpression (us.map Token.kind) := by
  obtain ⟨a, l, -, ha, rfl, -⟩ := exists_tokensFrom_of_isPrefix hs hus
  obtain ⟨more, m, e, htokens, he⟩ := exists_parse_of_begins ha h
  obtain ⟨htokenize, hparse⟩ := parse_ofList htokens
  refine ⟨_, _, e, htokenize, hparse.trans he, ?_⟩
  rw [kinds_append]
  exact List.prefix_append _ _

theorem not_beginsExpression {us : List Token} {t : Token}
    (h : ∀ rest p, rest.head? = some t → ¬Derives .conditional (us ++ rest) p) :
    ¬BeginsExpression ((us ++ [t]).map Token.kind) := by
  rintro ⟨source, lexed, e, htokens, he, hks⟩
  have hparse : ofTokens lexed = .ok e := by rwa [parse, htokens] at he
  obtain ⟨behind, hkinds⟩ := hks
  obtain ⟨front, vs, hsplit, hfront, -⟩ := List.map_eq_append_iff.mp hkinds.symm
  have hderives := ofTokens_eq_ok_iff.mp hparse
  rw [hsplit] at hderives
  -- the spans do not matter, so the same tokens with what follows there would be an expression
  obtain ⟨e', he'⟩ : ∃ e', Derives .conditional (us ++ t :: vs) (.expr e') := by
    refine hderives.of_kinds ?_
    rw [List.append_cons, List.map_append, ← hfront, ← List.map_append]
  exact h (t :: vs) _ rfl he'

theorem beginsExpression_of_parse {source more : String} {lexed : Lexed} {e : Expr}
    (htokens : tokenize source = .ok lexed) (h : parse (source ++ " " ++ more) = .ok e) :
    BeginsExpression lexed.kinds := by
  have htext : (source ++ " " ++ more).toList = source.toList ++ ' ' :: more.toList := by simp
  have hlonger : tokenize (source ++ " " ++ more) =
      (tokensFrom lexed.stop (' ' :: more.toList)).map lexed.append := by
    rw [tokenize, htext, tokensFrom_append more.toList (isBreak_of_isBlank rfl) htokens]
  obtain ⟨l, hl, -⟩ := bind_eq_ok_iff.mp h
  obtain ⟨m, hm, rfl⟩ := map_eq_ok_iff.mp (hlonger.symm.trans hl)
  refine ⟨_, _, e, hl, h, ?_⟩
  rw [kinds_append]
  exact List.prefix_append _ _

/-! ## The error -/

/-- **Where a syntax error points.** A source that has tokens and is no expression fails at exactly
one of the places of its tokens, the end marker among them. The tokens before that place begin an
expression. With the token there they begin none, if it is not the end marker. At the end marker,
and only there, the end was not expected: then all tokens of the source begin an expression, and the
source can be completed. -/
theorem parse_error_point {source : String} {lexed : Lexed} {err : SyntaxError}
    (htokens : tokenize source = .ok lexed) (herr : parse source = .error err) :
    ∃ k, (∀ j, lexed.places[j]? = some err.span ↔ j = k) ∧
      BeginsExpression (lexed.kinds.take k) ∧
      (k < lexed.tokens.length → ¬BeginsExpression (lexed.kinds.take (k + 1))) ∧
      err.fault.code =
        (if k = lexed.tokens.length then .unexpectedEnd else .unexpectedToken) ∧
      (k = lexed.tokens.length ↔ BeginsExpression lexed.kinds) ∧
      (k = lexed.tokens.length ↔ ∃ more e, parse (source ++ " " ++ more) = .ok e) := by
  have hparse : ofTokens lexed = .error err := by rwa [parse, htokens] at herr
  obtain ⟨us, rest, expected, hsplit, rfl, hus, hrefused⟩ := stopsAt_of_ofTokens hparse
  have hplace : lexed.places[us.length]? = some (unexpected lexed.stop expected rest).span := by
    rw [Lexed.places, hsplit, List.map_append, List.append_assoc,
      List.getElem?_append_right (by rw [List.length_map])]
    rcases rest with _ | ⟨t, rest⟩ <;> simp [unexpected]
  have htake : lexed.kinds.take us.length = us.map Token.kind := by
    rw [Lexed.kinds, hsplit, List.map_append]
    exact List.take_left' (List.length_map _)
  have hbegins := beginsExpression_of_begins htokens (hsplit ▸ List.prefix_append us rest) hus
  refine ⟨us.length, fun j ↦ ⟨fun hj ↦ getElem?_places_inj htokens hj hplace, ?_⟩,
    by rwa [htake], ?_⟩
  · rintro rfl
    exact hplace
  rcases rest with _ | ⟨t, rest⟩
  · -- at the end marker all tokens are before the error
    rw [List.append_nil] at hsplit
    have hlength : us.length = lexed.tokens.length := by rw [hsplit]
    have hall : us.map Token.kind = lexed.kinds := by rw [Lexed.kinds, hsplit]
    rw [hall] at hbegins
    refine ⟨fun hlt ↦ absurd hlt (by omega), (if_pos hlength).symm, by simp [hlength, hbegins], ?_⟩
    refine ⟨fun _ ↦ ?_, fun _ ↦ hlength⟩
    obtain ⟨more, m, e, hmore, he⟩ := exists_parse_of_begins htokens (hsplit ▸ hus)
    have htext :
        source ++ " " ++ String.ofList more = String.ofList (source.toList ++ ' ' :: more) := by
      simp [String.ext_iff]
    exact ⟨String.ofList more, e, by rw [htext, (parse_ofList hmore).2, he]⟩
  · -- with the token at the error the tokens are refused
    have hlt : us.length < lexed.tokens.length := by
      rw [hsplit, List.length_append, List.length_cons]
      omega
    have hnot := not_beginsExpression fun rest' p hhead ↦
      hrefused (List.cons_ne_nil t rest) rest' hhead p
    have hfront : (us ++ [t]).map Token.kind <+: lexed.kinds := by
      rw [Lexed.kinds, hsplit, List.append_cons us t rest]
      exact (List.prefix_append _ _).map _
    have htake' : lexed.kinds.take (us.length + 1) = (us ++ [t]).map Token.kind := by
      rw [List.prefix_iff_eq_take.mp hfront, List.length_map, List.length_append,
        List.length_singleton]
    refine ⟨fun _ ↦ by rwa [htake'], (if_neg (Nat.ne_of_lt hlt)).symm, ?_, ?_⟩
    · exact ⟨fun heq ↦ absurd heq (Nat.ne_of_lt hlt), fun h ↦ absurd (h.of_isPrefix hfront) hnot⟩
    · refine ⟨fun heq ↦ absurd heq (Nat.ne_of_lt hlt), ?_⟩
      rintro ⟨more, e, he⟩
      exact absurd ((beginsExpression_of_parse htokens he).of_isPrefix hfront) hnot

/-- Of two names, the second one is too many. -/
theorem parse_error_point_names :
    ∃ lexed err, tokenize "a b" = .ok lexed ∧ parse "a b" = .error err ∧
      lexed.places[1]? = some err.span ∧ err.fault.code = .unexpectedToken ∧
      BeginsExpression [.name "a"] ∧ ¬BeginsExpression [.name "a", .name "b"] := by
  have htokens : tokenize "a b" = .ok ⟨[⟨.name "a", 0, 1⟩, ⟨.name "b", 2, 3⟩], 3⟩ := by
    have ha : scanToken 'a' [' ', 'b'] = .ok (.name "a", [' ', 'b']) := rfl
    have hb : scanToken 'b' [] = .ok (.name "b", []) := rfl
    rw [tokenize, tokensFrom_of_token 0 (s := "a b".toList) rfl ha, tokensFrom_of_token _ rfl hb,
      tokensFrom_of_blank _ rfl]
    rfl
  have herr : parse "a b" = .error ⟨.unexpected .endOfInput (some (.name "b")), 2, 3⟩ := by
    have ha : Derives .conditional [⟨.name "a", 0, 1⟩] (.expr (.name "a" ⟨0, 1⟩)) :=
      .test (.of_ofName rfl)
    have hparses : ParsesAs 3 [⟨.name "a", 0, 1⟩] .conditional (.expr (.name "a" ⟨0, 1⟩)) :=
      ha.parsesAs
    have hend : Category.conditional.EndsBefore [⟨.name "b", 2, 3⟩] := by
      intro t ht
      cases ht
      rintro (h | h | h)
      · cases h
      · exact h rfl
      · cases h
    obtain ⟨hlt, hread⟩ : Reads (parseConditional 3 [⟨.name "a", 0, 1⟩, ⟨.name "b", 2, 3⟩])
      (.name "a" ⟨0, 1⟩) [⟨.name "b", 2, 3⟩] := hparses _ hend
    rw [parse, htokens]
    show ofTokens _ = _
    rw [ofTokens, hread]
    rfl
  obtain ⟨k, hk, hbegins, hnot, hcode, -⟩ := parse_error_point htokens herr
  obtain rfl : 1 = k := (hk 1).mp rfl
  exact ⟨_, _, htokens, herr, rfl, rfl, hbegins, hnot (by decide)⟩

end HtmlTemplate.Expr
