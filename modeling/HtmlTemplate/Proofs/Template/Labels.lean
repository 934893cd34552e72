import HtmlTemplate.Proofs.Expr.Positions
import HtmlTemplate.Proofs.Expr.ViablePrefix
import HtmlTemplate.Proofs.Template.Outcomes
import HtmlTemplate.Proofs.Template.Provenance

/-!
# What the label of an error marks

A compile error is the error that the expression in it has when it is evaluated
(`CompileError.Arises`): nothing between the directive and the report touches either. So the span of
a syntax error is a part of the very text that the diagnostic shows. The label marks that part, and
cutting the span down to the text, as the diagnostic does, changes nothing.

## Two halves

That an error keeps its expression and its span on the way up is an induction on compiling, in which
every case hands on an error that it was given. That the span of a syntax error lies in the
expression is a fact about the parser. Only the second half knows what a span is.
-/

namespace HtmlTemplate

open Text (width IsBoundary)

/-! ## Syntax errors -/

/-- **A syntax error is at a part of the source**, whether lexing fails or parsing does. -/
theorem Expr.isIn_of_parse_error {source : String} {err : SyntaxError}
    (h : parse source = .error err) : err.span.IsIn source.toList := by
  rcases bind_eq_error_iff.mp h with hlex | ⟨lexed, htokens, hparse⟩
  · exact isIn_of_tokensFrom_error [] hlex
  · -- the parser fails at one of the places of the tokens
    obtain ⟨us, rest, expected, hsplit, rfl, -⟩ := stopsAt_of_ofTokens hparse
    refine isIn_of_mem_places [] htokens _ ?_
    rw [Lexed.places, hsplit, List.map_append]
    rcases rest with _ | ⟨t, rest⟩ <;> simp [unexpected]

/-! ## Where compile errors arise -/

/-- Is the error the one that its expression has on some data? -/
def CompileError.Arises (err : CompileError) : Prop :=
  ∃ data, evaluate err.directive data err.expression = .error err

variable {options : Options} {data : Data} {err : CompileError}

theorem CompileError.arises_of_evaluate {d : Directive} {expression : String}
    (h : evaluate d data expression = .error err) : err.Arises := by
  refine ⟨data, ?_⟩
  have herr : err.directive = d ∧ err.expression = expression := by
    unfold evaluate at h
    split at h
    · cases h
      exact ⟨rfl, rfl⟩
    · split at h
      · cases h
        exact ⟨rfl, rfl⟩
      · cases h
  rw [herr.1, herr.2, h]

theorem arises_of_bindMarked {name expression : String} {e : Element}
    (h : bindMarked data name expression e = .error err) : err.Arises := by
  obtain ⟨d, -, herr⟩ := fails_of_bindMarked h
  exact CompileError.arises_of_evaluate herr

private theorem arises_of_bindAttributes {descend : Bool} {e : Element} {as : List Attribute}
    (h : bindAttributes options data descend e as = .error err) : err.Arises := by
  induction as generalizing descend e with
  | nil => cases h
  | cons a as ih =>
    simp only [bindAttributes] at h
    split at h
    · split at h
      · exact ih h
      · split at h
        · rename_i hmarked
          cases h
          exact arises_of_bindMarked hmarked
        · exact ih h
        · cases h
    · split at h
      · split at h
        · rename_i hvalue
          cases h
          exact CompileError.arises_of_evaluate hvalue
        · exact ih h
      · exact ih h

private theorem arises_of_bindElement {e : Element} (h : bindElement options data e = .error err) :
    err.Arises := by
  unfold bindElement at h
  split at h
  · exact arises_of_bindAttributes h
  · dsimp only at h
    split at h
    · rename_i hmarked
      cases h
      exact arises_of_bindMarked hmarked
    · exact arises_of_bindAttributes h
    · cases h

private theorem arises_of_compileText {s : String} (h : compileText data s = .error err) :
    err.Arises := by
  unfold compileText at h
  split at h
  · cases h
  · exact CompileError.arises_of_evaluate (map_eq_error_iff.mp h)

theorem exists_of_compileNodes_error {ns : List Node}
    (h : compileNodes options data ns = .error err) :
    ∃ n ∈ ns, compileNode options data n = .error err := by
  rw [compileNodes_eq_mapM] at h
  exact exists_of_mapM_eq_error (map_eq_error_iff.mp h)

private theorem arises_of_compileNode {n : Node} (h : compileNode options data n = .error err) :
    err.Arises := by
  induction n using Node.compileInduction options generalizing data with
  | text s =>
    rw [compileNode] at h
    exact arises_of_compileText (map_eq_error_iff.mp h)
  | comment s =>
    rw [compileNode] at h
    cases h
  | fragment cs ih =>
    rw [compileNode] at h
    obtain ⟨c, hc, herr⟩ := exists_of_compileNodes_error (map_eq_error_iff.mp h)
    exact ih c hc herr
  | element e ihcs iht =>
    rw [compileNode_element] at h
    split at h
    · rename_i hb
      cases h
      exact arises_of_bindElement hb
    · obtain ⟨c, hc, herr⟩ := exists_of_compileNodes_error (map_eq_error_iff.mp h)
      exact ihcs c hc herr
    · cases h
    · rename_i hb
      obtain ⟨⟨item, index⟩, -, herr⟩ := exists_of_mapM_eq_error (map_eq_error_iff.mp h)
      exact iht hb herr
    · cases h
    · cases h
    · cases h

/-- **A compile error is the error of the expression in it.** -/
theorem arises_of_compile {template : Node} (h : compile options data template = .error err) :
    err.Arises := by
  unfold compile at h
  split at h
  · obtain ⟨n, -, herr⟩ := exists_of_compileNodes_error (map_eq_error_iff.mp h)
    exact arises_of_compileNode herr
  · obtain ⟨n, -, herr⟩ := exists_of_compileNodes_error (map_eq_error_iff.mp h)
    exact arises_of_compileNode herr

theorem CompileError.Arises.parse_eq {s : Expr.SyntaxError} (h : err.Arises)
    (hs : err.fault = .invalid s) : Expr.parse err.expression = .error s := by
  obtain ⟨directive, expression, fault⟩ := err
  obtain ⟨data, h⟩ := h
  unfold evaluate at h
  split at h
  · rename_i hsource
    cases h
    cases hs
    exact map_eq_error_iff.mp hsource
  · split at h
    · cases h
      cases hs
    · cases h

/-! ## Labels -/

/-- A label is the span of the error, if that lies in the expression. -/
theorem CompileError.label_of_isIn {s : Expr.SyntaxError} (hs : err.fault = .invalid s)
    (h : s.span.IsIn err.expression.toList) :
    err.label = ⟨"here", s.span.start, s.span.stop - s.span.start⟩ := by
  have hstop := h.stop_le
  rw [label, hs]
  dsimp only
  rw [Nat.min_eq_left hstop, Nat.min_eq_left (Nat.le_trans h.start_le_stop hstop)]

/-- **The span of a syntax error is a range of the source between ends of characters.** The label of
a compile error is that range of the expression that could not be read. -/
theorem parse_error_span :
    (∀ (source : String) (err : Expr.SyntaxError), Expr.parse source = .error err →
      err.span.start ≤ err.span.stop ∧ err.span.stop ≤ width source.toList ∧
      IsBoundary source.toList err.span.start ∧ IsBoundary source.toList err.span.stop) ∧
    ∀ (options : Options) (data : Data) (template : Node) (err : CompileError)
      (s : Expr.SyntaxError), compile options data template = .error err → err.fault = .invalid s →
      Expr.parse err.expression = .error s ∧
      err.label = ⟨"here", s.span.start, s.span.stop - s.span.start⟩ ∧
      IsBoundary err.expression.toList err.label.offset ∧
      IsBoundary err.expression.toList (err.label.offset + err.label.length) := by
  refine ⟨fun source err h ↦ ?_, fun options data template err s h hs ↦ ?_⟩
  · have hspan := Expr.isIn_of_parse_error h
    exact ⟨hspan.start_le_stop, hspan.stop_le, hspan.isBoundary_start, hspan.isBoundary_stop⟩
  · have hparse := (arises_of_compile h).parse_eq hs
    have hspan := Expr.isIn_of_parse_error hparse
    have hlabel := CompileError.label_of_isIn hs hspan
    refine ⟨hparse, hlabel, ?_, ?_⟩
    · rw [hlabel]
      exact hspan.isBoundary_start
    · rw [hlabel]
      dsimp only
      rw [Nat.add_sub_cancel' hspan.start_le_stop]
      exact hspan.isBoundary_stop

/-- A character of two bytes that is no token is marked as a whole. -/
theorem parse_error_span_section :
    ∃ err, compile {} [] (.text "\x7b\x7b§\x7d\x7d") = .error err ∧ err.label = ⟨"here", 0, 2⟩ ∧
      IsBoundary err.expression.toList (err.label.offset + err.label.length) := by
  have hscan : Expr.scanToken '§' [] = .error ⟨.invalidCharacter '§', []⟩ := by
    have hname : Expr.isNameStart '§' = false := by decide +kernel
    rw [Expr.scanToken, if_neg (by decide), if_neg (by decide), hname, if_neg Bool.false_ne_true,
      show Expr.Punct.inFront? ['§'] = none from rfl]
  have hparse : Expr.parse "§" = .error ⟨.invalidCharacter '§', 0, 2⟩ := by
    rw [Expr.parse, Expr.tokenize, Expr.tokensFrom_of_stop 0 (s := "§".toList) rfl hscan]
    rfl
  have hexpression : Interpolation.expressionOf "\x7b\x7b§\x7d\x7d" = "§" := by
    have hruns : Interpolation.runs "\x7b\x7b§\x7d\x7d".toList = [.span ['§']] := by
      rw [Interpolation.runs_of_firstSpan? (a := []) (c := ['§']) (b := []) rfl,
        Interpolation.runs_of_no_span (s := []) rfl]
      rfl
    rw [Interpolation.expressionOf, Interpolation.toExpression, if_pos (by decide), hruns]
    rfl
  have herr : compile {} [] (.text "\x7b\x7b§\x7d\x7d") =
      .error ⟨.text, "§", .invalid ⟨.invalidCharacter '§', 0, 2⟩⟩ := by
    have hsource : Evaluator.ofSource "§" = .error ⟨.invalidCharacter '§', 0, 2⟩ := by
      rw [Evaluator.ofSource, hparse]
      rfl
    rw [compile, compileNodes_cons, compileNode, compileText, if_neg (by decide), hexpression,
      evaluate, hsource]
    · rfl
    · intro children heq
      cases heq
  obtain ⟨-, hlabel, -, hstop⟩ := parse_error_span.2 _ _ _ _ _ herr rfl
  exact ⟨_, herr, hlabel, hstop⟩

end HtmlTemplate
