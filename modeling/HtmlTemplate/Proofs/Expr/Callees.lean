import HtmlTemplate.Expr.Evaluator
import HtmlTemplate.Proofs.Expr.Narrowing
import HtmlTemplate.Proofs.Expr.Nodes
import HtmlTemplate.Proofs.Expr.Sources
import HtmlTemplate.Proofs.Expr.Unambiguous

/-!
# The span of a call

A call keeps the span of its callee. It is the span of a phrase, and a phrase is one for itself, so
what stands there reads as the callee and as nothing else (`callee_of_call`).

A message about a callee that is no function quotes what stands there. Only a callee that is a name
is quoted by the name, which is the same unless the name is in parentheses.

## From spans to sources

A derivation knows the tokens of each of its parts, and the tokens of a part are a run of the tokens
of the whole. So the tokens of a callee are found by induction on the derivation
(`Derives.spansCallee`), without the parser, and what stands at their span is lexed and read again
as they are (`exists_parse_excerpt`).

## The two exceptions

Offsets of 32 bits are those of the source only as far as it is shorter than they can count. And a
name in parentheses is the same tree as the name, but for its own span, which is the one that the
evaluator quotes it by.
-/

namespace HtmlTemplate.Expr

variable {c : Category} {ts us vs : List Token} {p : Phrase}

/-! ## The tokens of a callee

A run of tokens stays one when tokens are put in front of it or behind it, so a case of the
induction only says where in the phrase its part stands. -/

/-- Is a part of the tokens the callee, and the span the one of this part? -/
def SpansCallee (ts : List Token) (callee : Expr) (span : Span) : Prop :=
  ∃ us, us <:+: ts ∧ Derives .applied us (.expr callee) ∧ span = spanOf us

variable {callee : Expr} {arguments : List Expr} {span : Span}

theorem SpansCallee.left (h : SpansCallee ts callee span) (vs : List Token) :
    SpansCallee (ts ++ vs) callee span := by
  obtain ⟨us, hus, hcallee⟩ := h
  exact ⟨us, hus.trans (List.prefix_append ts vs).isInfix, hcallee⟩

theorem SpansCallee.right (h : SpansCallee vs callee span) (ts : List Token) :
    SpansCallee (ts ++ vs) callee span := by
  obtain ⟨us, hus, hcallee⟩ := h
  exact ⟨us, hus.trans (List.suffix_append ts vs).isInfix, hcallee⟩

theorem SpansCallee.cons (h : SpansCallee ts callee span) (t : Token) :
    SpansCallee (t :: ts) callee span := h.right [t]

/-- **Every call in a phrase has the span of its callee.** -/
theorem Derives.spansCallee (h : Derives c ts p)
    (hcall : Expr.call callee arguments span ∈ p.nodes) : SpansCallee ts callee span := by
  induction h with
  | test _ ih => exact ih hcall
  | conditional _ _ _ _ _ ihtest ihthen ihelse =>
    simp only [Phrase.nodes, nodes, List.mem_cons, List.mem_append, reduceCtorEq, false_or] at hcall
    rcases hcall with (hcall | hcall) | hcall
    · exact (ihtest hcall).left _
    · exact (((ihthen hcall).left _).cons _).right _
    · exact ((((ihelse hcall).cons _).right _).cons _).right _
  | operand _ ih => exact ih hcall
  | @operation l ts us t op a b _ _ _ ihleft ihright =>
    have hne : Expr.call callee arguments span ≠ op.apply a b := by cases op <;> exact nofun
    simp only [Phrase.nodes, nodes_apply, List.mem_cons, List.mem_append, hne, false_or] at hcall
    rcases hcall with hcall | hcall
    · exact (ihleft hcall).left _
    · exact ((ihright hcall).cons _).right _
  | unprefixed _ ih => exact ih hcall
  | prefixed _ _ ih =>
    simp only [Phrase.nodes, nodes, List.mem_cons, reduceCtorEq, false_or] at hcall
    exact (ih hcall).cons _
  | primary _ ih => exact ih hcall
  | member _ _ _ ih =>
    simp only [Phrase.nodes, nodes, List.mem_cons, reduceCtorEq, false_or] at hcall
    exact (ih hcall).left _
  | index _ _ _ _ ih ihkey =>
    simp only [Phrase.nodes, nodes, List.mem_cons, List.mem_append, reduceCtorEq, false_or] at hcall
    rcases hcall with hcall | hcall
    · exact (ih hcall).left _
    · exact (((ihkey hcall).left _).cons _).right _
  | @call ts us o k e es h _ _ _ ih ihitems =>
    simp only [Phrase.nodes, nodes, List.mem_cons, List.mem_append] at hcall
    rcases hcall with hcall | hcall | hcall
    · -- the call itself: its callee is all that stands in front of the parentheses
      obtain ⟨rfl, -, rfl⟩ := Expr.call.inj hcall
      exact SpansCallee.left ⟨ts, List.infix_rfl, h, rfl⟩ _
    · exact (ih hcall).left _
    · exact (((ihitems hcall).left _).cons _).right _
  | number => simp [Phrase.nodes, nodes] at hcall
  | string => simp [Phrase.nodes, nodes] at hcall
  | name _ he =>
    unfold ofName at he
    split_ifs at he <;> cases he <;> simp [Phrase.nodes, nodes] at hcall
  | group _ _ _ ih => exact ((ih hcall).left _).cons _
  | array _ _ _ ih =>
    simp only [Phrase.nodes, nodes, List.mem_cons, reduceCtorEq, false_or] at hcall
    exact ((ih hcall).left _).cons _
  | object _ _ _ ih =>
    simp only [Phrase.nodes, nodes, List.mem_cons, reduceCtorEq, false_or] at hcall
    exact ((ih hcall).left _).cons _
  | noItems => simp [Phrase.nodes, nodesAll] at hcall
  | lastItem _ ih =>
    simp only [Phrase.nodes, nodesAll, List.append_nil] at hcall
    exact ih hcall
  | item _ _ _ ih ihmore =>
    simp only [Phrase.nodes, nodesAll, List.mem_append] at hcall
    rcases hcall with hcall | hcall
    · exact (ih hcall).left _
    · exact ((ihmore hcall).cons _).right _
  | noMembers => simp [Phrase.nodes, nodesMembers] at hcall
  | lastMember _ ih => exact ih hcall
  | moreMembers _ _ _ ih ihmore =>
    rw [Phrase.nodes, nodesMembers_cons, List.mem_append] at hcall
    rcases hcall with hcall | hcall
    · exact (ih hcall).left _
    · exact ((ihmore hcall).cons _).right _
  | pair _ _ _ ih =>
    simp only [Phrase.nodes, nodesMembers, List.append_nil] at hcall
    exact ((ih hcall).cons _).cons _
  | shorthand => simp [Phrase.nodes, nodesMembers] at hcall

/-! ## A callee that is a name -/

/-- What stands for a name alone is the name, in parentheses or without. -/
theorem Derives.kinds_of_name {text : String} {own : Span}
    (h : Derives c ts (.expr (.name text own))) :
    ∃ n, ts.map Token.kind = List.replicate n (.punct .leftParen) ++
      .name text :: List.replicate n (.punct .rightParen) := by
  generalize hp : Phrase.expr (.name text own) = p at h
  induction h with
  | test _ ih => exact ih hp
  | operand _ ih => exact ih hp
  | unprefixed _ ih => exact ih hp
  | primary _ ih => exact ih hp
  | @operation _ _ _ _ op =>
    cases op <;> cases hp
  | name ht he =>
    cases hp
    unfold ofName at he
    split_ifs at he <;> cases he
    exact ⟨0, by rw [List.map_singleton, ht]; rfl⟩
  | @group ts o k _ ho _ hk ih =>
    obtain ⟨n, hn⟩ := ih hp
    refine ⟨n + 1, ?_⟩
    rw [List.map_cons, List.map_append, hn, ho, List.map_singleton, hk, List.replicate_succ,
      List.replicate_succ', List.cons_append, List.append_assoc]
    rfl
  | _ => cases hp

/-! ## Sources -/

/-- **An expression in a source is one for itself**, the same but for where it stands. -/
theorem exists_parse_excerpt {source : String} {lexed : Lexed} {e : Expr}
    (h : tokenize source = .ok lexed) (hus : us <:+: lexed.tokens)
    (he : Derives .conditional us (.expr e)) :
    ∃ m f, tokenize ((spanOf us).excerpt source) = .ok m ∧ m.kinds = us.map Token.kind ∧
      parse ((spanOf us).excerpt source) = .ok f ∧ f.shift (spanOf us).start = e := by
  obtain ⟨xs, ys, hl⟩ := hus
  obtain ⟨m, hm, hshift⟩ := exists_excerpt h (by rw [← hl, List.append_assoc]) (he.ne_nil rfl)
  have htokens : m.tokens.map (Token.shift (spanOf us).start) = us := congrArg Lexed.tokens hshift
  obtain ⟨f, hf⟩ : ∃ f, Derives .conditional m.tokens (.expr f) := by
    rw [← htokens] at he
    exact he.unshift
  have hmoved := hf.shift (spanOf us).start
  rw [htokens] at hmoved
  refine ⟨m, f, ?_, ?_, parse_eq_ok_iff.mpr ⟨m, hm, hf⟩, Phrase.expr.inj (hmoved.unique he)⟩
  · rw [tokenize, Span.excerpt, String.toList_ofList, hm]
  · rw [← kinds_shift (spanOf us).start, hshift]
    rfl

theorem eval_call_of_not_function {scope : Scope} {v : Value} {values : List Value}
    (hv : eval scope callee = .ok v) (hfunction : ∀ f, v ≠ .function f)
    (hvalues : evalAll scope arguments = .ok values) :
    eval scope (.call callee arguments span) =
      .error (.notAFunction (calleeText scope.source callee span)) := by
  rw [eval, hv, hvalues]
  cases v with
  | function f => exact absurd rfl (hfunction f)
  | _ => rfl

/-- **The span of a call is where its callee is written**, if all offsets fit into 32 bits. What
stands there reads as the callee, moved to the beginning, and the message about a callee that is no
function quotes it. Only for a name in parentheses it quotes the name alone. -/
theorem callee_of_call {source : String} {e : Expr}
    (hwidth : Text.width source.toList < UInt32.size)
    (h : parseNarrow source = .ok e) (hcall : Expr.call callee arguments span ∈ e.nodes) :
    (∃ f, parseNarrow (span.excerpt source) = .ok f ∧ f.shift span.start = callee) ∧
    ∃ quoted : String,
      (∀ (scope : Scope) (v : Value) (values : List Value), scope.source = source.toList →
        eval scope callee = .ok v → (∀ f, v ≠ .function f) →
        evalAll scope arguments = .ok values →
        ∃ err, eval scope (.call callee arguments span) = .error err ∧
          err.message = quoted ++ " is not a function") ∧
      (quoted = span.excerpt source ∨ ∃ own n m, callee = .name quoted own ∧
        tokenizeNarrow (span.excerpt source) = .ok m ∧
        m.kinds = List.replicate (n + 1) (.punct .leftParen) ++
          .name quoted :: List.replicate (n + 1) (.punct .rightParen)) := by
  have hexcerpt : Text.width (span.excerpt source).toList < UInt32.size := by
    rw [Span.excerpt, String.toList_ofList]
    exact (Text.width_slice_le _ _ _).trans_lt hwidth
  rw [parseNarrow_eq hexcerpt, tokenizeNarrow_eq hexcerpt]
  rw [parseNarrow_eq hwidth] at h
  obtain ⟨lexed, hlexed, he⟩ := parse_eq_ok_iff_exists.mp h
  obtain ⟨us, hus, hcallee, rfl⟩ := he.spansCallee hcall
  obtain ⟨m, f, hm, hkinds, hf, hmoved⟩ :=
    exists_parse_excerpt hlexed hus hcallee.conditional_of_applied
  refine ⟨⟨f, hf, hmoved⟩, calleeText source.toList callee (spanOf us), ?_, ?_⟩
  · intro scope v values hscope hv hfunction hvalues
    exact ⟨_, eval_call_of_not_function hv hfunction hvalues, by rw [hscope]; rfl⟩
  · cases callee with
    | name text own =>
      obtain ⟨n, hn⟩ := hcallee.kinds_of_name
      rcases n with _ | n
      · -- without parentheses the callee is one token
        obtain ⟨t, rfl, ht⟩ := List.map_eq_singleton_iff.mp hn
        refine Or.inl ?_
        rw [show spanOf [t] = t.span from t.span.cover_self]
        exact (excerpt_of_name hlexed (hus.subset List.mem_cons_self) ht).symm
      · exact Or.inr ⟨own, n, m, rfl, hm, hkinds.trans hn⟩
    | _ => exact Or.inl rfl

/-- In a chain of calls the callee of the second is the first. -/
theorem callee_of_call_chain :
    (∃ e, parseNarrow "!a()()" = .ok e ∧
      Expr.call (.call (.name "a" ⟨1, 2⟩) [] ⟨1, 2⟩) [] ⟨1, 4⟩ ∈ e.nodes) ∧
    (∃ f, parseNarrow "a()" = .ok f ∧ f.shift 1 = .call (.name "a" ⟨1, 2⟩) [] ⟨1, 2⟩) ∧
    ∀ scope : Scope, scope.source = "!a()()".toList →
      eval scope (.call (.name "a" ⟨1, 2⟩) [] ⟨1, 2⟩) = .ok .null →
      ∃ err, eval scope (.call (.call (.name "a" ⟨1, 2⟩) [] ⟨1, 2⟩) [] ⟨1, 4⟩) = .error err ∧
        err.message = "a()" ++ " is not a function" := by
  have htokens : tokenize "!a()()" = .ok ⟨[⟨.punct .bang, 0, 1⟩, ⟨.name "a", 1, 2⟩,
      ⟨.punct .leftParen, 2, 3⟩, ⟨.punct .rightParen, 3, 4⟩,
      ⟨.punct .leftParen, 4, 5⟩, ⟨.punct .rightParen, 5, 6⟩], 6⟩ := by
    refine tokensFrom_eq_cons (s := "!a()()".toList) rfl rfl rfl ?_
    iterate 5 refine tokensFrom_eq_cons rfl rfl rfl ?_
    exact tokensFrom_of_blank 6 rfl
  have hname : Derives .applied [⟨.name "a", 1, 2⟩] (.expr (.name "a" ⟨1, 2⟩)) :=
    .primary (.name rfl rfl)
  have hfirst : Derives .applied [⟨.name "a", 1, 2⟩, ⟨.punct .leftParen, 2, 3⟩,
      ⟨.punct .rightParen, 3, 4⟩] (.expr (.call (.name "a" ⟨1, 2⟩) [] ⟨1, 2⟩)) :=
    .call hname rfl .noItems rfl
  have hsecond : Derives .applied [⟨.name "a", 1, 2⟩, ⟨.punct .leftParen, 2, 3⟩,
      ⟨.punct .rightParen, 3, 4⟩, ⟨.punct .leftParen, 4, 5⟩, ⟨.punct .rightParen, 5, 6⟩]
      (.expr (.call (.call (.name "a" ⟨1, 2⟩) [] ⟨1, 2⟩) [] ⟨1, 4⟩)) :=
    .call hfirst rfl .noItems rfl
  have hnot : Derives .unary [⟨.punct .bang, 0, 1⟩, ⟨.name "a", 1, 2⟩, ⟨.punct .leftParen, 2, 3⟩,
      ⟨.punct .rightParen, 3, 4⟩, ⟨.punct .leftParen, 4, 5⟩, ⟨.punct .rightParen, 5, 6⟩]
      (.expr (.unary .not (.call (.call (.name "a" ⟨1, 2⟩) [] ⟨1, 2⟩) [] ⟨1, 4⟩))) :=
    .prefixed rfl (.unprefixed hsecond)
  have hwidth : Text.width "!a()()".toList < UInt32.size := by decide
  have hparse : parseNarrow "!a()()" =
      .ok (.unary .not (.call (.call (.name "a" ⟨1, 2⟩) [] ⟨1, 2⟩) [] ⟨1, 4⟩)) := by
    rw [parseNarrow_eq hwidth]
    exact parse_eq_ok_iff_exists.mpr ⟨_, htokens,
      .test ((Derives.operand (l := .multiplicative) hnot).loosen (by decide))⟩
  have hmem : Expr.call (.call (.name "a" ⟨1, 2⟩) [] ⟨1, 2⟩) [] ⟨1, 4⟩ ∈
      (Expr.unary .not (.call (.call (.name "a" ⟨1, 2⟩) [] ⟨1, 2⟩) [] ⟨1, 4⟩)).nodes := by
    simp [nodes]
  have hexcerpt : Span.excerpt "!a()()" ⟨1, 4⟩ = "a()" :=
    congrArg String.ofList (Text.slice_append ['!'] ['a', '(', ')'] ['(', ')'])
  have hcall := callee_of_call hwidth hparse hmem
  rw [hexcerpt] at hcall
  obtain ⟨hf, quoted, hmessage, rfl | ⟨_, _, _, hname, _⟩⟩ := hcall
  · exact ⟨⟨_, hparse, hmem⟩, hf, fun scope hscope hnull ↦
      hmessage scope .null [] hscope hnull nofun (by rw [evalAll])⟩
  · cases hname

theorem message_of_parenthesized_name :
    parseNarrow "(a)()" = .ok (.call (.name "a" ⟨1, 2⟩) [] ⟨0, 3⟩) ∧
      Span.excerpt "(a)()" ⟨0, 3⟩ = "(a)" ∧
      ∃ evaluator err, Evaluator.ofSource "(a)()" = .ok evaluator ∧
        evaluator.call [] = .error err ∧ err.message = "a is not a function" ∧
        err.message ≠ Span.excerpt "(a)()" ⟨0, 3⟩ ++ " is not a function" := by
  have htokens : tokenize "(a)()" = .ok ⟨[⟨.punct .leftParen, 0, 1⟩, ⟨.name "a", 1, 2⟩,
      ⟨.punct .rightParen, 2, 3⟩, ⟨.punct .leftParen, 3, 4⟩, ⟨.punct .rightParen, 4, 5⟩], 5⟩ := by
    refine tokensFrom_eq_cons (s := "(a)()".toList) rfl rfl rfl ?_
    iterate 4 refine tokensFrom_eq_cons rfl rfl rfl ?_
    exact tokensFrom_of_blank 5 rfl
  have hname : Derives .conditional [⟨.name "a", 1, 2⟩] (.expr (.name "a" ⟨1, 2⟩)) :=
    .test (.of_ofName rfl)
  have hgroup : Derives .applied [⟨.punct .leftParen, 0, 1⟩, ⟨.name "a", 1, 2⟩,
      ⟨.punct .rightParen, 2, 3⟩] (.expr (.name "a" ⟨1, 2⟩)) :=
    .primary (.group rfl hname rfl)
  have hcall : Derives .applied [⟨.punct .leftParen, 0, 1⟩, ⟨.name "a", 1, 2⟩,
      ⟨.punct .rightParen, 2, 3⟩, ⟨.punct .leftParen, 3, 4⟩, ⟨.punct .rightParen, 4, 5⟩]
      (.expr (.call (.name "a" ⟨1, 2⟩) [] ⟨0, 3⟩)) :=
    .call hgroup rfl .noItems rfl
  have hparse : parse "(a)()" = .ok (.call (.name "a" ⟨1, 2⟩) [] ⟨0, 3⟩) :=
    parse_eq_ok_iff_exists.mpr ⟨_, htokens, hcall.conditional_of_applied⟩
  have hexcerpt : Span.excerpt "(a)()" ⟨0, 3⟩ = "(a)" :=
    congrArg String.ofList (Text.slice_append [] ['(', 'a', ')'] ['(', ')'])
  let evaluator : Evaluator := ⟨"(a)()", .call (.name "a" ⟨1, 2⟩) [] ⟨0, 3⟩, ["a"]⟩
  have hcallee : eval (evaluator.scope []) (.name "a" ⟨1, 2⟩) = .ok .undefined := by
    rw [eval]
    rfl
  refine ⟨?_, hexcerpt, evaluator, .notAFunction "a", ?_, ?_, rfl, ?_⟩
  · rw [parseNarrow_eq (by decide), hparse]
  · rw [Evaluator.ofSource, hparse]
    rfl
  · exact eval_call_of_not_function hcallee (by simp) (by rw [evalAll])
  · rw [hexcerpt]
    decide

theorem span_of_call_behind_blanks :
    parseNarrow (String.ofList (List.replicate UInt32.size ' ') ++ "a()") =
      .ok (.call (.name "a" ⟨0, 1⟩) [] ⟨0, 1⟩) ∧
    ∀ f, parseNarrow
      (Span.excerpt (String.ofList (List.replicate UInt32.size ' ') ++ "a()") ⟨0, 1⟩) ≠ .ok f := by
  have htokens : tokenize "a()" = .ok ⟨[⟨.name "a", 0, 1⟩, ⟨.punct .leftParen, 1, 2⟩,
      ⟨.punct .rightParen, 2, 3⟩], 3⟩ := by
    refine tokensFrom_eq_cons (s := "a()".toList) rfl rfl rfl ?_
    iterate 2 refine tokensFrom_eq_cons rfl rfl rfl ?_
    exact tokensFrom_of_blank 3 rfl
  have hcall : Derives .applied [⟨.name "a", 0, 1⟩, ⟨.punct .leftParen, 1, 2⟩,
      ⟨.punct .rightParen, 2, 3⟩] (.expr (.call (.name "a" ⟨0, 1⟩) [] ⟨0, 1⟩)) :=
    .call (.primary (.name rfl rfl)) rfl .noItems rfl
  constructor
  · rw [parseNarrow_turn htokens, parseNarrow_eq (by decide)]
    exact parse_eq_ok_iff_exists.mpr ⟨_, htokens, hcall.conditional_of_applied⟩
  · -- a blank is no expression
    intro f hf
    rw [excerpt_turn, parseNarrow_eq (by decide)] at hf
    obtain ⟨lexed, hlexed, hderives⟩ := parse_eq_ok_iff_exists.mp hf
    rw [show tokenize " " = .ok ⟨[], 1⟩ from tokensFrom_of_blank 0 rfl] at hlexed
    cases hlexed
    exact hderives.ne_nil rfl rfl

/-- **What is quoted need not be the callee as it is written**: of a name in parentheses it is the
name, and behind `2 ^ 32` bytes it is another part of the source. -/
theorem callee_of_call_exceptions :
    (parseNarrow "(a)()" = .ok (.call (.name "a" ⟨1, 2⟩) [] ⟨0, 3⟩) ∧
      Span.excerpt "(a)()" ⟨0, 3⟩ = "(a)" ∧
      ∃ evaluator err, Evaluator.ofSource "(a)()" = .ok evaluator ∧
        evaluator.call [] = .error err ∧ err.message = "a is not a function" ∧
        err.message ≠ Span.excerpt "(a)()" ⟨0, 3⟩ ++ " is not a function") ∧
    parseNarrow (String.ofList (List.replicate UInt32.size ' ') ++ "a()") =
      .ok (.call (.name "a" ⟨0, 1⟩) [] ⟨0, 1⟩) ∧
    ∀ f, parseNarrow
      (Span.excerpt (String.ofList (List.replicate UInt32.size ' ') ++ "a()") ⟨0, 1⟩) ≠ .ok f :=
  ⟨message_of_parenthesized_name, span_of_call_behind_blanks⟩

end HtmlTemplate.Expr
