import HtmlTemplate.Proofs.Expr.Lookup
import HtmlTemplate.Proofs.Interpolation.Sums
import Mathlib.Data.List.Forall2

/-!
# The tree of a text

If every span of a text is an operand of a sum, the text reads as the sum of its runs from the left:
each operand is the tree that its run has on its own, moved to where the run stands in the source. A
sum evaluates its operands in order and adds their values, and an operand that stands elsewhere
keeps its result, so the text has the results of its runs, the first error included.

## Standing in a source

Each operand has its own source, and stands in the source of the text at the width of what is in
front of it. `Run.StandsIn` says just this. It is kept when something is put in front of the source,
or behind it, so that the sum is put together operand by operand, and it gives the operand the
result of its run (`Run.StandsIn.hasResult`). What the operands quote when they fail is what their
own sources say.
-/

namespace HtmlTemplate.Interpolation

open HtmlTemplate.Expr
open Text (width)

/-! ## Operands -/

/-- Is the expression the tree of the run, moved to where the run stands in the source? -/
def Run.StandsIn (source : List Char) (r : Run) (e : Expr) : Prop :=
  ∃ own before behind, IsSource (.level .multiplicative) r.toSource own ∧
    source = before ++ (r.toSource ++ behind) ∧ e = own.shift (width before)

theorem Run.StandsIn.append {source : List Char} {r : Run} {e : Expr} (h : r.StandsIn source e)
    (more : List Char) : r.StandsIn (source ++ more) e := by
  obtain ⟨own, before, behind, hown, rfl, rfl⟩ := h
  exact ⟨own, before, behind ++ more, hown, by simp, rfl⟩

theorem Run.IsOfLevel.standsIn {r : Run} (h : r.IsOfLevel .multiplicative) :
    ∃ e, IsSource (.level .multiplicative) r.toSource e ∧ r.StandsIn r.toSource e := by
  obtain ⟨e, he⟩ := h
  exact ⟨e, he, e, [], [], he, by simp, (shift_zero e).symm⟩

def withRuns (s : List Char) (rs : List Run) : List Char :=
  rs.foldl (fun joined r ↦ joined ++ '+' :: r.toSource) s

private theorem withRuns_cons (s : List Char) (r : Run) (rs : List Run) :
    withRuns s (r :: rs) = withRuns (s ++ '+' :: r.toSource) rs := rfl

private theorem prefix_withRuns (s : List Char) (rs : List Run) : s <+: withRuns s rs := by
  induction rs generalizing s with
  | nil => exact List.prefix_rfl
  | cons r rs ih => exact (List.prefix_append s _).trans (ih _)

theorem Run.StandsIn.withRuns {s : List Char} {r : Run} {e : Expr} (h : r.StandsIn s e)
    (rs : List Run) : r.StandsIn (withRuns s rs) e := by
  obtain ⟨more, hmore⟩ := prefix_withRuns s rs
  rw [← hmore]
  exact h.append more

theorem isSource_withRuns {rs : List Run} : ∀ {s : List Char} {e : Expr},
    IsSource (.level .additive) s e → (∀ r ∈ rs, r.IsOfLevel .multiplicative) →
    ∃ es, IsSource (.level .additive) (withRuns s rs) (es.foldl (.binary .add) e) ∧
      List.Forall₂ (Run.StandsIn (withRuns s rs)) rs es := by
  induction rs with
  | nil => exact fun he _ ↦ ⟨[], he, .nil⟩
  | cons r rs ih =>
    intro s e he hlevel
    obtain ⟨own, hown⟩ := hlevel r List.mem_cons_self
    obtain ⟨es, hes, hstand⟩ := ih (he.add hown) fun r' hr' ↦ hlevel r' (List.mem_cons_of_mem r hr')
    have hr : r.StandsIn (s ++ '+' :: r.toSource) (own.shift (width (s ++ ['+']))) :=
      ⟨own, s ++ ['+'], [], hown, by simp, rfl⟩
    rw [withRuns_cons]
    exact ⟨own.shift (width (s ++ ['+'])) :: es, hes, .cons (hr.withRuns rs) hstand⟩

/-! ## Results

Operands are evaluated from the left, and the first one that fails ends the sum. So the error is the
one of the leftmost span that has no value. -/

/-- The result of a run on the data: a literal run is its own text, a span is called. -/
def Run.HasResult (data : Data) : Run → Except EvalError Value → Prop
  | literal text, result => result = .ok (.string (String.ofList text))
  | span content, result => ∃ evaluator,
      Evaluator.ofSource (String.ofList (Text.trim content)) = .ok evaluator ∧
        evaluator.call data = result

theorem Run.hasResult_ok_iff {data : Data} {r : Run} {v : Value} :
    r.HasResult data (.ok v) ↔ r.Denotes data v := by
  cases r with
  | literal text => rw [HasResult, Denotes, Except.ok.injEq]
  | span content => rfl

theorem Run.HasResult.unique {data : Data} {r : Run} {a b : Except EvalError Value}
    (ha : r.HasResult data a) (hb : r.HasResult data b) : a = b := by
  cases r with
  | literal text => exact Eq.trans ha (Eq.symm hb)
  | span content =>
    obtain ⟨f, hf, rfl⟩ := ha
    obtain ⟨g, hg, rfl⟩ := hb
    rw [hf] at hg
    cases hg
    rfl

/-- **An operand has the result of its run.** -/
theorem Run.StandsIn.hasResult {source : List Char} {r : Run} {e : Expr} (h : r.StandsIn source e)
    (data : Data) : r.HasResult data (eval (.direct (String.ofList source) data) e) := by
  obtain ⟨own, before, behind, hown, rfl, rfl⟩ := h
  have hagree : (Scope.direct (String.ofList r.toSource) data).AgreeOn
      (.direct (String.ofList (before ++ (r.toSource ++ behind))) data) own.occurrences := by
    intro name _
    rw [resolve_direct, resolve_direct]
  rw [hown.eval_shift String.toList_ofList String.toList_ofList hagree,
    ← hown.conditional.call_eq data]
  cases r with
  | literal text =>
    obtain rfl := IsSource.unique hown (isSource_quote text).conditional
    rfl
  | span content => exact ⟨_, hown.conditional.ofSource, rfl⟩

def total : List Value → Value
  | [] => .undefined
  | v :: vs => vs.foldl Value.add v

/-- A sum evaluates its operands in order and adds their values. -/
theorem eval_foldl_add (scope : Scope) (es : List Expr) (e : Expr) :
    eval scope (es.foldl (.binary .add) e) = (evalAll scope (e :: es)).map total := by
  induction es generalizing e with
  | nil =>
    rw [List.foldl_nil, evalAll, evalAll]
    rcases eval scope e with err | v <;> rfl
  | cons x es ih =>
    rw [List.foldl_cons, ih, evalAll, evalAll, evalAll, eval]
    rcases eval scope e with err | v
    · rfl
    · rcases eval scope x with err | w
      · rfl
      · rcases evalAll scope es with err | vs <;> rfl

section Operands

variable {data : Data} {scope : Scope} {rs : List Run} {es : List Expr}

theorem evalAll_of_denotes (h : List.Forall₂ (fun r e ↦ r.HasResult data (eval scope e)) rs es)
    {vs : List Value} (hvs : List.Forall₂ (Run.Denotes data) rs vs) :
    evalAll scope es = .ok vs := by
  induction h generalizing vs with
  | nil =>
    cases hvs
    rw [evalAll]
  | cons hr _ ih =>
    rcases hvs with _ | ⟨hv, hvs⟩
    rw [evalAll, hr.unique (Run.hasResult_ok_iff.mpr hv), ih hvs]
    rfl

/-- Is this the error of the leftmost span that has no value? -/
def FailsFirst (data : Data) (rs : List Run) (err : EvalError) : Prop :=
  ∃ before content behind, rs = before ++ .span content :: behind ∧
    (∀ r ∈ before, ∃ v, r.Denotes data v) ∧ (Run.span content).HasResult data (.error err)

private theorem failsFirst_cons_of_error {r : Run} {e err : EvalError}
    (h : r.HasResult data (.error e)) :
    FailsFirst data (r :: rs) err ↔ e = err := by
  constructor
  · rintro ⟨before, content, behind, heq, hbefore, herr⟩
    rcases before with _ | ⟨r', before⟩
    · obtain ⟨rfl, -⟩ := List.cons.inj heq
      exact Except.error.inj (h.unique herr)
    · obtain ⟨rfl, -⟩ := List.cons.inj heq
      obtain ⟨v, hv⟩ := hbefore r List.mem_cons_self
      cases h.unique (Run.hasResult_ok_iff.mpr hv)
  · rintro rfl
    cases r with
    | literal text => cases h
    | span content => exact ⟨[], content, rs, rfl, by simp, h⟩

private theorem failsFirst_cons_of_ok {r : Run} {v : Value} {err : EvalError}
    (h : r.Denotes data v) :
    FailsFirst data (r :: rs) err ↔ FailsFirst data rs err := by
  constructor
  · rintro ⟨before, content, behind, heq, hbefore, herr⟩
    rcases before with _ | ⟨r', before⟩
    · obtain ⟨rfl, -⟩ := List.cons.inj heq
      cases herr.unique (Run.hasResult_ok_iff.mpr h)
    · exact ⟨before, content, behind, (List.cons.inj heq).2,
        fun r hr ↦ hbefore r (List.mem_cons_of_mem r' hr), herr⟩
  · rintro ⟨before, content, behind, rfl, hbefore, herr⟩
    refine ⟨r :: before, content, behind, rfl, fun r' hr' ↦ ?_, herr⟩
    rcases List.mem_cons.mp hr' with rfl | hr'
    · exact ⟨v, h⟩
    · exact hbefore r' hr'

/-- Operands fail with the error of the leftmost one that has no value. -/
theorem evalAll_eq_error_iff (h : List.Forall₂ (fun r e ↦ r.HasResult data (eval scope e)) rs es)
    {err : EvalError} : evalAll scope es = .error err ↔ FailsFirst data rs err := by
  induction h with
  | nil =>
    rw [evalAll]
    refine ⟨fun h ↦ (by cases h), ?_⟩
    rintro ⟨before, content, behind, heq, -⟩
    simp at heq
  | @cons r e rs es hr _ ih =>
    rw [evalAll]
    rcases heval : eval scope e with err' | v
    · rw [heval] at hr
      rw [failsFirst_cons_of_error hr]
      show Except.error err' = Except.error err ↔ err' = err
      rw [Except.error.injEq]
    · rw [heval] at hr
      rw [failsFirst_cons_of_ok (Run.hasResult_ok_iff.mp hr), ← ih]
      rcases evalAll scope es with err' | vs
      · rfl
      · exact ⟨fun h ↦ (by cases h), fun h ↦ (by cases h)⟩

end Operands

/-! ## Texts -/

/-- Is the expression the tree of the run, but for its spans? A literal run is a string literal, a
span has the tree that it has on its own, with its spans moved. -/
def Run.HasTree : Run → Expr → Prop
  | literal text, e => e = .literal (.string (String.ofList text))
  | span content, e => ∃ own d,
      parse (String.ofList (Text.trim content)) = .ok own ∧ e = own.shift d

theorem Run.StandsIn.hasTree {source : List Char} {r : Run} {e : Expr} (h : r.StandsIn source e) :
    r.HasTree e := by
  obtain ⟨own, before, behind, hown, -, rfl⟩ := h
  cases r with
  | literal text =>
    obtain rfl := IsSource.unique hown (isSource_quote text).conditional
    rw [HasTree, Expr.shift]
  | span content => exact ⟨own, width before, parse_eq_ok_iff.mpr hown.conditional, rfl⟩

theorem isSource_toExpression {s : List Char} (hspan : hasSpan s = true)
    (hlevel : ∀ r ∈ runs s, r.IsOfLevel .multiplicative) :
    ∃ e es, IsSource (.level .additive) (toExpression s) (es.foldl (.binary .add) e) ∧
      List.Forall₂ (Run.StandsIn (toExpression s)) (runs s) (e :: es) := by
  obtain ⟨content, hcontent⟩ := exists_span_of_hasSpan hspan
  obtain ⟨r, rs, hruns⟩ := List.exists_cons_of_ne_nil (List.ne_nil_of_mem hcontent)
  have hsource : toExpression s = withRuns r.toSource rs := toExpression_of_runs hspan hruns
  rw [hruns] at hlevel ⊢
  rw [hsource]
  obtain ⟨e, ⟨lexed, hlexed, he⟩, hstand⟩ := (hlevel r List.mem_cons_self).standsIn
  have hfirst : IsSource (.level .additive) r.toSource e := ⟨lexed, hlexed, he.loosen (by decide)⟩
  obtain ⟨es, hes, hrs⟩ :=
    isSource_withRuns hfirst fun r' hr' ↦ hlevel r' (List.mem_cons_of_mem r hr')
  exact ⟨e, es, hes, .cons (hstand.withRuns rs) hrs⟩

/-- **A text is the sum of its runs.** If every span of a text is an operand of a sum on its own,
the text reads as the sum of its runs from the left, each a string literal or the tree of its span.
So a text that is one span has the result of the span; a text that begins with a literal run has, if
every span has a value, the texts of its runs in order; and a text fails with the error of its
leftmost span that has no value. -/
theorem parse_expressionOf (t : String) (hspan : isInterpolated t = true)
    (hlevel : ∀ content, .span content ∈ runs t.toList →
      ∃ e, IsSource (.level .multiplicative) (Text.trim content) e) :
    (∃ e es, parse (expressionOf t) = .ok (es.foldl (.binary .add) e) ∧
      List.Forall₂ Run.HasTree (runs t.toList) (e :: es)) ∧
    ∃ evaluator, Evaluator.ofSource (expressionOf t) = .ok evaluator ∧ ∀ data : Data,
      (∀ content, runs t.toList = [.span content] →
        ∃ own, Evaluator.ofSource (String.ofList (Text.trim content)) = .ok own ∧
          evaluator.call data = own.call data) ∧
      (∀ text rest vs, runs t.toList = .literal text :: rest →
        List.Forall₂ (Run.Denotes data) (runs t.toList) vs →
          evaluator.call data = .ok (.string (textsOf vs))) ∧
      ∀ err, evaluator.call data = .error err ↔ FailsFirst data (runs t.toList) err := by
  have hall : ∀ r ∈ runs t.toList, r.IsOfLevel .multiplicative := by
    rintro (text | content) hr
    · exact ⟨_, isSource_quote text⟩
    · exact hlevel content hr
  obtain ⟨e, es, htree, hstand⟩ := isSource_toExpression hspan hall
  have hsource := htree.conditional
  refine ⟨⟨e, es, parse_eq_ok_iff.mpr hsource, hstand.imp fun _ _ h ↦ h.hasTree⟩,
    _, hsource.ofSource, fun data ↦ ?_⟩
  have hresults := hstand.imp fun _ _ h ↦ h.hasResult data
  rw [hsource.call_eq data, eval_foldl_add]
  refine ⟨fun content hruns ↦ ?_, fun text rest vs hruns hvs ↦ ?_, fun err ↦ ?_⟩
  · rw [hruns] at hresults
    -- a sum of one term is the term, without a conversion to text
    rcases hresults with _ | ⟨⟨own, hown, hcall⟩, ⟨⟩⟩
    refine ⟨own, hown, ?_⟩
    rw [hcall, evalAll, evalAll]
    rcases eval _ e with err | v <;> rfl
  · rw [evalAll_of_denotes hresults hvs]
    rw [hruns] at hvs
    rcases hvs with _ | ⟨rfl, -⟩
    show Except.ok (List.foldl Value.add _ _) = _
    rw [foldl_add_string, textsOf_cons]
    rfl
  · rw [map_eq_error_iff, evalAll_eq_error_iff hresults]

/-- A literal run, a span of two lines with a plus in quotes, and right behind it a name without an
entry in the data. -/
theorem parse_expressionOf_adjacent :
    let t := "x\x7b\x7b \"+\"\n\x7d\x7d\x7b\x7b b \x7d\x7d"
    isInterpolated t = true ∧
      (∀ content, .span content ∈ runs t.toList →
        ∃ e, IsSource (.level .multiplicative) (Text.trim content) e) ∧
      ∃ evaluator, Evaluator.ofSource (expressionOf t) = .ok evaluator ∧
        evaluator.call [] = .ok (.string "x+undefined") := by
  intro t
  have hruns : runs t.toList =
      [.literal ['x'], .span [' ', '"', '+', '"', '\n'], .span [' ', 'b', ' ']] := by
    rw [runs_of_firstSpan? (a := ['x']) (c := [' ', '"', '+', '"', '\n'])
        (b := "{{ b }}".toList) (by decide),
      runs_of_firstSpan? (a := []) (c := [' ', 'b', ' ']) (b := []) rfl,
      runs_of_no_span (s := []) rfl]
    rfl
  have hplus := isSource_quote ['+']
  have hb : IsSource (.level .multiplicative) ['b'] (.name "b" ⟨0, 1⟩) := isSource_name rfl rfl rfl
  have hspan : isInterpolated t = true := by decide
  have hlevel : ∀ content, .span content ∈ runs t.toList →
      ∃ e, IsSource (.level .multiplicative) (Text.trim content) e := by
    intro content hcontent
    rw [hruns] at hcontent
    have hcases : content = [' ', '"', '+', '"', '\n'] ∨ content = [' ', 'b', ' '] := by
      simpa using hcontent
    rcases hcases with rfl | rfl
    · exact ⟨_, hplus⟩
    · exact ⟨_, hb⟩
  obtain ⟨-, evaluator, hsource, hcall⟩ := parse_expressionOf t hspan hlevel
  refine ⟨hspan, hlevel, evaluator, hsource, ?_⟩
  refine (hcall _).2.1 ['x'] _ [.string "x", .string "+", .undefined] hruns ?_
  rw [hruns]
  exact .cons rfl (.cons ⟨_, hplus.conditional.ofSource, rfl⟩
    (.cons ⟨_, hb.conditional.ofSource, rfl⟩ .nil))

end HtmlTemplate.Interpolation
