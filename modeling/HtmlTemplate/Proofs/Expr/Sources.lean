import HtmlTemplate.Proofs.Expr.Completeness
import HtmlTemplate.Proofs.Expr.Evaluation
import HtmlTemplate.Proofs.Expr.Extents
import HtmlTemplate.Proofs.Expr.Joining
import HtmlTemplate.Proofs.Expr.Splitting

/-!
# Sources

What can be said of the source of an expression: it is a phrase of a category (`IsSource`), it
leaves no mark open (`IsClosedSource`), it has a value on data (`HasValue`). Each of them is a
property of the source alone, which it keeps when another source is joined to it by a plus.

## Why the source and not the tokens

What is joined by a plus is text. A property of the tokens would have to be carried through the
lexer at every step; as a property of the source it is joined once (`IsSource.joined`), and the
interpolations, which are long sums, are put together from their parts by induction with nothing but
these lemmas.
-/

namespace HtmlTemplate.Expr

/-- The source is a phrase of the category, and stands for the expression. -/
def IsSource (c : Category) (s : List Char) (e : Expr) : Prop :=
  ∃ lexed, tokensFrom 0 s = .ok lexed ∧ Derives c lexed.tokens (.expr e)

theorem parse_eq_ok_iff {s : List Char} {e : Expr} :
    parse (String.ofList s) = .ok e ↔ IsSource .conditional s e := by
  rw [parse_eq_ok_iff_exists, tokenize, String.toList_ofList]
  rfl

theorem IsSource.ofSource {s : List Char} {e : Expr} (h : IsSource .conditional s e) :
    Evaluator.ofSource (String.ofList s) = .ok ⟨String.ofList s, e, e.freeNames⟩ := by
  rw [Evaluator.ofSource, parse_eq_ok_iff.mpr h]
  rfl

theorem exists_ofSource_iff {s : List Char} :
    (∃ evaluator, Evaluator.ofSource (String.ofList s) = .ok evaluator) ↔
      ∃ e, IsSource .conditional s e := by
  constructor
  · rintro ⟨evaluator, h⟩
    obtain ⟨e, he, -⟩ := map_eq_ok_iff.mp h
    exact ⟨e, parse_eq_ok_iff.mp he⟩
  · rintro ⟨e, he⟩
    exact ⟨_, he.ofSource⟩

theorem IsSource.conditional {s : List Char} {e : Expr} {l : Level} (h : IsSource (.level l) s e) :
    IsSource .conditional s e := by
  obtain ⟨lexed, hlexed, he⟩ := h
  exact ⟨lexed, hlexed, .test (he.loosen (l := .or) (by cases l <;> decide))⟩

theorem isSource_name {c : Char} {t : List Char} {text : String} {l : Level} {e : Expr}
    (hc : Text.isBlank c = false) (hscan : scanToken c t = .ok (.name text, []))
    (he : ofName text ⟨0, Text.width (c :: t)⟩ = some e) : IsSource (.level l) (c :: t) e :=
  ⟨_, tokensFrom_single hc hscan, .of_ofName he⟩

theorem IsSource.joined {s r : List Char} {a b : Expr} (hs : IsSource .conditional s a)
    (hr : IsSource .conditional r b) : ∃ e, IsSource .conditional (s ++ '+' :: r) e := by
  obtain ⟨l, hl, ha⟩ := hs
  obtain ⟨m, hm, hb⟩ := hr
  obtain ⟨e, he⟩ := joins_conditional l.tokens (m.tokens.map (Token.shift (l.stop + 1)))
    ⟨.punct .plus, l.stop, l.stop + 1⟩ a _ rfl ha (hb.shift _)
  exact ⟨e, _, tokensFrom_joined hl hm, he⟩

/-- Behind a source of a sum and a plus, a source of a product is the next operand, moved to where
it stands. -/
theorem IsSource.add {s r : List Char} {a b : Expr} (hs : IsSource (.level .additive) s a)
    (hr : IsSource (.level .multiplicative) r b) :
    IsSource (.level .additive) (s ++ '+' :: r)
      (.binary .add a (b.shift (Text.width (s ++ ['+'])))) := by
  obtain ⟨l, hl, ha⟩ := hs
  obtain ⟨m, hm, hb⟩ := hr
  have hwidth : Text.width (s ++ ['+']) = l.stop + 1 := by
    rw [stop_of_tokensFrom hl, Nat.zero_add, Text.width_append]
    rfl
  rw [hwidth]
  exact ⟨_, tokensFrom_joined hl hm, ha.add rfl (hb.shift _)⟩

/-- Has the source tokens that leave no mark open and end in an operand? -/
def IsClosedSource (s : List Char) : Prop :=
  ∃ lexed, tokensFrom 0 s = .ok lexed ∧ IsClosed lexed.tokens

theorem IsSource.isClosedSource {s : List Char} {e : Expr} (h : IsSource .conditional s e) :
    IsClosedSource s := by
  obtain ⟨l, hl, he⟩ := h
  exact ⟨l, hl, he.isClosed rfl⟩

theorem IsSource.split {s r : List Char} {e : Expr}
    (h : IsSource .conditional (s ++ '+' :: r) e) (hs : IsClosedSource s) :
    (∃ a, IsSource .conditional s a) ∧ ∃ b, IsSource .conditional r b := by
  obtain ⟨l, hl, hclosed⟩ := hs
  obtain ⟨lexed, hlexed, he⟩ := h
  obtain ⟨m, hm⟩ := exists_tokensFrom_of_joined hl hlexed
  rw [tokensFrom_joined hl hm] at hlexed
  cases hlexed
  obtain ⟨⟨a, ha⟩, b, hb⟩ := he.split rfl rfl rfl hclosed
  obtain ⟨b, hb⟩ := hb.unshift
  exact ⟨⟨a, l, hl, ha⟩, b, m, hm, hb⟩

/-! ## Meaning of a source

A value is asked for wherever the source stands, since the spans of a source that stands behind
another are others. An expression that has a value has it anywhere. -/

/-- The source is of a level, and has this value on the data wherever it stands. -/
def HasValue (data : Data) (l : Level) (s : List Char) (v : Value) : Prop :=
  ∃ e, IsSource (.level l) s e ∧
    ∀ scope : Scope, (∀ name ∈ (occurrences e).map (·.1), scope.resolve name = denoted data name) →
      eval scope e = .ok v

/-- **The value of a sum of sources is the sum of their values.** -/
theorem HasValue.add {data : Data} {s r : List Char} {a b : Value}
    (hs : HasValue data .additive s a) (hr : HasValue data .multiplicative r b) :
    HasValue data .additive (s ++ '+' :: r) (a.add b) := by
  obtain ⟨e, he, hea⟩ := hs
  obtain ⟨f, hf, hfb⟩ := hr
  refine ⟨_, he.add hf, fun scope hscope ↦ ?_⟩
  -- the second tree is moved behind the plus, which changes its spans, but no name in it
  rw [occurrences, List.map_append, names_shift] at hscope
  have ha := hea scope fun name hname ↦ hscope name (List.mem_append_left _ hname)
  have hb := hfb scope fun name hname ↦ hscope name (List.mem_append_right _ hname)
  have hagree : scope.AgreeOn scope (occurrences f) := fun _ _ ↦ rfl
  rw [eval, ha, eval_shift _ f hagree hb]
  rfl

/-- A value that a source has on its own, it has wherever it stands. -/
theorem hasValue_of_call {data : Data} {l : Level} {s : List Char} {e : Expr} {v : Value}
    (he : IsSource (.level l) s e)
    (h : (Evaluator.mk (String.ofList s) e e.freeNames).call data = .ok v) :
    HasValue data l s v := by
  refine ⟨e, he, fun scope hscope ↦ ?_⟩
  have hagree : ((Evaluator.mk (String.ofList s) e e.freeNames).scope data).AgreeOn scope
      (occurrences e) := by
    intro name hname
    rw [hscope name hname, resolve_scope data hname]
  -- moved by nothing, the tree keeps its value in every scope that agrees on its names
  have := eval_shift 0 e hagree h
  rwa [shift_zero] at this

theorem HasValue.call {data : Data} {l : Level} {s : List Char} {v : Value}
    (h : HasValue data l s v) :
    ∃ evaluator, Evaluator.ofSource (String.ofList s) = .ok evaluator ∧
      evaluator.call data = .ok v := by
  obtain ⟨e, he, hv⟩ := h
  exact ⟨_, he.conditional.ofSource, hv _ fun name hname ↦ resolve_scope data hname⟩

end HtmlTemplate.Expr
