import HtmlTemplate.Proofs.Expr.Grammar

/-!
# Expressions joined by a plus

Two expressions with a plus between them are an expression, whatever their operators are: the
operand at the end of the first and the one at the beginning of the second become one sum, and the
looser operators around it keep the rest. What the sum means is another matter: only operands of a
sum keep their meaning in it.

## Spines

Between the plus and the end of the first expression stand only operators that are looser than it or
of its own level, on the way down to the last operand; the same holds on the other side. So the
inductions are along one side of an expression, over the operators of a level
(`Derives.level_induction`) and over the alternatives of a conditional
(`Derives.conditional_induction`), and everything off that side stays as it is.
-/

namespace HtmlTemplate.Expr

/-! ## Spines

The last alternative of a conditional is a conditional again, and the left operand of an operator is
of the operator's own level. -/

theorem Derives.level_induction {l : Level} {motive : List Token → Expr → Prop}
    (operand : ∀ ts e, Derives l.operand ts (.expr e) → motive ts e)
    (operation : ∀ ts t us op a b, Derives (.level l) ts (.expr a) → motive ts a →
      l.operator? t.kind = some op → Derives l.operand us (.expr b) →
      motive (ts ++ t :: us) (op.apply a b))
    {ts : List Token} {e : Expr} (h : Derives (.level l) ts (.expr e)) : motive ts e := by
  generalize hc : Category.level l = c at h
  generalize hp : Phrase.expr e = p at h
  induction h generalizing e with
  | operand h _ =>
    cases hc
    cases hp
    exact operand _ _ h
  | operation h hop hright ih _ =>
    cases hc
    cases hp
    exact operation _ _ _ _ _ _ h (ih rfl rfl) hop hright
  | _ => cases hc

theorem Derives.conditional_induction {motive : List Token → Expr → Prop}
    (test : ∀ ts e, Derives (.level .or) ts (.expr e) → motive ts e)
    (conditional : ∀ ts q us k vs c a b, Derives (.level .or) ts (.expr c) →
      q.kind = .punct .question → Derives .conditional us (.expr a) → k.kind = .punct .colon →
      Derives .conditional vs (.expr b) → motive vs b →
      motive (ts ++ q :: (us ++ k :: vs)) (.conditional c a b))
    {ts : List Token} {e : Expr} (h : Derives .conditional ts (.expr e)) : motive ts e := by
  generalize hc : Category.conditional = c at h
  generalize hp : Phrase.expr e = p at h
  induction h generalizing e with
  | test h _ =>
    cases hp
    exact test _ _ h
  | conditional h hq hthen hk helse _ _ ih =>
    cases hp
    exact conditional _ _ _ _ _ _ _ _ h hq hthen hk helse (ih rfl rfl)
  | _ => cases hc

/-! ## Sums -/

/-- Are two phrases of the category with a plus between them a phrase of it? -/
def Category.Joins (c : Category) : Prop :=
  ∀ ts us plus a b, plus.kind = .punct .plus → Derives c ts (.expr a) → Derives c us (.expr b) →
    ∃ e, Derives c (ts ++ plus :: us) (.expr e)

theorem Derives.add {ts us : List Token} {plus : Token} {a b : Expr}
    (hplus : plus.kind = .punct .plus) (ha : Derives (.level .additive) ts (.expr a))
    (hb : Derives (.level .multiplicative) us (.expr b)) :
    Derives (.level .additive) (ts ++ plus :: us) (.expr (.binary .add a b)) :=
  have hop : Level.additive.operator? plus.kind = some (.binary .add) := by
    rw [hplus]
    rfl
  .operation ha hop hb

private theorem joins_additive : (Category.level .additive).Joins := by
  intro ts us plus a b hplus ha hb
  refine Derives.level_induction (l := .additive)
    (motive := fun us _ ↦ ∃ e, Derives (.level .additive) (ts ++ plus :: us) (.expr e)) ?_ ?_ hb
  · exact fun us b hb ↦ ⟨_, ha.add hplus hb⟩
  · rintro us t vs op b c - ⟨e, he⟩ hop hc
    rw [← List.cons_append, ← List.append_assoc]
    exact ⟨_, .operation he hop hc⟩

theorem joins_of_tighter {l m : Level} (h : l.tighter = some m) (hm : (Category.level m).Joins) :
    (Category.level l).Joins := by
  intro ts us plus a b hplus ha hb
  have hoperand := Level.operand_of_tighter h
  -- first along the operators of the second phrase, then along those of the first one
  refine Derives.level_induction (l := l)
    (motive := fun us _ ↦ ∃ e, Derives (.level l) (ts ++ plus :: us) (.expr e)) ?_ ?_ hb
  · intro us b hb
    refine Derives.level_induction (l := l)
      (motive := fun ts _ ↦ ∃ e, Derives (.level l) (ts ++ plus :: us) (.expr e)) ?_ ?_ ha
    · intro ts a ha
      rw [hoperand] at ha hb
      obtain ⟨e, he⟩ := hm ts us plus a b hplus ha hb
      rw [← hoperand] at he
      exact ⟨e, .operand he⟩
    · intro ts t vs op a c ha _ hop hc
      rw [hoperand] at hc hb
      obtain ⟨e, he⟩ := hm vs us plus c b hplus hc hb
      rw [← hoperand] at he
      rw [List.append_assoc, List.cons_append]
      exact ⟨_, .operation ha hop he⟩
  · rintro us t vs op b c - ⟨e, he⟩ hop hc
    rw [← List.cons_append, ← List.append_assoc]
    exact ⟨_, .operation he hop hc⟩

private theorem joins_or : (Category.level .or).Joins :=
  joins_of_tighter (m := .and) rfl <| joins_of_tighter (m := .equality) rfl <|
    joins_of_tighter (m := .relational) rfl <| joins_of_tighter (m := .additive) rfl joins_additive

/-- **Two expressions with a plus between them are an expression.** -/
theorem joins_conditional : Category.conditional.Joins := by
  intro ts us plus a b hplus ha hb
  -- the plus stands in the last branch of the first expression and in the test of the second one
  refine Derives.conditional_induction
    (motive := fun ts _ ↦ ∃ e, Derives .conditional (ts ++ plus :: us) (.expr e)) ?_ ?_ ha
  · intro ts a ha
    refine Derives.conditional_induction
      (motive := fun us _ ↦ ∃ e, Derives .conditional (ts ++ plus :: us) (.expr e)) ?_ ?_ hb
    · intro us b hb
      obtain ⟨e, he⟩ := joins_or ts us plus a b hplus ha hb
      exact ⟨e, .test he⟩
    · intro us q vs k ws c d b hc hq hd hk hb _
      obtain ⟨e, he⟩ := joins_or ts us plus a c hplus ha hc
      rw [← List.cons_append, ← List.append_assoc]
      exact ⟨_, .conditional he hq hd hk hb⟩
  · rintro ts q vs k ws c d b hc hq hd hk - ⟨e, he⟩
    rw [List.append_assoc, List.cons_append, List.append_assoc, List.cons_append]
    exact ⟨_, .conditional hc hq hd hk he⟩

end HtmlTemplate.Expr
