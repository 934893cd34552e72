import HtmlTemplate.Proofs.Expr.Nesting

/-!
# Expressions split at a plus

The converse of joining. If an expression has a plus in it, and what stands before the plus is
closed in itself, then both sides are expressions (`Derives.split`): the plus is an infix operator,
and no bracket and no question mark is open there that something behind it closes.

## Going down to the plus

The plus stands in one of the parts of a phrase, and the tokens in front of it end inside that part.
If they are closed, they cannot end between a bracket and its counterpart, nor behind an operator
that waits for an operand. What is left are the operands on the way down to the plus, and there it
is found as the operator of a sum. The cases of the induction that are excluded are excluded by the
marks that are open (`IsClosed.not_enclosed`), without a look at what the part stands for.
-/

namespace HtmlTemplate.Expr

/-- Do the tokens leave no mark open, and end in an operand? -/
structure IsClosed (ts : List Token) : Prop where
  settled : nestAll [] ts = some []
  ends : EndsInOperand ts

variable {ts us : List Token} {t : Token}

theorem IsClosed.ne_nil (h : IsClosed ts) : ts ≠ [] := by
  rcases h.ends with _ | _ <;> simp

theorem Category.isInBraces_of_isExpression {c : Category} (h : c.isExpression = true) :
    c.isInBraces = false := by
  cases c <;> first | rfl | cases h

/-- **An expression is closed.** -/
theorem Derives.isClosed {c : Category} {p : Phrase} (h : Derives c ts p)
    (hc : c.isExpression = true) : IsClosed ts where
  settled := (h.isNested_outside (Category.isInBraces_of_isExpression hc) []).settled
  ends := h.endsInOperand hc

theorem IsClosed.behind (h : IsClosed (ts ++ t :: us)) (hsettled : nestAll [] (ts ++ [t]) = some [])
    (hend : t.kind.isEnd = false) (hdot : t.kind ≠ .punct .dot)
    (hts : ts = [] ∨ EndsInOperand ts) : IsClosed us where
  settled := by
    have hall := h.settled
    rwa [List.append_cons, nestAll_append, hsettled, Option.bind_some] at hall
  ends := by
    refine h.ends.behind hend hdot ?_
    rintro r d rfl
    rcases hts with hnil | hend
    · exact absurd hnil (by simp)
    · exact hend.ne_dot

theorem isEnd_of_operator? {l : Level} {k : Token.Kind} {op : Operator}
    (h : l.operator? k = some op) : k.isEnd = false ∧ k ≠ .punct .dot := by
  unfold Level.operator? at h
  split at h <;> first | exact ⟨rfl, nofun⟩ | cases h | skip
  split at h
  · rename_i htext
    subst htext
    exact ⟨rfl, nofun⟩
  · cases h

theorem isEnd_of_prefixOperator? {k : Token.Kind} {op : UnaryOp}
    (h : prefixOperator? k = some op) : k.isEnd = false ∧ k ≠ .punct .dot := by
  unfold prefixOperator? at h
  split at h <;> first | exact ⟨rfl, nofun⟩ | cases h | skip
  split at h
  · rename_i htext
    subst htext
    exact ⟨rfl, nofun⟩
  · cases h

/-! ## Where the plus stands

A list that was put together around a token is cut at another one. The cut is in front of that
token, at it or behind it. -/

theorem append_cons_cases {α : Type} {ts us xs ys : List α} {t p : α}
    (h : ts ++ t :: us = xs ++ p :: ys) :
    (∃ r, ts = xs ++ p :: r ∧ ys = r ++ t :: us) ∨ (t = p ∧ ts = xs ∧ us = ys) ∨
      ∃ r, xs = ts ++ t :: r ∧ us = r ++ p :: ys := by
  rcases List.append_eq_append_iff.mp h with ⟨r, rfl, hr⟩ | ⟨r, rfl, hr⟩
  · rcases List.cons_eq_append_iff.mp hr with ⟨rfl, hp⟩ | ⟨r', rfl, hr'⟩
    · cases hp
      exact Or.inr (Or.inl ⟨rfl, (List.append_nil ts).symm, rfl⟩)
    · exact Or.inr (Or.inr ⟨r', rfl, hr'⟩)
  · rcases List.cons_eq_append_iff.mp hr with ⟨rfl, hp⟩ | ⟨r', rfl, hr'⟩
    · cases hp
      exact Or.inr (Or.inl ⟨rfl, List.append_nil xs, rfl⟩)
    · exact Or.inl ⟨r', rfl, hr'⟩

section

variable {xs ys vs : List Token} {plus o k : Token}

theorem IsClosed.skip {mark : Punct} (hxs : IsClosed (ts ++ o :: xs))
    (hts : nestAll [] ts = some [])
    (ho : nest [] o.kind = some [mark]) (hus : IsNested [mark] us) (hk : k.kind ≠ plus.kind)
    (h : us ++ k :: vs = xs ++ plus :: ys) : ∃ r, xs = us ++ k :: r ∧ vs = r ++ plus :: ys := by
  rcases append_cons_cases h with ⟨r, rfl, -⟩ | ⟨rfl, -, -⟩ | hbehind
  · exact absurd hxs.settled (hus.not_closed hts ho)
  · exact absurd rfl hk
  · exact hbehind

theorem IsClosed.not_enclosed {mark : Punct} (hxs : IsClosed (ts ++ o :: xs))
    (hts : nestAll [] ts = some []) (ho : nest [] o.kind = some [mark]) (hus : IsNested [mark] us)
    (hk : k.kind ≠ plus.kind) (h : us ++ [k] = xs ++ plus :: ys) : False := by
  obtain ⟨r, -, hr⟩ := hxs.skip hts ho hus hk h
  simp at hr

theorem IsClosed.not_bracketed {mark : Punct} (hxs : IsClosed xs)
    (ho : nest [] o.kind = some [mark]) (hus : IsNested [mark] us) (hk : k.kind ≠ plus.kind)
    (h : o :: (us ++ [k]) = xs ++ plus :: ys) : False := by
  rcases List.cons_eq_append_iff.mp h with ⟨rfl, -⟩ | ⟨r, rfl, hr⟩
  · exact hxs.ne_nil rfl
  · rw [← List.nil_append (o :: r)] at hxs
    exact hxs.not_enclosed rfl ho hus hk hr

theorem IsClosed.not_singleton (hxs : IsClosed xs) (h : [t] = xs ++ plus :: ys) : False := by
  rcases List.cons_eq_append_iff.mp h with ⟨rfl, -⟩ | ⟨r, -, hr⟩
  · exact hxs.ne_nil rfl
  · simp at hr

end

/-- **An expression splits at a plus behind closed tokens.** -/
theorem Derives.split {c : Category} {p : Phrase} (h : Derives c ts p)
    (hc : c.isExpression = true) {xs ys : List Token} {plus : Token} (hts : ts = xs ++ plus :: ys)
    (hplus : plus.kind = .punct .plus) (hxs : IsClosed xs) :
    (∃ a, Derives c xs (.expr a)) ∧ ∃ b, Derives c ys (.expr b) := by
  induction h generalizing xs ys with
  | test _ ih =>
    obtain ⟨⟨a, ha⟩, b, hb⟩ := ih rfl hts hxs
    exact ⟨⟨a, .test ha⟩, b, .test hb⟩
  | @conditional ts us vs q k d a b htest hq hthen hk helse ih1 ih2 ih3 =>
    have hsettled := (htest.isClosed rfl).settled
    have hopen : nest [] q.kind = some [.question] := by rw [hq]; rfl
    -- the plus is in the test, or behind the colon: up to there the question mark is open
    rcases append_cons_cases hts with ⟨r, rfl, rfl⟩ | ⟨rfl, -, -⟩ | ⟨r, rfl, hr⟩
    · obtain ⟨⟨f, hf⟩, g, hg⟩ := ih1 rfl rfl hxs
      exact ⟨⟨f, .test hf⟩, _, .conditional hg hq hthen hk helse⟩
    · rw [hplus] at hq
      cases hq
    · obtain ⟨s, rfl, rfl⟩ := hxs.skip hsettled hopen (hthen.isNested_outside rfl _)
        (by simp [hk, hplus]) hr
      have hinside : nestAll [] (q :: (us ++ [k])) = some [] :=
        ((hthen.isNested_outside rfl _).enclosed hopen
          (by rw [hk, nest]; exact if_neg (by simp))).settled
      have hclosed : IsClosed s := by
        rw [← List.cons_append, ← List.append_assoc] at hxs
        refine hxs.behind ?_ (by rw [hk]; rfl) (by simp [hk])
          (Or.inr (((hthen.endsInOperand rfl).append [q]).append ts))
        rw [List.append_assoc, List.cons_append, nestAll_append, hsettled, Option.bind_some,
          hinside]
      obtain ⟨⟨f, hf⟩, g, hg⟩ := ih3 rfl rfl hclosed
      exact ⟨⟨_, .conditional htest hq hthen hk hf⟩, g, hg⟩
  | operand h ih =>
    obtain ⟨⟨a, ha⟩, b, hb⟩ := ih (Level.isExpression_operand _) hts hxs
    exact ⟨⟨a, .operand ha⟩, b, .operand hb⟩
  | @operation l ts us t op a b hleft hop hright ih1 ih2 =>
    rcases append_cons_cases hts with ⟨r, rfl, rfl⟩ | ⟨rfl, rfl, rfl⟩ | ⟨r, rfl, rfl⟩
    · obtain ⟨hx, d, hd⟩ := ih1 rfl rfl hxs
      exact ⟨hx, _, .operation hd hop hright⟩
    · -- the plus is the operator
      exact ⟨⟨a, hleft⟩, b, .operand hright⟩
    · obtain ⟨hend, hdot⟩ := isEnd_of_operator? hop
      have hsettled : nestAll [] (ts ++ [t]) = some [] := by
        rw [nestAll_append, (hleft.isClosed rfl).settled, Option.bind_some, nestAll,
          nest_of_operator? hop]
        rfl
      have hr := hxs.behind hsettled hend hdot (Or.inr (hleft.endsInOperand rfl))
      obtain ⟨⟨d, hd⟩, f, hf⟩ := ih2 (Level.isExpression_operand l) rfl hr
      exact ⟨⟨_, .operation hleft hop hd⟩, f, .operand hf⟩
  | unprefixed _ ih =>
    obtain ⟨⟨a, ha⟩, b, hb⟩ := ih rfl hts hxs
    exact ⟨⟨a, .unprefixed ha⟩, b, .unprefixed hb⟩
  | @prefixed ts t op e hop _ ih =>
    -- as a sign in front the plus would have nothing before it, which is not closed
    rcases List.cons_eq_append_iff.mp hts with ⟨rfl, -⟩ | ⟨r, rfl, rfl⟩
    · exact absurd rfl hxs.ne_nil
    · obtain ⟨hend, hdot⟩ := isEnd_of_prefixOperator? hop
      have hsettled : nestAll [] [t] = some [] := by
        rw [nestAll, nest_of_prefixOperator? hop]
        rfl
      rw [← List.nil_append (t :: r)] at hxs
      have hr := hxs.behind hsettled hend hdot (Or.inl rfl)
      obtain ⟨⟨d, hd⟩, hy⟩ := ih rfl rfl hr
      exact ⟨⟨_, .prefixed hop hd⟩, hy.imp fun _ hy ↦ hy⟩
  | primary _ ih =>
    obtain ⟨⟨a, ha⟩, b, hb⟩ := ih rfl hts hxs
    exact ⟨⟨a, .primary ha⟩, b, .primary hb⟩
  | @member ts d n property e h hd hn ih =>
    rcases append_cons_cases hts with ⟨r, rfl, rfl⟩ | ⟨rfl, -, -⟩ | ⟨r, rfl, hr⟩
    · obtain ⟨hx, f, hf⟩ := ih rfl rfl hxs
      exact ⟨hx, _, .member hf hd hn⟩
    · rw [hplus] at hd
      cases hd
    · rcases List.cons_eq_append_iff.mp hr with ⟨rfl, hy⟩ | ⟨r', -, hr'⟩
      · cases hy
        rw [hplus] at hn
        cases hn
      · simp at hr'
  | @index ts us o k e key h ho hkey hclose ih1 ih2 =>
    rcases append_cons_cases hts with ⟨r, rfl, rfl⟩ | ⟨rfl, -, -⟩ | ⟨r, rfl, hr⟩
    · obtain ⟨hx, d, hd⟩ := ih1 rfl rfl hxs
      exact ⟨hx, _, .index hd ho hkey hclose⟩
    · rw [hplus] at ho
      cases ho
    · exact (hxs.not_enclosed (h.isClosed rfl).settled (by rw [ho]; rfl)
        (hkey.isNested_outside rfl _)
        (by simp [hclose, hplus]) hr).elim
  | @call ts us o k e es h ho hes hclose ih1 ih2 =>
    rcases append_cons_cases hts with ⟨r, rfl, rfl⟩ | ⟨rfl, -, -⟩ | ⟨r, rfl, hr⟩
    · obtain ⟨hx, d, hd⟩ := ih1 rfl rfl hxs
      exact ⟨hx, _, .call hd ho hes hclose⟩
    · rw [hplus] at ho
      cases ho
    · exact (hxs.not_enclosed (h.isClosed rfl).settled (by rw [ho]; rfl)
        (hes.isNested_outside rfl _)
        (by simp [hclose, hplus]) hr).elim
  | number => exact (hxs.not_singleton hts).elim
  | string => exact (hxs.not_singleton hts).elim
  | name => exact (hxs.not_singleton hts).elim
  | group ho h hclose =>
    exact (hxs.not_bracketed (by rw [ho]; rfl) (h.isNested_outside rfl _)
      (by simp [hclose, hplus]) hts).elim
  | array ho h hclose =>
    exact (hxs.not_bracketed (by rw [ho]; rfl) (h.isNested_outside rfl _)
      (by simp [hclose, hplus]) hts).elim
  | object ho h hclose =>
    exact (hxs.not_bracketed (by rw [ho]; rfl) (h.isNested _ fun _ ↦ rfl)
      (by simp [hclose, hplus]) hts).elim
  | _ => cases hc

/-! ## Tokens that stand elsewhere

The two sides of the plus stand elsewhere when they are sources of their own, and their tokens have
other spans. A phrase is one for any tokens of the same kinds. -/

/-- Are the tokens a phrase of the category for anything of the same kind? -/
def Phrase.HasLike (c : Category) (ts : List Token) : Phrase → Prop
  | expr _ => ∃ e, Derives c ts (.expr e)
  | items _ => ∃ es, Derives c ts (.items es)
  | members _ => ∃ ms, Derives c ts (.members ms)
  | member _ => ∃ m, Derives c ts (.member m)

theorem exists_ofName {text : String} {span : Span} {e : Expr} (h : ofName text span = some e)
    (span' : Span) : ∃ e', ofName text span' = some e' := by
  unfold ofName at h ⊢
  split_ifs at h ⊢ <;> exact ⟨_, rfl⟩

/-- **Only the kinds of the tokens decide what is a phrase.** -/
theorem Derives.of_kinds {c : Category} {us : List Token} {p : Phrase} (h : Derives c ts p)
    (hus : us.map Token.kind = ts.map Token.kind) : p.HasLike c us := by
  induction h generalizing us with
  | test _ ih =>
    obtain ⟨e, he⟩ := ih hus
    exact ⟨e, .test he⟩
  | conditional _ hq _ hk _ ih1 ih2 ih3 =>
    -- tokens of the same kinds can be cut at the same places
    simp only [List.map_append, List.map_cons, List.map_eq_append_iff, List.map_eq_cons_iff] at hus
    obtain ⟨us, _, rfl, hus, q, _, rfl, hq', vs, _, rfl, hvs, k, ws, rfl, hk', hws⟩ := hus
    obtain ⟨⟨a, ha⟩, ⟨b, hb⟩, d, hd⟩ := And.intro (ih1 hus) (And.intro (ih2 hvs) (ih3 hws))
    exact ⟨_, .conditional ha (hq'.trans hq) hb (hk'.trans hk) hd⟩
  | operand _ ih =>
    obtain ⟨e, he⟩ := ih hus
    exact ⟨e, .operand he⟩
  | operation _ hop _ ih1 ih2 =>
    simp only [List.map_append, List.map_cons, List.map_eq_append_iff, List.map_eq_cons_iff] at hus
    obtain ⟨us, _, rfl, hus, t, vs, rfl, ht, hvs⟩ := hus
    obtain ⟨⟨a, ha⟩, b, hb⟩ := And.intro (ih1 hus) (ih2 hvs)
    exact ⟨_, .operation ha (by rw [ht, hop]) hb⟩
  | unprefixed _ ih =>
    obtain ⟨e, he⟩ := ih hus
    exact ⟨e, .unprefixed he⟩
  | prefixed hop _ ih =>
    obtain ⟨t, us, rfl, ht, hus⟩ := List.map_eq_cons_iff.mp hus
    obtain ⟨e, he⟩ := ih hus
    exact ⟨_, .prefixed (by rw [ht, hop]) he⟩
  | primary _ ih =>
    obtain ⟨e, he⟩ := ih hus
    exact ⟨e, .primary he⟩
  | member _ hd hn ih =>
    simp only [List.map_append, List.map_cons, List.map_nil, List.map_eq_append_iff,
      List.map_eq_cons_iff, List.map_eq_nil_iff] at hus
    obtain ⟨us, _, rfl, hus, d, _, rfl, hd', n, _, rfl, hn', rfl⟩ := hus
    obtain ⟨e, he⟩ := ih hus
    exact ⟨_, .member he (hd'.trans hd) (hn'.trans hn)⟩
  | index _ ho _ hc ih1 ih2 =>
    simp only [List.map_append, List.map_cons, List.map_nil, List.map_eq_append_iff,
      List.map_eq_cons_iff, List.map_eq_nil_iff] at hus
    obtain ⟨us, _, rfl, hus, o, _, rfl, ho', vs, _, rfl, hvs, k, _, rfl, hk, rfl⟩ := hus
    obtain ⟨⟨a, ha⟩, b, hb⟩ := And.intro (ih1 hus) (ih2 hvs)
    exact ⟨_, .index ha (ho'.trans ho) hb (hk.trans hc)⟩
  | call _ ho _ hc ih1 ih2 =>
    simp only [List.map_append, List.map_cons, List.map_nil, List.map_eq_append_iff,
      List.map_eq_cons_iff, List.map_eq_nil_iff] at hus
    obtain ⟨us, _, rfl, hus, o, _, rfl, ho', vs, _, rfl, hvs, k, _, rfl, hk, rfl⟩ := hus
    obtain ⟨⟨a, ha⟩, b, hb⟩ := And.intro (ih1 hus) (ih2 hvs)
    exact ⟨_, .call ha (ho'.trans ho) hb (hk.trans hc)⟩
  | number ht =>
    obtain ⟨u, rfl, hu⟩ := List.map_eq_singleton_iff.mp hus
    exact ⟨_, .number (hu.trans ht)⟩
  | string ht =>
    obtain ⟨u, rfl, hu⟩ := List.map_eq_singleton_iff.mp hus
    exact ⟨_, .string (hu.trans ht)⟩
  | name ht he =>
    obtain ⟨u, rfl, hu⟩ := List.map_eq_singleton_iff.mp hus
    -- a word is a name or a literal wherever it stands
    obtain ⟨e, he⟩ := exists_ofName he u.span
    exact ⟨e, .name (hu.trans ht) he⟩
  | group ho _ hc ih =>
    simp only [List.map_append, List.map_cons, List.map_nil, List.map_eq_append_iff,
      List.map_eq_cons_iff, List.map_eq_nil_iff] at hus
    obtain ⟨o, _, rfl, ho', us, _, rfl, hus, k, _, rfl, hk, rfl⟩ := hus
    obtain ⟨e, he⟩ := ih hus
    exact ⟨e, .group (ho'.trans ho) he (hk.trans hc)⟩
  | array ho _ hc ih =>
    simp only [List.map_append, List.map_cons, List.map_nil, List.map_eq_append_iff,
      List.map_eq_cons_iff, List.map_eq_nil_iff] at hus
    obtain ⟨o, _, rfl, ho', us, _, rfl, hus, k, _, rfl, hk, rfl⟩ := hus
    obtain ⟨es, hes⟩ := ih hus
    exact ⟨_, .array (ho'.trans ho) hes (hk.trans hc)⟩
  | object ho _ hc ih =>
    simp only [List.map_append, List.map_cons, List.map_nil, List.map_eq_append_iff,
      List.map_eq_cons_iff, List.map_eq_nil_iff] at hus
    obtain ⟨o, _, rfl, ho', us, _, rfl, hus, k, _, rfl, hk, rfl⟩ := hus
    obtain ⟨ms, hms⟩ := ih hus
    exact ⟨_, .object (ho'.trans ho) hms (hk.trans hc)⟩
  | noItems =>
    rw [List.map_nil, List.map_eq_nil_iff] at hus
    exact ⟨[], hus ▸ .noItems⟩
  | lastItem _ ih =>
    obtain ⟨e, he⟩ := ih hus
    exact ⟨_, .lastItem he⟩
  | item _ hc _ ih1 ih2 =>
    simp only [List.map_append, List.map_cons, List.map_eq_append_iff, List.map_eq_cons_iff] at hus
    obtain ⟨us, _, rfl, hus, k, vs, rfl, hk, hvs⟩ := hus
    obtain ⟨⟨e, he⟩, es, hes⟩ := And.intro (ih1 hus) (ih2 hvs)
    exact ⟨_, .item he (hk.trans hc) hes⟩
  | noMembers =>
    rw [List.map_nil, List.map_eq_nil_iff] at hus
    exact ⟨[], hus ▸ .noMembers⟩
  | lastMember _ ih =>
    obtain ⟨m, hm⟩ := ih hus
    exact ⟨_, .lastMember hm⟩
  | moreMembers _ hc _ ih1 ih2 =>
    simp only [List.map_append, List.map_cons, List.map_eq_append_iff, List.map_eq_cons_iff] at hus
    obtain ⟨us, _, rfl, hus, k, vs, rfl, hk, hvs⟩ := hus
    obtain ⟨⟨m, hm⟩, ms, hms⟩ := And.intro (ih1 hus) (ih2 hvs)
    exact ⟨_, .moreMembers hm (hk.trans hc) hms⟩
  | pair hkey hc _ ih =>
    simp only [List.map_cons, List.map_eq_cons_iff] at hus
    obtain ⟨t, _, rfl, ht, k, us, rfl, hk, hus⟩ := hus
    obtain ⟨e, he⟩ := ih hus
    exact ⟨_, .pair (by rw [ht, hkey]) (hk.trans hc) he⟩
  | shorthand hkey =>
    obtain ⟨u, rfl, hu⟩ := List.map_eq_singleton_iff.mp hus
    exact ⟨_, .shorthand (by rw [hu, hkey])⟩

theorem Derives.unshift {c : Category} {d : Nat} {e : Expr}
    (h : Derives c (ts.map (Token.shift d)) (.expr e)) : ∃ e, Derives c ts (.expr e) := by
  refine h.of_kinds ?_
  rw [List.map_map]
  rfl

end HtmlTemplate.Expr
