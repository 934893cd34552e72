import HtmlTemplate.Proofs.Expr.Steps

/-!
# How the parser fails

The counterpart of the steps of the parser for errors. A function of the parser fails because one
that it calls fails, behind what the others have read, or because the token in front is not one that
it demands; then the error is at that token.

## How the lemmas are used

Each lemma takes a failure of one function apart into the failures of the functions that it calls,
and says what the ones before have read (`Reads`). An induction over the parser needs nothing else:
a claim about every failure is proved by one case for each token that was demanded and not there
(`expect_eq_error_iff`), and by the hypothesis for the function that was called.
-/

namespace HtmlTemplate.Expr

variable {α β : Type} {n m : Nat} {stop : Nat} {ts : List Token} {err : SyntaxError}

theorem expect_eq_error_iff {p : Punct} :
    expect stop p ts = .error err ↔ ¬IsAt p ts ∧ err = unexpected stop (.punct p) ts := by
  rw [expect, ← eat_eq_none_iff]
  rcases eat p ts with _ | parsed
  · exact ⟨fun h ↦ ⟨rfl, (Except.error.inj h).symm⟩, fun h ↦ congrArg Except.error h.2.symm⟩
  · exact ⟨fun h ↦ (by cases h), fun h ↦ (by cases h.1)⟩

theorem failure_bind {x : Except SyntaxError (Parsed α m)}
    {f : Parsed α m → Except SyntaxError (Parsed β n)} (h : (x >>= f) = .error err) :
    x = .error err ∨ ∃ a r hr, x = .ok ⟨a, r, hr⟩ ∧ f ⟨a, r, hr⟩ = .error err := by
  rcases bind_eq_error_iff.mp h with h | ⟨⟨a, r, hr⟩, ha, h⟩
  · exact Or.inl h
  · exact Or.inr ⟨a, r, hr, ha, h⟩

theorem failure_conditional (h : parseConditional stop ts = .error err) :
    parseLevel stop .or ts = .error err ∨
      ∃ c q r, Reads (parseLevel stop .or ts) c (q :: r) ∧ q.kind = .punct .question ∧
        (parseConditional stop r = .error err ∨
          ∃ a r₁, Reads (parseConditional stop r) a r₁ ∧
            ((¬IsAt .colon r₁ ∧ err = unexpected stop (.punct .colon) r₁) ∨
              ∃ k r₂, r₁ = k :: r₂ ∧ k.kind = .punct .colon ∧
                parseConditional stop r₂ = .error err)) := by
  rw [parseConditional] at h
  rcases failure_bind h with h | ⟨c, r, hr, hc, h⟩
  · exact Or.inl h
  dsimp only at h
  rcases heat : eat .question r with _ | ⟨s, r₁, h₁⟩
  · rw [heat] at h
    cases h
  rw [heat] at h
  obtain ⟨q, rfl, hq, rfl⟩ := eat_eq_some_iff.mp heat
  refine Or.inr ⟨c, q, r₁, ⟨hr, hc⟩, hq, ?_⟩
  rcases failure_bind h with h | ⟨a, r₂, h₂, ha, h⟩
  · exact Or.inl h
  refine Or.inr ⟨a, r₂, ⟨h₂, ha⟩, ?_⟩
  rcases failure_bind h with h | ⟨s, r₃, h₃, hcolon, h⟩
  · exact Or.inl (expect_eq_error_iff.mp h)
  obtain ⟨k, rfl, hk, rfl⟩ := reads_expect_iff.mp ⟨h₃, hcolon⟩
  rcases failure_bind h with h | ⟨b, r₄, h₄, hb, h⟩
  · exact Or.inr ⟨k, r₃, rfl, hk, h⟩
  · cases h

theorem failure_level {l : Level} (h : parseLevel stop l ts = .error err) :
    parseOperand stop l ts = .error err ∨
      ∃ a r, Reads (parseOperand stop l ts) a r ∧ parseOperators stop l a r = .error err := by
  rw [parseLevel] at h
  rcases failure_bind h with h | ⟨a, r, hr, ha, h⟩
  · exact Or.inl h
  rcases failure_bind h with h | ⟨b, r', hr', hb, h⟩
  · exact Or.inr ⟨a, r, ⟨hr, ha⟩, h⟩
  · cases h

theorem failure_operators {l : Level} {a : Expr} (h : parseOperators stop l a ts = .error err) :
    ∃ t r op, ts = t :: r ∧ l.operator? t.kind = some op ∧
      (parseOperand stop l r = .error err ∨
        ∃ b r₁, Reads (parseOperand stop l r) b r₁ ∧
          parseOperators stop l (op.apply a b) r₁ = .error err) := by
  rcases ts with _ | ⟨t, r⟩
  · rw [parseOperators] at h
    cases h
  simp only [parseOperators] at h
  rcases hop : l.operator? t.kind with _ | op
  · rw [hop] at h
    cases h
  rw [hop] at h
  refine ⟨t, r, op, rfl, hop, ?_⟩
  rcases failure_bind h with h | ⟨b, r₁, h₁, hb, h⟩
  · exact Or.inl h
  rcases failure_bind h with h | ⟨c, r₂, h₂, hc, h⟩
  · exact Or.inr ⟨b, r₁, ⟨h₁, hb⟩, h⟩
  · cases h

theorem failure_unary (h : parseUnary stop ts = .error err) :
    ((∀ t ∈ ts.head?, prefixOperator? t.kind = none) ∧ parsePostfix stop ts = .error err) ∨
      ∃ t r op, ts = t :: r ∧ prefixOperator? t.kind = some op ∧
        parseUnary stop r = .error err := by
  rcases ts with _ | ⟨t, r⟩
  · rw [parseUnary] at h
    exact Or.inl ⟨by simp, h⟩
  rw [parseUnary] at h
  rcases hop : prefixOperator? t.kind with _ | op
  · rw [hop] at h
    exact Or.inl ⟨by simpa using hop, h⟩
  rw [hop] at h
  rcases failure_bind h with h | ⟨a, r₁, h₁, ha, h⟩
  · exact Or.inr ⟨t, r, op, rfl, hop, h⟩
  · cases h

theorem failure_postfix (h : parsePostfix stop ts = .error err) :
    parsePrimary stop ts = .error err ∨
      ∃ a last r, Reads (parsePrimary stop ts) (a, last) r ∧
        parseApplied stop (ts.head?.elim ⟨stop, stop⟩ (·.span)) a last r = .error err := by
  rw [parsePostfix] at h
  rcases failure_bind h with h | ⟨⟨a, last⟩, r, hr, ha, h⟩
  · exact Or.inl h
  rcases failure_bind h with h | ⟨b, r', hr', hb, h⟩
  · exact Or.inr ⟨a, last, r, ⟨hr, ha⟩, h⟩
  · cases h

theorem failure_applied {first last : Span} {a : Expr}
    (h : parseApplied stop first a last ts = .error err) :
    (∃ d r, ts = d :: r ∧ d.kind = .punct .dot ∧
      (((∀ t ∈ r.head?, ∀ property, t.kind ≠ .name property) ∧
          err = unexpected stop .propertyName r) ∨
        ∃ t property r₁, r = t :: r₁ ∧ t.kind = .name property ∧
          parseApplied stop first (.member a property) t.span r₁ = .error err)) ∨
    (∃ o r, ts = o :: r ∧ o.kind = .punct .leftBracket ∧
      (parseConditional stop r = .error err ∨
        ∃ k r₁, Reads (parseConditional stop r) k r₁ ∧
          ((¬IsAt .rightBracket r₁ ∧ err = unexpected stop (.punct .rightBracket) r₁) ∨
            ∃ c r₂, r₁ = c :: r₂ ∧ c.kind = .punct .rightBracket ∧
              parseApplied stop first (.index a k) c.span r₂ = .error err))) ∨
    ∃ o r, ts = o :: r ∧ o.kind = .punct .leftParen ∧
      (parseItems stop .rightParen r = .error err ∨
        ∃ es close r₁, Reads (parseItems stop .rightParen r) (es, close) r₁ ∧
          parseApplied stop first (.call a es (first.cover last)) close r₁ = .error err) := by
  rcases ts with _ | ⟨t, r⟩
  · rw [parseApplied] at h
    cases h
  unfold parseApplied at h
  split at h
  · rename_i hdot
    refine Or.inl ⟨t, r, rfl, hdot, ?_⟩
    split at h
    · rename_i property span r₁
      rcases failure_bind h with h | ⟨b, r₂, h₂, hb, h⟩
      · exact Or.inr ⟨_, property, r₁, rfl, rfl, h⟩
      · cases h
    · rename_i hno
      refine Or.inl ⟨?_, (Except.error.inj h).symm⟩
      rintro ⟨_, span⟩ ht property rfl
      obtain ⟨r₁, rfl⟩ := List.head?_eq_some_iff.mp ht
      exact hno property span r₁ rfl
  · rename_i hopen
    refine Or.inr (Or.inl ⟨t, r, rfl, hopen, ?_⟩)
    rcases failure_bind h with h | ⟨k, r₁, h₁, hk, h⟩
    · exact Or.inl h
    refine Or.inr ⟨k, r₁, ⟨h₁, hk⟩, ?_⟩
    -- the key is read; what fails is the bracket behind it, or what is applied behind that
    rcases failure_bind h with h | ⟨s, r₂, h₂, hclose, h⟩
    · exact Or.inl (expect_eq_error_iff.mp h)
    obtain ⟨c, rfl, hc, rfl⟩ := reads_expect_iff.mp ⟨h₂, hclose⟩
    rcases failure_bind h with h | ⟨b, r₃, h₃, hb, h⟩
    · exact Or.inr ⟨c, r₂, rfl, hc, h⟩
    · cases h
  · rename_i hopen
    refine Or.inr (Or.inr ⟨t, r, rfl, hopen, ?_⟩)
    rcases failure_bind h with h | ⟨⟨es, close⟩, r₁, h₁, hes, h⟩
    · exact Or.inl h
    rcases failure_bind h with h | ⟨b, r₂, h₂, hb, h⟩
    · exact Or.inr ⟨es, close, r₁, ⟨h₁, hes⟩, h⟩
    · cases h
  · cases h

/-- A list that may end with a comma: how both kinds of lists fail. -/
theorem failure_list {close : Punct} {element : Except SyntaxError (Parsed α ts.length)}
    {more : (r : List Token) → Except SyntaxError (Parsed (List α × Span) r.length)}
    (h : (match eat close ts with
        | some ⟨span, r, hr⟩ => .ok ⟨([], span), r, hr⟩
        | none => do
          let ⟨item, r, hr⟩ ← element
          match eat .comma r with
          | some ⟨_, r₁, h₁⟩ =>
            let ⟨(items, last), r₂, h₂⟩ ← more r₁
            .ok ⟨(item :: items, last), r₂, Nat.lt_trans h₂ (Nat.lt_trans h₁ hr)⟩
          | none =>
            let ⟨span, r₁, h₁⟩ ← expect stop close r
            .ok ⟨([item], span), r₁, Nat.lt_trans h₁ hr⟩ :
        Except SyntaxError (Parsed (List α × Span) ts.length)) = .error err) :
    ¬IsAt close ts ∧
      (element = .error err ∨
        ∃ a r, Reads element a r ∧
          ((∃ c r₁, r = c :: r₁ ∧ c.kind = .punct .comma ∧ more r₁ = .error err) ∨
            (¬IsAt .comma r ∧ ¬IsAt close r ∧ err = unexpected stop (.punct close) r))) := by
  rcases heat : eat close ts with _ | ⟨s, r, hr⟩
  · refine ⟨eat_eq_none_iff.mp heat, ?_⟩
    rw [heat] at h
    rcases failure_bind h with h | ⟨a, r, hr, ha, h⟩
    · exact Or.inl h
    refine Or.inr ⟨a, r, ⟨hr, ha⟩, ?_⟩
    dsimp only at h
    rcases hcomma : eat .comma r with _ | ⟨s, r₁, h₁⟩
    · rw [hcomma] at h
      rcases failure_bind h with h | ⟨s, r₁, h₁, hclose, h⟩
      · exact Or.inr ⟨eat_eq_none_iff.mp hcomma, expect_eq_error_iff.mp h⟩
      · cases h
    · rw [hcomma] at h
      obtain ⟨c, rfl, hc, rfl⟩ := eat_eq_some_iff.mp hcomma
      rcases failure_bind h with h | ⟨⟨as, l⟩, r₂, h₂, has, h⟩
      · exact Or.inl ⟨c, r₁, rfl, hc, h⟩
      · cases h
  · rw [heat] at h
    cases h

theorem failure_items {close : Punct} (h : parseItems stop close ts = .error err) :
    ¬IsAt close ts ∧
      (parseConditional stop ts = .error err ∨
        ∃ a r, Reads (parseConditional stop ts) a r ∧
          ((∃ c r₁, r = c :: r₁ ∧ c.kind = .punct .comma ∧ parseItems stop close r₁ = .error err) ∨
            (¬IsAt .comma r ∧ ¬IsAt close r ∧ err = unexpected stop (.punct close) r))) := by
  rw [parseItems] at h
  exact failure_list h

theorem failure_members (h : parseMembers stop ts = .error err) :
    ¬IsAt .rightBrace ts ∧
      (parseMember stop ts = .error err ∨
        ∃ a r, Reads (parseMember stop ts) a r ∧
          ((∃ c r₁, r = c :: r₁ ∧ c.kind = .punct .comma ∧ parseMembers stop r₁ = .error err) ∨
            (¬IsAt .comma r ∧ ¬IsAt .rightBrace r ∧
              err = unexpected stop (.punct .rightBrace) r))) := by
  rw [parseMembers] at h
  exact failure_list h

theorem failure_member (h : parseMember stop ts = .error err) :
    ((∀ t ∈ ts.head?, objectKey? t.kind = none) ∧ err = unexpected stop .propertyName ts) ∨
      ∃ t r key isName, ts = t :: r ∧ objectKey? t.kind = some (key, isName) ∧
        ((∃ c r₁, r = c :: r₁ ∧ c.kind = .punct .colon ∧ parseConditional stop r₁ = .error err) ∨
          (isName = false ∧ ¬IsAt .colon r ∧ err = unexpected stop (.punct .colon) r)) := by
  rcases ts with _ | ⟨t, r⟩
  · rw [parseMember] at h
    exact Or.inl ⟨by simp, (Except.error.inj h).symm⟩
  simp only [parseMember] at h
  rcases hkey : objectKey? t.kind with _ | ⟨key, isName⟩
  · rw [hkey] at h
    exact Or.inl ⟨by simpa using hkey, (Except.error.inj h).symm⟩
  rw [hkey] at h
  dsimp only at h
  refine Or.inr ⟨t, r, key, isName, rfl, hkey, ?_⟩
  rcases heat : eat .colon r with _ | ⟨s, r₁, h₁⟩
  · rw [heat] at h
    dsimp only at h
    split_ifs at h with hname
    exact Or.inr ⟨Bool.eq_false_iff.mpr hname, eat_eq_none_iff.mp heat, (Except.error.inj h).symm⟩
  · rw [heat] at h
    obtain ⟨c, rfl, hc, rfl⟩ := eat_eq_some_iff.mp heat
    rcases failure_bind h with h | ⟨a, r₂, h₂, ha, h⟩
    · exact Or.inl ⟨c, r₁, rfl, hc, h⟩
    · cases h

theorem failure_primary (h : parsePrimary stop ts = .error err) :
    (err = unexpected stop .expression ts ∧ ∀ t ∈ ts.head?, ∀ r',
        parsePrimary stop (t :: r') = .error (unexpected stop .expression (t :: r'))) ∨
    (∃ o r, ts = o :: r ∧ o.kind = .punct .leftParen ∧
      (parseConditional stop r = .error err ∨
        ∃ a r₁, Reads (parseConditional stop r) a r₁ ∧ ¬IsAt .rightParen r₁ ∧
          err = unexpected stop (.punct .rightParen) r₁)) ∨
    (∃ o r, ts = o :: r ∧ o.kind = .punct .leftBracket ∧
      parseItems stop .rightBracket r = .error err) ∨
    ∃ o r, ts = o :: r ∧ o.kind = .punct .leftBrace ∧ parseMembers stop r = .error err := by
  rcases ts with _ | ⟨t, r⟩
  · rw [parsePrimary] at h
    exact Or.inl ⟨(Except.error.inj h).symm, by simp⟩
  have hhere (hfails : ∀ r', parsePrimary stop (t :: r') =
      .error (unexpected stop .expression (t :: r'))) :
      err = unexpected stop .expression (t :: r) ∧ ∀ u ∈ (t :: r).head?, ∀ r',
        parsePrimary stop (u :: r') = .error (unexpected stop .expression (u :: r')) := by
    rw [hfails r] at h
    refine ⟨(Except.error.inj h).symm, ?_⟩
    intro u hu
    cases hu
    exact hfails
  obtain ⟨kind, span⟩ := t
  rcases kind with x | s | text | p
  · rw [parsePrimary] at h
    cases h
  · rw [parsePrimary] at h
    cases h
  · rcases hname : ofName text span with _ | e
    · exact Or.inl (hhere fun r' ↦ by simp only [parsePrimary, hname])
    · simp only [parsePrimary, hname] at h
      cases h
  · by_cases hparen : p = .leftParen
    · subst hparen
      refine Or.inr (Or.inl ⟨_, r, rfl, rfl, ?_⟩)
      rw [parsePrimary] at h
      rcases failure_bind h with h | ⟨a, r₁, h₁, ha, h⟩
      · exact Or.inl h
      rcases failure_bind h with h | ⟨s, r₂, h₂, hclose, h⟩
      · exact Or.inr ⟨a, r₁, ⟨h₁, ha⟩, expect_eq_error_iff.mp h⟩
      · cases h
    by_cases hbracket : p = .leftBracket
    · subst hbracket
      rw [parsePrimary] at h
      rcases failure_bind h with h | ⟨⟨es, last⟩, r₁, h₁, hes, h⟩
      · exact Or.inr (Or.inr (Or.inl ⟨_, r, rfl, rfl, h⟩))
      · cases h
    by_cases hbrace : p = .leftBrace
    · subst hbrace
      rw [parsePrimary] at h
      rcases failure_bind h with h | ⟨⟨ms, last⟩, r₁, h₁, hms, h⟩
      · exact Or.inr (Or.inr (Or.inr ⟨_, r, rfl, rfl, h⟩))
      · cases h
    · refine Or.inl (hhere fun r' ↦ ?_)
      cases p <;> first | contradiction | rw [parsePrimary]

end HtmlTemplate.Expr
