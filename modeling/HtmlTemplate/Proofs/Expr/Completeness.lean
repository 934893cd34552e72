import HtmlTemplate.Proofs.Expr.Soundness

/-!
# Every phrase is read

A phrase of the grammar is read back by the function of its category, whatever follows, as long as
what follows does not continue the phrase (`Category.EndsBefore`). The left-recursive categories say
it in another form: where their function comes to the end of the phrase, it goes on from there as
from a left operand. So the grammar is unambiguous, and the parser decides it
(`ofTokens_eq_ok_iff`).

## Left operands

A function for a level of infix operators reads one operand and then goes on with operators as long
as there are any. So what it makes of a phrase cannot be said of the phrase alone: behind it an
operator may stand, with which the phrase is a left operand. `ParsesAs` therefore says for a level
that reading the phrase and what follows is going on behind the phrase with its tree as the left
operand, and from this the reading of a phrase with nothing behind it that continues it follows
(`ParsesAs.level`). The same holds of what is applied to a primary expression.
-/

namespace HtmlTemplate.Expr

/-! ## What continues a phrase

A token continues a phrase of a category if the function of the category would not stop in front of
it. What closes or separates continues none, and an operator of a level none of the tighter ones. -/

def Token.Kind.level? (k : Token.Kind) : Option Level :=
  [Level.or, .and, .equality, .relational, .additive, .multiplicative].find? fun l ↦
    (l.operator? k).isSome

def Category.Continues : Category → Token.Kind → Prop
  | .conditional, k => k.isApplying = true ∨ k.level? ≠ none ∨ k = .punct .question
  | .level l, k => k.isApplying = true ∨ ∃ m, k.level? = some m ∧ m.height ≤ l.height
  | .unary, k | .applied, k => k.isApplying = true
  | _, _ => False

/-- Do the tokens not continue a phrase of the category? -/
def Category.EndsBefore (c : Category) (rest : List Token) : Prop :=
  ∀ t ∈ rest.head?, ¬c.Continues t.kind

theorem Category.endsBefore_nil (c : Category) : c.EndsBefore [] := by
  intro t ht
  cases ht

theorem level?_of_operator? {l : Level} {k : Token.Kind} {op : Operator}
    (h : l.operator? k = some op) : k.level? = some l ∧ k.isApplying = false := by
  unfold Level.operator? at h
  split at h <;> first
    | exact ⟨rfl, rfl⟩
    | cases h
    | skip
  split_ifs at h with hin
  subst hin
  exact ⟨rfl, rfl⟩

private theorem operator?_of_level? {l : Level} {k : Token.Kind} (h : k.level? ≠ some l) :
    l.operator? k = none := by
  rcases hop : l.operator? k with _ | op
  · rfl
  · exact absurd (level?_of_operator? hop).1 h

theorem endsBefore_operand {l : Level} {t : Token} {op : Operator} (r : List Token)
    (h : l.operator? t.kind = some op) : l.operand.EndsBefore (t :: r) := by
  obtain ⟨hlevel, happly⟩ := level?_of_operator? h
  intro u hu
  cases hu
  rw [Level.operand]
  rcases hm : l.tighter with _ | m
  · rw [Category.Continues, happly]
    exact Bool.false_ne_true
  · rintro (hc | ⟨n, hn, hle⟩)
    · rw [happly] at hc
      cases hc
    · rw [hlevel] at hn
      cases hn
      have := Level.height_of_tighter hm
      omega

theorem Category.EndsBefore.operand {l : Level} {rest : List Token}
    (h : (Category.level l).EndsBefore rest) : l.operand.EndsBefore rest := by
  intro t ht
  rw [Level.operand]
  rcases hm : l.tighter with _ | m
  · exact fun hc ↦ h t ht (Or.inl hc)
  · rintro (hc | ⟨n, hn, hle⟩)
    · exact h t ht (Or.inl hc)
    · have := Level.height_of_tighter hm
      exact h t ht (Or.inr ⟨n, hn, by omega⟩)

theorem Category.EndsBefore.operator? {l : Level} {rest : List Token}
    (h : (Category.level l).EndsBefore rest) : ∀ t ∈ rest.head?, l.operator? t.kind = none :=
  fun t ht ↦ operator?_of_level? fun hl ↦ h t ht (Or.inr ⟨l, hl, Nat.le_refl _⟩)

theorem Category.EndsBefore.applying {rest : List Token} (h : Category.unary.EndsBefore rest) :
    ∀ t ∈ rest.head?, t.kind.isApplying = false :=
  fun t ht ↦ Bool.eq_false_iff.mpr (h t ht)

theorem Category.EndsBefore.test {rest : List Token} (h : Category.conditional.EndsBefore rest) :
    (Category.level .or).EndsBefore rest ∧ ¬IsAt .question rest := by
  constructor
  · rintro t ht (hc | ⟨m, hm, -⟩)
    · exact h t ht (Or.inl hc)
    · refine h t ht (Or.inr (Or.inl ?_))
      rw [hm]
      exact Option.some_ne_none m
  · rintro ⟨t, r, rfl, ht⟩
    exact h t rfl (Or.inr (Or.inr ht))

theorem endsBefore_question {q : Token} (r : List Token) (h : q.kind = .punct .question) :
    (Category.level .or).EndsBefore (q :: r) := by
  intro t ht
  cases ht
  rw [h]
  rintro (hc | ⟨m, hm, -⟩)
  · cases hc
  · cases hm

/-- A mark that closes or separates ends every expression before it, and so does a colon. -/
theorem endsBefore_closing {k : Token} (r : List Token)
    (h : k.kind.isClosing = true ∨ k.kind = .punct .colon) :
    Category.conditional.EndsBefore (k :: r) := by
  intro t ht
  cases ht
  rcases h with h | h
  · unfold Token.Kind.isClosing at h
    split at h <;> first
      | (rename_i hk; rw [hk]; rintro (hc | hc | hc) <;> first | cases hc | exact hc rfl)
      | cases h
  · rw [h]
    rintro (hc | hc | hc) <;> first | cases hc | exact hc rfl

theorem Derives.prefixOperator? {c : Category} {ts : List Token} {p : Phrase} (h : Derives c ts p)
    (hc : c = .primary ∨ c = .applied) (rest : List Token) :
    ∀ t ∈ (ts ++ rest).head?, Expr.prefixOperator? t.kind = none := by
  have hgrow {ts us : List Token} (hne : ts ≠ [])
      (h : ∀ t ∈ (ts ++ rest).head?, Expr.prefixOperator? t.kind = none) :
      ∀ t ∈ ((ts ++ us) ++ rest).head?, Expr.prefixOperator? t.kind = none := by
    obtain ⟨t, r, rfl⟩ := List.exists_cons_of_ne_nil hne
    exact h
  induction h with
  | primary _ ih => exact ih (Or.inl rfl)
  | member h _ _ ih => exact hgrow (h.ne_nil rfl) (ih (Or.inr rfl))
  | index h _ _ _ ih => exact hgrow (h.ne_nil rfl) (ih (Or.inr rfl))
  | call h _ _ _ ih => exact hgrow (h.ne_nil rfl) (ih (Or.inr rfl))
  | number ht | string ht | group ht | array ht | object ht =>
    intro u hu
    cases hu
    rw [ht]
    rfl
  | @name t text e ht he =>
    intro u hu
    cases hu
    rw [ht, Expr.prefixOperator?, if_neg]
    rintro rfl
    cases he
  | _ => rcases hc with hc | hc <;> cases hc

/-! ## Reading a phrase -/

/-- What the function of the category makes of a phrase, with anything behind it that does not
continue it. A phrase of a level or with something applied to it may be a left operand of what
follows. -/
def ParsesAs (stop : Nat) (ts : List Token) : Category → Phrase → Prop
  | .conditional, .expr e => ∀ rest, Category.conditional.EndsBefore rest →
      Reads (parseConditional stop (ts ++ rest)) e rest
  | .level l, .expr a => ∀ rest e rest', l.operand.EndsBefore rest →
      Reads (parseOperators stop l a rest) e rest' →
      Reads (parseLevel stop l (ts ++ rest)) e rest'
  | .unary, .expr e => ∀ rest, Category.unary.EndsBefore rest →
      Reads (parseUnary stop (ts ++ rest)) e rest
  | .applied, .expr a => ∀ rest e rest',
      Reads (parseApplied stop (firstSpan ts) a (lastSpan ts) rest) e rest' →
      Reads (parsePostfix stop (ts ++ rest)) e rest'
  | .primary, .expr e => ∀ rest, Reads (parsePrimary stop (ts ++ rest)) (e, lastSpan ts) rest
  | .items, .items es => ∀ close k rest, k.kind = .punct close → k.kind.isClosing = true →
      close ≠ .comma → Reads (parseItems stop close (ts ++ k :: rest)) (es, k.span) rest
  | .members, .members ms => ∀ k rest, k.kind = .punct .rightBrace →
      Reads (parseMembers stop (ts ++ k :: rest)) (ms, k.span) rest
  | .member, .member m => ∀ rest, Category.conditional.EndsBefore rest → ¬IsAt .colon rest →
      Reads (parseMember stop (ts ++ rest)) m rest
  | _, _ => True

variable {stop : Nat} {ts : List Token}

theorem ParsesAs.level {l : Level} {e : Expr} {rest : List Token}
    (h : ParsesAs stop ts (.level l) (.expr e)) (hrest : (Category.level l).EndsBefore rest) :
    Reads (parseLevel stop l (ts ++ rest)) e rest :=
  h rest e rest hrest.operand (reads_operators_iff.mpr (Or.inl ⟨hrest.operator?, rfl, rfl⟩))

theorem ParsesAs.operand {l : Level} {e : Expr} {rest : List Token}
    (h : ParsesAs stop ts l.operand (.expr e)) (hrest : l.operand.EndsBefore rest) :
    Reads (parseOperand stop l (ts ++ rest)) e rest := by
  rw [Level.operand] at h hrest
  rcases hm : l.tighter with _ | m
  · rw [hm] at h hrest
    rw [parseOperand_of_tightest hm]
    exact h rest hrest
  · rw [hm] at h hrest
    rw [parseOperand_of_tighter hm]
    exact h.level hrest

private theorem not_isAt_of_isClosing {p : Punct} {t : Token} {r : List Token}
    (ht : t.kind.isClosing = false) (hp : (Token.Kind.punct p).isClosing = true) :
    ¬IsAt p (t :: r) := by
  rintro ⟨u, s, heq, hu⟩
  cases heq
  rw [hu, hp] at ht
  cases ht

private theorem not_isAt_of_ne {p q : Punct} {t : Token} {r : List Token} (ht : t.kind = .punct q)
    (hne : p ≠ q) : ¬IsAt p (t :: r) := by
  rintro ⟨u, s, heq, hu⟩
  cases heq
  rw [ht] at hu
  cases hu
  exact hne rfl

/-- **Every phrase is read by the function of its category**, as what it stands for. -/
theorem Derives.parsesAs {c : Category} {p : Phrase} (h : Derives c ts p) :
    ParsesAs stop ts c p := by
  induction h with
  | test _ ih =>
    intro rest hrest
    obtain ⟨htest, hno⟩ := hrest.test
    exact reads_conditional_iff.mpr ⟨_, rest, ih.level htest, Or.inl ⟨hno, rfl, rfl⟩⟩
  | conditional _ hq _ hk _ ihtest ihthen ihelse =>
    intro rest hrest
    rw [List.append_assoc, List.cons_append, List.append_assoc, List.cons_append]
    -- the test ends at the question mark, and the first branch at the colon
    refine reads_conditional_iff.mpr ⟨_, _, ihtest.level (endsBefore_question _ hq), Or.inr
      ⟨_, _, _, _, _, _, rfl, hq, ihthen _ (endsBefore_closing _ (Or.inr hk)), hk,
        ihelse rest hrest, rfl⟩⟩
  | operand _ ih =>
    intro rest e rest' hrest hmore
    exact reads_level_iff.mpr ⟨_, rest, ih.operand hrest, hmore⟩
  | operation _ hop _ ihleft ihright =>
    intro rest e rest' hrest hmore
    rw [List.append_assoc, List.cons_append]
    -- the left operand is read with this operator and what follows it still to come
    refine ihleft _ e rest' (endsBefore_operand _ hop) ?_
    exact reads_operators_iff.mpr (Or.inr ⟨_, _, _, _, _, rfl, hop, ihright.operand hrest, hmore⟩)
  | unprefixed h ih =>
    intro rest hrest
    refine reads_unary_iff.mpr (Or.inl ⟨h.prefixOperator? (Or.inr rfl) rest, ih rest _ rest ?_⟩)
    exact reads_applied_iff.mpr (Or.inl ⟨hrest.applying, rfl, rfl⟩)
  | prefixed hop _ ih =>
    intro rest hrest
    exact reads_unary_iff.mpr (Or.inr ⟨_, _, _, _, rfl, hop, ih rest hrest, rfl⟩)
  | primary h ih =>
    intro rest e rest' hmore
    refine reads_postfix_iff.mpr ⟨_, _, rest, ih rest, ?_⟩
    obtain ⟨t, r, rfl⟩ := List.exists_cons_of_ne_nil (h.ne_nil rfl)
    exact hmore
  | member h hd hn ih =>
    intro rest e rest' hmore
    rw [List.append_assoc]
    refine ih _ e rest' (reads_applied_iff.mpr (Or.inr (Or.inl ⟨_, _, _, _, rfl, hd, hn, ?_⟩)))
    rwa [firstSpan_append (h.ne_nil rfl), lastSpan_append _ (List.cons_ne_nil _ _)] at hmore
  | index h ho _ hc ih ihkey =>
    intro rest e rest' hmore
    rw [List.append_assoc, List.cons_append, List.append_assoc, List.singleton_append]
    refine ih _ e rest' (reads_applied_iff.mpr (Or.inr (Or.inr (Or.inl
      ⟨_, _, _, _, _, rfl, ho, ihkey _ (endsBefore_closing _ (Or.inl (by rw [hc]; rfl))),
        hc, ?_⟩))))
    rwa [firstSpan_append (h.ne_nil rfl), lastSpan_append _ (List.cons_ne_nil _ _),
      lastSpan_cons_concat]
      at hmore
  | call h ho _ hc ih ihitems =>
    intro rest e rest' hmore
    rw [List.append_assoc, List.cons_append, List.append_assoc, List.singleton_append]
    refine ih _ e rest' (reads_applied_iff.mpr (Or.inr (Or.inr (Or.inr
      ⟨_, _, _, _, _, rfl, ho, ihitems _ _ _ hc (by rw [hc]; rfl) (by decide), ?_⟩))))
    rwa [firstSpan_append (h.ne_nil rfl), lastSpan_append _ (List.cons_ne_nil _ _),
      lastSpan_cons_concat]
      at hmore
  | number ht => exact fun rest ↦ reads_primary_iff.mpr (Or.inl ⟨_, rfl, rfl, Or.inl ⟨_, ht, rfl⟩⟩)
  | string ht =>
    exact fun rest ↦ reads_primary_iff.mpr (Or.inl ⟨_, rfl, rfl, Or.inr (Or.inl ⟨_, ht, rfl⟩)⟩)
  | name ht he =>
    exact fun rest ↦ reads_primary_iff.mpr (Or.inl ⟨_, rfl, rfl, Or.inr (Or.inr ⟨_, ht, he⟩)⟩)
  | group ho _ hc ih =>
    intro rest
    rw [lastSpan_cons_concat, List.cons_append, List.append_assoc, List.singleton_append]
    exact reads_primary_iff.mpr (Or.inr (Or.inl
      ⟨_, _, _, rfl, ho, ih _ (endsBefore_closing _ (Or.inl (by rw [hc]; rfl))), hc, rfl⟩))
  | array ho _ hc ih =>
    intro rest
    rw [lastSpan_cons_concat, List.cons_append, List.append_assoc, List.singleton_append]
    exact reads_primary_iff.mpr (Or.inr (Or.inr (Or.inl
      ⟨_, _, _, rfl, ho, ih _ _ _ hc (by rw [hc]; rfl) (by decide), rfl⟩)))
  | object ho _ hc ih =>
    intro rest
    rw [lastSpan_cons_concat, List.cons_append, List.append_assoc, List.singleton_append]
    exact reads_primary_iff.mpr (Or.inr (Or.inr (Or.inr ⟨_, _, _, rfl, ho, ih _ _ hc, rfl⟩)))
  | noItems =>
    intro close k rest hk _ _
    exact reads_items_iff.mpr (Or.inl ⟨k, rfl, hk, rfl, rfl⟩)
  | lastItem h ih =>
    intro close k rest hk hclosing hcomma
    obtain ⟨t, r, rfl, ht⟩ := h.exists_cons rfl
    -- an item begins with no closing mark, so the list does not end in front of it
    exact reads_items_iff.mpr (Or.inr ⟨not_isAt_of_isClosing ht (by rwa [hk] at hclosing), _, _,
      ih _ (endsBefore_closing _ (Or.inl hclosing)), Or.inr
        ⟨not_isAt_of_ne hk (Ne.symm hcomma), k, rfl, hk, rfl, rfl⟩⟩)
  | item h hc _ ih ihmore =>
    intro close k rest hk hclosing hcomma
    obtain ⟨t, r, rfl, ht⟩ := h.exists_cons rfl
    rw [List.append_assoc, List.cons_append]
    exact reads_items_iff.mpr (Or.inr ⟨not_isAt_of_isClosing ht (by rwa [hk] at hclosing), _, _,
      ih _ (endsBefore_closing _ (Or.inl (by rw [hc]; rfl))), Or.inl
        ⟨_, _, _, rfl, hc, ihmore close k rest hk hclosing hcomma, rfl⟩⟩)
  | noMembers =>
    intro k rest hk
    exact reads_members_iff.mpr (Or.inl ⟨k, rfl, hk, rfl, rfl⟩)
  | lastMember h ih =>
    intro k rest hk
    obtain ⟨t, r, rfl, ht⟩ := h.exists_cons rfl
    exact reads_members_iff.mpr (Or.inr ⟨not_isAt_of_isClosing ht rfl, _, _,
      ih _ (endsBefore_closing _ (Or.inl (by rw [hk]; rfl))) (not_isAt_of_ne hk (by decide)), Or.inr
        ⟨not_isAt_of_ne hk (by decide), k, rfl, hk, rfl, rfl⟩⟩)
  | moreMembers h hc _ ih ihmore =>
    intro k rest hk
    obtain ⟨t, r, rfl, ht⟩ := h.exists_cons rfl
    rw [List.append_assoc, List.cons_append]
    exact reads_members_iff.mpr (Or.inr ⟨not_isAt_of_isClosing ht rfl, _, _,
      ih _ (endsBefore_closing _ (Or.inl (by rw [hc]; rfl))) (not_isAt_of_ne hc (by decide)), Or.inl
        ⟨_, _, _, rfl, hc, ihmore k rest hk, rfl⟩⟩)
  | pair hkey hc _ ih =>
    intro rest hrest _
    exact reads_member_iff.mpr (Or.inl ⟨_, _, _, _, _, _, rfl, hkey, hc, ih rest hrest, rfl⟩)
  | shorthand hkey =>
    intro rest _ hno
    exact reads_member_iff.mpr (Or.inr ⟨_, _, rfl, hkey, hno, rfl⟩)

/-! ## The parser decides the grammar -/

/-- **The parser accepts exactly the expressions of the grammar**, with the trees of their
derivations. -/
theorem ofTokens_eq_ok_iff {lexed : Lexed} {e : Expr} :
    ofTokens lexed = .ok e ↔ Derives .conditional lexed.tokens (.expr e) := by
  refine ⟨derives_of_ofTokens, fun h ↦ ?_⟩
  have hparses : ParsesAs lexed.stop lexed.tokens .conditional (.expr e) := h.parsesAs
  have hread := hparses [] (Category.endsBefore_nil _)
  rw [List.append_nil] at hread
  obtain ⟨hlt, heq⟩ := hread
  rw [ofTokens, heq]
  rfl

theorem parse_eq_ok_iff_exists {source : String} {e : Expr} : parse source = .ok e ↔
    ∃ lexed, tokenize source = .ok lexed ∧ Derives .conditional lexed.tokens (.expr e) := by
  rw [parse, bind_eq_ok_iff]
  simp only [ofTokens_eq_ok_iff]

end HtmlTemplate.Expr
