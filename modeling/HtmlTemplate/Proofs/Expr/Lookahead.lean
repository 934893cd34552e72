import HtmlTemplate.Proofs.Expr.Completeness

/-!
# How far the parser looks ahead

The functions of the parser take as much as they can: what they leave does not continue what they
have read. With completeness this says how far they look. What a function reads is decided by the
tokens that it takes and by the one behind them, so it reads the same when everything behind that
one is another (`ReadsBefore`).

## Two directions

Completeness says of a phrase that it is read in front of anything that does not continue it. Here
it is shown that nothing else can happen: in front of what does continue it, the function would have
gone on. So a function goes on as long as the next token continues what it has read, and where it
stops, that token is all it has looked at.
-/

namespace HtmlTemplate.Expr

variable {stop : Nat} {ts rest : List Token} {e : Expr}

/-! ## The parser takes as much as it can -/

theorem Level.eq_of_height_eq {l m : Level} (h : l.height = m.height) : l = m := by
  cases l <;> cases m <;> first | rfl | cases h

private theorem operator?_of_level?_eq {l : Level} {k : Token.Kind} (h : k.level? = some l) :
    l.operator? k ≠ none :=
  Option.isSome_iff_ne_none.mp
    (List.find?_some (p := fun l : Level ↦ (l.operator? k).isSome) h)

theorem Category.EndsBefore.level {l : Level} (hoperand : l.operand.EndsBefore rest)
    (hop : ∀ t ∈ rest.head?, l.operator? t.kind = none) : (Category.level l).EndsBefore rest := by
  intro t ht hc
  have happly : t.kind.isApplying ≠ true ∧
      ∀ m, t.kind.level? = some m → m.height < l.height → False := by
    have hno := hoperand t ht
    rw [Level.operand] at hno
    rcases htighter : l.tighter with _ | m
    · rw [htighter] at hno
      refine ⟨hno, fun m _ hlt ↦ ?_⟩
      have hl : l.height = 1 := by cases l <;> first | rfl | cases htighter
      have := m.height_pos
      omega
    · rw [htighter] at hno
      have := Level.height_of_tighter htighter
      exact ⟨fun h ↦ hno (Or.inl h), fun n hn hlt ↦ hno (Or.inr ⟨n, hn, by omega⟩)⟩
  rcases hc with hc | ⟨m, hm, hle⟩
  · exact happly.1 hc
  · rcases Nat.lt_or_eq_of_le hle with hlt | heq
    · exact happly.2 m hm hlt
    · cases Level.eq_of_height_eq heq
      exact operator?_of_level?_eq hm (hop t ht)

theorem Category.EndsBefore.conditional (htest : (Category.level .or).EndsBefore rest)
    (hno : ¬IsAt .question rest) : Category.conditional.EndsBefore rest := by
  rintro t ht (hc | hc | hc)
  · exact htest t ht (Or.inl hc)
  · obtain ⟨m, hm⟩ := Option.ne_none_iff_exists'.mp hc
    exact htest t ht (Or.inr ⟨m, hm, m.height_le⟩)
  · obtain ⟨r, rfl⟩ := List.head?_eq_some_iff.mp ht
    exact hno ⟨t, r, rfl, hc⟩

private theorem endsBefore_of_reads_applied {first last : Span} {a : Expr}
    (h : Reads (parseApplied stop first a last ts) e rest) : Category.unary.EndsBefore rest := by
  induction hn : ts.length using Nat.strong_induction_on generalizing ts a last with
  | _ n ih =>
    subst hn
    rcases reads_applied_iff.mp h with ⟨hno, -, rfl⟩ | ⟨d, p, property, r, rfl, -, -, hread⟩ |
      ⟨o, r, k, c, r₁, rfl, -, hk, -, hread⟩ | ⟨o, r, es, close, r₁, rfl, -, hes, hread⟩
    · exact fun t ht ↦ Bool.eq_false_iff.mp (hno t ht)
    · exact ih r.length (Nat.lt_add_right 1 (Nat.lt_succ_self _)) hread rfl
    · refine ih r₁.length ?_ hread rfl
      have := hk.length_lt
      simp only [List.length_cons] at this ⊢
      omega
    · refine ih r₁.length ?_ hread rfl
      have := hes.length_lt
      simp only [List.length_cons]
      omega

private theorem endsBefore_of_reads_unary (h : Reads (parseUnary stop ts) e rest) :
    Category.unary.EndsBefore rest := by
  induction ts generalizing e with
  | nil =>
    rcases reads_unary_iff.mp h with ⟨-, hread⟩ | ⟨_, _, _, _, heq, _⟩
    · obtain ⟨_, _, _, -, hmore⟩ := reads_postfix_iff.mp hread
      exact endsBefore_of_reads_applied hmore
    · cases heq
  | cons t ts ih =>
    rcases reads_unary_iff.mp h with ⟨-, hread⟩ | ⟨_, _, _, _, heq, -, hread, -⟩
    · obtain ⟨_, _, _, -, hmore⟩ := reads_postfix_iff.mp hread
      exact endsBefore_of_reads_applied hmore
    · cases heq
      exact ih hread

theorem endsBefore_of_reads_operators {l : Level} {a : Expr}
    (hoperand : ∀ {ts b rest}, Reads (parseOperand stop l ts) b rest → l.operand.EndsBefore rest)
    (hts : l.operand.EndsBefore ts) (h : Reads (parseOperators stop l a ts) e rest) :
    (Category.level l).EndsBefore rest := by
  induction hn : ts.length using Nat.strong_induction_on generalizing ts a with
  | _ n ih =>
    subst hn
    rcases reads_operators_iff.mp h with ⟨hno, -, rfl⟩ | ⟨t, r, op, b, r₁, rfl, -, hb, hread⟩
    · exact hts.level hno
    · refine ih r₁.length ?_ (hoperand hb) hread rfl
      have := hb.length_lt
      simp only [List.length_cons]
      omega

theorem endsBefore_of_reads_operand (l : Level) {ts : List Token} {e : Expr} {rest : List Token}
    (h : Reads (parseOperand stop l ts) e rest) : l.operand.EndsBefore rest := by
  rcases hl : l.tighter with _ | m
  · rw [parseOperand_of_tightest hl] at h
    rw [Level.operand, hl]
    exact endsBefore_of_reads_unary h
  · rw [parseOperand_of_tighter hl] at h
    rw [Level.operand_of_tighter hl]
    obtain ⟨a, r, ha, hmore⟩ := reads_level_iff.mp h
    exact endsBefore_of_reads_operators (endsBefore_of_reads_operand m)
      (endsBefore_of_reads_operand m ha) hmore
termination_by l.height
decreasing_by
  all_goals
    have := Level.height_of_tighter hl
    omega

theorem endsBefore_of_reads_level {l : Level} (h : Reads (parseLevel stop l ts) e rest) :
    (Category.level l).EndsBefore rest := by
  obtain ⟨a, r, ha, hmore⟩ := reads_level_iff.mp h
  exact endsBefore_of_reads_operators (endsBefore_of_reads_operand l)
    (endsBefore_of_reads_operand l ha) hmore

/-- **What the parser leaves does not continue the expression that it has read.** -/
theorem endsBefore_of_reads_conditional (h : Reads (parseConditional stop ts) e rest) :
    Category.conditional.EndsBefore rest := by
  induction hn : ts.length using Nat.strong_induction_on generalizing ts e with
  | _ n ih =>
    subst hn
    obtain ⟨c, r, hc, ⟨hno, -, rfl⟩ | ⟨q, r₁, a, k, r₂, b, rfl, -, ha, -, hb, -⟩⟩ :=
      reads_conditional_iff.mp h
    · exact (endsBefore_of_reads_level hc).conditional hno
    · refine ih r₂.length ?_ hb rfl
      have := hc.length_lt
      have := ha.length_lt
      simp only [List.length_cons] at *
      omega

/-! ## What follows the next token does not matter

A list or a primary phrase ends with a token of its own, so for these not even the next token
matters. -/

theorem Category.EndsBefore.of_head? {c : Category} {rest' : List Token} (h : c.EndsBefore rest)
    (hhead : rest'.head? = rest.head?) : c.EndsBefore rest' := by
  rw [Category.EndsBefore, hhead]
  exact h

theorem isAt_iff_of_head? {p : Punct} {rest' : List Token} (hhead : rest'.head? = rest.head?) :
    IsAt p rest' ↔ IsAt p rest := by
  have hiff (ts : List Token) : IsAt p ts ↔ ∃ t ∈ ts.head?, t.kind = .punct p := by
    rcases ts with _ | ⟨t, r⟩ <;> simp [IsAt]
  rw [hiff, hiff, hhead]

/-- The function reads `a` from a phrase in front of `rest`, and would with anything else behind the
first token of `rest`. -/
def ReadsBefore {α : Type} (f : (ts : List Token) → Except SyntaxError (Parsed α ts.length))
    (ts : List Token) (a : α) (c : Category) (p : Phrase) (rest : List Token) : Prop :=
  ∃ us, ts = us ++ rest ∧ Derives c us p ∧
    ∀ rest', rest'.head? = rest.head? → Reads (f (us ++ rest')) a rest'

theorem readsBefore_conditional (h : Reads (parseConditional stop ts) e rest) :
    ReadsBefore (parseConditional stop) ts e .conditional (.expr e) rest := by
  obtain ⟨us, rfl, hus⟩ := (parser_sound stop).1 ts e rest h
  have hparses : ParsesAs stop us .conditional (.expr e) := hus.parsesAs
  exact ⟨us, rfl, hus, fun rest' hhead ↦
    hparses rest' ((endsBefore_of_reads_conditional h).of_head? hhead)⟩

theorem readsBefore_level {l : Level} (h : Reads (parseLevel stop l ts) e rest) :
    ReadsBefore (parseLevel stop l) ts e (.level l) (.expr e) rest := by
  obtain ⟨us, rfl, hus⟩ := (parser_sound stop).2.1 l ts e rest h
  have hparses : ParsesAs stop us (.level l) (.expr e) := hus.parsesAs
  exact ⟨us, rfl, hus, fun rest' hhead ↦
    hparses.level ((endsBefore_of_reads_level h).of_head? hhead)⟩

theorem readsBefore_operand {l : Level} (h : Reads (parseOperand stop l ts) e rest) :
    ReadsBefore (parseOperand stop l) ts e l.operand (.expr e) rest := by
  obtain ⟨us, rfl, hus⟩ := (parser_sound stop).2.2.2.1 l ts e rest h
  have hparses : ParsesAs stop us l.operand (.expr e) := hus.parsesAs
  exact ⟨us, rfl, hus, fun rest' hhead ↦
    hparses.operand ((endsBefore_of_reads_operand l h).of_head? hhead)⟩

theorem readsBefore_primary {last : Span} (h : Reads (parsePrimary stop ts) (e, last) rest) :
    ReadsBefore (parsePrimary stop) ts (e, last) .primary (.expr e) rest := by
  obtain ⟨us, rfl, hus, rfl⟩ := (parser_sound stop).2.2.2.2.2.2.2.2.1 ts e last rest h
  have hparses : ParsesAs stop us .primary (.expr e) := hus.parsesAs
  exact ⟨us, rfl, hus, fun rest' _ ↦ hparses rest'⟩

theorem readsBefore_member {m : ObjectMember} (h : Reads (parseMember stop ts) m rest) :
    ReadsBefore (parseMember stop) ts m .member (.member m) rest := by
  rcases reads_member_iff.mp h with ⟨t, c, r, key, isName, a, rfl, hkey, hc, ha, rfl⟩ |
    ⟨t, key, rfl, hkey, hno, rfl⟩
  · obtain ⟨us, rfl, hus, hmore⟩ := readsBefore_conditional ha
    exact ⟨t :: c :: us, rfl, .pair hkey hc hus, fun rest' hhead ↦ reads_member_iff.mpr
      (Or.inl ⟨t, c, us ++ rest', key, isName, a, rfl, hkey, hc, hmore rest' hhead, rfl⟩)⟩
  · exact ⟨[t], rfl, .shorthand hkey, fun rest' hhead ↦ reads_member_iff.mpr
      (Or.inr ⟨t, key, rfl, hkey, fun hat ↦ hno ((isAt_iff_of_head? hhead).mp hat), rfl⟩)⟩

theorem exists_of_reads_items {close : Punct} {es : List Expr} {last : Span}
    (hclosing : (Token.Kind.punct close).isClosing = true) (hcomma : close ≠ .comma)
    (h : Reads (parseItems stop close ts) (es, last) rest) :
    ∃ us k, ts = us ++ k :: rest ∧ k.kind = .punct close ∧ Derives .items us (.items es) ∧
      ∀ rest', Reads (parseItems stop close (us ++ k :: rest')) (es, last) rest' := by
  obtain ⟨us, k, rfl, hk, rfl, hus⟩ := (parser_sound stop).2.2.2.2.2.2.2.1 close ts es last rest h
  have hparses : ParsesAs stop us .items (.items es) := hus.parsesAs
  exact ⟨us, k, rfl, hk, hus, fun rest' ↦ hparses close k rest' hk (by rwa [hk]) hcomma⟩

end HtmlTemplate.Expr
