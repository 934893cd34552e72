import HtmlTemplate.Proofs.Expr.Grammar
import HtmlTemplate.Proofs.Expr.Steps

/-!
# The parser reads phrases

What the parser reads in front of a list of tokens is a phrase of the grammar, and the tree is the
one that the phrase stands for. The functions that go on from a left operand extend any phrase that
stands for it. The induction is the recursion of the parser; `derives_of_ofTokens` is what it gives
for a whole source.

## The shape of the induction

For each function there is a predicate that says what it reads in front of a list of tokens, and a
lemma that proves it from the predicates of the functions that are called there, each for fewer
tokens or for a tighter category. So a change to one function is a change to its predicate and its
lemma. The induction itself (`parser_sound`) only puts the lemmas together.
-/

namespace HtmlTemplate.Expr

/-! ## What the functions read -/

/-- The tokens begin with a phrase of the category, and these tokens are behind it. -/
def BeginsWith (c : Category) (ts : List Token) (p : Phrase) (rest : List Token) : Prop :=
  ∃ us, ts = us ++ rest ∧ Derives c us p

/-- The tokens begin with a phrase and a closing mark with the span `last`. -/
def ClosesWith (c : Category) (close : Punct) (ts : List Token) (p : Phrase) (last : Span)
    (rest : List Token) : Prop :=
  ∃ us k, ts = us ++ k :: rest ∧ k.kind = .punct close ∧ last = k.span ∧ Derives c us p

section

variable (stop : Nat)

def ConditionalSound (ts : List Token) : Prop :=
  ∀ e rest, Reads (parseConditional stop ts) e rest → BeginsWith .conditional ts (.expr e) rest

def LevelSound (l : Level) (ts : List Token) : Prop :=
  ∀ e rest, Reads (parseLevel stop l ts) e rest → BeginsWith (.level l) ts (.expr e) rest

/-- Operators extend a left operand of their level. -/
def OperatorsSound (l : Level) (a : Expr) (ts : List Token) : Prop :=
  ∀ e rest, Reads (parseOperators stop l a ts) e rest → ∃ us, ts = us ++ rest ∧
    ∀ ws, Derives (.level l) ws (.expr a) → Derives (.level l) (ws ++ us) (.expr e)

def OperandSound (l : Level) (ts : List Token) : Prop :=
  ∀ e rest, Reads (parseOperand stop l ts) e rest → BeginsWith l.operand ts (.expr e) rest

def UnarySound (ts : List Token) : Prop :=
  ∀ e rest, Reads (parseUnary stop ts) e rest → BeginsWith .unary ts (.expr e) rest

def PostfixSound (ts : List Token) : Prop :=
  ∀ e rest, Reads (parsePostfix stop ts) e rest → BeginsWith .applied ts (.expr e) rest

/-- What is applied extends the phrase before it, if `first` and `last` are the spans of the outer
tokens of that. -/
def AppliedSound (first : Span) (a : Expr) (last : Span) (ts : List Token) : Prop :=
  ∀ e rest, Reads (parseApplied stop first a last ts) e rest → ∃ us, ts = us ++ rest ∧
    ∀ ws, Derives .applied ws (.expr a) → firstSpan ws = first → lastSpan ws = last →
      Derives .applied (ws ++ us) (.expr e)

def ItemsSound (close : Punct) (ts : List Token) : Prop :=
  ∀ es last rest, Reads (parseItems stop close ts) (es, last) rest →
    ClosesWith .items close ts (.items es) last rest

def PrimarySound (ts : List Token) : Prop :=
  ∀ e last rest, Reads (parsePrimary stop ts) (e, last) rest →
    ∃ us, ts = us ++ rest ∧ Derives .primary us (.expr e) ∧ last = lastSpan us

def MembersSound (ts : List Token) : Prop :=
  ∀ ms last rest, Reads (parseMembers stop ts) (ms, last) rest →
    ClosesWith .members .rightBrace ts (.members ms) last rest

def MemberSound (ts : List Token) : Prop :=
  ∀ m rest, Reads (parseMember stop ts) m rest → BeginsWith .member ts (.member m) rest

end

variable {stop : Nat} {ts : List Token}

/-! ## One function after another -/

theorem operatorsSound_of {l : Level} {a : Expr}
    (hmore : ∀ t ∈ ts.head?, ∀ op, l.operator? t.kind = some op → OperandSound stop l ts.tail ∧
      ∀ b r, Reads (parseOperand stop l ts.tail) b r → OperatorsSound stop l (op.apply a b) r) :
    OperatorsSound stop l a ts := by
  intro e rest h
  rcases reads_operators_iff.mp h with ⟨-, rfl, rfl⟩ | ⟨t, r, op, b, r₁, rfl, hop, hb, hread⟩
  · exact ⟨[], rfl, fun ws hws ↦ by rwa [List.append_nil]⟩
  · obtain ⟨hoperand, hbehind⟩ := hmore t rfl op hop
    obtain ⟨us, rfl, hus⟩ := hoperand b r₁ hb
    obtain ⟨vs, rfl, hvs⟩ := hbehind b r₁ hb e rest hread
    refine ⟨t :: (us ++ vs), by simp, fun ws hws ↦ ?_⟩
    have := hvs _ (.operation hws hop hus)
    rwa [List.append_assoc, List.cons_append] at this

theorem unarySound_of
    (happlied : (∀ t ∈ ts.head?, prefixOperator? t.kind = none) → PostfixSound stop ts)
    (hprefixed : ∀ t ∈ ts.head?, ∀ op, prefixOperator? t.kind = some op →
      UnarySound stop ts.tail) :
    UnarySound stop ts := by
  intro e rest h
  rcases reads_unary_iff.mp h with ⟨hno, hread⟩ | ⟨t, r, op, a, rfl, hop, ha, rfl⟩
  · obtain ⟨us, hts, hus⟩ := happlied hno e rest hread
    exact ⟨us, hts, .unprefixed hus⟩
  · obtain ⟨us, rfl, hus⟩ := hprefixed t rfl op hop a rest ha
    exact ⟨t :: us, rfl, .prefixed hop hus⟩

theorem appliedSound_of {first last : Span} {a : Expr}
    (hmember : ∀ d ∈ ts.head?, d.kind = .punct .dot → ∀ n property r, ts.tail = n :: r →
      n.kind = .name property → AppliedSound stop first (.member a property) n.span r)
    (hindex : ∀ o ∈ ts.head?, o.kind = .punct .leftBracket → ConditionalSound stop ts.tail ∧
      ∀ k c r, Reads (parseConditional stop ts.tail) k (c :: r) →
        AppliedSound stop first (.index a k) c.span r)
    (hcall : ∀ o ∈ ts.head?, o.kind = .punct .leftParen → ItemsSound stop .rightParen ts.tail ∧
      ∀ es close r, Reads (parseItems stop .rightParen ts.tail) (es, close) r →
        AppliedSound stop first (.call a es (first.cover last)) close r) :
    AppliedSound stop first a last ts := by
  intro e rest h
  rcases reads_applied_iff.mp h with ⟨-, rfl, rfl⟩ | ⟨d, n, property, r, rfl, hd, hn, hread⟩ |
    ⟨o, r, k, c, r₁, rfl, ho, hk, hc, hread⟩ | ⟨o, r, es, close, r₁, rfl, ho, hes, hread⟩
  · exact ⟨[], rfl, fun ws hws _ _ ↦ by rwa [List.append_nil]⟩
  · obtain ⟨us, rfl, hus⟩ := hmember d rfl hd n property r rfl hn e rest hread
    refine ⟨d :: n :: us, rfl, fun ws hws hfirst _ ↦ ?_⟩
    -- the longer phrase begins where the shorter one did
    have := hus _ (.member hws hd hn) ((firstSpan_append (hws.ne_nil rfl) _).trans hfirst)
      (lastSpan_append ws (List.cons_ne_nil d [n]))
    rwa [List.append_assoc] at this
  · obtain ⟨hkey, hbehind⟩ := hindex o rfl ho
    obtain ⟨us, rfl, hus⟩ := hkey k _ hk
    obtain ⟨vs, rfl, hvs⟩ := hbehind k c r₁ hk e rest hread
    refine ⟨o :: (us ++ [c]) ++ vs, by simp, fun ws hws hfirst _ ↦ ?_⟩
    have hlast : lastSpan (ws ++ o :: (us ++ [c])) = c.span := by
      rw [lastSpan_append ws (List.cons_ne_nil _ _), lastSpan_cons_concat]
    have := hvs _ (.index hws ho hus hc) ((firstSpan_append (hws.ne_nil rfl) _).trans hfirst) hlast
    rwa [List.append_assoc] at this
  · obtain ⟨hitems, hbehind⟩ := hcall o rfl ho
    obtain ⟨us, k, rfl, hk, rfl, hus⟩ := hitems es close r₁ hes
    obtain ⟨vs, rfl, hvs⟩ := hbehind es _ r₁ hes e rest hread
    refine ⟨o :: (us ++ [k]) ++ vs, by simp, fun ws hws hfirst hlast ↦ ?_⟩
    have hlonger : lastSpan (ws ++ o :: (us ++ [k])) = k.span := by
      rw [lastSpan_append ws (List.cons_ne_nil _ _), lastSpan_cons_concat]
    -- a call keeps the span of what is called
    have hnext := Derives.call hws ho hus hk
    rw [spanOf, hfirst, hlast] at hnext
    have := hvs _ hnext ((firstSpan_append (hws.ne_nil rfl) _).trans hfirst) hlonger
    rwa [List.append_assoc] at this

theorem itemsSound_of {close : Punct} (hmore : ¬IsAt close ts → ConditionalSound stop ts ∧
      ∀ a c r, Reads (parseConditional stop ts) a (c :: r) → ItemsSound stop close r) :
    ItemsSound stop close ts := by
  intro es last rest h
  rcases reads_items_iff.mp h with ⟨k, rfl, hk, rfl, rfl⟩ | ⟨hno, a, r, ha, hbehind⟩
  · exact ⟨[], k, rfl, hk, rfl, .noItems⟩
  · obtain ⟨hitem, hitems⟩ := hmore hno
    obtain ⟨us, rfl, hus⟩ := hitem a r ha
    rcases hbehind with ⟨c, r₁, bs, rfl, hc, hbs, rfl⟩ | ⟨-, k, rfl, hk, rfl, rfl⟩
    · obtain ⟨vs, k, rfl, hk, rfl, hvs⟩ := hitems a c r₁ ha bs last rest hbs
      exact ⟨us ++ c :: vs, k, by simp, hk, rfl, .item hus hc hvs⟩
    · exact ⟨us, k, rfl, hk, rfl, .lastItem hus⟩

theorem membersSound_of (hmore : ¬IsAt .rightBrace ts → MemberSound stop ts ∧
      ∀ m c r, Reads (parseMember stop ts) m (c :: r) → MembersSound stop r) :
    MembersSound stop ts := by
  intro ms last rest h
  rcases reads_members_iff.mp h with ⟨k, rfl, hk, rfl, rfl⟩ | ⟨hno, m, r, hm, hbehind⟩
  · exact ⟨[], k, rfl, hk, rfl, .noMembers⟩
  · obtain ⟨hmember, hmembers⟩ := hmore hno
    obtain ⟨us, rfl, hus⟩ := hmember m r hm
    rcases hbehind with ⟨c, r₁, ns, rfl, hc, hns, rfl⟩ | ⟨-, k, rfl, hk, rfl, rfl⟩
    · obtain ⟨vs, k, rfl, hk, rfl, hvs⟩ := hmembers m c r₁ hm ns last rest hns
      exact ⟨us ++ c :: vs, k, by simp, hk, rfl, .moreMembers hus hc hvs⟩
    · exact ⟨us, k, rfl, hk, rfl, .lastMember hus⟩

theorem primarySound_of {t : Token} {r : List Token}
    (hgroup : t.kind = .punct .leftParen → ConditionalSound stop r)
    (harray : t.kind = .punct .leftBracket → ItemsSound stop .rightBracket r)
    (hobject : t.kind = .punct .leftBrace → MembersSound stop r) :
    PrimarySound stop (t :: r) := by
  intro e last rest h
  rcases reads_primary_iff.mp h with
    ⟨_, heq, rfl, ⟨x, hx, rfl⟩ | ⟨s, hs, rfl⟩ | ⟨text, htext, he⟩⟩ |
    ⟨_, _, c, heq, ho, ha, hc, rfl⟩ | ⟨_, _, es, heq, ho, hes, rfl⟩ | ⟨_, _, ms, heq, ho, hms, rfl⟩
  · cases heq
    exact ⟨[t], rfl, .number hx, rfl⟩
  · cases heq
    exact ⟨[t], rfl, .string hs, rfl⟩
  · cases heq
    exact ⟨[t], rfl, .name htext he, rfl⟩
  · cases heq
    obtain ⟨us, rfl, hus⟩ := hgroup ho e _ ha
    exact ⟨t :: (us ++ [c]), by simp, .group ho hus hc, (lastSpan_cons_concat t us c).symm⟩
  · cases heq
    obtain ⟨us, k, rfl, hk, rfl, hus⟩ := harray ho es last rest hes
    exact ⟨t :: (us ++ [k]), by simp, .array ho hus hk, (lastSpan_cons_concat t us k).symm⟩
  · cases heq
    obtain ⟨us, k, rfl, hk, rfl, hus⟩ := hobject ho ms last rest hms
    exact ⟨t :: (us ++ [k]), by simp, .object ho hus hk, (lastSpan_cons_concat t us k).symm⟩

theorem memberSound_of
    (hvalue : ∀ t c r key isName, ts = t :: c :: r → objectKey? t.kind = some (key, isName) →
      c.kind = .punct .colon → ConditionalSound stop r) :
    MemberSound stop ts := by
  intro m rest h
  rcases reads_member_iff.mp h with ⟨t, c, r, key, isName, a, rfl, hkey, hc, ha, rfl⟩ |
    ⟨t, key, rfl, hkey, _, rfl⟩
  · obtain ⟨us, rfl, hus⟩ := hvalue t c r key isName rfl hkey hc a rest ha
    exact ⟨t :: c :: us, rfl, .pair hkey hc hus⟩
  · exact ⟨[t], rfl, .shorthand hkey⟩

theorem parser_sound (stop : Nat) :
    (∀ ts, ConditionalSound stop ts) ∧ (∀ l ts, LevelSound stop l ts) ∧
      (∀ l a ts, OperatorsSound stop l a ts) ∧ (∀ l ts, OperandSound stop l ts) ∧
      (∀ ts, UnarySound stop ts) ∧ (∀ ts, PostfixSound stop ts) ∧
      (∀ first a last ts, AppliedSound stop first a last ts) ∧
      (∀ close ts, ItemsSound stop close ts) ∧ (∀ ts, PrimarySound stop ts) ∧
      (∀ ts, MembersSound stop ts) ∧ ∀ ts, MemberSound stop ts := by
  apply parseConditional.mutual_induct stop (ConditionalSound stop) (LevelSound stop)
    (OperatorsSound stop) (OperandSound stop) (UnarySound stop) (PostfixSound stop)
    (AppliedSound stop) (ItemsSound stop) (PrimarySound stop) (MembersSound stop)
    (MemberSound stop)
  -- conditionals and levels
  case case1 =>
    intro ts ihtest ihthen ihelse e rest h
    obtain ⟨c, r, hc, hmore⟩ := reads_conditional_iff.mp h
    obtain ⟨us, rfl, hus⟩ := ihtest c r hc
    rcases hmore with ⟨-, rfl, rfl⟩ | ⟨q, r₁, a, k, r₂, b, rfl, hq, ha, hk, hb, rfl⟩
    · exact ⟨us, rfl, .test hus⟩
    · obtain ⟨vs, rfl, hvs⟩ := ihthen _ hc.length_lt _ (by simp) a _ ha
      obtain ⟨ws, rfl, hws⟩ := ihelse _ hc.length_lt _ (by simp) _ ha.length_lt _ (by simp) b _ hb
      exact ⟨us ++ q :: (vs ++ k :: ws), by simp, .conditional hus hq hvs hk hws⟩
  case case2 =>
    intro l ts ihoperand ihmore e rest h
    obtain ⟨a, r, ha, hmore⟩ := reads_level_iff.mp h
    obtain ⟨us, rfl, hus⟩ := ihoperand a r ha
    obtain ⟨vs, rfl, hvs⟩ := ihmore a r ha.length_lt e rest hmore
    exact ⟨us ++ vs, by simp, hvs us (.operand hus)⟩
  -- operators and operands: at the end, at another token, at an operator
  case case3 => exact fun l a ↦ operatorsSound_of (by simp)
  case case4 => exact fun l a t r hop ↦ operatorsSound_of (by simp [hop])
  case case5 =>
    intro l a t r op hop ihoperand ihmore
    refine operatorsSound_of fun _ ht op' hop' ↦ ?_
    cases ht
    rw [hop] at hop'
    cases hop'
    exact ⟨ihoperand, fun b r₁ hb ↦ ihmore b r₁ hb.length_lt⟩
  case case6 =>
    intro l ts m hm ih e rest h
    rw [parseOperand_of_tighter hm] at h
    rw [Level.operand_of_tighter hm]
    exact ih e rest h
  case case7 =>
    intro l ts hl ih e rest h
    rw [parseOperand_of_tightest hl] at h
    rw [Level.operand, hl]
    exact ih e rest h
  case case8 => exact fun ih ↦ unarySound_of (fun _ ↦ ih) (by simp)
  case case9 => exact fun t r hop ih ↦ unarySound_of (fun _ ↦ ih) (by simp [hop])
  case case10 =>
    intro t r op hop ih
    refine unarySound_of (fun hno ↦ ?_) fun _ _ _ _ ↦ ih
    rw [hno t rfl] at hop
    cases hop
  case case11 =>
    intro ts ihprimary ihmore e rest h
    obtain ⟨a, last, r, ha, hmore⟩ := reads_postfix_iff.mp h
    obtain ⟨us, rfl, hus, rfl⟩ := ihprimary a last r ha
    -- the span of the phrase begins at its first token, so there has to be one
    have hne : us ≠ [] := hus.ne_nil rfl
    obtain ⟨t, us, rfl⟩ := List.exists_cons_of_ne_nil hne
    obtain ⟨vs, rfl, hvs⟩ := ihmore a _ r ha.length_lt e rest hmore
    exact ⟨t :: us ++ vs, by simp, hvs _ (.primary hus) rfl rfl⟩
  -- what is applied: at the end, a dot with a name and without one, a bracket, a parenthesis
  case case12 => exact fun first a last ↦ appliedSound_of (by simp) (by simp) (by simp)
  case case13 =>
    intro first a last d hd property span r ih
    refine appliedSound_of (fun _ _ _ n _ _ heq hn ↦ ?_) (by simp [hd]) (by simp [hd])
    cases heq
    cases hn
    exact ih
  case case14 =>
    intro first a last d hd r hno
    refine appliedSound_of (fun _ _ _ n property _ heq hn ↦ ?_) (by simp [hd]) (by simp [hd])
    cases heq
    obtain ⟨kind, span⟩ := n
    cases hn
    exact absurd rfl (hno property span _)
  case case15 =>
    intro first a last o r ho ihkey ihmore
    refine appliedSound_of (by simp [ho]) (fun _ _ _ ↦ ?_) (by simp [ho])
    exact ⟨ihkey, fun k c r₁ hk ↦ ihmore k _ hk.length_lt c.span r₁ (by simp)⟩
  case case16 =>
    intro first a last o r ho ihitems ihmore
    refine appliedSound_of (by simp [ho]) (by simp [ho]) fun _ _ _ ↦ ?_
    exact ⟨ihitems, fun es close r₁ hes ↦ ihmore es close r₁ hes.length_lt⟩
  case case17 =>
    intro first a last t r hdot hbracket hparen
    exact appliedSound_of (by simp_all) (by simp_all) (by simp_all)
  case case18 =>
    intro close ts s r hr heat
    obtain ⟨t, rfl, ht, -⟩ := eat_eq_some_iff.mp heat
    exact itemsSound_of fun hno ↦ absurd ⟨t, r, rfl, ht⟩ hno
  case case19 =>
    intro close ts hno ihitem ihmore
    exact itemsSound_of fun _ ↦ ⟨ihitem, fun a c r ha ↦ ihmore _ ha.length_lt r (by simp)⟩
  case case20 =>
    intro e last rest h
    rcases reads_primary_iff.mp h with ⟨_, heq, _⟩ | ⟨_, _, _, heq, _⟩ | ⟨_, _, _, heq, _⟩ |
      ⟨_, _, _, heq, _⟩ <;> cases heq
  -- a token that opens no bracket is read alone, if at all
  case case21 | case22 | case23 | case24 | case28 =>
    intros
    exact primarySound_of (by simp_all) (by simp_all) (by simp_all)
  case case25 => exact fun t r ho ih ↦ primarySound_of (fun _ ↦ ih) (by simp [ho]) (by simp [ho])
  case case26 => exact fun t r ho ih ↦ primarySound_of (by simp [ho]) (fun _ ↦ ih) (by simp [ho])
  case case27 => exact fun t r ho ih ↦ primarySound_of (by simp [ho]) (by simp [ho]) (fun _ ↦ ih)
  case case29 =>
    intro ts s r hr heat
    obtain ⟨t, rfl, ht, -⟩ := eat_eq_some_iff.mp heat
    exact membersSound_of fun hno ↦ absurd ⟨t, r, rfl, ht⟩ hno
  case case30 =>
    intro ts hno ihmember ihmore
    exact membersSound_of fun _ ↦ ⟨ihmember, fun m c r hm ↦ ihmore _ hm.length_lt r (by simp)⟩
  case case31 => exact memberSound_of (by simp)
  case case32 =>
    intro t r hno
    refine memberSound_of fun _ _ _ _ _ heq hkey _ ↦ ?_
    cases heq
    rw [hno] at hkey
    cases hkey
  case case33 =>
    intro t r key isName hkey s r₁ hr heat ih
    obtain ⟨c, rfl, -, -⟩ := eat_eq_some_iff.mp heat
    refine memberSound_of fun _ _ _ _ _ heq _ _ ↦ ?_
    cases heq
    exact ih
  case case34 =>
    intro t r key hno _
    refine memberSound_of fun _ c r' _ _ heq _ hc ↦ ?_
    cases heq
    exact absurd ⟨c, r', rfl, hc⟩ (eat_eq_none_iff.mp hno)
  case case35 =>
    intro t r key _ _ hno _
    refine memberSound_of fun _ c r' _ _ heq _ hc ↦ ?_
    cases heq
    exact absurd ⟨c, r', rfl, hc⟩ (eat_eq_none_iff.mp hno)

/-- **What the parser accepts is an expression of the grammar**, with the tree of its derivation. -/
theorem derives_of_ofTokens {lexed : Lexed} {e : Expr} (h : ofTokens lexed = .ok e) :
    Derives .conditional lexed.tokens (.expr e) := by
  unfold ofTokens at h
  obtain ⟨⟨a, rest, hlt⟩, hread, h⟩ := bind_eq_ok_iff.mp h
  dsimp only at h
  obtain ⟨us, hts, hus⟩ := (parser_sound lexed.stop).1 lexed.tokens a rest ⟨hlt, hread⟩
  rcases rest with _ | ⟨t, rest⟩
  · cases h
    rw [List.append_nil] at hts
    rwa [hts]
  · -- with tokens left over the parser fails
    cases h

end HtmlTemplate.Expr
