import HtmlTemplate.Proofs.Expr.Failures
import HtmlTemplate.Proofs.Expr.Lookahead
import HtmlTemplate.Proofs.Expr.Unambiguous

/-!
# Where a syntax error points

The parser fails as soon as it can. The tokens before an error can be completed, by a name, a colon
and closing marks, and with the token at the error they cannot be continued at all: what the parser
has read, it reads whatever follows, and then it fails at that token again.

The induction is the recursion of the parser. Every function stops where what it has read begins a
phrase of its category (`Begins`), and where it refuses every other end behind the same token
(`Stops`).

## Completing

What has begun is completed by at most one operand, at most one colon and then the marks that are
open, from the inside out. That these few kinds are enough is why a phrase around another one can be
completed as soon as the inner one can (`Begins.wrap`).

## Refusing

A function that fails at a token would fail there with anything behind it. It has read what stands
in front of that token, which it reads whatever follows the next token, and the function that fails
then is given the same token in front.
-/

namespace HtmlTemplate.Expr

/-! ## Beginnings of phrases -/

/-- Kinds of tokens by which anything that was begun can be completed. -/
def completing : List Token.Kind :=
  [.name "a", .punct .colon, .punct .rightParen, .punct .rightBracket, .punct .rightBrace]

/-- The tokens begin a phrase of the category, which is completed by a name, a colon and closing
marks. -/
def Begins (c : Category) (us : List Token) : Prop :=
  ∃ vs p, (∀ v ∈ vs, v.kind ∈ completing) ∧ Derives c (us ++ vs) p

def anyName : Token := ⟨.name "a", 0, 0⟩

theorem derives_anyName (l : Level) : Derives (.level l) [anyName] (.expr (.name "a" ⟨0, 0⟩)) :=
  .of_ofName rfl

variable {c d : Category} {us : List Token} {p : Phrase}

theorem Derives.begins (h : Derives c us p) : Begins c us :=
  ⟨[], p, by simp, by rwa [List.append_nil]⟩

theorem Begins.wrap (h : Begins c us) (before : List Token → List Token) (ks : List Token)
    (hbefore : ∀ xs ys, before (xs ++ ys) = before xs ++ ys) (hks : ∀ k ∈ ks, k.kind ∈ completing)
    (hwrap : ∀ vs p, Derives c vs p → ∃ q, Derives d (before (vs ++ ks)) q) :
    Begins d (before us) := by
  obtain ⟨vs, p, hvs, hp⟩ := h
  obtain ⟨q, hq⟩ := hwrap _ p hp
  refine ⟨vs ++ ks, q, fun v hv ↦ (List.mem_append.mp hv).elim (hvs v) (hks v), ?_⟩
  rwa [← hbefore, ← List.append_assoc]

theorem Begins.behind (h : Begins c us) (before : List Token → List Token)
    (hbefore : ∀ xs ys, before (xs ++ ys) = before xs ++ ys)
    (hwrap : ∀ vs p, Derives c vs p → ∃ q, Derives d (before vs) q) : Begins d (before us) :=
  h.wrap before [] hbefore (by simp) fun vs p hvs ↦ by rw [List.append_nil]; exact hwrap vs p hvs

theorem Begins.imp (h : Begins c us) (hwrap : ∀ vs p, Derives c vs p → ∃ q, Derives d vs q) :
    Begins d us :=
  h.behind id (fun _ _ ↦ rfl) hwrap

/-! ## Stopping -/

section

variable {α : Type} {n : List Token → Nat}

/-- The function reads nothing from the tokens. -/
def Refuses (f : (ts : List Token) → Except SyntaxError (Parsed α (n ts))) (ts : List Token) :
    Prop :=
  ∀ a rest, ¬Reads (f ts) a rest

/-- The error is at one of the tokens or behind them. The tokens before it begin something; with the
token at it in front, everything behind them is refused. -/
def StopsAt (stop : Nat) (begins refused : List Token → Prop) (ts : List Token)
    (err : SyntaxError) : Prop :=
  ∃ us rest expected, ts = us ++ rest ∧ err = unexpected stop expected rest ∧ begins us ∧
    (rest ≠ [] → ∀ rest', rest'.head? = rest.head? → refused (us ++ rest'))

/-- Where the function fails, it stops. -/
def Stops (stop : Nat) (f : (ts : List Token) → Except SyntaxError (Parsed α (n ts)))
    (begins : List Token → Prop) (ts : List Token) : Prop :=
  ∀ err, f ts = .error err → StopsAt stop begins (Refuses f) ts err

end

variable {stop : Nat} {ts : List Token} {err : SyntaxError}

theorem head?_append_of_head? {us rest rest' : List Token} (h : rest'.head? = rest.head?) :
    (us ++ rest').head? = (us ++ rest).head? := by
  rw [List.head?_append, List.head?_append, h]

theorem StopsAt.behind {begins begins' refused refused' : List Token → Prop}
    (h : StopsAt stop begins refused ts err) (before : List Token → List Token)
    (hbefore : ∀ xs ys, before (xs ++ ys) = before xs ++ ys)
    (hbegins : ∀ us, begins us → begins' (before us))
    (hrefused : ∀ ts', ts'.head? = ts.head? → refused ts' → refused' (before ts')) :
    StopsAt stop begins' refused' (before ts) err := by
  obtain ⟨us, rest, expected, rfl, rfl, hus, hrest⟩ := h
  refine ⟨before us, rest, expected, hbefore us rest, rfl, hbegins us hus,
    fun hne rest' hhead ↦ ?_⟩
  rw [← hbefore]
  exact hrefused _ (head?_append_of_head? hhead) (hrest hne rest' hhead)

theorem StopsAt.imp {begins begins' refused refused' : List Token → Prop}
    (h : StopsAt stop begins refused ts err) (hbegins : ∀ us, begins us → begins' us)
    (hrefused : ∀ ts', ts'.head? = ts.head? → refused ts' → refused' ts') :
    StopsAt stop begins' refused' ts err :=
  h.behind id (fun _ _ ↦ rfl) hbegins hrefused

theorem StopsAt.missing {α : Type} {f : (ts : List Token) → Except SyntaxError (Parsed α ts.length)}
    {begins refused : List Token → Prop} {a : α} {r : List Token} {mark : Punct}
    {expected : Expected} (h : ReadsBefore f ts a c p r) (hno : ¬IsAt mark r)
    (before : List Token → List Token) (hbefore : ∀ xs ys, before (xs ++ ys) = before xs ++ ys)
    (hbegins : ∀ us, Begins c us → begins (before us))
    (hrefused : ∀ ts', (∀ a k r, Reads (f ts') a (k :: r) → k.kind ≠ .punct mark) →
      refused (before ts')) :
    StopsAt stop begins refused (before ts) (unexpected stop expected r) := by
  obtain ⟨us, rfl, hus, hsame⟩ := h
  refine ⟨before us, r, expected, hbefore us r, rfl, hbegins us hus.begins,
    fun _ rest' hhead ↦ ?_⟩
  rw [← hbefore]
  refine hrefused _ fun a' k r' hread hk ↦ ?_
  obtain ⟨-, rfl⟩ := (hsame rest' hhead).unique hread
  exact hno ((isAt_iff_of_head? hhead).mp ⟨k, r', rfl, hk⟩)

/-! ## Conditionals -/

theorem exists_of_reads_question {c e : Expr} {q : Token} {r rest : List Token}
    (hc : Reads (parseLevel stop .or ts) c (q :: r)) (hq : q.kind = .punct .question)
    (h : Reads (parseConditional stop ts) e rest) :
    ∃ a k r₁ b, Reads (parseConditional stop r) a (k :: r₁) ∧ k.kind = .punct .colon ∧
      Reads (parseConditional stop r₁) b rest := by
  obtain ⟨c', r', hc', hmore⟩ := reads_conditional_iff.mp h
  obtain ⟨rfl, rfl⟩ := hc.unique hc'
  rcases hmore with ⟨hno, -, -⟩ | ⟨_, r₀, a, k, r₁, b, heq, -, ha, hk, hb, -⟩
  · exact absurd ⟨q, r, rfl, hq⟩ hno
  · cases heq
    exact ⟨a, k, r₁, b, ha, hk, hb⟩

theorem conditionalStops_of (htest : Stops stop (parseLevel stop .or) (Begins (.level .or)) ts)
    (hthen : ∀ c q r, Reads (parseLevel stop .or ts) c (q :: r) →
      Stops stop (parseConditional stop) (Begins .conditional) r)
    (helse : ∀ c q r a k r₁, Reads (parseLevel stop .or ts) c (q :: r) →
      Reads (parseConditional stop r) a (k :: r₁) →
      Stops stop (parseConditional stop) (Begins .conditional) r₁) :
    Stops stop (parseConditional stop) (Begins .conditional) ts := by
  intro err h
  rcases failure_conditional h with hfail | ⟨c, q, r, hc, hq, hfail⟩
  · refine (htest err hfail).imp (fun us hus ↦ ?_) fun ts' _ hno e rest hread ↦ ?_
    · refine hus.imp fun vs p hvs ↦ ?_
      obtain ⟨e, rfl⟩ := hvs.exists_expr rfl
      exact ⟨_, .test hvs⟩
    · obtain ⟨c, r, hc, -⟩ := reads_conditional_iff.mp hread
      exact hno c r hc
  have hconsequent := hthen c q r hc err
  have halternate (a k r₁ ha) := helse c q r a k r₁ hc ha err
  obtain ⟨us, rfl, hus, hsame⟩ := readsBefore_level hc
  -- with a name in the other branch, whatever begins the first branch can be completed
  have hbegins (vs : List Token) (hvs : Begins .conditional vs) :
      Begins .conditional (us ++ q :: vs) := by
    refine hvs.wrap (fun xs ↦ us ++ q :: xs) [closing .colon, anyName] (by simp)
      (by simp [completing, closing, anyName]) fun ws p hws ↦ ?_
    obtain ⟨a, rfl⟩ := hws.exists_expr rfl
    exact ⟨_, .conditional hus hq hws rfl (.test (derives_anyName .or))⟩
  rcases hfail with hfail | ⟨a, r₁, ha, ⟨hno, rfl⟩ | ⟨k, r₂, rfl, hk, hfail⟩⟩
  · refine (hconsequent hfail).behind (fun xs ↦ us ++ q :: xs) (by simp) hbegins
      fun ts' _ hno e rest hread ↦ ?_
    obtain ⟨a, k, r₁, b, ha, -, -⟩ := exists_of_reads_question (hsame (q :: ts') rfl) hq hread
    exact hno a _ ha
  · refine .missing (readsBefore_conditional ha) hno (fun xs ↦ us ++ q :: xs) (by simp) hbegins
      fun ts' hmissing e rest hread ↦ ?_
    obtain ⟨a', k, r₂, b, ha', hk, -⟩ :=
      exists_of_reads_question (hsame (q :: ts') rfl) hq hread
    exact hmissing a' k r₂ ha' hk
  · have hstop := halternate a k r₂ ha hfail
    obtain ⟨vs, rfl, hvs, hsame'⟩ := readsBefore_conditional ha
    refine hstop.behind (fun xs ↦ us ++ q :: (vs ++ k :: xs)) (by simp) (fun xs hxs ↦ ?_)
      fun ts' _ hno e rest hread ↦ ?_
    · refine hxs.behind (fun xs ↦ us ++ q :: (vs ++ k :: xs)) (by simp) fun ys p hys ↦ ?_
      obtain ⟨b, rfl⟩ := hys.exists_expr rfl
      exact ⟨_, .conditional hus hq hvs hk hys⟩
    · obtain ⟨a', k', r₃, b, ha', -, hb⟩ :=
        exists_of_reads_question (hsame (q :: (vs ++ k :: ts')) rfl) hq hread
      obtain ⟨-, heq⟩ := (hsame' (k :: ts') rfl).unique ha'
      cases heq
      exact hno b rest hb

/-! ## Levels

Behind a left operand operators follow as long as there are any, so a level stops where an operand
does, or where its last operator waits for one. -/

def Extends (c : Category) (us : List Token) : Prop :=
  ∀ ws p, Derives c ws p → Begins c (ws ++ us)

theorem levelStops_of {l : Level}
    (hoperand : Stops stop (parseOperand stop l) (Begins l.operand) ts)
    (hmore : ∀ a r, Reads (parseOperand stop l ts) a r →
      Stops stop (parseOperators stop l a) (Extends (.level l)) r) :
    Stops stop (parseLevel stop l) (Begins (.level l)) ts := by
  intro err h
  rcases failure_level h with hfail | ⟨a, r, ha, hfail⟩
  · refine (hoperand err hfail).imp (fun us hus ↦ ?_) fun ts' _ hno e rest hread ↦ ?_
    · refine hus.imp fun vs p hvs ↦ ?_
      obtain ⟨e, rfl⟩ := hvs.exists_expr (Level.isExpression_operand l)
      exact ⟨_, .operand hvs⟩
    · obtain ⟨a, r, ha, -⟩ := reads_level_iff.mp hread
      exact hno a r ha
  · have hstop := hmore a r ha err hfail
    obtain ⟨us, rfl, hus, hsame⟩ := readsBefore_operand ha
    refine hstop.behind (fun xs ↦ us ++ xs) (by simp) (fun xs hxs ↦ hxs us _ (.operand hus))
      fun ts' hhead hno e rest hread ↦ ?_
    obtain ⟨a', r', ha', hread⟩ := reads_level_iff.mp hread
    obtain ⟨rfl, rfl⟩ := (hsame ts' hhead).unique ha'
    exact hno e rest hread

theorem exists_of_reads_operator {l : Level} {t : Token} {op : Operator} {a e : Expr}
    {r rest : List Token} (hop : l.operator? t.kind = some op)
    (h : Reads (parseOperators stop l a (t :: r)) e rest) :
    ∃ b r₁, Reads (parseOperand stop l r) b r₁ ∧
      Reads (parseOperators stop l (op.apply a b) r₁) e rest := by
  rcases reads_operators_iff.mp h with ⟨hno, -, -⟩ | ⟨_, _, op', b, r₁, heq, hop', hb, hread⟩
  · rw [hno t rfl] at hop
    cases hop
  · cases heq
    rw [hop] at hop'
    cases hop'
    exact ⟨b, r₁, hb, hread⟩

theorem operatorsStops_of {l : Level} {a : Expr}
    (hmore : ∀ t ∈ ts.head?, ∀ op, l.operator? t.kind = some op →
      Stops stop (parseOperand stop l) (Begins l.operand) ts.tail ∧
        ∀ b r, Reads (parseOperand stop l ts.tail) b r →
          Stops stop (parseOperators stop l (op.apply a b)) (Extends (.level l)) r) :
    Stops stop (parseOperators stop l a) (Extends (.level l)) ts := by
  intro err h
  obtain ⟨t, r, op, rfl, hop, hfail⟩ := failure_operators h
  obtain ⟨hoperand, hbehind⟩ := hmore t rfl op hop
  rcases hfail with hfail | ⟨b, r₁, hb, hfail⟩
  · refine (hoperand err hfail).behind (fun xs ↦ t :: xs) (by simp)
      (fun us hus ws p hws ↦ ?_) fun ts' _ hno e rest hread ↦ ?_
    · refine hus.behind (fun xs ↦ ws ++ t :: xs) (by simp) fun vs q hvs ↦ ?_
      obtain ⟨a, rfl⟩ := hws.exists_expr rfl
      obtain ⟨b, rfl⟩ := hvs.exists_expr (Level.isExpression_operand l)
      exact ⟨_, .operation hws hop hvs⟩
    · obtain ⟨b, r₁, hb, -⟩ := exists_of_reads_operator hop hread
      exact hno b r₁ hb
  · have hstop := hbehind b r₁ hb err hfail
    obtain ⟨us, rfl, hus, hsame⟩ := readsBefore_operand hb
    refine hstop.behind (fun xs ↦ t :: (us ++ xs)) (by simp) (fun xs hxs ws p hws ↦ ?_)
      fun ts' hhead hno e rest hread ↦ ?_
    · obtain ⟨a, rfl⟩ := hws.exists_expr rfl
      have := hxs (ws ++ t :: us) _ (.operation hws hop hus)
      rwa [List.append_assoc] at this
    · obtain ⟨b', r', hb', hread⟩ := exists_of_reads_operator hop hread
      obtain ⟨rfl, rfl⟩ := (hsame ts' hhead).unique hb'
      exact hno e rest hread

/-! ## Unary phrases -/

theorem unaryStops_of
    (happlied : (∀ t ∈ ts.head?, prefixOperator? t.kind = none) →
      Stops stop (parsePostfix stop) (Begins .applied) ts)
    (hprefixed : ∀ t ∈ ts.head?, ∀ op, prefixOperator? t.kind = some op →
      Stops stop (parseUnary stop) (Begins .unary) ts.tail) :
    Stops stop (parseUnary stop) (Begins .unary) ts := by
  intro err h
  rcases failure_unary h with ⟨hno, hfail⟩ | ⟨t, r, op, rfl, hop, hfail⟩
  · refine (happlied hno err hfail).imp (fun us hus ↦ ?_) fun ts' hhead hrefuses e rest hread ↦ ?_
    · refine hus.imp fun vs p hvs ↦ ?_
      obtain ⟨e, rfl⟩ := hvs.exists_expr rfl
      exact ⟨_, .unprefixed hvs⟩
    · rcases reads_unary_iff.mp hread with ⟨-, hread⟩ | ⟨t, r, op, _, rfl, hop, -, -⟩
      · exact hrefuses e rest hread
      · rw [hno t hhead.symm] at hop
        cases hop
  · refine (hprefixed t rfl op hop err hfail).behind (fun xs ↦ t :: xs) (by simp)
      (fun us hus ↦ ?_) fun ts' _ hrefuses e rest hread ↦ ?_
    · refine hus.behind (fun xs ↦ t :: xs) (by simp) fun vs p hvs ↦ ?_
      obtain ⟨e, rfl⟩ := hvs.exists_expr rfl
      exact ⟨_, .prefixed hop hvs⟩
    · rcases reads_unary_iff.mp hread with ⟨hno, -⟩ | ⟨_, _, _, a, heq, -, ha, -⟩
      · rw [hno t rfl] at hop
        cases hop
      · cases heq
        exact hrefuses a rest ha

theorem postfixStops_of (hprimary : Stops stop (parsePrimary stop) (Begins .primary) ts)
    (hmore : ∀ a last r, Reads (parsePrimary stop ts) (a, last) r →
      Stops stop (parseApplied stop (ts.head?.elim ⟨stop, stop⟩ (·.span)) a last)
        (Extends .applied) r) :
    Stops stop (parsePostfix stop) (Begins .applied) ts := by
  intro err h
  rcases failure_postfix h with hfail | ⟨a, last, r, ha, hfail⟩
  · refine (hprimary err hfail).imp (fun us hus ↦ ?_) fun ts' _ hno e rest hread ↦ ?_
    · refine hus.imp fun vs p hvs ↦ ?_
      obtain ⟨e, rfl⟩ := hvs.exists_expr rfl
      exact ⟨_, .primary hvs⟩
    · obtain ⟨a, last, r, ha, -⟩ := reads_postfix_iff.mp hread
      exact hno (a, last) r ha
  · have hstop := hmore a last r ha err hfail
    obtain ⟨us, rfl, hus, hsame⟩ := readsBefore_primary ha
    refine hstop.behind (fun xs ↦ us ++ xs) (by simp) (fun xs hxs ↦ hxs us _ (.primary hus))
      fun ts' hhead hno e rest hread ↦ ?_
    obtain ⟨a', last', r', ha', hread⟩ := reads_postfix_iff.mp hread
    obtain ⟨heq, rfl⟩ := (hsame ts' hhead).unique ha'
    cases heq
    rw [head?_append_of_head? hhead] at hread
    exact hno e rest hread

/-! ## What is applied

A dot needs a name behind it. A bracket needs a key and its counterpart, and a parenthesis needs
arguments and its own. -/

section

variable {first last : Span} {a e : Expr} {o : Token} {r rest : List Token}

theorem reads_applied_cons {p : Punct} (ho : o.kind = .punct p)
    (happly : (Token.Kind.punct p).isApplying = true)
    (h : Reads (parseApplied stop first a last (o :: r)) e rest) :
    (p = .dot ∧ ∃ n property r₁, r = n :: r₁ ∧ n.kind = .name property ∧
      Reads (parseApplied stop first (.member a property) n.span r₁) e rest) ∨
    (p = .leftBracket ∧ ∃ k c r₁, Reads (parseConditional stop r) k (c :: r₁) ∧
      c.kind = .punct .rightBracket ∧
      Reads (parseApplied stop first (.index a k) c.span r₁) e rest) ∨
    (p = .leftParen ∧ ∃ es close r₁, Reads (parseItems stop .rightParen r) (es, close) r₁ ∧
      Reads (parseApplied stop first (.call a es (first.cover last)) close r₁) e rest) := by
  have hkind {q : Punct} (hq : o.kind = .punct q) : p = q := by
    rw [ho] at hq
    cases hq
    rfl
  rcases reads_applied_iff.mp h with ⟨hno, -, -⟩ | ⟨_, n, property, r₁, heq, hd, hn, hread⟩ |
    ⟨_, _, k, c, r₁, heq, hd, hk, hc, hread⟩ | ⟨_, _, es, close, r₁, heq, hd, hes, hread⟩
  · have := hno o rfl
    rw [ho, happly] at this
    cases this
  · cases heq
    exact Or.inl ⟨hkind hd, n, property, r₁, rfl, hn, hread⟩
  · cases heq
    exact Or.inr (Or.inl ⟨hkind hd, k, c, r₁, hk, hc, hread⟩)
  · cases heq
    exact Or.inr (Or.inr ⟨hkind hd, es, close, r₁, hes, hread⟩)

private theorem exists_of_reads_dot (ho : o.kind = .punct .dot)
    (h : Reads (parseApplied stop first a last (o :: r)) e rest) :
    ∃ n property r₁, r = n :: r₁ ∧ n.kind = .name property ∧
      Reads (parseApplied stop first (.member a property) n.span r₁) e rest := by
  rcases reads_applied_cons ho rfl h with ⟨-, hread⟩ | ⟨heq, -⟩ | ⟨heq, -⟩
  · exact hread
  all_goals cases heq

private theorem exists_of_reads_bracket (ho : o.kind = .punct .leftBracket)
    (h : Reads (parseApplied stop first a last (o :: r)) e rest) :
    ∃ k c r₁, Reads (parseConditional stop r) k (c :: r₁) ∧ c.kind = .punct .rightBracket ∧
      Reads (parseApplied stop first (.index a k) c.span r₁) e rest := by
  rcases reads_applied_cons ho rfl h with ⟨heq, -⟩ | ⟨-, hread⟩ | ⟨heq, -⟩
  · cases heq
  · exact hread
  · cases heq

private theorem exists_of_reads_call (ho : o.kind = .punct .leftParen)
    (h : Reads (parseApplied stop first a last (o :: r)) e rest) :
    ∃ es close r₁, Reads (parseItems stop .rightParen r) (es, close) r₁ ∧
      Reads (parseApplied stop first (.call a es (first.cover last)) close r₁) e rest := by
  rcases reads_applied_cons ho rfl h with ⟨heq, -⟩ | ⟨heq, -⟩ | ⟨-, hread⟩
  · cases heq
  · cases heq
  · exact hread

end

/-- Behind a dot: a name is missing, or it stops where what is applied behind the name does. -/
theorem dotStopsAt_of {d : Token} {r : List Token} {first last : Span} {a : Expr}
    (hd : d.kind = .punct .dot)
    (hmore : ∀ n property r₁, r = n :: r₁ → n.kind = .name property →
      Stops stop (parseApplied stop first (.member a property) n.span) (Extends .applied) r₁)
    (hfail : ((∀ t ∈ r.head?, ∀ property, t.kind ≠ .name property) ∧
        err = unexpected stop .propertyName r) ∨
      ∃ t property r₁, r = t :: r₁ ∧ t.kind = .name property ∧
        parseApplied stop first (.member a property) t.span r₁ = .error err) :
    StopsAt stop (Extends .applied) (Refuses (parseApplied stop first a last)) (d :: r) err := by
  rcases hfail with ⟨hno, rfl⟩ | ⟨n, property, r₁, rfl, hn, hfail⟩
  · -- a name could have stood behind the dot
    refine ⟨[d], r, _, rfl, rfl, fun ws p hws ↦ ⟨[anyName], ?_⟩,
      fun _ rest' hhead e rest hread ↦ ?_⟩
    · obtain ⟨a, rfl⟩ := hws.exists_expr rfl
      refine ⟨.expr (.member a "a"), by simp [completing, anyName], ?_⟩
      rw [List.append_assoc]
      exact .member hws hd rfl
    · obtain ⟨n, property, r₁, rfl, hn, -⟩ := exists_of_reads_dot hd hread
      exact hno n hhead.symm property hn
  · refine (hmore n property r₁ rfl hn err hfail).behind (fun xs ↦ d :: n :: xs)
      (by simp) (fun us hus ws p hws ↦ ?_) fun ts' _ hno e rest hread ↦ ?_
    · obtain ⟨a, rfl⟩ := hws.exists_expr rfl
      have := hus (ws ++ [d, n]) _ (.member hws hd hn)
      rwa [List.append_assoc] at this
    · obtain ⟨_, _, _, heq, hn', hread⟩ := exists_of_reads_dot hd hread
      cases heq
      rw [hn] at hn'
      cases hn'
      exact hno e rest hread

/-- Behind a bracket: it stops where the key does, where the closing bracket is missing, or where
what is applied behind that does. -/
theorem bracketStopsAt_of {o : Token} {r : List Token} {first last : Span} {a : Expr}
    (ho : o.kind = .punct .leftBracket)
    (hkey : Stops stop (parseConditional stop) (Begins .conditional) r)
    (hmore : ∀ k c r₁, Reads (parseConditional stop r) k (c :: r₁) →
      Stops stop (parseApplied stop first (.index a k) c.span) (Extends .applied) r₁)
    (hfail : parseConditional stop r = .error err ∨
      ∃ k r₁, Reads (parseConditional stop r) k r₁ ∧
        ((¬IsAt .rightBracket r₁ ∧ err = unexpected stop (.punct .rightBracket) r₁) ∨
          ∃ c r₂, r₁ = c :: r₂ ∧ c.kind = .punct .rightBracket ∧
            parseApplied stop first (.index a k) c.span r₂ = .error err)) :
    StopsAt stop (Extends .applied) (Refuses (parseApplied stop first a last)) (o :: r) err := by
  have hbegins (us : List Token) (hus : Begins .conditional us) : Extends .applied (o :: us) := by
    intro ws p hws
    obtain ⟨a, rfl⟩ := hws.exists_expr rfl
    refine hus.wrap (fun xs ↦ ws ++ o :: xs) [closing .rightBracket] (by simp)
      (by simp [completing, closing]) fun vs p hvs ↦ ?_
    obtain ⟨k, rfl⟩ := hvs.exists_expr rfl
    exact ⟨_, .index hws ho hvs rfl⟩
  rcases hfail with hfail | ⟨k, r₁, hk, ⟨hno, rfl⟩ | ⟨c, r₂, rfl, hc, hfail⟩⟩
  · refine (hkey err hfail).behind (fun xs ↦ o :: xs) (by simp) hbegins
      fun ts' _ hno e rest hread ↦ ?_
    obtain ⟨k, c, r₁, hk, -, -⟩ := exists_of_reads_bracket ho hread
    exact hno k _ hk
  · refine .missing (readsBefore_conditional hk) hno (fun xs ↦ o :: xs) (by simp) hbegins
      fun ts' hmissing e rest hread ↦ ?_
    obtain ⟨k', c, r₂, hk', hc, -⟩ := exists_of_reads_bracket ho hread
    exact hmissing k' c r₂ hk' hc
  · -- the key is read in the same way with other tokens behind its bracket
    have hstop := hmore k c r₂ hk err hfail
    obtain ⟨us, rfl, hus, hsame⟩ := readsBefore_conditional hk
    refine hstop.behind (fun xs ↦ o :: (us ++ c :: xs)) (by simp)
      (fun xs hxs ws p hws ↦ ?_) fun ts' _ hno e rest hread ↦ ?_
    · obtain ⟨a, rfl⟩ := hws.exists_expr rfl
      have := hxs (ws ++ o :: (us ++ [c])) _ (.index hws ho hus hc)
      rwa [List.append_assoc, List.cons_append, List.append_assoc] at this
    · obtain ⟨k', c', r₃, hk', -, hread⟩ := exists_of_reads_bracket ho hread
      obtain ⟨rfl, heq⟩ := (hsame (c :: ts') rfl).unique hk'
      cases heq
      exact hno e rest hread

/-- Behind a parenthesis: it stops where the arguments do, or where what is applied behind them
does. -/
theorem callStopsAt_of {o : Token} {r : List Token} {first last : Span} {a : Expr}
    (ho : o.kind = .punct .leftParen)
    (hitems : Stops stop (parseItems stop .rightParen) (Begins .items) r)
    (hmore : ∀ es close r₁, Reads (parseItems stop .rightParen r) (es, close) r₁ →
      Stops stop (parseApplied stop first (.call a es (first.cover last)) close)
      (Extends .applied) r₁)
    (hfail : parseItems stop .rightParen r = .error err ∨
      ∃ es close r₁, Reads (parseItems stop .rightParen r) (es, close) r₁ ∧
        parseApplied stop first (.call a es (first.cover last)) close r₁ = .error err) :
    StopsAt stop (Extends .applied) (Refuses (parseApplied stop first a last)) (o :: r) err := by
  rcases hfail with hfail | ⟨es, close, r₁, hes, hfail⟩
  · refine (hitems err hfail).behind (fun xs ↦ o :: xs) (by simp)
      (fun us hus ws p hws ↦ ?_) fun ts' _ hno e rest hread ↦ ?_
    · obtain ⟨a, rfl⟩ := hws.exists_expr rfl
      refine hus.wrap (fun xs ↦ ws ++ o :: xs) [closing .rightParen] (by simp)
        (by simp [completing, closing]) fun vs p hvs ↦ ?_
      obtain ⟨es, rfl⟩ := hvs.exists_items
      exact ⟨_, .call hws ho hvs rfl⟩
    · obtain ⟨es, close, r₁, hes, -⟩ := exists_of_reads_call ho hread
      exact hno (es, close) r₁ hes
  · have hstop := hmore es close r₁ hes err hfail
    obtain ⟨us, k, rfl, hk, hus, hsame⟩ := exists_of_reads_items rfl (by decide) hes
    refine hstop.behind (fun xs ↦ o :: (us ++ k :: xs)) (by simp)
      (fun xs hxs ws p hws ↦ ?_) fun ts' _ hno e rest hread ↦ ?_
    · obtain ⟨a, rfl⟩ := hws.exists_expr rfl
      have := hxs (ws ++ o :: (us ++ [k])) _ (.call hws ho hus hk)
      rwa [List.append_assoc, List.cons_append, List.append_assoc] at this
    · obtain ⟨es', close', r₃, hes', hread⟩ := exists_of_reads_call ho hread
      obtain ⟨heq, rfl⟩ := (hsame ts').unique hes'
      cases heq
      exact hno e rest hread

theorem appliedStops_of {first last : Span} {a : Expr}
    (hmember : ∀ d ∈ ts.head?, d.kind = .punct .dot → ∀ n property r, ts.tail = n :: r →
      n.kind = .name property →
      Stops stop (parseApplied stop first (.member a property) n.span) (Extends .applied) r)
    (hindex : ∀ o ∈ ts.head?, o.kind = .punct .leftBracket →
      Stops stop (parseConditional stop) (Begins .conditional) ts.tail ∧
        ∀ k c r, Reads (parseConditional stop ts.tail) k (c :: r) →
          Stops stop (parseApplied stop first (.index a k) c.span) (Extends .applied) r)
    (hcall : ∀ o ∈ ts.head?, o.kind = .punct .leftParen →
      Stops stop (parseItems stop .rightParen) (Begins .items) ts.tail ∧
        ∀ es close r, Reads (parseItems stop .rightParen ts.tail) (es, close) r →
          Stops stop (parseApplied stop first (.call a es (first.cover last)) close)
            (Extends .applied) r) :
    Stops stop (parseApplied stop first a last) (Extends .applied) ts := by
  intro err h
  rcases failure_applied h with ⟨d, r, rfl, hd, hfail⟩ | ⟨o, r, rfl, ho, hfail⟩ |
    ⟨o, r, rfl, ho, hfail⟩
  · exact dotStopsAt_of hd (hmember d rfl hd) hfail
  · exact bracketStopsAt_of ho (hindex o rfl ho).1 (hindex o rfl ho).2 hfail
  · exact callStopsAt_of ho (hcall o rfl ho).1 (hcall o rfl ho).2 hfail

/-! ## Lists

Items and members are lists of the same form, with another closing mark. -/

/-- A list that may end with a comma stops where one of its elements does, or where neither a comma
nor the closing mark stands behind one. -/
theorem listStops_of {α : Type} {close : Punct}
    (element : (ts : List Token) → Except SyntaxError (Parsed α ts.length))
    {list : (ts : List Token) → Except SyntaxError (Parsed (List α × Span) ts.length)}
    (hfailure : ∀ {ts err}, list ts = .error err → ¬IsAt close ts ∧
      (element ts = .error err ∨ ∃ a r, Reads (element ts) a r ∧
        ((∃ k r₁, r = k :: r₁ ∧ k.kind = .punct .comma ∧ list r₁ = .error err) ∨
          (¬IsAt .comma r ∧ ¬IsAt close r ∧ err = unexpected stop (.punct close) r))))
    (hreads : ∀ {ts as rest}, Reads (list ts) as rest → IsAt close ts ∨
      ∃ a r, Reads (element ts) a r ∧ ((∃ k r₁ bs, r = k :: r₁ ∧ k.kind = .punct .comma ∧
        Reads (list r₁) bs rest) ∨ ¬IsAt .comma r ∧ IsAt close r))
    (hbefore : ∀ {ts a rest}, Reads (element ts) a rest → ∃ p, ReadsBefore element ts a d p rest)
    (hlast : ∀ {us p}, Derives d us p → ∃ q, Derives c us q)
    (hcons : ∀ {us k vs p q}, Derives d us p → k.kind = .punct .comma → Derives c vs q →
      ∃ q, Derives c (us ++ k :: vs) q)
    (helement : ¬IsAt close ts → Stops stop element (Begins d) ts)
    (hmore : ∀ a k r, Reads (element ts) a (k :: r) → Stops stop list (Begins c) r) :
    Stops stop list (Begins c) ts := by
  intro err h
  obtain ⟨hno, hfail⟩ := hfailure h
  rcases hfail with hfail | ⟨a, r, ha, hfail⟩
  · refine (helement hno err hfail).imp (fun us hus ↦ hus.imp fun vs p hvs ↦ hlast hvs)
      fun ts' hhead hrefuses as rest hread ↦ ?_
    rcases hreads hread with hat | ⟨a, r, ha, -⟩
    · exact hno ((isAt_iff_of_head? hhead).mp hat)
    · exact hrefuses a r ha
  have hbehind (k r₁) := hmore a k r₁
  obtain ⟨p, us, rfl, hus, hsame⟩ := hbefore ha
  -- the list read with anything behind the same element
  have hrest (rest' as rest) (hhead : rest'.head? = r.head?)
      (hread : Reads (list (us ++ rest')) as rest) :
      (∃ k r₁ bs, rest' = k :: r₁ ∧ k.kind = .punct .comma ∧ Reads (list r₁) bs rest) ∨
        ¬IsAt .comma rest' ∧ IsAt close rest' := by
    rcases hreads hread with hat | ⟨a', r', ha', hmore⟩
    · exact absurd ((isAt_iff_of_head? (head?_append_of_head? hhead)).mp hat) hno
    · obtain ⟨-, rfl⟩ := (hsame rest' hhead).unique ha'
      exact hmore
  rcases hfail with ⟨k, r₁, rfl, hk, hfail⟩ | ⟨hcomma, hclose, rfl⟩
  · refine (hbehind k r₁ ha err hfail).behind (fun xs ↦ us ++ k :: xs) (by simp)
      (fun xs hxs ↦ ?_) fun ts' _ hrefuses as rest hread ↦ ?_
    · exact hxs.behind (fun xs ↦ us ++ k :: xs) (by simp) fun vs q hvs ↦ hcons hus hk hvs
    · rcases hrest (k :: ts') as rest rfl hread with ⟨_, _, bs, heq, -, hbs⟩ | ⟨hcomma, -⟩
      · cases heq
        exact hrefuses bs rest hbs
      · exact hcomma ⟨k, ts', rfl, hk⟩
  · refine ⟨us, r, _, rfl, rfl, hus.begins.imp fun vs p hvs ↦ hlast hvs,
      fun _ rest' hhead as rest hread ↦ ?_⟩
    rcases hrest rest' as rest hhead hread with ⟨k, r₁, _, rfl, hk, -⟩ | ⟨-, hat⟩
    · exact hcomma ((isAt_iff_of_head? hhead).mp ⟨k, r₁, rfl, hk⟩)
    · exact hclose ((isAt_iff_of_head? hhead).mp hat)

theorem itemsStops_of {close : Punct}
    (hitem : ¬IsAt close ts → Stops stop (parseConditional stop) (Begins .conditional) ts)
    (hmore : ∀ a k r, Reads (parseConditional stop ts) a (k :: r) →
      Stops stop (parseItems stop close) (Begins .items) r) :
    Stops stop (parseItems stop close) (Begins .items) ts := by
  refine listStops_of (parseConditional stop) failure_items (fun hread ↦ ?_)
    (fun hread ↦ ⟨_, readsBefore_conditional hread⟩) (fun hus ↦ ?_)
    (fun hus hk hvs ↦ ?_) hitem hmore
  · rcases reads_items_iff.mp hread with ⟨k, rfl, hk, -⟩ | ⟨-, a, r, ha, hmore⟩
    · exact Or.inl ⟨k, _, rfl, hk⟩
    · refine Or.inr ⟨a, r, ha, hmore.imp ?_ ?_⟩
      · rintro ⟨k, r₁, bs, rfl, hk, hbs, -⟩
        exact ⟨k, r₁, _, rfl, hk, hbs⟩
      · rintro ⟨hcomma, k, rfl, hk, -⟩
        exact ⟨hcomma, k, _, rfl, hk⟩
  · obtain ⟨e, rfl⟩ := hus.exists_expr rfl
    exact ⟨_, .lastItem hus⟩
  · obtain ⟨e, rfl⟩ := hus.exists_expr rfl
    obtain ⟨es, rfl⟩ := hvs.exists_items
    exact ⟨_, .item hus hk hvs⟩

theorem membersStops_of
    (hmember : ¬IsAt .rightBrace ts → Stops stop (parseMember stop) (Begins .member) ts)
    (hmore : ∀ m k r, Reads (parseMember stop ts) m (k :: r) →
      Stops stop (parseMembers stop) (Begins .members) r) :
    Stops stop (parseMembers stop) (Begins .members) ts := by
  refine listStops_of (parseMember stop) failure_members (fun hread ↦ ?_)
    (fun hread ↦ ⟨_, readsBefore_member hread⟩) (fun hus ↦ ?_) (fun hus hk hvs ↦ ?_) hmember hmore
  · rcases reads_members_iff.mp hread with ⟨k, rfl, hk, -⟩ | ⟨-, m, r, hm, hmore⟩
    · exact Or.inl ⟨k, _, rfl, hk⟩
    · refine Or.inr ⟨m, r, hm, hmore.imp ?_ ?_⟩
      · rintro ⟨k, r₁, ns, rfl, hk, hns, -⟩
        exact ⟨k, r₁, _, rfl, hk, hns⟩
      · rintro ⟨hcomma, k, rfl, hk, -⟩
        exact ⟨hcomma, k, _, rfl, hk⟩
  · obtain ⟨m, rfl⟩ := hus.exists_member
    exact ⟨_, .lastMember hus⟩
  · obtain ⟨m, rfl⟩ := hus.exists_member
    obtain ⟨ms, rfl⟩ := hvs.exists_members
    exact ⟨_, .moreMembers hus hk hvs⟩

private theorem memberStops_of
    (hvalue : ∀ t k r key isName, ts = t :: k :: r → objectKey? t.kind = some (key, isName) →
      k.kind = .punct .colon → Stops stop (parseConditional stop) (Begins .conditional) r) :
    Stops stop (parseMember stop) (Begins .member) ts := by
  intro err h
  rcases failure_member h with ⟨hno, rfl⟩ | ⟨t, r, key, isName, rfl, hkey, hfail⟩
  · -- a name alone is a member
    refine ⟨[], ts, _, rfl, rfl, ⟨[anyName], _, by simp [completing, anyName], .shorthand rfl⟩,
      fun _ rest' hhead m rest hread ↦ ?_⟩
    rcases reads_member_iff.mp hread with ⟨t, _, _, _, _, _, rfl, hkey, -⟩ | ⟨t, _, rfl, hkey, -⟩
    all_goals
      rw [hno t hhead.symm] at hkey
      cases hkey
  rcases hfail with ⟨k, r₁, rfl, hk, hfail⟩ | ⟨rfl, hno, rfl⟩
  · refine (hvalue t k r₁ key isName rfl hkey hk err hfail).behind (fun xs ↦ t :: k :: xs)
      (by simp) (fun us hus ↦ ?_) fun ts' _ hrefuses m rest hread ↦ ?_
    · refine hus.behind (fun xs ↦ t :: k :: xs) (by simp) fun vs p hvs ↦ ?_
      obtain ⟨e, rfl⟩ := hvs.exists_expr rfl
      exact ⟨_, .pair hkey hk hvs⟩
    · rcases reads_member_iff.mp hread with ⟨_, _, _, _, _, a, heq, -, -, ha, -⟩ |
        ⟨_, _, heq, -, hcolon, -⟩
      · cases heq
        exact hrefuses a rest ha
      · cases heq
        exact hcolon ⟨k, ts', rfl, hk⟩
  · refine ⟨[t], r, _, rfl, rfl,
      ⟨[closing .colon, anyName], _, by simp [completing, closing, anyName],
      .pair hkey rfl (.test (derives_anyName .or))⟩, fun _ rest' hhead m rest hread ↦ ?_⟩
    rcases reads_member_iff.mp hread with ⟨_, k, r₁, _, _, _, heq, -, hk, -⟩ | ⟨_, _, heq, hkey', -⟩
    · cases heq
      exact hno ((isAt_iff_of_head? hhead).mp ⟨k, r₁, rfl, hk⟩)
    · cases heq
      rw [hkey] at hkey'
      cases hkey'

/-! ## Primary phrases -/

/-- What is read behind a mark that opens a primary phrase. -/
theorem reads_primary_cons {q : Punct} {o : Token} {r rest : List Token} {p : Expr × Span}
    (ho : o.kind = .punct q) (h : Reads (parsePrimary stop (o :: r)) p rest) :
    (q = .leftParen ∧ ∃ k, Reads (parseConditional stop r) p.1 (k :: rest) ∧
      k.kind = .punct .rightParen) ∨
    (q = .leftBracket ∧ ∃ es, Reads (parseItems stop .rightBracket r) es rest) ∨
    (q = .leftBrace ∧ ∃ ms, Reads (parseMembers stop r) ms rest) := by
  have hkind {q' : Punct} (hq : o.kind = .punct q') : q = q' := by
    rw [ho] at hq
    cases hq
    rfl
  rcases reads_primary_iff.mp h with ⟨_, heq, -, hx⟩ | ⟨_, _, k, heq, ho', ha, hk, -⟩ |
    ⟨_, _, es, heq, ho', hes, -⟩ | ⟨_, _, ms, heq, ho', hms, -⟩
  · cases heq
    rcases hx with ⟨_, hx, -⟩ | ⟨_, hx, -⟩ | ⟨_, hx, -⟩ <;> rw [ho] at hx <;> cases hx
  · cases heq
    exact Or.inl ⟨hkind ho', k, ha, hk⟩
  · cases heq
    exact Or.inr (Or.inl ⟨hkind ho', _, hes⟩)
  · cases heq
    exact Or.inr (Or.inr ⟨hkind ho', _, hms⟩)

private theorem primaryStops_of
    (hgroup : ∀ o ∈ ts.head?, o.kind = .punct .leftParen →
      Stops stop (parseConditional stop) (Begins .conditional) ts.tail)
    (harray : ∀ o ∈ ts.head?, o.kind = .punct .leftBracket →
      Stops stop (parseItems stop .rightBracket) (Begins .items) ts.tail)
    (hobject : ∀ o ∈ ts.head?, o.kind = .punct .leftBrace →
      Stops stop (parseMembers stop) (Begins .members) ts.tail) :
    Stops stop (parsePrimary stop) (Begins .primary) ts := by
  intro err h
  -- nothing that begins an operand; or the error is inside of parentheses, brackets or braces
  rcases failure_primary h with ⟨rfl, hno⟩ | ⟨o, r, rfl, ho, hfail⟩ | ⟨o, r, rfl, ho, hfail⟩ |
    ⟨o, r, rfl, ho, hfail⟩
  · refine ⟨[], ts, _, rfl, rfl, ⟨[anyName], _, by simp [completing, anyName], .name rfl rfl⟩,
      fun hne rest' hhead p rest hread ↦ ?_⟩
    obtain ⟨t, r, rfl⟩ := List.exists_cons_of_ne_nil hne
    obtain ⟨r', rfl⟩ := List.head?_eq_some_iff.mp hhead
    rw [List.nil_append, hno t rfl r'] at hread
    exact not_reads_error hread
  · have hbegins (us : List Token) (hus : Begins .conditional us) : Begins .primary (o :: us) := by
      refine hus.wrap (fun xs ↦ o :: xs) [closing .rightParen] (by simp)
        (by simp [completing, closing]) fun vs p hvs ↦ ?_
      obtain ⟨e, rfl⟩ := hvs.exists_expr rfl
      exact ⟨_, .group ho hvs rfl⟩
    rcases hfail with hfail | ⟨a, r₁, ha, hno, rfl⟩
    · refine (hgroup o rfl ho err hfail).behind (fun xs ↦ o :: xs) (by simp) hbegins
        fun ts' _ hrefuses p rest hread ↦ ?_
      rcases reads_primary_cons ho hread with ⟨-, k, ha, -⟩ | ⟨heq, -⟩ | ⟨heq, -⟩
      · exact hrefuses _ _ ha
      all_goals cases heq
    · refine .missing (readsBefore_conditional ha) hno (fun xs ↦ o :: xs) (by simp) hbegins
        fun ts' hmissing p rest hread ↦ ?_
      rcases reads_primary_cons ho hread with ⟨-, k, ha', hk⟩ | ⟨heq, -⟩ | ⟨heq, -⟩
      · exact hmissing p.1 k rest ha' hk
      all_goals cases heq
  · refine (harray o rfl ho err hfail).behind (fun xs ↦ o :: xs) (by simp)
      (fun us hus ↦ ?_) fun ts' _ hrefuses p rest hread ↦ ?_
    · refine hus.wrap (fun xs ↦ o :: xs) [closing .rightBracket] (by simp)
        (by simp [completing, closing]) fun vs p hvs ↦ ?_
      obtain ⟨es, rfl⟩ := hvs.exists_items
      exact ⟨_, .array ho hvs rfl⟩
    · rcases reads_primary_cons ho hread with ⟨heq, -⟩ | ⟨-, es, hes⟩ | ⟨heq, -⟩
      · cases heq
      · exact hrefuses _ _ hes
      · cases heq
  · refine (hobject o rfl ho err hfail).behind (fun xs ↦ o :: xs) (by simp)
      (fun us hus ↦ ?_) fun ts' _ hrefuses p rest hread ↦ ?_
    · refine hus.wrap (fun xs ↦ o :: xs) [closing .rightBrace] (by simp)
        (by simp [completing, closing]) fun vs p hvs ↦ ?_
      obtain ⟨ms, rfl⟩ := hvs.exists_members
      exact ⟨_, .object ho hvs rfl⟩
    · rcases reads_primary_cons ho hread with ⟨heq, -⟩ | ⟨heq, -⟩ | ⟨-, ms, hms⟩
      · cases heq
      · cases heq
      · exact hrefuses _ _ hms

/-! ## The parser stops as soon as it can -/

private theorem parser_stops (stop : Nat) :
    (∀ ts, Stops stop (parseConditional stop) (Begins .conditional) ts) ∧
      (∀ l ts, Stops stop (parseLevel stop l) (Begins (.level l)) ts) ∧
      (∀ l a ts, Stops stop (parseOperators stop l a) (Extends (.level l)) ts) ∧
      (∀ l ts, Stops stop (parseOperand stop l) (Begins l.operand) ts) ∧
      (∀ ts, Stops stop (parseUnary stop) (Begins .unary) ts) ∧
      (∀ ts, Stops stop (parsePostfix stop) (Begins .applied) ts) ∧
      (∀ first a last ts, Stops stop (parseApplied stop first a last) (Extends .applied) ts) ∧
      (∀ close ts, Stops stop (parseItems stop close) (Begins .items) ts) ∧
      (∀ ts, Stops stop (parsePrimary stop) (Begins .primary) ts) ∧
      (∀ ts, Stops stop (parseMembers stop) (Begins .members) ts) ∧
      ∀ ts, Stops stop (parseMember stop) (Begins .member) ts := by
  apply parseConditional.mutual_induct stop
    (fun ts ↦ Stops stop (parseConditional stop) (Begins .conditional) ts)
    (fun l ts ↦ Stops stop (parseLevel stop l) (Begins (.level l)) ts)
    (fun l a ts ↦ Stops stop (parseOperators stop l a) (Extends (.level l)) ts)
    (fun l ts ↦ Stops stop (parseOperand stop l) (Begins l.operand) ts)
    (fun ts ↦ Stops stop (parseUnary stop) (Begins .unary) ts)
    (fun ts ↦ Stops stop (parsePostfix stop) (Begins .applied) ts)
    (fun first a last ts ↦ Stops stop (parseApplied stop first a last) (Extends .applied) ts)
    (fun close ts ↦ Stops stop (parseItems stop close) (Begins .items) ts)
    (fun ts ↦ Stops stop (parsePrimary stop) (Begins .primary) ts)
    (fun ts ↦ Stops stop (parseMembers stop) (Begins .members) ts)
    (fun ts ↦ Stops stop (parseMember stop) (Begins .member) ts)
  -- conditionals and levels
  case case1 =>
    intro ts ihtest ihthen ihelse
    refine conditionalStops_of ihtest (fun c q r hc ↦ ihthen _ hc.length_lt _ (by simp)) ?_
    intro c q r a k r₁ hc ha
    exact ihelse _ hc.length_lt _ (by simp) _ ha.length_lt _ (by simp)
  case case2 =>
    intro l ts ihoperand ihmore
    exact levelStops_of ihoperand fun a r ha ↦ ihmore a r ha.length_lt
  -- operators and operands: at the end, at another token, at an operator
  case case3 => exact fun l a ↦ operatorsStops_of (by simp)
  case case4 => exact fun l a t r hop ↦ operatorsStops_of (by simp [hop])
  case case5 =>
    intro l a t r op hop ihoperand ihmore
    refine operatorsStops_of fun _ ht op' hop' ↦ ?_
    cases ht
    rw [hop] at hop'
    cases hop'
    exact ⟨ihoperand, fun b r₁ hb ↦ ihmore b r₁ hb.length_lt⟩
  case case6 =>
    intro l ts m hm ih
    have hsame : parseOperand stop l = parseLevel stop m :=
      funext fun ts ↦ parseOperand_of_tighter hm
    rw [hsame, Level.operand_of_tighter hm]
    exact ih
  case case7 =>
    intro l ts hl ih
    have hsame : parseOperand stop l = parseUnary stop :=
      funext fun ts ↦ parseOperand_of_tightest hl
    rw [hsame, Level.operand, hl]
    exact ih
  case case8 => exact fun ih ↦ unaryStops_of (fun _ ↦ ih) (by simp)
  case case9 => exact fun t r hop ih ↦ unaryStops_of (fun _ ↦ ih) (by simp [hop])
  case case10 =>
    intro t r op hop ih
    refine unaryStops_of (fun hno ↦ ?_) fun _ _ _ _ ↦ ih
    rw [hno t rfl] at hop
    cases hop
  case case11 =>
    intro ts ihprimary ihmore
    exact postfixStops_of ihprimary fun a last r ha ↦ ihmore a last r ha.length_lt
  -- what is applied: at the end, a dot with a name and without one, a bracket, a parenthesis
  case case12 => exact fun first a last ↦ appliedStops_of (by simp) (by simp) (by simp)
  case case13 =>
    intro first a last d hd property span r ih
    refine appliedStops_of (fun _ _ _ n _ _ heq hn ↦ ?_) (by simp [hd]) (by simp [hd])
    cases heq
    cases hn
    exact ih
  case case14 =>
    intro first a last d hd r hno
    refine appliedStops_of (fun _ _ _ n property _ heq hn ↦ ?_) (by simp [hd]) (by simp [hd])
    cases heq
    obtain ⟨kind, span⟩ := n
    cases hn
    exact absurd rfl (hno property span _)
  case case15 =>
    intro first a last o r ho ihkey ihmore
    refine appliedStops_of (by simp [ho]) (fun _ _ _ ↦ ?_) (by simp [ho])
    exact ⟨ihkey, fun k c r₁ hk ↦ ihmore k _ hk.length_lt c.span r₁ (by simp)⟩
  case case16 =>
    intro first a last o r ho ihitems ihmore
    refine appliedStops_of (by simp [ho]) (by simp [ho]) fun _ _ _ ↦ ?_
    exact ⟨ihitems, fun es close r₁ hes ↦ ihmore es close r₁ hes.length_lt⟩
  case case17 =>
    intro first a last t r hdot hbracket hparen
    exact appliedStops_of (by simp_all) (by simp_all) (by simp_all)
  case case18 =>
    intro close ts s r hr heat
    obtain ⟨t, rfl, ht, -⟩ := eat_eq_some_iff.mp heat
    intro err h
    exact absurd ⟨t, r, rfl, ht⟩ (failure_items h).1
  case case19 =>
    intro close ts hno ihitem ihmore
    exact itemsStops_of (fun _ ↦ ihitem) fun a k r ha ↦ ihmore _ ha.length_lt r (by simp)
  -- a token that opens no bracket is read alone, if at all
  case case20 | case21 | case22 | case23 | case24 | case28 =>
    intros
    exact primaryStops_of (by simp_all) (by simp_all) (by simp_all)
  case case25 =>
    exact fun t r ho ih ↦ primaryStops_of (fun _ _ _ ↦ ih) (by simp [ho]) (by simp [ho])
  case case26 =>
    exact fun t r ho ih ↦ primaryStops_of (by simp [ho]) (fun _ _ _ ↦ ih) (by simp [ho])
  case case27 => exact fun t r ho ih ↦ primaryStops_of (by simp [ho]) (by simp [ho]) fun _ _ _ ↦ ih
  case case29 =>
    intro ts s r hr heat
    obtain ⟨t, rfl, ht, -⟩ := eat_eq_some_iff.mp heat
    intro err h
    exact absurd ⟨t, r, rfl, ht⟩ (failure_members h).1
  case case30 =>
    intro ts hno ihmember ihmore
    exact membersStops_of (fun _ ↦ ihmember) fun m k r hm ↦ ihmore _ hm.length_lt r (by simp)
  case case31 => exact memberStops_of (by simp)
  case case32 =>
    intro t r hno
    refine memberStops_of fun _ _ _ _ _ heq hkey _ ↦ ?_
    cases heq
    rw [hno] at hkey
    cases hkey
  case case33 =>
    intro t r key isName hkey s r₁ hr heat ih
    obtain ⟨c, rfl, -, -⟩ := eat_eq_some_iff.mp heat
    refine memberStops_of fun _ _ _ _ _ heq _ _ ↦ ?_
    cases heq
    exact ih
  case case34 =>
    intro t r key hno _
    refine memberStops_of fun _ c r' _ _ heq _ hc ↦ ?_
    cases heq
    exact absurd ⟨c, r', rfl, hc⟩ (eat_eq_none_iff.mp hno)
  case case35 =>
    intro t r key _ _ hno _
    refine memberStops_of fun _ c r' _ _ heq _ hc ↦ ?_
    cases heq
    exact absurd ⟨c, r', rfl, hc⟩ (eat_eq_none_iff.mp hno)

/-- **The parser fails as soon as it can.** The tokens before an error begin an expression, and no
expression begins with these and the token at the error. -/
theorem stopsAt_of_ofTokens {lexed : Lexed} (h : ofTokens lexed = .error err) :
    StopsAt lexed.stop (Begins .conditional) (fun ts ↦ ∀ p, ¬Derives .conditional ts p)
      lexed.tokens err := by
  have hwhole {ts p} (hts : Derives .conditional ts p) :
      ∃ e, Reads (parseConditional lexed.stop ts) e [] := by
    obtain ⟨e, rfl⟩ := hts.exists_expr rfl
    have hparses : ParsesAs lexed.stop ts .conditional (.expr e) := hts.parsesAs
    have hread := hparses [] (Category.endsBefore_nil _)
    rw [List.append_nil] at hread
    exact ⟨e, hread⟩
  unfold ofTokens at h
  rcases bind_eq_error_iff.mp h with hfail | ⟨⟨e, rest, hlt⟩, hread, hfail⟩
  · refine ((parser_stops lexed.stop).1 lexed.tokens err hfail).imp (fun us hus ↦ hus)
      fun ts' _ hrefuses p hts ↦ ?_
    obtain ⟨e, hread⟩ := hwhole hts
    exact hrefuses e [] hread
  · obtain ⟨us, htokens, hus, hsame⟩ := readsBefore_conditional ⟨hlt, hread⟩
    rcases rest with _ | ⟨t, rest⟩
    · cases hfail
    · refine ⟨us, t :: rest, .endOfInput, htokens, (Except.error.inj hfail).symm, hus.begins,
        fun _ rest' hhead p hts ↦ ?_⟩
      -- the parser reads what it has read before, and leaves the same token
      obtain ⟨e', hread'⟩ := hwhole hts
      obtain ⟨-, rfl⟩ := (hsame rest' hhead).unique hread'
      cases hhead

end HtmlTemplate.Expr
