import HtmlTemplate.Proofs.Expr.Completeness
import HtmlTemplate.Proofs.Expr.Nesting

/-!
# The grammar is unambiguous

What a list of tokens stands for is what the parser reads in it, and the parser reads one thing
only. So the tokens of a phrase stand for one thing (`Derives.unique`), and the trees of the grammar
are the trees of the parser.

The grammar names its operators through the tables of the parser. They are the operators of each
level, as these are written: `Level.operators` lists the levels from the side of the operators.

## From completeness to uniqueness

The function of a category is a function, and a phrase with nothing behind it is read by it as what
the phrase stands for. So two derivations from the same tokens stand for the same, whatever their
last steps are, and no comparison of derivations is needed.
-/

namespace HtmlTemplate.Expr

/-! ## Operators as they are written -/

def Level.operators : Level → List Operator
  | or => [.logical .or, .logical .nullish]
  | and => [.logical .and]
  | equality => [.binary .equal, .binary .notEqual, .binary .identical, .binary .notIdentical]
  | relational =>
    [.binary .less, .binary .greater, .binary .lessEq, .binary .greaterEq, .binary .isIn]
  | additive => [.binary .add, .binary .sub]
  | multiplicative => [.binary .mul, .binary .div, .binary .rem]

def Operator.text : Operator → String
  | binary op => op.text
  | logical op => op.text

/-- The token that an operator is written as: a mark, or a word where no mark is written so. -/
def Token.Kind.written (text : String) : Token.Kind :=
  match Punct.all.find? fun p ↦ p.text == text with
  | some p => .punct p
  | none => .name text

private theorem operator?_written {l : Level} {op : Operator} (h : op ∈ l.operators) :
    l.operator? (.written op.text) = some op := by
  cases l <;> simp only [Level.operators, List.mem_cons, List.not_mem_nil, or_false] at h
  case or => rcases h with rfl | rfl <;> rfl
  case and => subst h; rfl
  case equality => rcases h with rfl | rfl | rfl | rfl <;> rfl
  case relational => rcases h with rfl | rfl | rfl | rfl | rfl <;> rfl
  case additive => rcases h with rfl | rfl <;> rfl
  case multiplicative => rcases h with rfl | rfl | rfl <;> rfl

/-- The infix operators are those of their levels, each as it is written. -/
theorem operator?_eq_some_iff {l : Level} {k : Token.Kind} {op : Operator} :
    l.operator? k = some op ↔ op ∈ l.operators ∧ k = .written op.text := by
  constructor
  · intro h
    unfold Level.operator? at h
    split at h <;> first
      | (cases h; done)
      | (cases h; exact ⟨by decide, rfl⟩)
      | skip
    split_ifs at h with hin
    subst hin
    cases h
    exact ⟨by decide, rfl⟩
  · rintro ⟨hop, rfl⟩
    exact operator?_written hop

theorem prefixOperator?_eq_some_iff {k : Token.Kind} {op : UnaryOp} :
    prefixOperator? k = some op ↔ k = .written op.text := by
  constructor
  · intro h
    unfold prefixOperator? at h
    split at h <;> first
      | (cases h; done)
      | (cases h; rfl)
      | skip
    split_ifs at h with htypeof
    subst htypeof
    cases h
    rfl
  · rintro rfl
    cases op <;> rfl

/-- Every name is an expression, but for the two words that are operators. -/
theorem exists_ofName_iff {text : String} {span : Span} :
    (∃ e, ofName text span = some e) ↔ text ≠ "in" ∧ text ≠ "typeof" := by
  constructor
  · rintro ⟨e, he⟩
    constructor
    · rintro rfl
      cases he
    · rintro rfl
      cases he
  · rintro ⟨hin, htypeof⟩
    unfold ofName
    split_ifs with _ _ _ _ hword
    · exact ⟨_, rfl⟩
    · exact ⟨_, rfl⟩
    · exact ⟨_, rfl⟩
    · exact ⟨_, rfl⟩
    · exact absurd hword (not_or.mpr ⟨hin, htypeof⟩)
    · exact ⟨_, rfl⟩

/-- Only a name can be a member of an object without a value. -/
theorem objectKey?_eq_some_true_iff {k : Token.Kind} {key : String} :
    objectKey? k = some (key, true) ↔ k = .name key := by
  cases k <;> simp [objectKey?]

/-! ## One tree for the tokens of a phrase

A phrase of a category stands for an expression, for items, for members or for a member, and which
of them the category says. -/

variable {c : Category} {ts : List Token} {p q : Phrase}

theorem Derives.exists_expr (h : Derives c ts p) (hc : c.isExpression = true) :
    ∃ e, p = .expr e := by
  cases h <;> first | exact ⟨_, rfl⟩ | cases hc

theorem Derives.exists_items (h : Derives .items ts p) : ∃ es, p = .items es := by
  cases h <;> exact ⟨_, rfl⟩

theorem Derives.exists_members (h : Derives .members ts p) : ∃ ms, p = .members ms := by
  cases h <;> exact ⟨_, rfl⟩

theorem Derives.exists_member (h : Derives .member ts p) : ∃ m, p = .member m := by
  cases h <;> exact ⟨_, rfl⟩

def closing (p : Punct) : Token := ⟨.punct p, 0, 0⟩

/-- **The grammar is unambiguous**: what a list of tokens stands for as a phrase of a category is
what the function of the category reads in it. -/
theorem Derives.unique (hp : Derives c ts p) (hq : Derives c ts q) : p = q := by
  have hreadp : ParsesAs 0 ts c p := hp.parsesAs
  have hreadq : ParsesAs 0 ts c q := hq.parsesAs
  cases c with
  | conditional =>
    obtain ⟨a, rfl⟩ := hp.exists_expr rfl
    obtain ⟨b, rfl⟩ := hq.exists_expr rfl
    have hend := Category.endsBefore_nil .conditional
    exact congrArg Phrase.expr ((hreadp [] hend).unique (hreadq [] hend)).1
  | level l =>
    obtain ⟨a, rfl⟩ := hp.exists_expr rfl
    obtain ⟨b, rfl⟩ := hq.exists_expr rfl
    have hend := Category.endsBefore_nil (.level l)
    exact congrArg Phrase.expr ((hreadp.level hend).unique (hreadq.level hend)).1
  | unary =>
    obtain ⟨a, rfl⟩ := hp.exists_expr rfl
    obtain ⟨b, rfl⟩ := hq.exists_expr rfl
    have hend := Category.endsBefore_nil .unary
    exact congrArg Phrase.expr ((hreadp [] hend).unique (hreadq [] hend)).1
  | applied =>
    obtain ⟨a, rfl⟩ := hp.exists_expr rfl
    obtain ⟨b, rfl⟩ := hq.exists_expr rfl
    -- with nothing behind the phrase, nothing more is applied to it
    have hend (first last : Span) (e : Expr) : Reads (parseApplied 0 first e last []) e [] :=
      reads_applied_iff.mpr (Or.inl ⟨by simp, rfl, rfl⟩)
    exact congrArg Phrase.expr
      ((hreadp [] a [] (hend _ _ a)).unique (hreadq [] b [] (hend _ _ b))).1
  | primary =>
    obtain ⟨a, rfl⟩ := hp.exists_expr rfl
    obtain ⟨b, rfl⟩ := hq.exists_expr rfl
    exact congrArg Phrase.expr (Prod.mk.inj ((hreadp []).unique (hreadq [])).1).1
  | items =>
    obtain ⟨as, rfl⟩ := hp.exists_items
    obtain ⟨bs, rfl⟩ := hq.exists_items
    have hread := (hreadp .rightParen (closing .rightParen) [] rfl rfl (by decide)).unique
      (hreadq .rightParen (closing .rightParen) [] rfl rfl (by decide))
    exact congrArg Phrase.items (Prod.mk.inj hread.1).1
  | members =>
    obtain ⟨as, rfl⟩ := hp.exists_members
    obtain ⟨bs, rfl⟩ := hq.exists_members
    have hread := (hreadp (closing .rightBrace) [] rfl).unique
      (hreadq (closing .rightBrace) [] rfl)
    exact congrArg Phrase.members (Prod.mk.inj hread.1).1
  | member =>
    obtain ⟨a, rfl⟩ := hp.exists_member
    obtain ⟨b, rfl⟩ := hq.exists_member
    have hend := Category.endsBefore_nil .conditional
    have hcolon : ¬IsAt .colon [] := by
      rintro ⟨_, _, h, _⟩
      cases h
    exact congrArg Phrase.member ((hreadp [] hend hcolon).unique (hreadq [] hend hcolon)).1

/-! ## Sources -/

/-- **The parser accepts exactly the expressions of the grammar.** A source is read as an expression
if and only if it has tokens and they are an expression, and then as the tree that they stand for.
There is no other: no tokens are a phrase of a category for two things. The operators in the grammar
are the prefix operators and the infix operators of the levels, each as it is written; the names in
it are all but the two words among these, and only a name abbreviates a member of an object. -/
theorem parse_eq_ok_iff_derives :
    (∀ (source : String) (e : Expr), parse source = .ok e ↔
      ∃ lexed, tokenize source = .ok lexed ∧ Derives .conditional lexed.tokens (.expr e)) ∧
    (∀ (c : Category) (ts : List Token) (p q : Phrase),
      Derives c ts p → Derives c ts q → p = q) ∧
    (∀ (l : Level) (k : Token.Kind) (op : Operator),
      l.operator? k = some op ↔ op ∈ l.operators ∧ k = .written op.text) ∧
    (∀ (k : Token.Kind) (op : UnaryOp), prefixOperator? k = some op ↔ k = .written op.text) ∧
    (∀ (text : String) (span : Span),
      (∃ e, ofName text span = some e) ↔ text ≠ "in" ∧ text ≠ "typeof") ∧
    ∀ (k : Token.Kind) (key : String), objectKey? k = some (key, true) ↔ k = .name key := by
  exact ⟨fun _ _ ↦ parse_eq_ok_iff_exists, fun _ _ _ _ ↦ Derives.unique,
    fun _ _ _ ↦ operator?_eq_some_iff, fun _ _ ↦ prefixOperator?_eq_some_iff,
    fun _ _ ↦ exists_ofName_iff, fun _ _ ↦ objectKey?_eq_some_true_iff⟩

/-- Operators of one level associate to the left. -/
theorem parse_eq_ok_iff_derives_minus : parse "a-b-c" =
    .ok (.binary .sub (.binary .sub (.name "a" ⟨0, 1⟩) (.name "b" ⟨2, 3⟩)) (.name "c" ⟨4, 5⟩)) := by
  have hminus (s : List Char) : scanToken '-' s = .ok (.punct .minus, s) :=
    scanToken_of_inFront? (by decide) rfl
  have htokens : tokenize "a-b-c" = .ok ⟨[⟨.name "a", 0, 1⟩, ⟨.punct .minus, 1, 2⟩,
      ⟨.name "b", 2, 3⟩, ⟨.punct .minus, 3, 4⟩, ⟨.name "c", 4, 5⟩], 5⟩ := by
    have ha : scanToken 'a' ['-', 'b', '-', 'c'] = .ok (.name "a", ['-', 'b', '-', 'c']) := rfl
    have hb : scanToken 'b' ['-', 'c'] = .ok (.name "b", ['-', 'c']) := rfl
    have hc : scanToken 'c' [] = .ok (.name "c", []) := rfl
    rw [tokenize, tokensFrom_of_token 0 (s := "a-b-c".toList) rfl ha,
      tokensFrom_of_token _ rfl (hminus _), tokensFrom_of_token _ rfl hb,
      tokensFrom_of_token _ rfl (hminus _), tokensFrom_of_token _ rfl hc, tokensFrom_of_blank _ rfl]
    rfl
  have ha : Derives (.level .additive) [⟨.name "a", 0, 1⟩] (.expr (.name "a" ⟨0, 1⟩)) :=
    .of_ofName rfl
  have hb : Derives (.level .multiplicative) [⟨.name "b", 2, 3⟩] (.expr (.name "b" ⟨2, 3⟩)) :=
    .of_ofName rfl
  have hc : Derives (.level .multiplicative) [⟨.name "c", 4, 5⟩] (.expr (.name "c" ⟨4, 5⟩)) :=
    .of_ofName rfl
  have hop (span : Span) : Level.additive.operator? (Token.mk (.punct .minus) span).kind =
      some (.binary .sub) := rfl
  have hdifference := Derives.operation (l := .additive) (.operation ha (hop ⟨1, 2⟩) hb)
    (hop ⟨3, 4⟩) hc
  exact (parse_eq_ok_iff_derives.1 _ _).mpr
    ⟨_, htokens, .test (hdifference.loosen (l := .or) (by decide))⟩

end HtmlTemplate.Expr
