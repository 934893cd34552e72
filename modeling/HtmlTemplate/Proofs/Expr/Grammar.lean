import HtmlTemplate.Expr.Parser
import HtmlTemplate.Proofs.Expr.Tokens
import Mathlib.Data.List.Basic

/-!
# The grammar of expressions

Which lists of tokens are expressions, and of which tree, said without a parser: a phrase of a
category is put together from phrases of the same category or a tighter one. The tree is the one
with the spans, so that a derivation also says which part of the source a message may quote.

Infix operators associate to the left because the phrase on the left is of the level itself and the
one on the right is of the next tighter category (`Level.operand`).

## Spans

A call keeps the span of its callee, and the span of a phrase covers its first and its last token
(`spanOf`). The parser carries both along as it reads. The grammar need not, since a derivation has
the tokens of each part.
-/

namespace HtmlTemplate.Expr

/-- The categories of phrases. -/
inductive Category where
  | conditional
  | level (l : Level)
  | unary
  | applied
  | primary
  /-- Expressions between commas, of a call or an array. -/
  | items
  /-- Members of an object between commas. -/
  | members
  | member
deriving DecidableEq

/-- What a phrase stands for. -/
inductive Phrase where
  | expr (e : Expr)
  | items (es : List Expr)
  | members (ms : List ObjectMember)
  | member (m : ObjectMember)

/-- The category of an operand of a level. -/
def Level.operand (l : Level) : Category :=
  match l.tighter with
  | some m => .level m
  | none => .unary

def firstSpan (ts : List Token) : Span := ts.head?.elim default Token.span

def lastSpan (ts : List Token) : Span := ts.getLast?.elim default Token.span

def spanOf (ts : List Token) : Span := (firstSpan ts).cover (lastSpan ts)

theorem firstSpan_append {ts : List Token} (h : ts ≠ []) (us : List Token) :
    firstSpan (ts ++ us) = firstSpan ts := by
  rw [firstSpan, List.head?_append_of_ne_nil ts h, firstSpan]

theorem lastSpan_append (ts : List Token) {us : List Token} (h : us ≠ []) :
    lastSpan (ts ++ us) = lastSpan us := by
  rw [lastSpan, List.getLast?_append_of_ne_nil ts h, lastSpan]

theorem lastSpan_cons_concat (o : Token) (ts : List Token) (c : Token) :
    lastSpan (o :: (ts ++ [c])) = c.span := by
  rw [lastSpan, ← List.cons_append, List.getLast?_concat, Option.elim_some]

/-- The tokens are a phrase of the category, and stand for it. -/
inductive Derives : Category → List Token → Phrase → Prop
  | test {ts e} : Derives (.level .or) ts (.expr e) → Derives .conditional ts (.expr e)
  | conditional {ts us vs q k c a b} : Derives (.level .or) ts (.expr c) →
      q.kind = .punct .question → Derives .conditional us (.expr a) →
      k.kind = .punct .colon → Derives .conditional vs (.expr b) →
      Derives .conditional (ts ++ q :: (us ++ k :: vs)) (.expr (.conditional c a b))
  | operand {l ts e} : Derives (Level.operand l) ts (.expr e) → Derives (.level l) ts (.expr e)
  | operation {l ts us t op a b} : Derives (.level l) ts (.expr a) →
      l.operator? t.kind = some op → Derives l.operand us (.expr b) →
      Derives (.level l) (ts ++ t :: us) (.expr (op.apply a b))
  | unprefixed {ts e} : Derives .applied ts (.expr e) → Derives .unary ts (.expr e)
  | prefixed {ts t op e} : prefixOperator? t.kind = some op → Derives .unary ts (.expr e) →
      Derives .unary (t :: ts) (.expr (.unary op e))
  | primary {ts e} : Derives .primary ts (.expr e) → Derives .applied ts (.expr e)
  | member {ts d n property e} : Derives .applied ts (.expr e) → d.kind = .punct .dot →
      n.kind = .name property → Derives .applied (ts ++ [d, n]) (.expr (.member e property))
  | index {ts us o c e k} : Derives .applied ts (.expr e) → o.kind = .punct .leftBracket →
      Derives .conditional us (.expr k) → c.kind = .punct .rightBracket →
      Derives .applied (ts ++ o :: (us ++ [c])) (.expr (.index e k))
  | call {ts us o c e es} : Derives .applied ts (.expr e) → o.kind = .punct .leftParen →
      Derives .items us (.items es) → c.kind = .punct .rightParen →
      Derives .applied (ts ++ o :: (us ++ [c])) (.expr (.call e es (spanOf ts)))
  | number {t x} : t.kind = .number x → Derives .primary [t] (.expr (.literal (.number x)))
  | string {t s} : t.kind = .string s → Derives .primary [t] (.expr (.literal (.string s)))
  | name {t text e} : t.kind = .name text → ofName text t.span = some e →
      Derives .primary [t] (.expr e)
  | group {ts o c e} : o.kind = .punct .leftParen → Derives .conditional ts (.expr e) →
      c.kind = .punct .rightParen → Derives .primary (o :: (ts ++ [c])) (.expr e)
  | array {ts o c es} : o.kind = .punct .leftBracket → Derives .items ts (.items es) →
      c.kind = .punct .rightBracket → Derives .primary (o :: (ts ++ [c])) (.expr (.array es))
  | object {ts o c ms} : o.kind = .punct .leftBrace → Derives .members ts (.members ms) →
      c.kind = .punct .rightBrace → Derives .primary (o :: (ts ++ [c])) (.expr (.object ms))
  | noItems : Derives .items [] (.items [])
  | lastItem {ts e} : Derives .conditional ts (.expr e) → Derives .items ts (.items [e])
  | item {ts us c e es} : Derives .conditional ts (.expr e) → c.kind = .punct .comma →
      Derives .items us (.items es) → Derives .items (ts ++ c :: us) (.items (e :: es))
  | noMembers : Derives .members [] (.members [])
  | lastMember {ts m} : Derives .member ts (.member m) → Derives .members ts (.members [m])
  | moreMembers {ts us c m ms} : Derives .member ts (.member m) → c.kind = .punct .comma →
      Derives .members us (.members ms) → Derives .members (ts ++ c :: us) (.members (m :: ms))
  | pair {ts t c key isName e} : objectKey? t.kind = some (key, isName) →
      c.kind = .punct .colon → Derives .conditional ts (.expr e) →
      Derives .member (t :: c :: ts) (.member (.pair key e))
  | shorthand {t key} : objectKey? t.kind = some (key, true) →
      Derives .member [t] (.member (.shorthand key t.span))

/-! ## Beginnings

Every phrase that is never empty begins with a token that neither closes nor separates anything. So
a mark that does begins no phrase, which is how lists end. -/

/-- Does the mark end or separate the phrases around it? -/
def Token.Kind.isClosing : Token.Kind → Bool
  | .punct .rightParen | .punct .rightBracket | .punct .rightBrace | .punct .comma => true
  | _ => false

def Category.isFull : Category → Bool
  | .items | .members => false
  | _ => true

theorem Level.isFull_operand (l : Level) : l.operand.isFull = true := by cases l <;> rfl

private theorem isClosing_of_prefixOperator? {k : Token.Kind} {op : UnaryOp}
    (h : prefixOperator? k = some op) : k.isClosing = false := by
  unfold prefixOperator? at h
  split at h <;> first | rfl | cases h

private theorem isClosing_of_objectKey? {k : Token.Kind} {p : String × Bool}
    (h : objectKey? k = some p) : k.isClosing = false := by
  unfold objectKey? at h
  split at h <;> first | rfl | cases h

theorem Derives.exists_cons {c : Category} {ts : List Token} {p : Phrase} (h : Derives c ts p)
    (hc : c.isFull = true) : ∃ t r, ts = t :: r ∧ t.kind.isClosing = false := by
  have hgrow {ts us : List Token} (h : ∃ t r, ts = t :: r ∧ t.kind.isClosing = false) :
      ∃ t r, ts ++ us = t :: r ∧ t.kind.isClosing = false := by
    obtain ⟨t, r, rfl, ht⟩ := h
    exact ⟨t, r ++ us, rfl, ht⟩
  induction h with
  | test _ ih => exact ih rfl
  | conditional _ _ _ _ _ ih => exact hgrow (ih rfl)
  | operand _ ih => exact ih (Level.isFull_operand _)
  | operation _ _ _ ih => exact hgrow (ih rfl)
  | unprefixed _ ih => exact ih rfl
  | prefixed hop => exact ⟨_, _, rfl, isClosing_of_prefixOperator? hop⟩
  | primary _ ih => exact ih rfl
  | member _ _ _ ih => exact hgrow (ih rfl)
  | index _ _ _ _ ih => exact hgrow (ih rfl)
  | call _ _ _ _ ih => exact hgrow (ih rfl)
  | number ht => exact ⟨_, _, rfl, by rw [ht]; rfl⟩
  | string ht => exact ⟨_, _, rfl, by rw [ht]; rfl⟩
  | name ht => exact ⟨_, _, rfl, by rw [ht]; rfl⟩
  | group ho => exact ⟨_, _, rfl, by rw [ho]; rfl⟩
  | array ho => exact ⟨_, _, rfl, by rw [ho]; rfl⟩
  | object ho => exact ⟨_, _, rfl, by rw [ho]; rfl⟩
  | noItems => cases hc
  | lastItem => cases hc
  | item => cases hc
  | noMembers => cases hc
  | lastMember => cases hc
  | moreMembers => cases hc
  | pair hkey => exact ⟨_, _, rfl, isClosing_of_objectKey? hkey⟩
  | shorthand hkey => exact ⟨_, _, rfl, isClosing_of_objectKey? hkey⟩

theorem Derives.ne_nil {c : Category} {ts : List Token} {p : Phrase} (h : Derives c ts p)
    (hc : c.isFull = true) : ts ≠ [] := by
  obtain ⟨t, r, rfl, -⟩ := h.exists_cons hc
  exact List.cons_ne_nil t r

/-! ## Levels

The levels are ordered by how tightly their operators bind. A phrase of a level is one of every
looser level, with nothing written around it. -/

theorem Level.operand_of_tighter {l m : Level} (h : l.tighter = some m) : l.operand = .level m := by
  rw [operand, h]

theorem Derives.loosen {l m : Level} {ts : List Token} {e : Expr}
    (h : Derives (.level m) ts (.expr e)) (hm : m.height ≤ l.height) :
    Derives (.level l) ts (.expr e) := by
  cases l <;> cases m <;> first
    | exact h
    | exact absurd hm (by decide)
    | exact .operand h
    | exact .operand (.operand h)
    | exact .operand (.operand (.operand h))
    | exact .operand (.operand (.operand (.operand h)))
    | exact .operand (.operand (.operand (.operand (.operand h))))

theorem Derives.conditional_of_applied {ts : List Token} {e : Expr}
    (h : Derives .applied ts (.expr e)) : Derives .conditional ts (.expr e) :=
  .test ((Derives.operand (l := .multiplicative) (.unprefixed h)).loosen (by decide))

/-- A name that is an expression is one of every level. -/
theorem Derives.of_ofName {text : String} {span : Span} {l : Level} {e : Expr}
    (h : ofName text span = some e) : Derives (.level l) [⟨.name text, span⟩] (.expr e) :=
  Derives.loosen (m := .multiplicative) (.operand (.unprefixed (.primary (.name rfl h))))
    l.height_pos

end HtmlTemplate.Expr
