import HtmlTemplate.Expr.Parser
import HtmlTemplate.Outcome
import Mathlib.Tactic.Common

/-!
# The steps of the parser

What each function of the parser reads, in terms of what the functions that it calls read. A result
is `Reads` when it is a value with the tokens behind it; the bound that comes with it is left out,
so that results under different bounds compare. Every step is an equivalence: soundness reads it
from left to right, completeness from right to left.

## Why equivalences

A proof about the parser never unfolds one of its functions: it rewrites with the step of the
function, and is left with what the calls in it have read. The same equation serves for what a
function reads, for that it reads nothing, and for that it reads only one thing (`Reads.unique`).
-/

namespace HtmlTemplate.Expr

/-- The result is a value, with these tokens behind it. -/
def Reads {α : Type} {n : Nat} (result : Except SyntaxError (Parsed α n)) (a : α)
    (rest : List Token) : Prop :=
  ∃ h, result = .ok ⟨a, rest, h⟩

def IsAt (p : Punct) (ts : List Token) : Prop := ∃ t r, ts = t :: r ∧ t.kind = .punct p

variable {α β : Type} {n m : Nat}

theorem Reads.length_lt {result : Except SyntaxError (Parsed α n)} {a : α} {rest : List Token}
    (h : Reads result a rest) : rest.length < n := h.1

theorem Reads.unique {result : Except SyntaxError (Parsed α n)} {a b : α} {r s : List Token}
    (h : Reads result a r) (h' : Reads result b s) : a = b ∧ r = s := by
  obtain ⟨_, rfl⟩ := h
  obtain ⟨_, heq⟩ := h'
  cases heq
  exact ⟨rfl, rfl⟩

theorem reads_ok_iff {p : Parsed α n} {b : α} {s : List Token} :
    Reads (.ok p) b s ↔ b = p.value ∧ s = p.rest := by
  constructor
  · rintro ⟨_, heq⟩
    cases heq
    exact ⟨rfl, rfl⟩
  · rintro ⟨rfl, rfl⟩
    exact ⟨p.length_lt, rfl⟩

theorem not_reads_error {e : SyntaxError} {b : α} {s : List Token} :
    ¬Reads (.error e : Except SyntaxError (Parsed α n)) b s := by
  rintro ⟨_, heq⟩
  cases heq

theorem reads_bind_iff {x : Except SyntaxError (Parsed α m)}
    {f : Parsed α m → Except SyntaxError (Parsed β n)} {b : β} {s : List Token} :
    Reads (x >>= f) b s ↔ ∃ a r h, x = .ok ⟨a, r, h⟩ ∧ Reads (f ⟨a, r, h⟩) b s := by
  rcases x with e | ⟨a, r, h⟩
  · exact ⟨fun h ↦ absurd h not_reads_error, by rintro ⟨_, _, _, heq, _⟩; cases heq⟩
  · constructor
    · exact fun hb ↦ ⟨a, r, h, rfl, hb⟩
    · rintro ⟨_, _, _, heq, hb⟩
      cases heq
      exact hb

/-! ## Punctuators

What is demanded and what is only taken if it is there are the two ways in which a punctuator is
read. -/

theorem eat_eq_some_iff {p : Punct} {ts r : List Token} {s : Span} {h : r.length < ts.length} :
    eat p ts = some ⟨s, r, h⟩ ↔ ∃ t, ts = t :: r ∧ t.kind = .punct p ∧ s = t.span := by
  rcases ts with _ | ⟨t, ts⟩
  · exact absurd h (Nat.not_lt_zero _)
  · simp only [eat]
    split
    · rename_i q hq
      split_ifs with hqp
      · subst hqp
        constructor
        · intro heq
          cases heq
          exact ⟨t, rfl, hq, rfl⟩
        · rintro ⟨u, heq, _, rfl⟩
          cases heq
          rfl
      · constructor
        · intro heq
          cases heq
        · rintro ⟨u, heq, hu, _⟩
          cases heq
          rw [hq] at hu
          cases hu
          exact absurd rfl hqp
    · rename_i hno
      constructor
      · intro heq
        cases heq
      · rintro ⟨u, heq, hu, _⟩
        cases heq
        exact absurd hu (hno p)

theorem eat_eq_none_iff {p : Punct} {ts : List Token} : eat p ts = none ↔ ¬IsAt p ts := by
  constructor
  · rintro h ⟨t, r, rfl, ht⟩
    rw [(eat_eq_some_iff (h := by simp)).mpr ⟨t, rfl, ht, rfl⟩] at h
    cases h
  · intro h
    rcases heat : eat p ts with _ | ⟨s, r, hr⟩
    · rfl
    · obtain ⟨t, rfl, ht, -⟩ := eat_eq_some_iff.mp heat
      exact absurd ⟨t, r, rfl, ht⟩ h

theorem reads_expect_iff {stop : Nat} {p : Punct} {ts r : List Token} {s : Span} :
    Reads (expect stop p ts) s r ↔ ∃ t, ts = t :: r ∧ t.kind = .punct p ∧ s = t.span := by
  unfold expect
  rcases heat : eat p ts with _ | ⟨s', r', h'⟩
  · refine ⟨fun h ↦ absurd h not_reads_error, ?_⟩
    rintro ⟨t, rfl, ht, -⟩
    exact absurd ⟨t, r, rfl, ht⟩ (eat_eq_none_iff.mp heat)
  · dsimp only
    rw [reads_ok_iff]
    obtain ⟨t, rfl, ht, rfl⟩ := eat_eq_some_iff.mp heat
    constructor
    · rintro ⟨rfl, rfl⟩
      exact ⟨t, rfl, ht, rfl⟩
    · rintro ⟨u, heq, -, rfl⟩
      cases heq
      exact ⟨rfl, rfl⟩

/-! ## The functions of the parser -/

variable {stop : Nat} {ts rest : List Token} {e : Expr}

theorem reads_conditional_iff :
    Reads (parseConditional stop ts) e rest ↔
      ∃ c r, Reads (parseLevel stop .or ts) c r ∧
        ((¬IsAt .question r ∧ e = c ∧ rest = r) ∨
          ∃ q r₁ a k r₂ b, r = q :: r₁ ∧ q.kind = .punct .question ∧
            Reads (parseConditional stop r₁) a (k :: r₂) ∧ k.kind = .punct .colon ∧
            Reads (parseConditional stop r₂) b rest ∧ e = .conditional c a b) := by
  rw [parseConditional, reads_bind_iff]
  constructor
  · rintro ⟨c, r, hr, hc, h⟩
    refine ⟨c, r, ⟨hr, hc⟩, ?_⟩
    dsimp only at h
    rcases heat : eat .question r with _ | ⟨s, r₁, h₁⟩
    · rw [heat] at h
      exact Or.inl ⟨eat_eq_none_iff.mp heat, reads_ok_iff.mp h⟩
    · rw [heat] at h
      obtain ⟨q, rfl, hq, rfl⟩ := eat_eq_some_iff.mp heat
      obtain ⟨a, r₂, h₂, ha, h⟩ := reads_bind_iff.mp h
      obtain ⟨s, r₃, h₃, hcolon, h⟩ := reads_bind_iff.mp h
      obtain ⟨b, r₄, h₄, hb, h⟩ := reads_bind_iff.mp h
      obtain ⟨k, rfl, hk, rfl⟩ := reads_expect_iff.mp ⟨h₃, hcolon⟩
      obtain ⟨rfl, rfl⟩ := reads_ok_iff.mp h
      exact Or.inr ⟨q, r₁, a, k, r₃, b, rfl, hq, ⟨h₂, ha⟩, hk, ⟨h₄, hb⟩, rfl⟩
  · rintro ⟨c, r, ⟨hr, hc⟩, h⟩
    refine ⟨c, r, hr, hc, ?_⟩
    dsimp only
    rcases h with ⟨hno, rfl, rfl⟩ | ⟨q, r₁, a, k, r₂, b, rfl, hq, ⟨h₂, ha⟩, hk, ⟨h₄, hb⟩, rfl⟩
    · rw [eat_eq_none_iff.mpr hno]
      exact reads_ok_iff.mpr ⟨rfl, rfl⟩
    · rw [(eat_eq_some_iff (h := by simp)).mpr ⟨q, rfl, hq, rfl⟩]
      refine reads_bind_iff.mpr ⟨a, k :: r₂, h₂, ha, ?_⟩
      obtain ⟨h₃, hexpect⟩ := reads_expect_iff.mpr ⟨k, rfl, hk, rfl⟩
      exact reads_bind_iff.mpr ⟨_, r₂, h₃, hexpect, reads_bind_iff.mpr
        ⟨b, rest, h₄, hb, reads_ok_iff.mpr ⟨rfl, rfl⟩⟩⟩

theorem reads_level_iff {l : Level} :
    Reads (parseLevel stop l ts) e rest ↔
      ∃ a r, Reads (parseOperand stop l ts) a r ∧ Reads (parseOperators stop l a r) e rest := by
  rw [parseLevel, reads_bind_iff]
  constructor
  · rintro ⟨a, r, hr, ha, h⟩
    obtain ⟨b, r', hr', hb, h⟩ := reads_bind_iff.mp h
    obtain ⟨rfl, rfl⟩ := reads_ok_iff.mp h
    exact ⟨a, r, ⟨hr, ha⟩, hr', hb⟩
  · rintro ⟨a, r, ⟨hr, ha⟩, hr', hb⟩
    exact ⟨a, r, hr, ha, reads_bind_iff.mpr ⟨e, rest, hr', hb, reads_ok_iff.mpr ⟨rfl, rfl⟩⟩⟩

theorem parseOperand_of_tighter {l m : Level} (h : l.tighter = some m) :
    parseOperand stop l ts = parseLevel stop m ts := by
  rw [parseOperand]
  split
  · rename_i h'
    rw [h] at h'
    cases h'
    rfl
  · rename_i h'
    rw [h] at h'
    cases h'

theorem parseOperand_of_tightest {l : Level} (h : l.tighter = none) :
    parseOperand stop l ts = parseUnary stop ts := by
  rw [parseOperand]
  split
  · rename_i h'
    rw [h] at h'
    cases h'
  · rfl

theorem reads_operators_iff {l : Level} {a : Expr} :
    Reads (parseOperators stop l a ts) e rest ↔
      ((∀ t ∈ ts.head?, l.operator? t.kind = none) ∧ e = a ∧ rest = ts) ∨
        ∃ t r op b r₁, ts = t :: r ∧ l.operator? t.kind = some op ∧
          Reads (parseOperand stop l r) b r₁ ∧
          Reads (parseOperators stop l (op.apply a b) r₁) e rest := by
  rcases ts with _ | ⟨t, r⟩
  · rw [parseOperators, reads_ok_iff]
    constructor
    · exact fun h ↦ Or.inl ⟨by simp, h⟩
    · rintro (⟨-, h⟩ | ⟨_, _, _, _, _, h, _⟩)
      · exact h
      · cases h
  · simp only [parseOperators]
    rcases hop : l.operator? t.kind with _ | op
    · dsimp only
      rw [reads_ok_iff]
      constructor
      · exact fun h ↦ Or.inl ⟨by simpa using hop, h⟩
      · rintro (⟨-, h⟩ | ⟨_, _, _, _, _, heq, hop', _⟩)
        · exact h
        · cases heq
          rw [hop] at hop'
          cases hop'
    · dsimp only
      rw [reads_bind_iff]
      constructor
      · rintro ⟨b, r₁, h₁, hb, h⟩
        obtain ⟨c, r₂, h₂, hc, h⟩ := reads_bind_iff.mp h
        obtain ⟨rfl, rfl⟩ := reads_ok_iff.mp h
        exact Or.inr ⟨t, r, op, b, r₁, rfl, hop, ⟨h₁, hb⟩, h₂, hc⟩
      · rintro (⟨hno, -, -⟩ | ⟨_, _, _, b, r₁, heq, hop', ⟨h₁, hb⟩, h₂, hc⟩)
        · rw [hno t rfl] at hop
          cases hop
        · cases heq
          rw [hop] at hop'
          cases hop'
          exact ⟨b, r₁, h₁, hb, reads_bind_iff.mpr
            ⟨e, rest, h₂, hc, reads_ok_iff.mpr ⟨rfl, rfl⟩⟩⟩

theorem reads_unary_iff :
    Reads (parseUnary stop ts) e rest ↔
      ((∀ t ∈ ts.head?, prefixOperator? t.kind = none) ∧ Reads (parsePostfix stop ts) e rest) ∨
        ∃ t r op a, ts = t :: r ∧ prefixOperator? t.kind = some op ∧
          Reads (parseUnary stop r) a rest ∧ e = .unary op a := by
  rcases ts with _ | ⟨t, r⟩
  · rw [parseUnary]
    constructor
    · exact fun h ↦ Or.inl ⟨by simp, h⟩
    · rintro (⟨-, h⟩ | ⟨_, _, _, _, h, _⟩)
      · exact h
      · cases h
  · rw [parseUnary]
    rcases hop : prefixOperator? t.kind with _ | op
    · dsimp only
      constructor
      · exact fun h ↦ Or.inl ⟨by simpa using hop, h⟩
      · rintro (⟨-, h⟩ | ⟨_, _, _, _, heq, hop', _⟩)
        · exact h
        · cases heq
          rw [hop] at hop'
          cases hop'
    · dsimp only
      rw [reads_bind_iff]
      constructor
      · rintro ⟨a, r₁, h₁, ha, h⟩
        obtain ⟨rfl, rfl⟩ := reads_ok_iff.mp h
        exact Or.inr ⟨t, r, op, a, rfl, hop, ⟨h₁, ha⟩, rfl⟩
      · rintro (⟨hno, -⟩ | ⟨_, _, _, a, heq, hop', ⟨h₁, ha⟩, rfl⟩)
        · rw [hno t rfl] at hop
          cases hop
        · cases heq
          rw [hop] at hop'
          cases hop'
          exact ⟨a, rest, h₁, ha, reads_ok_iff.mpr ⟨rfl, rfl⟩⟩

theorem reads_postfix_iff :
    Reads (parsePostfix stop ts) e rest ↔
      ∃ a last r, Reads (parsePrimary stop ts) (a, last) r ∧
        Reads (parseApplied stop (ts.head?.elim ⟨stop, stop⟩ (·.span)) a last r) e rest := by
  rw [parsePostfix, reads_bind_iff]
  constructor
  · rintro ⟨⟨a, last⟩, r, hr, ha, h⟩
    obtain ⟨b, r', hr', hb, h⟩ := reads_bind_iff.mp h
    obtain ⟨rfl, rfl⟩ := reads_ok_iff.mp h
    exact ⟨a, last, r, ⟨hr, ha⟩, hr', hb⟩
  · rintro ⟨a, last, r, ⟨hr, ha⟩, hr', hb⟩
    exact ⟨(a, last), r, hr, ha, reads_bind_iff.mpr ⟨e, rest, hr', hb, reads_ok_iff.mpr ⟨rfl, rfl⟩⟩⟩

/-- Does the mark apply something to the expression before it? -/
def Token.Kind.isApplying : Token.Kind → Bool
  | .punct .dot | .punct .leftBracket | .punct .leftParen => true
  | _ => false

theorem reads_applied_iff {first last : Span} {a : Expr} :
    Reads (parseApplied stop first a last ts) e rest ↔
      ((∀ t ∈ ts.head?, t.kind.isApplying = false) ∧ e = a ∧ rest = ts) ∨
      (∃ d n property r, ts = d :: n :: r ∧ d.kind = .punct .dot ∧ n.kind = .name property ∧
        Reads (parseApplied stop first (.member a property) n.span r) e rest) ∨
      (∃ o r k c r₁, ts = o :: r ∧ o.kind = .punct .leftBracket ∧
        Reads (parseConditional stop r) k (c :: r₁) ∧ c.kind = .punct .rightBracket ∧
        Reads (parseApplied stop first (.index a k) c.span r₁) e rest) ∨
      ∃ o r es close r₁, ts = o :: r ∧ o.kind = .punct .leftParen ∧
        Reads (parseItems stop .rightParen r) (es, close) r₁ ∧
        Reads (parseApplied stop first (.call a es (first.cover last)) close r₁) e rest := by
  rcases ts with _ | ⟨t, r⟩
  · rw [parseApplied, reads_ok_iff]
    constructor
    · exact fun h ↦ Or.inl ⟨by simp, h⟩
    · rintro (⟨-, h⟩ | ⟨_, _, _, _, h, _⟩ | ⟨_, _, _, _, _, h, _⟩ | ⟨_, _, _, _, _, h, _⟩)
      · exact h
      all_goals cases h
  · constructor
    · intro h
      unfold parseApplied at h
      split at h
      · rename_i hdot
        split at h
        · rename_i property span r₁
          obtain ⟨b, r₂, h₂, hb, h⟩ := reads_bind_iff.mp h
          obtain ⟨rfl, rfl⟩ := reads_ok_iff.mp h
          exact Or.inr (Or.inl ⟨t, _, property, r₁, rfl, hdot, rfl, h₂, hb⟩)
        · exact absurd h not_reads_error
      · rename_i hopen
        obtain ⟨k, r₁, h₁, hk, h⟩ := reads_bind_iff.mp h
        obtain ⟨s, r₂, h₂, hclose, h⟩ := reads_bind_iff.mp h
        obtain ⟨b, r₃, h₃, hb, h⟩ := reads_bind_iff.mp h
        obtain ⟨rfl, rfl⟩ := reads_ok_iff.mp h
        obtain ⟨c, rfl, hc, rfl⟩ := reads_expect_iff.mp ⟨h₂, hclose⟩
        exact Or.inr (Or.inr (Or.inl ⟨t, r, k, c, r₂, rfl, hopen, ⟨h₁, hk⟩, hc, h₃, hb⟩))
      · rename_i hopen
        obtain ⟨⟨es, close⟩, r₁, h₁, hes, h⟩ := reads_bind_iff.mp h
        obtain ⟨b, r₂, h₂, hb, h⟩ := reads_bind_iff.mp h
        obtain ⟨rfl, rfl⟩ := reads_ok_iff.mp h
        exact Or.inr (Or.inr (Or.inr ⟨t, r, es, close, r₁, rfl, hopen, ⟨h₁, hes⟩, h₂, hb⟩))
      · -- no other mark applies anything, so the reader stops in front of it
        rename_i hdot hbracket hparen
        refine Or.inl ⟨?_, reads_ok_iff.mp h⟩
        intro u hu
        cases hu
        unfold Token.Kind.isApplying
        split
        · exact absurd ‹_› hdot
        · exact absurd ‹_› hbracket
        · exact absurd ‹_› hparen
        · rfl
    · rintro (⟨hno, rfl, rfl⟩ | ⟨d, ⟨_, span⟩, property, r', heq, hd, rfl, h₂, hb⟩ |
        ⟨o, r', k, c, r₂, heq, ho, ⟨h₁, hk⟩, hc, h₃, hb⟩ |
        ⟨o, r', es, close, r₁, heq, ho, ⟨h₁, hes⟩, h₂, hb⟩)
      · have hkind := hno t rfl
        unfold parseApplied
        split
        · rename_i ht
          rw [ht] at hkind
          cases hkind
        · rename_i ht
          rw [ht] at hkind
          cases hkind
        · rename_i ht
          rw [ht] at hkind
          cases hkind
        · exact reads_ok_iff.mpr ⟨rfl, rfl⟩
      · cases heq
        rw [parseApplied, hd]
        exact reads_bind_iff.mpr ⟨e, rest, h₂, hb, reads_ok_iff.mpr ⟨rfl, rfl⟩⟩
      · cases heq
        unfold parseApplied
        simp only [ho]
        obtain ⟨h₂, hexpect⟩ := reads_expect_iff.mpr ⟨c, rfl, hc, rfl⟩
        exact reads_bind_iff.mpr ⟨k, _, h₁, hk, reads_bind_iff.mpr ⟨_, r₂, h₂, hexpect,
          reads_bind_iff.mpr ⟨e, rest, h₃, hb, reads_ok_iff.mpr ⟨rfl, rfl⟩⟩⟩⟩
      · cases heq
        unfold parseApplied
        simp only [ho]
        exact reads_bind_iff.mpr ⟨(es, close), _, h₁, hes,
          reads_bind_iff.mpr ⟨e, rest, h₂, hb, reads_ok_iff.mpr ⟨rfl, rfl⟩⟩⟩

/-- A list that may end with a comma: how both kinds of lists are read, given how one element is and
how the list behind a comma is. -/
theorem reads_list_iff {close : Punct} {element : Except SyntaxError (Parsed α ts.length)}
    {more : (r : List Token) → Except SyntaxError (Parsed (List α × Span) r.length)}
    {as : List α} {last : Span} :
    Reads (n := ts.length)
        (match eat close ts with
        | some ⟨span, r, hr⟩ => .ok ⟨([], span), r, hr⟩
        | none => do
          let ⟨item, r, hr⟩ ← element
          match eat .comma r with
          | some ⟨_, r₁, h₁⟩ =>
            let ⟨(items, last), r₂, h₂⟩ ← more r₁
            .ok ⟨(item :: items, last), r₂, Nat.lt_trans h₂ (Nat.lt_trans h₁ hr)⟩
          | none =>
            let ⟨span, r₁, h₁⟩ ← expect stop close r
            .ok ⟨([item], span), r₁, Nat.lt_trans h₁ hr⟩) (as, last) rest ↔
      (∃ k, ts = k :: rest ∧ k.kind = .punct close ∧ as = [] ∧ last = k.span) ∨
      ¬IsAt close ts ∧ ∃ a r, Reads element a r ∧
        ((∃ c r₁ bs, r = c :: r₁ ∧ c.kind = .punct .comma ∧ Reads (more r₁) (bs, last) rest ∧
            as = a :: bs) ∨
          ¬IsAt .comma r ∧ ∃ k, r = k :: rest ∧ k.kind = .punct close ∧ as = [a] ∧
            last = k.span) := by
  -- the closing mark is looked for first, so a list may end behind a comma
  rcases heat : eat close ts with _ | ⟨s, r, hr⟩
  · have hno := eat_eq_none_iff.mp heat
    dsimp only
    rw [reads_bind_iff]
    constructor
    · rintro ⟨a, r, hr, ha, h⟩
      refine Or.inr ⟨hno, a, r, ⟨hr, ha⟩, ?_⟩
      dsimp only at h
      rcases hcomma : eat .comma r with _ | ⟨s, r₁, h₁⟩
      · rw [hcomma] at h
        obtain ⟨s, r₁, h₁, hclose, h⟩ := reads_bind_iff.mp h
        obtain ⟨heq, rfl⟩ := reads_ok_iff.mp h
        obtain ⟨k, rfl, hk, rfl⟩ := reads_expect_iff.mp ⟨h₁, hclose⟩
        cases heq
        exact Or.inr ⟨eat_eq_none_iff.mp hcomma, k, rfl, hk, rfl, rfl⟩
      · rw [hcomma] at h
        obtain ⟨⟨bs, l⟩, r₂, h₂, hbs, h⟩ := reads_bind_iff.mp h
        obtain ⟨heq, rfl⟩ := reads_ok_iff.mp h
        obtain ⟨c, rfl, hc, rfl⟩ := eat_eq_some_iff.mp hcomma
        cases heq
        exact Or.inl ⟨c, r₁, bs, rfl, hc, ⟨h₂, hbs⟩, rfl⟩
    · rintro (⟨k, rfl, hk, -, -⟩ | ⟨-, a, r, ⟨hr, ha⟩, h⟩)
      · exact absurd ⟨k, rest, rfl, hk⟩ hno
      · refine ⟨a, r, hr, ha, ?_⟩
        dsimp only
        rcases h with ⟨c, r₁, bs, rfl, hc, ⟨h₂, hbs⟩, rfl⟩ | ⟨hcomma, k, rfl, hk, rfl, rfl⟩
        · rw [(eat_eq_some_iff (h := by simp)).mpr ⟨c, rfl, hc, rfl⟩]
          exact reads_bind_iff.mpr ⟨(bs, last), rest, h₂, hbs, reads_ok_iff.mpr ⟨rfl, rfl⟩⟩
        · rw [eat_eq_none_iff.mpr hcomma]
          obtain ⟨h₁, hexpect⟩ := reads_expect_iff.mpr ⟨k, rfl, hk, rfl⟩
          exact reads_bind_iff.mpr ⟨_, rest, h₁, hexpect, reads_ok_iff.mpr ⟨rfl, rfl⟩⟩
  · obtain ⟨t, rfl, ht, rfl⟩ := eat_eq_some_iff.mp heat
    dsimp only
    rw [reads_ok_iff]
    constructor
    · rintro ⟨heq, rfl⟩
      cases heq
      exact Or.inl ⟨t, rfl, ht, rfl, rfl⟩
    · rintro (⟨k, heq, -, rfl, rfl⟩ | ⟨hno, -⟩)
      · cases heq
        exact ⟨rfl, rfl⟩
      · exact absurd ⟨t, r, rfl, ht⟩ hno

theorem reads_items_iff {close : Punct} {es : List Expr} {last : Span} :
    Reads (parseItems stop close ts) (es, last) rest ↔
      (∃ k, ts = k :: rest ∧ k.kind = .punct close ∧ es = [] ∧ last = k.span) ∨
      ¬IsAt close ts ∧ ∃ a r, Reads (parseConditional stop ts) a r ∧
        ((∃ c r₁ bs, r = c :: r₁ ∧ c.kind = .punct .comma ∧
            Reads (parseItems stop close r₁) (bs, last) rest ∧ es = a :: bs) ∨
          ¬IsAt .comma r ∧ ∃ k, r = k :: rest ∧ k.kind = .punct close ∧ es = [a] ∧
            last = k.span) := by
  rw [parseItems]
  exact reads_list_iff

theorem reads_members_iff {ms : List ObjectMember} {last : Span} :
    Reads (parseMembers stop ts) (ms, last) rest ↔
      (∃ k, ts = k :: rest ∧ k.kind = .punct .rightBrace ∧ ms = [] ∧ last = k.span) ∨
      ¬IsAt .rightBrace ts ∧ ∃ a r, Reads (parseMember stop ts) a r ∧
        ((∃ c r₁ bs, r = c :: r₁ ∧ c.kind = .punct .comma ∧
            Reads (parseMembers stop r₁) (bs, last) rest ∧ ms = a :: bs) ∨
          ¬IsAt .comma r ∧ ∃ k, r = k :: rest ∧ k.kind = .punct .rightBrace ∧ ms = [a] ∧
            last = k.span) := by
  rw [parseMembers]
  exact reads_list_iff

theorem reads_member_iff {m : ObjectMember} :
    Reads (parseMember stop ts) m rest ↔
      (∃ t c r key isName a, ts = t :: c :: r ∧ objectKey? t.kind = some (key, isName) ∧
        c.kind = .punct .colon ∧ Reads (parseConditional stop r) a rest ∧ m = .pair key a) ∨
      ∃ t key, ts = t :: rest ∧ objectKey? t.kind = some (key, true) ∧ ¬IsAt .colon rest ∧
        m = .shorthand key t.span := by
  rcases ts with _ | ⟨t, r⟩
  · rw [parseMember]
    refine ⟨fun h ↦ absurd h not_reads_error, ?_⟩
    rintro (⟨_, _, _, _, _, _, h, _⟩ | ⟨_, _, h, _⟩) <;> cases h
  · simp only [parseMember]
    rcases hkey : objectKey? t.kind with _ | ⟨key, isName⟩
    · refine ⟨fun h ↦ absurd h not_reads_error, ?_⟩
      rintro (⟨_, _, _, _, _, _, heq, hkey', _⟩ | ⟨_, _, heq, hkey', _⟩) <;> cases heq <;>
        rw [hkey] at hkey' <;> cases hkey'
    · dsimp only
      rcases heat : eat .colon r with _ | ⟨s, r₁, h₁⟩
      · have hno := eat_eq_none_iff.mp heat
        dsimp only
        constructor
        · intro h
          split_ifs at h with hname
          · obtain ⟨rfl, rfl⟩ := reads_ok_iff.mp h
            subst hname
            exact Or.inr ⟨t, key, rfl, hkey, hno, rfl⟩
          · exact absurd h not_reads_error
        · rintro (⟨_, c, r', _, _, _, heq, _, hc, _⟩ | ⟨_, _, heq, hkey', _, rfl⟩)
          · cases heq
            exact absurd ⟨c, r', rfl, hc⟩ hno
          · cases heq
            rw [hkey] at hkey'
            cases hkey'
            exact reads_ok_iff.mpr ⟨rfl, rfl⟩
      · obtain ⟨c, rfl, hc, rfl⟩ := eat_eq_some_iff.mp heat
        dsimp only
        rw [reads_bind_iff]
        constructor
        · rintro ⟨a, r₂, h₂, ha, h⟩
          obtain ⟨rfl, rfl⟩ := reads_ok_iff.mp h
          exact Or.inl ⟨t, c, r₁, key, isName, a, rfl, hkey, hc, ⟨h₂, ha⟩, rfl⟩
        · rintro (⟨_, _, _, _, _, a, heq, hkey', _, ⟨h₂, ha⟩, rfl⟩ | ⟨_, _, heq, _, hno, _⟩)
          · cases heq
            rw [hkey] at hkey'
            cases hkey'
            exact ⟨a, rest, h₂, ha, reads_ok_iff.mpr ⟨rfl, rfl⟩⟩
          · cases heq
            exact absurd ⟨c, r₁, rfl, hc⟩ hno

theorem reads_primary_iff {last : Span} :
    Reads (parsePrimary stop ts) (e, last) rest ↔
      (∃ t, ts = t :: rest ∧ last = t.span ∧
        ((∃ x, t.kind = .number x ∧ e = .literal (.number x)) ∨
          (∃ s, t.kind = .string s ∧ e = .literal (.string s)) ∨
          ∃ text, t.kind = .name text ∧ ofName text t.span = some e)) ∨
      (∃ o r c, ts = o :: r ∧ o.kind = .punct .leftParen ∧
        Reads (parseConditional stop r) e (c :: rest) ∧ c.kind = .punct .rightParen ∧
        last = c.span) ∨
      (∃ o r es, ts = o :: r ∧ o.kind = .punct .leftBracket ∧
        Reads (parseItems stop .rightBracket r) (es, last) rest ∧ e = .array es) ∨
      ∃ o r ms, ts = o :: r ∧ o.kind = .punct .leftBrace ∧
        Reads (parseMembers stop r) (ms, last) rest ∧ e = .object ms := by
  rcases ts with _ | ⟨t, r⟩
  · rw [parsePrimary]
    refine ⟨fun h ↦ absurd h not_reads_error, ?_⟩
    rintro (⟨_, h, _⟩ | ⟨_, _, _, h, _⟩ | ⟨_, _, _, h, _⟩ | ⟨_, _, _, h, _⟩) <;> cases h
  constructor
  · intro h
    unfold parsePrimary at h
    split at h
    · rename_i x hx
      obtain ⟨heq, rfl⟩ := reads_ok_iff.mp h
      cases heq
      exact Or.inl ⟨t, rfl, rfl, Or.inl ⟨x, hx, rfl⟩⟩
    · rename_i s hs
      obtain ⟨heq, rfl⟩ := reads_ok_iff.mp h
      cases heq
      exact Or.inl ⟨t, rfl, rfl, Or.inr (Or.inl ⟨s, hs, rfl⟩)⟩
    · rename_i text htext
      split at h
      · rename_i e' he'
        obtain ⟨heq, rfl⟩ := reads_ok_iff.mp h
        cases heq
        exact Or.inl ⟨t, rfl, rfl, Or.inr (Or.inr ⟨text, htext, he'⟩)⟩
      · exact absurd h not_reads_error
    · rename_i ho
      obtain ⟨a, r₁, h₁, ha, h⟩ := reads_bind_iff.mp h
      obtain ⟨s, r₂, h₂, hclose, h⟩ := reads_bind_iff.mp h
      obtain ⟨heq, rfl⟩ := reads_ok_iff.mp h
      obtain ⟨c, rfl, hc, rfl⟩ := reads_expect_iff.mp ⟨h₂, hclose⟩
      cases heq
      exact Or.inr (Or.inl ⟨t, r, c, rfl, ho, ⟨h₁, ha⟩, hc, rfl⟩)
    · rename_i ho
      obtain ⟨⟨es, l⟩, r₁, h₁, hes, h⟩ := reads_bind_iff.mp h
      obtain ⟨heq, rfl⟩ := reads_ok_iff.mp h
      cases heq
      exact Or.inr (Or.inr (Or.inl ⟨t, r, es, rfl, ho, ⟨h₁, hes⟩, rfl⟩))
    · rename_i ho
      obtain ⟨⟨ms, l⟩, r₁, h₁, hms, h⟩ := reads_bind_iff.mp h
      obtain ⟨heq, rfl⟩ := reads_ok_iff.mp h
      cases heq
      exact Or.inr (Or.inr (Or.inr ⟨t, r, ms, rfl, ho, ⟨h₁, hms⟩, rfl⟩))
    · exact absurd h not_reads_error
  · rintro (⟨_, heq, rfl, ⟨x, hx, rfl⟩ | ⟨s, hs, rfl⟩ | ⟨text, htext, he⟩⟩ |
      ⟨o, r', c, heq, ho, ⟨h₁, ha⟩, hc, rfl⟩ | ⟨o, r', es, heq, ho, ⟨h₁, hes⟩, rfl⟩ |
      ⟨o, r', ms, heq, ho, ⟨h₁, hms⟩, rfl⟩)
    · cases heq
      simp only [parsePrimary, hx]
      exact reads_ok_iff.mpr ⟨rfl, rfl⟩
    · cases heq
      simp only [parsePrimary, hs]
      exact reads_ok_iff.mpr ⟨rfl, rfl⟩
    · cases heq
      simp only [parsePrimary, htext, he]
      exact reads_ok_iff.mpr ⟨rfl, rfl⟩
    · cases heq
      simp only [parsePrimary, ho]
      obtain ⟨h₂, hexpect⟩ := reads_expect_iff.mpr ⟨c, rfl, hc, rfl⟩
      exact reads_bind_iff.mpr ⟨e, _, h₁, ha, reads_bind_iff.mpr ⟨_, rest, h₂, hexpect,
        reads_ok_iff.mpr ⟨rfl, rfl⟩⟩⟩
    · cases heq
      simp only [parsePrimary, ho]
      exact reads_bind_iff.mpr ⟨(es, last), rest, h₁, hes, reads_ok_iff.mpr ⟨rfl, rfl⟩⟩
    · cases heq
      simp only [parsePrimary, ho]
      exact reads_bind_iff.mpr ⟨(ms, last), rest, h₁, hms, reads_ok_iff.mpr ⟨rfl, rfl⟩⟩

end HtmlTemplate.Expr
