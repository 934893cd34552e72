import HtmlTemplate.Proofs.Expr.Grammar
import Mathlib.Data.List.Basic

/-!
# Nesting

Brackets are closed by their counterparts, and a question mark by a colon; inside of braces a colon
stands by itself. `nestAll` keeps the marks that are open on a stack. An expression leaves the stack
as it was, and no beginning of it closes a mark that was open before (`Derives.isNested`). It ends
in an operand, never in an operator (`Derives.endsInOperand`).

So a list of tokens that is not an expression for itself, but becomes one when something is put
behind it, has a mark open or misses an operand at its end.

## Colons

A colon inside of braces parts a key from its value, and any other colon belongs to a question mark.
Which of them it is can be told from the innermost open mark alone, and so the stack has to hold
question marks as well as brackets.
-/

namespace HtmlTemplate.Expr

/-! ## Open marks

A list of tokens is taken from the left, and fails where a mark is closed that is not the innermost
open one. That no beginning of the tokens closes a mark of the stack below is the part of `IsNested`
that is not seen from the stacks at both ends. -/

def close (mark : Punct) : List Punct → Option (List Punct)
  | [] => none
  | p :: ps => if p = mark then some ps else none

/-- The marks that are open behind a token, innermost first. -/
def nest (marks : List Punct) (k : Token.Kind) : Option (List Punct) :=
  match k with
  | .punct .leftParen => some (.leftParen :: marks)
  | .punct .leftBracket => some (.leftBracket :: marks)
  | .punct .leftBrace => some (.leftBrace :: marks)
  | .punct .question => some (.question :: marks)
  | .punct .rightParen => close .leftParen marks
  | .punct .rightBracket => close .leftBracket marks
  | .punct .rightBrace => close .leftBrace marks
  | .punct .colon => if marks.head? = some .leftBrace then some marks else close .question marks
  | _ => some marks

/-- The marks that are open behind a list of tokens. -/
def nestAll (marks : List Punct) : List Token → Option (List Punct)
  | [] => some marks
  | t :: ts => (nest marks t.kind).bind fun marks ↦ nestAll marks ts

theorem nestAll_append (marks : List Punct) (ts us : List Token) :
    nestAll marks (ts ++ us) = (nestAll marks ts).bind fun marks ↦ nestAll marks us := by
  induction ts generalizing marks with
  | nil => rfl
  | cons t ts ih =>
    rw [List.cons_append, nestAll, nestAll, Option.bind_assoc]
    simp only [ih]

/-- Do the tokens leave the open marks as they are, and does none of their beginnings close one? -/
structure IsNested (marks : List Punct) (ts : List Token) : Prop where
  settled : nestAll marks ts = some marks
  beginning : ∀ us vs, ts = us ++ vs → ∃ more, nestAll marks us = some (more ++ marks)

variable {marks : List Punct} {ts us : List Token} {t o c : Token}

theorem isNested_nil (marks : List Punct) : IsNested marks [] where
  settled := rfl
  beginning us vs h := by
    rw [(List.append_eq_nil_iff.mp h.symm).1]
    exact ⟨[], rfl⟩

theorem isNested_singleton (h : nest marks t.kind = some marks) : IsNested marks [t] where
  settled := by
    rw [nestAll, h]
    rfl
  beginning us vs hs := by
    rcases List.cons_eq_append_iff.mp hs with ⟨rfl, -⟩ | ⟨r, rfl, hr⟩
    · exact ⟨[], rfl⟩
    · rw [(List.append_eq_nil_iff.mp hr.symm).1, nestAll, h]
      exact ⟨[], rfl⟩

theorem IsNested.append (hts : IsNested marks ts) (hus : IsNested marks us) :
    IsNested marks (ts ++ us) where
  settled := by rw [nestAll_append, hts.settled, Option.bind_some, hus.settled]
  beginning vs ws h := by
    rcases List.append_eq_append_iff.mp h with ⟨r, rfl, hr⟩ | ⟨r, hr, -⟩
    · rw [nestAll_append, hts.settled, Option.bind_some]
      exact hus.beginning r ws hr
    · exact hts.beginning vs r hr

theorem IsNested.enclosed {p : Punct} (hts : IsNested (p :: marks) ts)
    (ho : nest marks o.kind = some (p :: marks)) (hc : nest (p :: marks) c.kind = some marks) :
    IsNested marks (o :: (ts ++ [c])) where
  settled := by
    rw [nestAll, ho, Option.bind_some, nestAll_append, hts.settled, Option.bind_some, nestAll, hc]
    rfl
  beginning us vs h := by
    rcases List.cons_eq_append_iff.mp h with ⟨rfl, -⟩ | ⟨r, rfl, hr⟩
    · exact ⟨[], rfl⟩
    · rw [nestAll, ho, Option.bind_some]
      rcases List.append_eq_append_iff.mp hr with ⟨r', rfl, hr'⟩ | ⟨r', hr', -⟩
      · rw [nestAll_append, hts.settled, Option.bind_some]
        rcases List.cons_eq_append_iff.mp hr' with ⟨rfl, -⟩ | ⟨r'', rfl, hr''⟩
        · exact ⟨[p], rfl⟩
        · rw [(List.append_eq_nil_iff.mp hr''.symm).1, nestAll, hc]
          exact ⟨[], rfl⟩
      · obtain ⟨more, hmore⟩ := hts.beginning r r' hr'
        exact ⟨more ++ [p], by rw [hmore, List.append_assoc]; rfl⟩

theorem IsNested.not_closed {p : Punct} {vs : List Token} (hts : nestAll [] ts = some [])
    (ho : nest [] o.kind = some [p]) (hus : IsNested [p] (us ++ vs)) :
    nestAll [] (ts ++ o :: us) ≠ some [] := by
  obtain ⟨more, hmore⟩ := hus.beginning us vs rfl
  rw [nestAll_append, hts, Option.bind_some, nestAll, ho, Option.bind_some, hmore]
  simp

/-! ## Expressions are nested -/

/-- Does the phrase stand directly inside of braces? -/
def Category.isInBraces : Category → Bool
  | .members | .member => true
  | _ => false

theorem nest_of_operator? {l : Level} {k : Token.Kind} {op : Operator}
    (h : l.operator? k = some op) (marks : List Punct) : nest marks k = some marks := by
  unfold Level.operator? at h
  split at h <;> first | rfl | cases h

theorem nest_of_prefixOperator? {k : Token.Kind} {op : UnaryOp} (h : prefixOperator? k = some op)
    (marks : List Punct) : nest marks k = some marks := by
  unfold prefixOperator? at h
  split at h <;> first | rfl | cases h

theorem nest_of_objectKey? {k : Token.Kind} {p : String × Bool} (h : objectKey? k = some p)
    (marks : List Punct) : nest marks k = some marks := by
  unfold objectKey? at h
  split at h <;> first | rfl | cases h

/-- **A phrase closes what it opens**, and nothing else. -/
theorem Derives.isNested {c : Category} {p : Phrase} (h : Derives c ts p) (marks : List Punct)
    (hbraces : c.isInBraces = true → marks.head? = some .leftBrace) : IsNested marks ts := by
  induction h generalizing marks with
  | test _ ih => exact ih marks nofun
  | conditional _ hq _ hk _ ih1 ih2 ih3 =>
    have hbehind := ((ih2 (.question :: marks) nofun).enclosed (by rw [hq]; rfl)
      (by rw [hk, nest]; exact if_neg nofun)).append (ih3 marks nofun)
    rw [List.cons_append, List.append_assoc] at hbehind
    exact (ih1 marks nofun).append hbehind
  | @operand l _ _ _ ih => exact ih marks (by cases l <;> exact nofun)
  | @operation l _ _ _ _ _ _ _ hop _ ih1 ih2 =>
    exact (ih1 marks nofun).append
      ((isNested_singleton (nest_of_operator? hop marks)).append
        (ih2 marks (by cases l <;> exact nofun)))
  | unprefixed _ ih => exact ih marks nofun
  | prefixed hop _ ih =>
    exact (isNested_singleton (nest_of_prefixOperator? hop marks)).append (ih marks nofun)
  | primary _ ih => exact ih marks nofun
  | member _ hd hn ih =>
    exact (ih marks nofun).append
      ((isNested_singleton (by rw [hd]; rfl)).append (isNested_singleton (by rw [hn]; rfl)))
  | index _ ho _ hc ih1 ih2 =>
    exact (ih1 marks nofun).append
      ((ih2 _ nofun).enclosed (p := .leftBracket) (by rw [ho]; rfl) (by rw [hc]; rfl))
  | call _ ho _ hc ih1 ih2 =>
    exact (ih1 marks nofun).append
      ((ih2 _ nofun).enclosed (p := .leftParen) (by rw [ho]; rfl) (by rw [hc]; rfl))
  | number ht => exact isNested_singleton (by rw [ht]; rfl)
  | string ht => exact isNested_singleton (by rw [ht]; rfl)
  | name ht => exact isNested_singleton (by rw [ht]; rfl)
  | group ho _ hc ih =>
    exact (ih _ nofun).enclosed (p := .leftParen) (by rw [ho]; rfl) (by rw [hc]; rfl)
  | array ho _ hc ih =>
    exact (ih _ nofun).enclosed (p := .leftBracket) (by rw [ho]; rfl) (by rw [hc]; rfl)
  | object ho _ hc ih =>
    exact (ih _ fun _ ↦ rfl).enclosed (p := .leftBrace) (by rw [ho]; rfl) (by rw [hc]; rfl)
  | noItems => exact isNested_nil marks
  | lastItem _ ih => exact ih marks nofun
  | item _ hc _ ih1 ih2 =>
    exact (ih1 marks nofun).append
      ((isNested_singleton (by rw [hc]; rfl)).append (ih2 marks nofun))
  | noMembers => exact isNested_nil marks
  | lastMember _ ih => exact ih marks hbraces
  | moreMembers _ hc _ ih1 ih2 =>
    exact (ih1 marks hbraces).append
      ((isNested_singleton (by rw [hc]; rfl)).append (ih2 marks hbraces))
  | pair hkey hc _ ih =>
    -- this colon is behind a key, and closes no question mark
    exact (isNested_singleton (nest_of_objectKey? hkey marks)).append
      ((isNested_singleton (by rw [hc, nest, if_pos (hbraces rfl)])).append (ih marks nofun))
  | shorthand hkey => exact isNested_singleton (nest_of_objectKey? hkey marks)

theorem Derives.isNested_outside {c : Category} {p : Phrase} (h : Derives c ts p)
    (hc : c.isInBraces = false) (marks : List Punct) : IsNested marks ts := by
  refine h.isNested marks fun hbraces ↦ ?_
  rw [hc] at hbraces
  cases hbraces

/-! ## Ends

A word that is an operator ends an operand only as the name of a property, behind a dot. -/

/-- Can the token end an operand, whatever stands before it? The words that are operators can only
behind a dot. -/
def Token.Kind.isEnd : Token.Kind → Bool
  | .number _ | .string _ => true
  | .name text => text != "in" && text != "typeof"
  | .punct p => [.rightParen, .rightBracket, .rightBrace].contains p

/-- Do the tokens end in an operand? -/
inductive EndsInOperand : List Token → Prop
  | operand (ts : List Token) {t : Token} : t.kind.isEnd = true → EndsInOperand (ts ++ [t])
  | property (ts : List Token) {d t : Token} {text : String} : d.kind = .punct .dot →
      t.kind = .name text → EndsInOperand (ts ++ [d, t])

theorem EndsInOperand.append (ts : List Token) (h : EndsInOperand us) :
    EndsInOperand (ts ++ us) := by
  rcases h with ⟨r, h⟩ | ⟨r, hd, ht⟩
  · rw [← List.append_assoc]
    exact .operand _ h
  · rw [← List.append_assoc]
    exact .property _ hd ht

theorem EndsInOperand.ne_dot (h : EndsInOperand (ts ++ [t])) : t.kind ≠ .punct .dot := by
  generalize hs : ts ++ [t] = s at h
  rcases h with ⟨r, h⟩ | ⟨r, hd, ht⟩
  · cases (List.append_inj' hs rfl).2
    intro hdot
    rw [hdot] at h
    cases h
  · rw [List.append_cons r] at hs
    cases (List.append_inj' hs rfl).2
    rw [ht]
    exact nofun

theorem EndsInOperand.behind (hend : t.kind.isEnd = false) (hdot : t.kind ≠ .punct .dot)
    (hts : ∀ r d, ts = r ++ [d] → d.kind ≠ .punct .dot) (h : EndsInOperand (ts ++ t :: us)) :
    EndsInOperand us := by
  generalize hs : ts ++ t :: us = s at h
  rcases List.eq_nil_or_concat' us with rfl | ⟨vs, y, rfl⟩
  · rcases h with ⟨r, h⟩ | ⟨r, hd, ht⟩
    · cases (List.append_inj' hs rfl).2
      rw [hend] at h
      cases h
    · rw [List.append_cons r] at hs
      exact absurd hd (hts r _ (List.append_inj' hs rfl).1)
  · rw [← List.cons_append, ← List.append_assoc] at hs
    rcases h with ⟨r, h⟩ | ⟨r, hd, ht⟩
    · cases (List.append_inj' hs rfl).2
      exact .operand _ h
    · rw [List.append_cons r] at hs
      obtain ⟨hfront, hy⟩ := List.append_inj' hs rfl
      cases hy
      rcases List.eq_nil_or_concat' vs with rfl | ⟨ws, z, rfl⟩
      · cases (List.append_inj' hfront rfl).2
        exact absurd hd hdot
      · rw [← List.cons_append, ← List.append_assoc] at hfront
        cases (List.append_inj' hfront rfl).2
        rw [List.append_assoc]
        exact .property _ hd ht

def Category.isExpression : Category → Bool
  | .conditional | .level _ | .unary | .applied | .primary => true
  | _ => false

theorem Level.isExpression_operand (l : Level) : l.operand.isExpression = true := by cases l <;> rfl

private theorem isEnd_of_ofName {text : String} {span : Span} {e : Expr}
    (h : ofName text span = some e) :
    (Token.Kind.name text).isEnd = true := by
  rw [Token.Kind.isEnd, Bool.and_eq_true, bne_iff_ne, bne_iff_ne]
  constructor
  · rintro rfl
    cases h
  · rintro rfl
    cases h

/-- **An expression ends in an operand.** -/
theorem Derives.endsInOperand {c : Category} {p : Phrase} (h : Derives c ts p)
    (hc : c.isExpression = true) : EndsInOperand ts := by
  induction h with
  | test _ ih => exact ih rfl
  | conditional _ _ _ _ _ _ _ ih =>
    exact ((((ih rfl).append [_]).append _).append [_]).append _
  | operand _ ih => exact ih (Level.isExpression_operand _)
  | operation _ _ _ _ ih =>
    exact ((ih (Level.isExpression_operand _)).append [_]).append _
  | unprefixed _ ih => exact ih rfl
  | prefixed _ _ ih => exact (ih rfl).append [_]
  | primary _ ih => exact ih rfl
  | member _ hd hn => exact .property _ hd hn
  | index _ _ _ hclose => exact (EndsInOperand.operand (_ :: _) (by rw [hclose]; rfl)).append _
  | call _ _ _ hclose => exact (EndsInOperand.operand (_ :: _) (by rw [hclose]; rfl)).append _
  | number ht => exact .operand [] (by rw [ht]; rfl)
  | string ht => exact .operand [] (by rw [ht]; rfl)
  | name ht he => exact .operand [] (by rw [ht]; exact isEnd_of_ofName he)
  | group _ _ hclose => exact .operand (_ :: _) (by rw [hclose]; rfl)
  | array _ _ hclose => exact .operand (_ :: _) (by rw [hclose]; rfl)
  | object _ _ hclose => exact .operand (_ :: _) (by rw [hclose]; rfl)
  | _ => cases hc

end HtmlTemplate.Expr
