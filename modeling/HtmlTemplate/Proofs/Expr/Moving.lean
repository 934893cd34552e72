import HtmlTemplate.Expr.FreeNames
import HtmlTemplate.Proofs.Expr.Soundness

/-!
# Expressions that stand elsewhere

Moving the tokens of a phrase moves the spans in what it stands for, and changes nothing else: the
grammar looks at the kinds of tokens only.

## Moving and covering

A span is moved by adding to both of its ends, which is compatible with taking the smaller beginning
and the larger end of two spans. So the span of a run of tokens moves with the tokens
(`spanOf_map_shift`), and with it the span of the call that the run is the callee of.
-/

namespace HtmlTemplate.Expr

mutual

/-- The expression with its spans so many bytes further on. -/
def shift (d : Nat) : Expr → Expr
  | literal value => literal value
  | name text span => name text (span.shift d)
  | array items => array (shiftAll d items)
  | object members => object (shiftMembers d members)
  | member target property => member (shift d target) property
  | index target key => index (shift d target) (shift d key)
  | call callee arguments span => call (shift d callee) (shiftAll d arguments) (span.shift d)
  | unary op operand => unary op (shift d operand)
  | binary op left right => binary op (shift d left) (shift d right)
  | logical op left right => logical op (shift d left) (shift d right)
  | conditional test consequent alternate =>
    conditional (shift d test) (shift d consequent) (shift d alternate)

def shiftAll (d : Nat) : List Expr → List Expr
  | [] => []
  | e :: es => shift d e :: shiftAll d es

def shiftMembers (d : Nat) : List ObjectMember → List ObjectMember
  | [] => []
  | .pair key value :: ms => .pair key (shift d value) :: shiftMembers d ms
  | .shorthand text span :: ms => .shorthand text (span.shift d) :: shiftMembers d ms

end

def shiftMember (d : Nat) : ObjectMember → ObjectMember
  | .pair key value => .pair key (shift d value)
  | .shorthand text span => .shorthand text (span.shift d)

theorem shiftMembers_cons (d : Nat) (m : ObjectMember) (ms : List ObjectMember) :
    shiftMembers d (m :: ms) = shiftMember d m :: shiftMembers d ms := by
  cases m <;> rw [shiftMembers, shiftMember]

def Phrase.shift (d : Nat) : Phrase → Phrase
  | expr e => expr (e.shift d)
  | items es => items (shiftAll d es)
  | members ms => members (shiftMembers d ms)
  | member m => member (shiftMember d m)

variable (d : Nat)

theorem shift_apply (op : Operator) (a b : Expr) :
    (op.apply a b).shift d = op.apply (a.shift d) (b.shift d) := by
  cases op <;> rw [Operator.apply, Expr.shift]

private theorem ofName_shift {text : String} {span : Span} {e : Expr}
    (h : ofName text span = some e) :
    ofName text (span.shift d) = some (e.shift d) := by
  unfold ofName at h ⊢
  split_ifs at h ⊢ <;> cases h <;> rw [Expr.shift]

theorem Span.cover_shift (a b : Span) : (a.shift d).cover (b.shift d) = (a.cover b).shift d := by
  rw [cover, cover, shift, shift, shift, Nat.add_min_add_right, Nat.add_max_add_right]

private theorem spanOf_map_shift {ts : List Token} (h : ts ≠ []) :
    spanOf (ts.map (Token.shift d)) = (spanOf ts).shift d := by
  obtain ⟨t, r, rfl⟩ := List.exists_cons_of_ne_nil h
  rw [spanOf, spanOf, lastSpan, lastSpan, List.getLast?_map, List.getLast?_cons]
  exact Span.cover_shift d _ _

/-- **A phrase that stands elsewhere** is a phrase for the same, with its spans moved. -/
theorem Derives.shift {c : Category} {ts : List Token} {p : Phrase} (h : Derives c ts p) :
    Derives c (ts.map (Token.shift d)) (p.shift d) := by
  induction h with
  | test _ ih => exact .test ih
  | conditional _ hq _ hk _ ihtest ihthen ihelse =>
    rw [List.map_append, List.map_cons, List.map_append, List.map_cons, Phrase.shift, Expr.shift]
    exact .conditional ihtest hq ihthen hk ihelse
  | operand _ ih => exact .operand ih
  | operation _ hop _ ihleft ihright =>
    rw [List.map_append, List.map_cons, Phrase.shift, shift_apply]
    exact .operation ihleft hop ihright
  | unprefixed _ ih => exact .unprefixed ih
  | prefixed hop _ ih =>
    rw [List.map_cons, Phrase.shift, Expr.shift]
    exact .prefixed hop ih
  | primary _ ih => exact .primary ih
  | member _ hd hn ih =>
    rw [List.map_append, Phrase.shift, Expr.shift]
    exact .member ih hd hn
  | index _ ho _ hc ih ihkey =>
    rw [List.map_append, List.map_cons, List.map_append, Phrase.shift, Expr.shift]
    exact .index ih ho ihkey hc
  | call h ho _ hc ih ihitems =>
    -- the one place where a tree keeps the span of a phrase, which moves with its tokens
    rw [List.map_append, List.map_cons, List.map_append, Phrase.shift, Expr.shift,
      ← spanOf_map_shift d (h.ne_nil rfl)]
    exact .call ih ho ihitems hc
  | number ht =>
    rw [Phrase.shift, Expr.shift]
    exact .number ht
  | string ht =>
    rw [Phrase.shift, Expr.shift]
    exact .string ht
  | name ht he => exact .name ht (ofName_shift d he)
  | group ho _ hc ih =>
    rw [List.map_cons, List.map_append]
    exact .group ho ih hc
  | array ho _ hc ih =>
    rw [List.map_cons, List.map_append, Phrase.shift, Expr.shift]
    exact .array ho ih hc
  | object ho _ hc ih =>
    rw [List.map_cons, List.map_append, Phrase.shift, Expr.shift]
    exact .object ho ih hc
  | noItems =>
    rw [Phrase.shift, shiftAll]
    exact .noItems
  | lastItem _ ih =>
    rw [Phrase.shift, shiftAll, shiftAll]
    exact .lastItem ih
  | item _ hc _ ih ihmore =>
    rw [List.map_append, List.map_cons, Phrase.shift, shiftAll]
    exact .item ih hc ihmore
  | noMembers =>
    rw [Phrase.shift, shiftMembers]
    exact .noMembers
  | lastMember _ ih =>
    rw [Phrase.shift, shiftMembers_cons, shiftMembers]
    exact .lastMember ih
  | moreMembers _ hc _ ih ihmore =>
    rw [List.map_append, List.map_cons, Phrase.shift, shiftMembers_cons]
    exact .moreMembers ih hc ihmore
  | pair hkey hc _ ih =>
    rw [List.map_cons, List.map_cons, Phrase.shift, shiftMember]
    exact .pair hkey hc ih
  | shorthand hkey =>
    rw [Phrase.shift, shiftMember]
    exact .shorthand hkey

/-! ## Not moving -/

mutual

theorem shift_zero : ∀ e : Expr, e.shift 0 = e
  | literal _ => by rw [shift]
  | name _ _ => by rw [shift]; rfl
  | array items => by rw [shift, shiftAll_zero items]
  | object members => by rw [shift, shiftMembers_zero members]
  | member target _ => by rw [shift, shift_zero target]
  | index target key => by rw [shift, shift_zero target, shift_zero key]
  | call callee arguments _ => by
    rw [shift, shift_zero callee, shiftAll_zero arguments]
    rfl
  | unary _ operand => by rw [shift, shift_zero operand]
  | binary _ left right => by rw [shift, shift_zero left, shift_zero right]
  | logical _ left right => by rw [shift, shift_zero left, shift_zero right]
  | conditional test consequent alternate => by
    rw [shift, shift_zero test, shift_zero consequent, shift_zero alternate]

theorem shiftAll_zero : ∀ es : List Expr, shiftAll 0 es = es
  | [] => by rw [shiftAll]
  | e :: es => by rw [shiftAll, shift_zero e, shiftAll_zero es]

theorem shiftMembers_zero : ∀ ms : List ObjectMember, shiftMembers 0 ms = ms
  | [] => by rw [shiftMembers]
  | .pair _ value :: ms => by rw [shiftMembers, shift_zero value, shiftMembers_zero ms]
  | .shorthand _ _ :: ms => by
    rw [shiftMembers, shiftMembers_zero ms]
    rfl

end

/-! ## Names

The names in an expression are those of the moved one, in the same order; only their places are
others. -/

mutual

theorem names_shift : ∀ e : Expr, (occurrences (e.shift d)).map (·.1) = (occurrences e).map (·.1)
  | literal _ => by rw [shift]
  | name _ _ => by rw [shift, occurrences, occurrences]; rfl
  | array items => by rw [shift, occurrences, occurrences, names_shiftAll items]
  | object members => by rw [shift, occurrences, occurrences, names_shiftMembers members]
  | member target _ => by rw [shift, occurrences, occurrences, names_shift target]
  | index target key => by
    rw [shift, occurrences, occurrences, List.map_append, List.map_append, names_shift target,
      names_shift key]
  | call callee arguments _ => by
    rw [shift, occurrences, occurrences, List.map_append, List.map_append, names_shift callee,
      names_shiftAll arguments]
  | unary _ operand => by rw [shift, occurrences, occurrences, names_shift operand]
  | binary _ left right => by
    rw [shift, occurrences, occurrences, List.map_append, List.map_append, names_shift left,
      names_shift right]
  | logical _ left right => by
    rw [shift, occurrences, occurrences, List.map_append, List.map_append, names_shift left,
      names_shift right]
  | conditional test consequent alternate => by
    rw [shift, occurrences, occurrences, List.map_append, List.map_append, List.map_append,
      List.map_append, names_shift test, names_shift consequent, names_shift alternate]

theorem names_shiftAll : ∀ es : List Expr,
    (occurrencesAll (shiftAll d es)).map (·.1) = (occurrencesAll es).map (·.1)
  | [] => by rw [shiftAll]
  | e :: es => by
    rw [shiftAll, occurrencesAll, occurrencesAll, List.map_append, List.map_append, names_shift e,
      names_shiftAll es]

theorem names_shiftMembers : ∀ ms : List ObjectMember,
    (occurrencesMembers (shiftMembers d ms)).map (·.1) = (occurrencesMembers ms).map (·.1)
  | [] => by rw [shiftMembers]
  | .pair _ value :: ms => by
    rw [shiftMembers, occurrencesMembers, occurrencesMembers, List.map_append, List.map_append,
      names_shift value, names_shiftMembers ms]
  | .shorthand _ _ :: ms => by
    rw [shiftMembers, occurrencesMembers, occurrencesMembers, List.map_cons, List.map_cons,
      names_shiftMembers ms]

end

end HtmlTemplate.Expr
