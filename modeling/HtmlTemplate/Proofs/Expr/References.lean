import HtmlTemplate.Proofs.Expr.Narrowing
import HtmlTemplate.Proofs.Expr.Nesting
import HtmlTemplate.Proofs.Expr.Nodes
import HtmlTemplate.Proofs.Expr.Relocation
import HtmlTemplate.Proofs.Expr.Respacing
import HtmlTemplate.Proofs.Expr.Unambiguous

/-!
# The names of an expression in the order of its source

Which names a source reads can be told from its tokens, without a tree: what a name stands for
depends on the token in front of it, on the marks that are open there, and for a key on the token
behind it. `references` reads the tokens in this way. A walk over the tree meets the same names, in
the same order (`Derives.refers`), so the names of a tree stand in its source one behind another,
and its free names are ordered by where they stand first.

## Contexts

What the tokens in front of a place say of it is kept in a `Context`: the marks that are open there,
and what is due. A token changes the context in a way that depends on its kind alone, so what is
read between a mark and its counterpart is read by itself (`Refers.enclosed`), and the cases of the
induction over the grammar are put together with `Refers.append`.

## Order

The tokens stand one behind another in the source, and the names that are read are some of them, in
the same order (`sublist_references`). That the free names are ordered by their first occurrences is
then a matter of lists: leaving out repetitions keeps what stands first (`pairwise_eraseDups`).
-/

namespace HtmlTemplate.Expr

/-! ## What a token is in its context -/

/-- What is due at a place. -/
inductive Slot where
  /-- A value or an operator. -/
  | operand
  /-- The name of a property. -/
  | property
  /-- A member of an object. -/
  | member

/-- What the tokens in front of a place say of it: the marks that are open there, innermost first,
and what is due. -/
structure Context where
  marks : List Punct
  slot : Slot

/-- What is due behind a token, if these marks are open there. -/
def slotBehind (marks : List Punct) : Token.Kind → Slot
  | .punct .dot => .property
  | .punct .leftBrace => .member
  | .punct .comma => if marks.head? = some .leftBrace then .member else .operand
  | _ => .operand

/-- Does the mark part a key from its value? -/
def Token.Kind.isColon : Token.Kind → Bool
  | .punct .colon => true
  | _ => false

/-- Is the name a value for itself, or an operator? -/
def isReserved (text : String) : Bool :=
  ["true", "false", "null", "undefined", "in", "typeof"].contains text

namespace Context

/-- The context of a first token. -/
def start : Context := ⟨[], .operand⟩

def behind (c : Context) (k : Token.Kind) : Context :=
  let marks := (nest c.marks k).getD c.marks
  ⟨marks, slotBehind marks k⟩

def behindAll (c : Context) (ts : List Token) : Context := ts.foldl (fun c t ↦ c.behind t.kind) c

/-- The name that a token reads, with its place. A name in front of a colon is the key of a member,
and any other is key and value. -/
def reference? (c : Context) (t : Token) (next : Option Token) : Option (String × Span) :=
  match t.kind, c.slot with
  | .name text, .operand => if isReserved text then none else some (text, t.span)
  | .name text, .member =>
    if next.any (·.kind.isColon) then none else some (text, t.span)
  | _, _ => none

end Context

/-- The names that tokens read, from left to right. -/
def references (c : Context) : List Token → List (String × Span)
  | [] => []
  | t :: ts => (c.reference? t ts.head?).toList ++ references (c.behind t.kind) ts

variable {c : Context} {marks : List Punct} {ts us vs rest : List Token} {t : Token}

theorem reference?_of_property (h : c.slot = .property) (t : Token) (next : Option Token) :
    c.reference? t next = none := by
  rcases hkind : t.kind with x | x | text | p <;> simp only [Context.reference?, hkind, h]

theorem reference?_of_key {k : Token} (h : c.slot = .member) (hk : k.kind = .punct .colon)
    (t : Token) :
    c.reference? t (some k) = none := by
  have hcolon : (some k).any (·.kind.isColon) = true := by
    rw [Option.any_some, hk]
    rfl
  rcases hkind : t.kind with x | x | text | p <;>
    simp only [Context.reference?, hkind, h, hcolon, if_true]

/-! ## What tokens read, whatever follows -/

/-- Do the tokens refer to just these names, whatever stands behind them? Behind members stands what
closes or separates. -/
def Refers (c : Context) (ts : List Token) (names : List (String × Span)) : Prop :=
  ∀ rest : List Token, (c.slot = .member → ∀ t ∈ rest.head?, t.kind.isClosing = true) →
    references c (ts ++ rest) = names ++ references ⟨c.marks, .operand⟩ rest

variable {names more : List (String × Span)}

theorem Refers.eq (h : Refers ⟨marks, .operand⟩ ts names) (rest : List Token) :
    references ⟨marks, .operand⟩ (ts ++ rest) = names ++ references ⟨marks, .operand⟩ rest :=
  h rest nofun

theorem Refers.append (h : Refers ⟨marks, .operand⟩ ts names)
    (hmore : Refers ⟨marks, .operand⟩ us more) :
    Refers ⟨marks, .operand⟩ (ts ++ us) (names ++ more) := by
  intro rest _
  rw [List.append_assoc, h.eq, hmore.eq, List.append_assoc]

theorem references_cons_of_none (h : c.reference? t ts.head? = none) :
    references c (t :: ts) = references (c.behind t.kind) ts := by
  rw [references, h]
  rfl

theorem references_punct {p : Punct} (h : t.kind = .punct p) (c : Context) (ts : List Token) :
    references c (t :: ts) = references (c.behind (.punct p)) ts := by
  have hnone : c.reference? t ts.head? = none := by rw [Context.reference?, h]
  rw [references_cons_of_none hnone, h]

/-- **What stands between a mark and its counterpart** is read by itself. -/
theorem Refers.enclosed {o k : Token} {m m' p : Punct} {slot : Slot}
    (h : Refers ⟨p :: marks, slot⟩ ts names) (ho : o.kind = .punct m) (hk : k.kind = .punct m')
    (hopen : Context.behind ⟨marks, .operand⟩ (.punct m) = ⟨p :: marks, slot⟩)
    (hclose : Context.behind ⟨p :: marks, .operand⟩ (.punct m') = ⟨marks, .operand⟩)
    (hclosing : slot = .operand ∨ Token.Kind.isClosing (.punct m') = true) :
    Refers ⟨marks, .operand⟩ (o :: (ts ++ [k])) names := by
  intro rest _
  have hinside : references ⟨p :: marks, slot⟩ (ts ++ ([k] ++ rest)) =
      names ++ references ⟨p :: marks, .operand⟩ ([k] ++ rest) := by
    rcases hclosing with rfl | hclosing
    · exact h.eq _
    · refine h _ fun _ u hu ↦ ?_
      obtain rfl := Option.some.inj hu
      rw [hk]
      exact hclosing
  rw [List.cons_append, List.append_assoc, references_punct ho, hopen, hinside,
    List.singleton_append, references_punct hk, hclose]

theorem refers_singleton (hreserved : ∀ text, t.kind = .name text → isReserved text = true)
    (hnest : nest marks t.kind = some marks) (hslot : slotBehind marks t.kind = .operand) :
    Refers ⟨marks, .operand⟩ [t] [] := by
  intro rest _
  have hnone : Context.reference? ⟨marks, .operand⟩ t rest.head? = none := by
    rcases hkind : t.kind with x | x | text | p <;> simp only [Context.reference?, hkind]
    rw [hreserved text hkind, if_pos rfl]
  have hbehind : Context.behind ⟨marks, .operand⟩ t.kind = ⟨marks, .operand⟩ := by
    rw [Context.behind, hnest, Option.getD_some, hslot]
  rw [List.singleton_append, references_cons_of_none hnone, hbehind]
  rfl

theorem isReserved_of_operator? {l : Level} {text : String} {op : Operator}
    (h : l.operator? (.name text) = some op) : isReserved text = true := by
  have hin : text = "in" := by
    by_contra hne
    cases l <;> simp [Level.operator?, hne] at h
  rw [hin]
  decide

theorem isReserved_of_prefixOperator? {text : String} {op : UnaryOp}
    (h : prefixOperator? (.name text) = some op) : isReserved text = true := by
  have htypeof : text = "typeof" := by
    by_contra hne
    simp [prefixOperator?, hne] at h
  rw [htypeof]
  decide

theorem refers_operator {l : Level} {op : Operator} (h : l.operator? t.kind = some op)
    (marks : List Punct) : Refers ⟨marks, .operand⟩ [t] [] := by
  refine refers_singleton (fun _ htext ↦ isReserved_of_operator? (htext ▸ h))
    (nest_of_operator? h marks) ?_
  generalize t.kind = k at h
  unfold Level.operator? at h
  split at h <;> first | rfl | cases h

theorem refers_prefixOperator {op : UnaryOp} (h : prefixOperator? t.kind = some op)
    (marks : List Punct) : Refers ⟨marks, .operand⟩ [t] [] := by
  refine refers_singleton (fun _ htext ↦ isReserved_of_prefixOperator? (htext ▸ h))
    (nest_of_prefixOperator? h marks) ?_
  generalize t.kind = k at h
  unfold prefixOperator? at h
  split at h <;> first | rfl | cases h

/-- A name that is an expression is read, unless it is a word with a value of its own. -/
theorem refers_name {text : String} {e : Expr} (ht : t.kind = .name text)
    (he : ofName text t.span = some e) (marks : List Punct) :
    Refers ⟨marks, .operand⟩ [t] e.occurrences := by
  intro rest _
  have hread : (Context.reference? ⟨marks, .operand⟩ t rest.head?).toList = e.occurrences := by
    unfold ofName at he
    split_ifs at he with htrue hfalse hnull hundefined hoperator <;> cases he <;> rw [occurrences]
    · simp only [Context.reference?, ht, htrue]; rfl
    · simp only [Context.reference?, ht, hfalse]; rfl
    · simp only [Context.reference?, ht, hnull]; rfl
    · simp only [Context.reference?, ht, hundefined]; rfl
    · obtain ⟨hin, htypeof⟩ := not_or.mp hoperator
      have hreserved : isReserved text = false := by
        simp [isReserved, htrue, hfalse, hnull, hundefined, hin, htypeof]
      simp only [Context.reference?, ht, hreserved]
      rfl
  rw [List.singleton_append, references, hread, ht]
  rfl

theorem refers_property {d n : Token} {property : String} (hd : d.kind = .punct .dot)
    (hn : n.kind = .name property) (marks : List Punct) : Refers ⟨marks, .operand⟩ [d, n] [] := by
  intro rest _
  rw [List.cons_append, List.singleton_append, references_punct hd,
    references_cons_of_none (reference?_of_property rfl n _), hn]
  rfl

/-! ## Members

A name in front of a colon is a key, and one that something closes or separates is a member alone.
So the token behind a key is looked at, which is why `Refers` speaks of what stands behind the
tokens. -/

theorem isColon_of_isClosing {k : Token.Kind} (h : k.isClosing = true) : k.isColon = false := by
  unfold Token.Kind.isClosing at h
  split at h <;> first | rfl | cases h

private theorem exists_punct_of_isClosing {k : Token.Kind} (h : k.isClosing = true) :
    ∃ p, k = .punct p := by
  unfold Token.Kind.isClosing at h
  split at h <;> first | exact ⟨_, rfl⟩ | cases h

/-- What closes or separates is no name, so nothing depends on what is due there. -/
theorem references_of_isClosing (h : ∀ t ∈ rest.head?, t.kind.isClosing = true) (slot : Slot) :
    references ⟨marks, slot⟩ rest = references ⟨marks, .operand⟩ rest := by
  rcases rest with _ | ⟨t, rest⟩
  · rfl
  · obtain ⟨p, hp⟩ := exists_punct_of_isClosing (h t rfl)
    rw [references_punct hp, references_punct hp]
    rfl

theorem refers_noMembers (marks : List Punct) : Refers ⟨marks, .member⟩ [] [] :=
  fun _ hrest ↦ references_of_isClosing (hrest rfl) .member

theorem Refers.moreMembers {k : Token} (h : Refers ⟨marks, .member⟩ ts names)
    (hmore : Refers ⟨marks, .member⟩ us more) (hk : k.kind = .punct .comma)
    (hmarks : marks.head? = some .leftBrace) :
    Refers ⟨marks, .member⟩ (ts ++ k :: us) (names ++ more) := by
  intro rest hrest
  have hcomma : Context.behind ⟨marks, .operand⟩ (.punct .comma) = ⟨marks, .member⟩ :=
    congrArg (Context.mk marks) (if_pos hmarks)
  have hfirst : references ⟨marks, .member⟩ (ts ++ (k :: us ++ rest)) =
      names ++ references ⟨marks, .operand⟩ (k :: us ++ rest) := by
    refine h _ fun _ u hu ↦ ?_
    obtain rfl := Option.some.inj hu
    rw [hk]
    rfl
  rw [List.append_assoc, hfirst, List.cons_append, references_punct hk, hcomma, hmore rest hrest,
    List.append_assoc]

theorem Refers.pair {k : Token} {key : String} {isName : Bool}
    (h : Refers ⟨marks, .operand⟩ ts names)
    (hkey : objectKey? t.kind = some (key, isName)) (hk : k.kind = .punct .colon)
    (hmarks : marks.head? = some .leftBrace) : Refers ⟨marks, .member⟩ (t :: k :: ts) names := by
  intro rest _
  have hbehind : Context.behind ⟨marks, .member⟩ t.kind = ⟨marks, .operand⟩ := by
    rw [Context.behind, nest_of_objectKey? hkey marks]
    rcases hkind : t.kind with x | x | text | p
    · rfl
    · rfl
    · rfl
    · rw [hkind] at hkey
      cases hkey
  have hcolon : Context.behind ⟨marks, .operand⟩ (.punct .colon) = ⟨marks, .operand⟩ := by
    rw [Context.behind, nest, if_pos hmarks]
    rfl
  rw [List.cons_append, List.cons_append, references_cons_of_none (reference?_of_key rfl hk t),
    hbehind, references_punct hk, hcolon, h.eq]

theorem refers_shorthand {key : String} (hkey : objectKey? t.kind = some (key, true))
    (marks : List Punct) : Refers ⟨marks, .member⟩ [t] [(key, t.span)] := by
  intro rest hrest
  have hname := objectKey?_eq_some_true_iff.mp hkey
  have hcolon : rest.head?.any (·.kind.isColon) = false := by
    rcases hhead : rest.head? with _ | u
    · rfl
    · exact isColon_of_isClosing (hrest rfl u hhead)
  have hread : Context.reference? ⟨marks, .member⟩ t rest.head? = some (key, t.span) := by
    simp only [Context.reference?, hname, hcolon]
    rfl
  rw [List.singleton_append, references, hread, hname]
  rfl

/-! ## Phrases -/

def Category.slot : Category → Slot
  | .members | .member => .member
  | _ => .operand

def Category.FitsIn (marks : List Punct) : Category → Prop
  | .items => marks.head? ≠ some .leftBrace
  | .members | .member => marks.head? = some .leftBrace
  | _ => True

private theorem fitsIn_items {p : Punct} (h : p ≠ .leftBrace) :
    Category.items.FitsIn (p :: marks) :=
  fun hp ↦ h (Option.some.inj hp)

theorem Level.slot_operand (l : Level) : l.operand.slot = .operand := by cases l <;> rfl

theorem Level.fitsIn_operand (l : Level) (marks : List Punct) : l.operand.FitsIn marks := by
  cases l <;> trivial

/-- **A walk over a phrase meets the names that its tokens read**, in their order. -/
theorem Derives.refers {k : Category} {p : Phrase} (h : Derives k ts p) (marks : List Punct)
    (hmarks : k.FitsIn marks) : Refers ⟨marks, k.slot⟩ ts p.occurrences := by
  induction h generalizing marks with
  | test _ ih => exact ih marks trivial
  | @conditional ts us vs q k c a b _ hq _ hk _ ihtest ihthen ihelse =>
    rw [Phrase.occurrences, Expr.occurrences, List.append_assoc]
    -- the colon closes the question mark, so it is not taken for the colon of a member
    have hthen := (ihthen (.question :: marks) trivial).enclosed hq hk rfl rfl (.inl rfl)
    have hbehind := hthen.append (ihelse marks trivial)
    rw [List.cons_append, List.append_assoc] at hbehind
    exact (ihtest marks trivial).append hbehind
  | @operand l _ _ _ ih =>
    have hoperand := ih marks (l.fitsIn_operand marks)
    rwa [l.slot_operand] at hoperand
  | @operation l _ _ _ _ a b _ hop _ ihleft ihright =>
    have hright := ihright marks (l.fitsIn_operand marks)
    rw [l.slot_operand] at hright
    rw [Phrase.occurrences, occurrences_apply]
    exact (ihleft marks trivial).append ((refers_operator hop marks).append hright)
  | unprefixed _ ih => exact ih marks trivial
  | prefixed hop _ ih =>
    rw [Phrase.occurrences, Expr.occurrences]
    exact (refers_prefixOperator hop marks).append (ih marks trivial)
  | primary _ ih => exact ih marks trivial
  | member _ hd hn ih =>
    rw [Phrase.occurrences, Expr.occurrences, ← List.append_nil (Expr.occurrences _)]
    exact (ih marks trivial).append (refers_property hd hn marks)
  | index _ ho _ hk ih ihkey =>
    rw [Phrase.occurrences, Expr.occurrences]
    exact (ih marks trivial).append
      ((ihkey (.leftBracket :: marks) trivial).enclosed ho hk rfl rfl (.inl rfl))
  | call _ ho _ hk ih ihitems =>
    rw [Phrase.occurrences, Expr.occurrences]
    exact (ih marks trivial).append
      ((ihitems (.leftParen :: marks) (fitsIn_items (by decide))).enclosed ho hk rfl rfl (.inl rfl))
  | number ht =>
    rw [Phrase.occurrences, Expr.occurrences]
    exact refers_singleton (by simp [ht]) (by rw [ht]; rfl) (by rw [ht]; rfl)
  | string ht =>
    rw [Phrase.occurrences, Expr.occurrences]
    exact refers_singleton (by simp [ht]) (by rw [ht]; rfl) (by rw [ht]; rfl)
  | name ht he => exact refers_name ht he marks
  | group ho _ hk ih => exact (ih (.leftParen :: marks) trivial).enclosed ho hk rfl rfl (.inl rfl)
  | array ho _ hk ih =>
    rw [Phrase.occurrences, Expr.occurrences]
    exact (ih (.leftBracket :: marks) (fitsIn_items (by decide))).enclosed ho hk rfl rfl (.inl rfl)
  | object ho _ hk ih =>
    rw [Phrase.occurrences, Expr.occurrences]
    exact (ih (.leftBrace :: marks) rfl).enclosed ho hk rfl rfl (.inr rfl)
  | noItems =>
    rw [Phrase.occurrences, occurrencesAll]
    exact fun _ _ ↦ rfl
  | lastItem _ ih =>
    rw [Phrase.occurrences, occurrencesAll, occurrencesAll, List.append_nil]
    exact ih marks trivial
  | @item ts us k e es _ hk _ ih ihmore =>
    -- a comma is in front of a member only directly inside of braces
    have hcomma : Refers ⟨marks, .operand⟩ [k] [] := refers_singleton (by simp [hk])
      (by rw [hk]; rfl) (by rw [hk]; exact if_neg hmarks)
    rw [Phrase.occurrences, occurrencesAll]
    exact (ih marks trivial).append (hcomma.append (ihmore marks hmarks))
  | noMembers =>
    rw [Phrase.occurrences, occurrencesMembers]
    exact refers_noMembers marks
  | lastMember _ ih => exact ih marks hmarks
  | moreMembers _ hk _ ih ihmore =>
    rw [Phrase.occurrences, occurrencesMembers_cons]
    exact (ih marks hmarks).moreMembers (ihmore marks hmarks) hk hmarks
  | pair hkey hk _ ih =>
    rw [Phrase.occurrences, occurrencesMembers, occurrencesMembers, List.append_nil]
    exact (ih marks trivial).pair hkey hk hmarks
  | shorthand hkey =>
    rw [Phrase.occurrences, occurrencesMembers, occurrencesMembers]
    exact refers_shorthand hkey marks

/-! ## Where the names stand -/

theorem eq_of_reference? {next : Option Token} {o : String × Span}
    (h : c.reference? t next = some o) : t = ⟨.name o.1, o.2⟩ := by
  obtain ⟨kind, span⟩ := t
  unfold Context.reference? at h
  split at h
  · rename_i hname _
    split_ifs at h
    cases h
    exact congrArg (Token.mk · span) hname
  · rename_i hname _
    split_ifs at h
    cases h
    exact congrArg (Token.mk · span) hname
  · cases h

/-- The names that tokens read stand among them, in this order. -/
theorem sublist_references (c : Context) (ts : List Token) :
    ((references c ts).map fun o ↦ Token.mk (.name o.1) o.2).Sublist ts := by
  induction ts generalizing c with
  | nil => exact List.Sublist.slnil
  | cons t ts ih =>
    rw [references]
    rcases ho : c.reference? t ts.head? with _ | o
    · exact (ih (c.behind t.kind)).cons t
    · obtain rfl := eq_of_reference? ho
      exact (ih (c.behind _)).cons_cons _

private theorem reference?_narrow (c : Context) (t : Token) (next : Option Token) :
    c.reference? t.narrow (next.map Token.narrow) =
      (c.reference? t next).map fun o ↦ (o.1, o.2.narrow) := by
  have hnext : (next.map Token.narrow).any (·.kind.isColon) = next.any (·.kind.isColon) := by
    cases next <;> rfl
  obtain ⟨kind, span⟩ := t
  obtain ⟨marks, slot⟩ := c
  simp only [Context.reference?, Token.narrow, hnext]
  cases kind <;> cases slot <;> dsimp only <;> first | rfl | (split_ifs <;> rfl)

/-- What tokens refer to does not depend on where they stand. -/
theorem references_narrow (c : Context) (ts : List Token) :
    references c (ts.map Token.narrow) = (references c ts).map fun o ↦ (o.1, o.2.narrow) := by
  induction ts generalizing c with
  | nil => rfl
  | cons t ts ih =>
    rw [List.map_cons, references, references, List.map_append, List.head?_map, reference?_narrow,
      Token.narrow, ih]
    cases c.reference? t ts.head? <;> rfl

theorem pairwise_references (h : ts.Pairwise fun t u ↦ t.span.stop ≤ u.span.start) (c : Context) :
    (references c ts).Pairwise fun o p ↦ o.2.stop ≤ p.2.start :=
  List.pairwise_map.mp (h.sublist (sublist_references c ts))

theorem marks_behindAll (h : nestAll c.marks us = some marks) : (c.behindAll us).marks = marks := by
  induction us generalizing c with
  | nil => exact Option.some.inj h
  | cons u us ih =>
    obtain ⟨marks', hnest, hrest⟩ := Option.bind_eq_some_iff.mp h
    refine ih (c := c.behind u.kind) ?_
    rw [Context.behind, hnest]
    exact hrest

theorem slot_behindAll (c : Context) (us : List Token) (t : Token) :
    (c.behindAll (us ++ [t])).slot = slotBehind (c.behindAll (us ++ [t])).marks t.kind := by
  rw [Context.behindAll, List.foldl_append]
  rfl

private theorem exists_of_mem_references {o : String × Span} (h : o ∈ references c ts) :
    ∃ us t vs, ts = us ++ t :: vs ∧ (c.behindAll us).reference? t vs.head? = some o := by
  induction ts generalizing c with
  | nil => cases h
  | cons t ts ih =>
    rcases List.mem_append.mp h with ho | hmore
    · exact ⟨[], t, ts, rfl, Option.mem_toList.mp ho⟩
    · obtain ⟨us, u, vs, rfl, hu⟩ := ih hmore
      exact ⟨t :: us, u, vs, rfl, hu⟩

section

variable (hfull : ∀ t ∈ ts, t.span.start < t.span.stop)
  (hapart : ts.Pairwise fun t u ↦ t.span.stop ≤ u.span.start)

include hfull hapart

/-- **Whether a token is read is told by its context**: no two tokens stand at the same place. -/
theorem reference?_of_mem_references {name : String} (hts : ts = us ++ t :: vs)
    (h : (name, t.span) ∈ references c ts) :
    (c.behindAll us).reference? t vs.head? = some (name, t.span) := by
  obtain ⟨us', u, vs', hts', hu⟩ := exists_of_mem_references h
  have hspan : u.span = t.span := by rw [eq_of_reference? hu]
  have hwidth : t.span.start < t.span.stop := hfull t (by rw [hts]; simp)
  rw [hts, List.pairwise_append, List.pairwise_cons] at hapart
  have hfront : u ∉ us := fun hmem ↦ by
    have := hapart.2.2 u hmem t List.mem_cons_self
    rw [hspan] at this
    omega
  have hbehind : u ∉ vs := fun hmem ↦ by
    have := hapart.2.1.1 u hmem
    rw [hspan] at this
    omega
  obtain ⟨rfl, rfl, rfl⟩ :=
    (List.append_cons_inj_of_notMem hfront hbehind).mp (hts.symm.trans hts')
  exact hu

theorem notMem_references_of_property {d : Token} (hts : ts = us ++ d :: t :: vs)
    (hd : d.kind = .punct .dot) (name : String) : (name, t.span) ∉ references .start ts := by
  intro hname
  have hslot : (Context.start.behindAll (us ++ [d])).slot = .property := by
    rw [slot_behindAll, hd]
    rfl
  have hsome := reference?_of_mem_references hfull hapart (hts.trans (List.append_cons ..)) hname
  rw [reference?_of_property hslot] at hsome
  cases hsome

theorem notMem_references_of_key {d k : Token} (hts : ts = us ++ d :: t :: k :: vs)
    (hd : d.kind = .punct .leftBrace ∨ d.kind = .punct .comma)
    (hmarks : nestAll [] (us ++ [d]) = some (.leftBrace :: marks)) (hk : k.kind = .punct .colon)
    (name : String) : (name, t.span) ∉ references .start ts := by
  intro hname
  have hslot : (Context.start.behindAll (us ++ [d])).slot = .member := by
    rw [slot_behindAll, marks_behindAll hmarks]
    rcases hd with hd | hd <;> rw [hd] <;> rfl
  have hsome := reference?_of_mem_references hfull hapart (hts.trans (List.append_cons ..)) hname
  rw [List.head?_cons, reference?_of_key hslot hk] at hsome
  cases hsome

theorem notMem_references_of_string {value : String} (ht : t ∈ ts) (hvalue : t.kind = .string value)
    (name : String) : (name, t.span) ∉ references .start ts := by
  intro hname
  obtain ⟨us, vs, hts⟩ := List.append_of_mem ht
  rw [eq_of_reference? (reference?_of_mem_references hfull hapart hts hname)] at hvalue
  cases hvalue

end

/-! ## First occurrences -/

/-- **Without repetitions a list keeps the order** in which its elements stand first. The recursion
is the one of `eraseDups`, which goes on with the elements that differ from the first one. -/
theorem pairwise_eraseDups {α : Type} {R : α → α → Prop} {f : α → String} :
    ∀ {l : List α}, l.Pairwise R → (l.map f).eraseDups.Pairwise fun a b ↦
      ∃ o ∈ l, f o = a ∧ ∀ p ∈ l, f p = b → R o p
  | [], _ => List.Pairwise.nil
  | o :: l, h => by
    obtain ⟨ho, hl⟩ := List.pairwise_cons.mp h
    have hrest := pairwise_eraseDups (f := f) (hl.filter fun p ↦ !f p == f o)
    have hne : ∀ b ∈ ((l.filter fun p ↦ !f p == f o).map f).eraseDups, b ≠ f o := by
      intro b hb
      obtain ⟨p, hp, rfl⟩ := List.mem_map.mp (List.mem_eraseDups.mp hb)
      simpa using (List.mem_filter.mp hp).2
    rw [List.map_cons, List.eraseDups_cons, List.filter_map]
    refine List.pairwise_cons.mpr ⟨fun b hb ↦ ⟨o, List.mem_cons_self, rfl, ?_⟩, ?_⟩
    · rintro p hp rfl
      rcases List.mem_cons.mp hp with rfl | hp
      · exact absurd rfl (hne _ hb)
      · exact ho p hp
    · refine hrest.imp_of_mem fun {a b} _ hb ↦ ?_
      rintro ⟨q, hq, hqa, hall⟩
      refine ⟨q, List.mem_cons_of_mem o (List.mem_filter.mp hq).1, hqa, ?_⟩
      rintro p hp rfl
      rcases List.mem_cons.mp hp with rfl | hp
      · exact absurd rfl (hne _ hb)
      · exact hall p (List.mem_filter.mpr ⟨hp, by simpa using hne _ hb⟩) rfl
termination_by l => l.length
decreasing_by
  have := List.length_filter_le (fun p ↦ !f p == f o) l
  simp only [List.length_cons]
  omega

theorem pairwise_freeNames {R : String × Span → String × Span → Prop} (e : Expr)
    (h : e.occurrences.Pairwise R) : e.freeNames.Pairwise fun a b ↦
      ∃ o ∈ e.occurrences, o.1 = a ∧ ∀ p ∈ e.occurrences, p.1 = b → R o p :=
  (pairwise_eraseDups h).filter _

/-! ## Sources

A name that is no property, no key and no string is met by the walk, and everything that the walk
meets is such a name. -/

theorem name_mem_nodes_iff {e : Expr} {text : String} {span : Span} :
    Expr.name text span ∈ e.nodes ↔ (text, span) ∈ e.occurrences := by
  rw [← filterMap_nodes, List.mem_filterMap]
  constructor
  · exact fun h ↦ ⟨_, h, rfl⟩
  · rintro ⟨node, hnode, ho⟩
    cases node <;> cases ho
    exact hnode

/-- Do the names of a tree stand in its source as its tokens say, and in the order of a walk? -/
structure NamesInOrder (source : String) (lexed : Lexed) (e : Expr) : Prop where
  /-- A walk meets the names that the tokens read. -/
  read : e.nodes.filterMap occurrence? = references .start lexed.tokens
  /-- No name is empty. -/
  full : ∀ name span, .name name span ∈ e.nodes → span.start < span.stop
  /-- They stand one behind another. -/
  apart : (e.nodes.filterMap occurrence?).Pairwise fun o p ↦ o.2.stop ≤ p.2.start
  /-- What stands in the source is the name. -/
  written : ∀ name span, .name name span ∈ e.nodes → span.excerpt source = name
  /-- The name of a property is none of them. -/
  property : ∀ us d t vs, lexed.tokens = us ++ d :: t :: vs → d.kind = .punct .dot →
    ∀ name, .name name t.span ∉ e.nodes
  /-- The key of a member with a value is none of them. -/
  key : ∀ us d t k vs marks, lexed.tokens = us ++ d :: t :: k :: vs →
    d.kind = .punct .leftBrace ∨ d.kind = .punct .comma →
    nestAll [] (us ++ [d]) = some (.leftBrace :: marks) → k.kind = .punct .colon →
    ∀ name, .name name t.span ∉ e.nodes
  /-- A string is none of them. -/
  string : ∀ t value, t ∈ lexed.tokens → t.kind = .string value →
    ∀ name, .name name t.span ∉ e.nodes
  /-- The free names are those that are not global. -/
  mem_freeNames : ∀ name, name ∈ e.freeNames ↔
    (∃ span, .name name span ∈ e.nodes) ∧ isGlobal name = false
  /-- Each is free once. -/
  nodup : e.freeNames.Nodup
  /-- They have the order in which they stand first. -/
  first : e.freeNames.Pairwise fun a b ↦ ∃ span, .name a span ∈ e.nodes ∧
    ∀ span', .name b span' ∈ e.nodes → span.stop ≤ span'.start

theorem Derives.occurrences_eq {e : Expr} (h : Derives .conditional ts (.expr e)) :
    e.occurrences = references .start ts := by
  have hall := (h.refers [] trivial).eq []
  rw [List.append_nil] at hall
  exact (hall.trans (List.append_nil _)).symm

private theorem mem_freeNames_iff_nodes {e : Expr} {name : String} : name ∈ e.freeNames ↔
    (∃ span, .name name span ∈ e.nodes) ∧ isGlobal name = false := by
  rw [mem_freeNames, List.mem_map]
  refine and_congr_left' ⟨?_, ?_⟩
  · rintro ⟨⟨_, span⟩, ho, rfl⟩
    exact ⟨span, name_mem_nodes_iff.mpr ho⟩
  · rintro ⟨span, hname⟩
    exact ⟨_, name_mem_nodes_iff.mp hname, rfl⟩

private theorem namesInOrder_of_tokenize {source : String} {lexed : Lexed} {e : Expr}
    (hlexed : tokenize source = .ok lexed) (he : Derives .conditional lexed.tokens (.expr e)) :
    NamesInOrder source lexed e := by
  have hread : e.nodes.filterMap occurrence? = references .start lexed.tokens := by
    rw [filterMap_nodes, he.occurrences_eq]
  have hnode {name : String} {span : Span} :
      Expr.name name span ∈ e.nodes ↔ (name, span) ∈ references .start lexed.tokens := by
    rw [name_mem_nodes_iff, he.occurrences_eq]
  have hfull := start_lt_stop_of_mem hlexed
  have hapart : lexed.tokens.Pairwise fun t u ↦ t.span.stop ≤ u.span.start :=
    List.pairwise_map.mp (List.pairwise_append.mp (pairwise_places_apart hlexed)).1
  have hmem {name : String} {span : Span} (hname : Expr.name name span ∈ e.nodes) :
      Token.mk (.name name) span ∈ lexed.tokens :=
    (sublist_references .start lexed.tokens).subset (List.mem_map_of_mem (hnode.mp hname))
  have hnames := pairwise_references hapart .start
  have hfirst : e.freeNames.Pairwise fun a b ↦ ∃ span, .name a span ∈ e.nodes ∧
      ∀ span', .name b span' ∈ e.nodes → span.stop ≤ span'.start := by
    rw [← he.occurrences_eq] at hnames
    refine (e.pairwise_freeNames hnames).imp ?_
    rintro _ b ⟨⟨a, span⟩, ha, rfl, hbefore⟩
    exact ⟨span, name_mem_nodes_iff.mpr ha, fun span' hb ↦
      hbefore (b, span') (name_mem_nodes_iff.mp hb) rfl⟩
  refine ⟨hread, fun _ _ hname ↦ hfull _ (hmem hname), hread ▸ hnames,
    fun _ _ hname ↦ excerpt_of_name hlexed (hmem hname) rfl, ?_, ?_, ?_,
    fun _ ↦ mem_freeNames_iff_nodes, ?_, hfirst⟩
  · intro us d t vs hts hd name
    rw [hnode]
    exact notMem_references_of_property hfull hapart hts hd name
  · intro us d t k vs marks hts hd hmarks hk name
    rw [hnode]
    exact notMem_references_of_key hfull hapart hts hd hmarks hk name
  · intro t value ht hvalue name
    rw [hnode]
    exact notMem_references_of_string hfull hapart ht hvalue name
  · -- what stands in front of all its occurrences would stand in front of itself
    refine hfirst.imp ?_
    rintro a _ ⟨span, ha, hbefore⟩ rfl
    exact (hfull _ (hmem ha)).not_ge (hbefore span ha)

/-- **A tree reads its names in the order of its source**, and reads no property, key or string. In
a source below `2 ^ 32` bytes the spans are the places of the names; in a longer one they are what
32 bits keep of these, and the free names are still those of the source, in its order. -/
theorem namesInOrder_of_parseNarrow {source : String} {e : Expr} (h : parseNarrow source = .ok e) :
    ∃ lexed, tokenize source = .ok lexed ∧
      (Text.width source.toList < UInt32.size → NamesInOrder source lexed e) ∧
      ∃ e', NamesInOrder source lexed e' ∧ e.freeNames = e'.freeNames ∧
        e.nodes.filterMap occurrence? =
          (e'.nodes.filterMap occurrence?).map fun o ↦ (o.1, o.2.narrow) := by
  obtain ⟨lexed, e', hlexed, he, hparse, he'⟩ := exists_parse_of_narrow h
  have hnames : e.occurrences = e'.occurrences.map fun o ↦ (o.1, o.2.narrow) := by
    rw [he.occurrences_eq, he'.occurrences_eq]
    exact references_narrow .start lexed.tokens
  have horder := namesInOrder_of_tokenize hlexed he'
  refine ⟨lexed, hlexed, fun hwidth ↦ ?_, e', horder, ?_, ?_⟩
  · rw [parseNarrow_eq hwidth, hparse] at h
    exact Except.ok.inj h ▸ horder
  · rw [freeNames, freeNames, hnames, List.map_map]
    rfl
  · rw [filterMap_nodes, filterMap_nodes, hnames]

/-- The key of a member and the name of a property are the same here, and neither is read. -/
theorem namesInOrder_of_parseNarrow_object :
    ∃ lexed e, parseNarrow "\x7ba:b.a,c\x7d" = .ok e ∧ tokenize "\x7ba:b.a,c\x7d" = .ok lexed ∧
      e.freeNames = ["b", "c"] ∧
      references .start lexed.tokens = [("b", ⟨3, 4⟩), ("c", ⟨7, 8⟩)] ∧
      NamesInOrder "\x7ba:b.a,c\x7d" lexed e := by
  have hwidth : Text.width "\x7ba:b.a,c\x7d".toList < UInt32.size := by decide
  have htokens : tokenize "\x7ba:b.a,c\x7d" = .ok ⟨[⟨.punct .leftBrace, 0, 1⟩, ⟨.name "a", 1, 2⟩,
      ⟨.punct .colon, 2, 3⟩, ⟨.name "b", 3, 4⟩, ⟨.punct .dot, 4, 5⟩, ⟨.name "a", 5, 6⟩,
      ⟨.punct .comma, 6, 7⟩, ⟨.name "c", 7, 8⟩, ⟨.punct .rightBrace, 8, 9⟩], 9⟩ := by
    refine tokensFrom_eq_cons (s := "\x7ba:b.a,c\x7d".toList) rfl rfl rfl ?_
    iterate 8 refine tokensFrom_eq_cons rfl rfl rfl ?_
    exact tokensFrom_of_blank 9 rfl
  have hvalue : Derives .applied [⟨.name "b", 3, 4⟩, ⟨.punct .dot, 4, 5⟩, ⟨.name "a", 5, 6⟩]
      (.expr (.member (.name "b" ⟨3, 4⟩) "a")) :=
    .member (.primary (.name rfl rfl)) rfl rfl
  have hmembers : Derives .members [⟨.name "a", 1, 2⟩, ⟨.punct .colon, 2, 3⟩, ⟨.name "b", 3, 4⟩,
      ⟨.punct .dot, 4, 5⟩, ⟨.name "a", 5, 6⟩, ⟨.punct .comma, 6, 7⟩, ⟨.name "c", 7, 8⟩]
      (.members [.pair "a" (.member (.name "b" ⟨3, 4⟩) "a"), .shorthand "c" ⟨7, 8⟩]) :=
    .moreMembers (.pair rfl rfl hvalue.conditional_of_applied) rfl (.lastMember (.shorthand rfl))
  have hparse : parseNarrow "\x7ba:b.a,c\x7d" =
      .ok (.object [.pair "a" (.member (.name "b" ⟨3, 4⟩) "a"), .shorthand "c" ⟨7, 8⟩]) := by
    rw [parseNarrow_eq hwidth]
    exact parse_eq_ok_iff_exists.mpr ⟨_, htokens,
      (Derives.primary (.object rfl hmembers rfl)).conditional_of_applied⟩
  obtain ⟨lexed, hlexed, hnames, -⟩ := namesInOrder_of_parseNarrow hparse
  obtain rfl := Except.ok.inj (htokens.symm.trans hlexed)
  exact ⟨_, _, hparse, htokens, rfl, rfl, hnames hwidth⟩

/-- **Behind `2 ^ 32` bytes a name has another span**: the one of this name points at the first of
the blanks in front of it. -/
theorem span_of_name_behind_blanks :
    parseNarrow (String.ofList (List.replicate UInt32.size ' ') ++ "a") = .ok (.name "a" ⟨0, 1⟩) ∧
      Span.excerpt (String.ofList (List.replicate UInt32.size ' ') ++ "a") ⟨0, 1⟩ ≠ "a" := by
  have htokens : tokenize "a" = .ok ⟨[⟨.name "a", 0, 1⟩], 1⟩ :=
    tokensFrom_single (c := 'a') (t := []) rfl rfl
  have hparse : parse "a" = .ok (.name "a" ⟨0, 1⟩) :=
    parse_eq_ok_iff_exists.mpr ⟨_, htokens, .test (.of_ofName rfl)⟩
  constructor
  · rw [parseNarrow_turn htokens, parseNarrow_eq (by decide), hparse]
  · rw [excerpt_turn]
    decide

end HtmlTemplate.Expr
