import HtmlTemplate.Proofs.Expr.Braces
import HtmlTemplate.Proofs.Expr.Relocation
import HtmlTemplate.Proofs.Expr.Unambiguous

/-!
# Objects that are replaced by others

An object that stands in an expression can be replaced by another one with the same result: what was
an expression is one again, with the same result. Neither the tokens around the object nor the tree
around it matter, since its braces keep it together: no phrase ends between them.

Only a message that quotes the source can tell the difference, so results are compared up to what is
quoted (`Alike`).

## Objects are kept together

The tokens of an object are nested and begin and end with its braces. A cut between two parts of a
phrase cannot go through it, since each part is nested too (`Replaces.of_append`), unless the phrase
is the object itself or stands in it (`Replaces.of_braces`). So every case of the grammar passes the
replacement on to its parts, and only where a brace opens a primary phrase there are two cases.

## Scopes

The two results are compared in scopes over different sources. That the names denote the same in
them is a hypothesis, and so is that the two objects have the same result; nothing else is asked of
the scopes.
-/

namespace HtmlTemplate

/-! ## Results up to quotations -/

def EvalError.unquoted : EvalError → EvalError
  | notAFunction _ => notAFunction ""
  | e => e

variable {α β : Type}

/-- Are two results the same, up to what errors quote of the source? -/
def Alike (x y : Except EvalError α) : Prop :=
  x.mapError EvalError.unquoted = y.mapError EvalError.unquoted

theorem Alike.refl (x : Except EvalError α) : Alike x x := rfl

theorem Alike.symm {x y : Except EvalError α} (h : Alike x y) : Alike y x := Eq.symm h

theorem Alike.bind {x y : Except EvalError α} {f g : α → Except EvalError β} (h : Alike x y)
    (hfg : ∀ a, Alike (f a) (g a)) : Alike (x >>= f) (y >>= g) := by
  rcases x with err | a <;> rcases y with err' | b
  · exact congrArg Except.error (Except.error.inj h)
  · cases h
  · cases h
  · cases h
    exact hfg a

theorem Alike.map {x y : Except EvalError α} (h : Alike x y) (f : α → β) :
    Alike (x.map f) (y.map f) := by
  rcases x with err | a <;> rcases y with err' | b
  · exact congrArg Except.error (Except.error.inj h)
  · cases h
  · cases h
  · cases h
    exact .refl _

theorem Alike.eq_ok {x y : Except EvalError α} {a : α} (h : Alike x y) (hx : x = .ok a) :
    y = .ok a := by
  rw [Alike, hx] at h
  exact mapError_eq_ok_iff.mp h.symm

namespace Expr

/-! ## Objects between their braces -/

/-- The tokens are an object with these members, between its braces. -/
inductive IsObject : List Token → List ObjectMember → Prop
  | braces {o c : Token} {ts : List Token} {ms : List ObjectMember} : o.kind = .punct .leftBrace →
      Derives .members ts (.members ms) → c.kind = .punct .rightBrace →
      IsObject (o :: (ts ++ [c])) ms

theorem IsObject.primary {g : List Token} {ms : List ObjectMember} (h : IsObject g ms) :
    Derives .primary g (.expr (.object ms)) := by
  obtain ⟨ho, hms, hc⟩ := h
  exact .object ho hms hc

variable {marks : List Punct} {g g' ts us ws a b : List Token} {o c t : Token}
  {ms ns : List ObjectMember}

theorem IsObject.ne_nil (hg : IsObject g ms) : g ≠ [] := by
  obtain ⟨-, -, -⟩ := hg
  exact List.cons_ne_nil _ _

theorem IsObject.not_suffix (hg : IsObject g ms) (hab : g = a ++ b) (ha : a ≠ []) (hb : b ≠ [])
    (hts : IsNested marks ts) : ¬a <:+ ts := by
  rintro ⟨us, rfl⟩
  obtain @⟨o, c, body, _, ho, hms, -⟩ := hg
  rcases List.cons_eq_append_iff.mp hab with ⟨rfl, -⟩ | ⟨r, rfl, hr⟩
  · exact ha rfl
  obtain ⟨rest, rfl⟩ : ∃ rest, body = r ++ rest := by
    rcases List.append_eq_append_iff.mp hr with ⟨d, rfl, hd⟩ | ⟨d, hd, -⟩
    · -- the closing brace is all that can be left out
      rcases List.append_eq_singleton_iff.mp hd.symm with ⟨rfl, -⟩ | ⟨-, rfl⟩
      · exact ⟨[], by simp⟩
      · exact absurd rfl hb
    · exact ⟨d, hd⟩
  -- the brace is open there, whatever else is
  obtain ⟨more, hmore⟩ := hts.beginning us _ rfl
  obtain ⟨inside, hinside⟩ :=
    (hms.isNested (.leftBrace :: (more ++ marks)) fun _ ↦ rfl).beginning r rest rfl
  have hopen := hts.settled
  rw [nestAll_append, hmore, Option.bind_some, nestAll, ho, nest, Option.bind_some,
    hinside] at hopen
  have hlength := congrArg List.length (Option.some.inj hopen)
  simp only [List.length_append, List.length_cons] at hlength
  omega

/-! ## Tokens with some of the objects replaced -/

/-- Are these the same tokens, wherever they stand, with some of the parts `g` replaced by `g'`? -/
inductive Replaces (g g' : List Token) : List Token → List Token → Prop
  | nil : Replaces g g' [] []
  | cons {t u : Token} {ts us : List Token} : u.kind = t.kind → Replaces g g' ts us →
      Replaces g g' (t :: ts) (u :: us)
  | replaced {ts us : List Token} : Replaces g g' ts us → Replaces g g' (g ++ ts) (g' ++ us)

theorem Replaces.of_kinds (hkinds : us.map Token.kind = ts.map Token.kind) :
    Replaces g g' ts us := by
  induction ts generalizing us with
  | nil =>
    rw [List.map_eq_nil_iff.mp hkinds]
    exact .nil
  | cons t ts ih =>
    obtain ⟨u, us, rfl, hu, hus⟩ := List.map_eq_cons_iff.mp hkinds
    exact .cons hu (ih hus)

theorem Replaces.append (hts : Replaces g g' ts us) (hmore : Replaces g g' a b) :
    Replaces g g' (ts ++ a) (us ++ b) := by
  induction hts with
  | nil => exact hmore
  | cons hk _ ih => exact .cons hk ih
  | replaced _ ih =>
    rw [List.append_assoc, List.append_assoc]
    exact .replaced ih

theorem Replaces.eq_nil (hg : IsObject g ms) (hr : Replaces g g' [] ws) : ws = [] := by
  generalize hall : [] = all at hr
  cases hr with
  | nil => rfl
  | cons => cases hall
  | replaced => exact absurd (List.append_eq_nil_iff.mp hall.symm).1 hg.ne_nil

theorem ne_leftBrace_of_nest {k : Token.Kind} (h : nest [] k = some []) :
    k ≠ .punct .leftBrace := by
  rintro rfl
  cases h

theorem Replaces.of_cons (hg : IsObject g ms) (ht : t.kind ≠ .punct .leftBrace)
    (hr : Replaces g g' (t :: ts) ws) :
    ∃ u us, ws = u :: us ∧ u.kind = t.kind ∧ Replaces g g' ts us := by
  generalize hall : t :: ts = all at hr
  cases hr with
  | nil => cases hall
  | cons hk hr =>
    cases hall
    exact ⟨_, _, rfl, hk, hr⟩
  | replaced =>
    obtain ⟨ho, -, -⟩ := hg
    cases hall
    exact absurd ho ht

/-- Nested tokens are replaced for themselves. -/
theorem Replaces.of_append (hg : IsObject g ms) (hts : IsNested marks ts)
    (hr : Replaces g g' (ts ++ us) ws) :
    ∃ vs xs, ws = vs ++ xs ∧ Replaces g g' ts vs ∧ Replaces g g' us xs := by
  have hcut (a b : List Token) (hab : g = a ++ b) (ha : a ≠ []) (hb : b ≠ []) : ¬a <:+ ts :=
    hg.not_suffix hab ha hb hts
  -- no end of the tokens is the beginning of an object, also when their own beginning is left out
  clear hts
  generalize hall : ts ++ us = all at hr
  induction hr generalizing ts with
  | nil =>
    obtain ⟨rfl, rfl⟩ := List.append_eq_nil_iff.mp hall
    exact ⟨[], [], rfl, .nil, .nil⟩
  | cons hk hr ih =>
    rcases List.append_eq_cons_iff.mp hall with ⟨rfl, rfl⟩ | ⟨r, rfl, hrest⟩
    · exact ⟨[], _, rfl, .nil, .cons hk hr⟩
    · obtain ⟨vs, xs, rfl, hvs, hxs⟩ := ih (fun a b hab ha hb hsuffix ↦
        hcut a b hab ha hb (hsuffix.trans (List.suffix_cons _ _))) hrest.symm
      exact ⟨_ :: vs, xs, rfl, .cons hk hvs, hxs⟩
  | replaced hr ih =>
    rcases List.append_eq_append_iff.mp hall with ⟨r, hr', rfl⟩ | ⟨r, rfl, hrest⟩
    · by_cases hts : ts = []
      · subst hts
        rw [List.nil_append] at hr'
        exact ⟨[], _, rfl, .nil, hr' ▸ .replaced hr⟩
      · by_cases hr'' : r = []
        · subst hr''
          rw [List.append_nil] at hr'
          subst hr'
          refine ⟨g', _, rfl, ?_, hr⟩
          have := (Replaces.nil : Replaces g g' [] []).replaced
          rwa [List.append_nil, List.append_nil] at this
        · exact absurd List.suffix_rfl (hcut ts r hr' hts hr'')
    · obtain ⟨vs, xs, rfl, hvs, hxs⟩ := ih (fun a b hab ha hb hsuffix ↦
        hcut a b hab ha hb (hsuffix.trans (List.suffix_append _ _))) hrest.symm
      exact ⟨g' ++ vs, xs, (List.append_assoc _ _ _).symm, .replaced hvs, hxs⟩

theorem Replaces.of_append_cons (hg : IsObject g ms) (hts : IsNested marks ts)
    (ht : t.kind ≠ .punct .leftBrace) (hr : Replaces g g' (ts ++ t :: us) ws) :
    ∃ vs u xs, ws = vs ++ u :: xs ∧ Replaces g g' ts vs ∧ u.kind = t.kind ∧
      Replaces g g' us xs := by
  obtain ⟨vs, _, rfl, hvs, hr⟩ := hr.of_append hg hts
  obtain ⟨u, xs, rfl, hu, hxs⟩ := hr.of_cons hg ht
  exact ⟨vs, u, xs, rfl, hvs, hu, hxs⟩

theorem Replaces.of_append_singleton (hg : IsObject g ms) (hts : IsNested marks ts)
    (hc : c.kind ≠ .punct .leftBrace) (hr : Replaces g g' (ts ++ [c]) ws) :
    ∃ vs u, ws = vs ++ [u] ∧ Replaces g g' ts vs ∧ u.kind = c.kind := by
  obtain ⟨vs, u, xs, rfl, hvs, hu, hxs⟩ := hr.of_append_cons hg hts hc
  rw [hxs.eq_nil hg]
  exact ⟨vs, u, rfl, hvs, hu⟩

/-- An object is the one that is replaced, or what stands in it is replaced for itself. -/
theorem Replaces.of_braces (hg : IsObject g ms) (ho : o.kind = .punct .leftBrace)
    (hts : IsNested [.leftBrace] ts) (hc : c.kind = .punct .rightBrace)
    (hr : Replaces g g' (o :: (ts ++ [c])) ws) :
    (g = o :: (ts ++ [c]) ∧ ws = g') ∨
      ∃ u vs v, ws = u :: (vs ++ [v]) ∧ u.kind = o.kind ∧ Replaces g g' ts vs ∧
        v.kind = c.kind := by
  generalize hall : o :: (ts ++ [c]) = all at hr
  cases hr with
  | nil => cases hall
  | cons hk hr =>
    cases hall
    obtain ⟨vs, v, rfl, hvs, hv⟩ := hr.of_append_singleton hg hts (by simp [hc])
    exact Or.inr ⟨_, vs, v, rfl, hk, hvs, hv⟩
  | @replaced rest us hr =>
    obtain @⟨o', c', body, _, -, hms, hc'⟩ := hg
    rw [List.cons_append, List.append_assoc, List.singleton_append] at hall
    obtain ⟨rfl, hrest⟩ := List.cons.inj hall
    rcases append_cons_cases hrest with ⟨r, rfl, -⟩ | ⟨rfl, rfl, rfl⟩ | ⟨r, -, hr'⟩
    · -- the brace would be closed before its end
      obtain ⟨inside, hinside⟩ := hts.beginning (body ++ [c']) r (by simp)
      rw [nestAll_append, (hms.isNested _ fun _ ↦ rfl).settled, Option.bind_some, nestAll,
        hc'] at hinside
      have hlength := congrArg (Option.map List.length) hinside
      simp [nest, close, nestAll] at hlength
    · have hg : IsObject (o :: (ts ++ [c])) ms := .braces ho hms hc'
      obtain rfl := hr.eq_nil hg
      exact Or.inl ⟨(List.append_nil _).symm, List.append_nil g'⟩
    · simp at hr'

/-! ## Phrases with objects replaced -/

/-- Do the tokens stand for something that has the same result in the second scope? -/
def Phrase.HasAlike (scope scope' : Scope) (c : Category) (ts : List Token) : Phrase → Prop
  | expr e => ∃ e', Derives c ts (.expr e') ∧ Alike (eval scope e) (eval scope' e')
  | items es => ∃ es', Derives c ts (.items es') ∧ Alike (evalAll scope es) (evalAll scope' es')
  | members ms => ∃ ms', Derives c ts (.members ms') ∧
    ∀ record, Alike (evalMembers scope record ms) (evalMembers scope' record ms')
  | member m => ∃ m', Derives c ts (.member m') ∧
    ∀ record, Alike (evalMembers scope record [m]) (evalMembers scope' record [m'])

variable {scope scope' : Scope}

private theorem alike_apply (op : Operator) {a b a' b' : Expr}
    (ha : Alike (eval scope a) (eval scope' a')) (hb : Alike (eval scope b) (eval scope' b')) :
    Alike (eval scope (op.apply a b)) (eval scope' (op.apply a' b')) := by
  cases op with
  | binary op =>
    show Alike (eval scope (.binary op a b)) (eval scope' (.binary op a' b'))
    rw [eval, eval]
    exact ha.bind fun _ ↦ hb.bind fun _ ↦ .refl _
  | logical op =>
    show Alike (eval scope (.logical op a b)) (eval scope' (.logical op a' b'))
    rw [eval, eval]
    refine ha.bind fun v ↦ ?_
    split_ifs
    · exact .refl _
    · exact hb

private theorem alike_of_ofName {text : String} {span span' : Span} {e e' : Expr}
    (h : ofName text span = some e) (h' : ofName text span' = some e')
    (hnames : ∀ name, scope'.resolve name = scope.resolve name) :
    Alike (eval scope e) (eval scope' e') := by
  unfold ofName at h h'
  split_ifs at h h' <;> cases h <;> cases h' <;> rw [eval, eval]
  · exact .refl _
  · exact .refl _
  · exact .refl _
  · exact .refl _
  · rw [hnames]
    exact .refl _

/-- **A phrase with objects replaced is a phrase with the same result**, if the object has the same
result as the one that it is replaced by. -/
theorem Derives.replace {c : Category} {p : Phrase} (hp : Derives c ts p) (hg : IsObject g ms)
    (hg' : IsObject g' ns) (hobject : Alike (eval scope (.object ms)) (eval scope' (.object ns)))
    (hnames : ∀ name, scope'.resolve name = scope.resolve name) (hr : Replaces g g' ts ws) :
    p.HasAlike scope scope' c ws := by
  have hnested {c : Category} {us : List Token} {q : Phrase} (hq : Derives c us q) :
      IsNested [.leftBrace] us := hq.isNested _ fun _ ↦ rfl
  induction hp generalizing ws with
  | test _ ih =>
    obtain ⟨e, he, halike⟩ := ih hr
    exact ⟨e, .test he, halike⟩
  | conditional htest hq hthen hk _ ih1 ih2 ih3 =>
    obtain ⟨vs, q, xs, rfl, htest', hq', hr⟩ := hr.of_append_cons hg (hnested htest) (by simp [hq])
    obtain ⟨xs, k, ys, rfl, hthen', hk', helse'⟩ :=
      hr.of_append_cons hg (hnested hthen) (by simp [hk])
    obtain ⟨a, ha, hatest⟩ := ih1 htest'
    obtain ⟨b, hb, hathen⟩ := ih2 hthen'
    obtain ⟨d, hd, haelse⟩ := ih3 helse'
    refine ⟨_, .conditional ha (hq'.trans hq) hb (hk'.trans hk) hd, ?_⟩
    rw [eval, eval]
    refine hatest.bind fun v ↦ ?_
    split_ifs
    · exact hathen
    · exact haelse
  | operand _ ih =>
    obtain ⟨e, he, halike⟩ := ih hr
    exact ⟨e, .operand he, halike⟩
  | operation hleft hop _ ih1 ih2 =>
    obtain ⟨vs, t, xs, rfl, hleft', ht, hright'⟩ := hr.of_append_cons hg (hnested hleft)
      (ne_leftBrace_of_nest (nest_of_operator? hop []))
    obtain ⟨a, ha, haleft⟩ := ih1 hleft'
    obtain ⟨b, hb, haright⟩ := ih2 hright'
    exact ⟨_, .operation ha (by rw [ht, hop]) hb, alike_apply _ haleft haright⟩
  | unprefixed _ ih =>
    obtain ⟨e, he, halike⟩ := ih hr
    exact ⟨e, .unprefixed he, halike⟩
  | prefixed hop _ ih =>
    obtain ⟨u, us, rfl, hu, hr⟩ :=
      hr.of_cons hg (ne_leftBrace_of_nest (nest_of_prefixOperator? hop []))
    obtain ⟨e, he, halike⟩ := ih hr
    refine ⟨_, .prefixed (by rw [hu, hop]) he, ?_⟩
    rw [eval, eval]
    exact halike.bind fun _ ↦ .refl _
  | primary _ ih =>
    obtain ⟨e, he, halike⟩ := ih hr
    exact ⟨e, .primary he, halike⟩
  | member htarget hd hn ih =>
    obtain ⟨vs, d, xs, rfl, htarget', hd', hr⟩ :=
      hr.of_append_cons hg (hnested htarget) (by simp [hd])
    obtain ⟨n, xs, rfl, hn', hr⟩ := hr.of_cons hg (by simp [hn])
    rw [hr.eq_nil hg]
    obtain ⟨e, he, halike⟩ := ih htarget'
    refine ⟨_, .member he (hd'.trans hd) (hn'.trans hn), ?_⟩
    rw [eval, eval]
    exact halike.bind fun _ ↦ .refl _
  | index htarget ho hkey hc ih1 ih2 =>
    obtain ⟨vs, o, xs, rfl, htarget', ho', hr⟩ :=
      hr.of_append_cons hg (hnested htarget) (by simp [ho])
    obtain ⟨xs, c, rfl, hkey', hc'⟩ := hr.of_append_singleton hg (hnested hkey) (by simp [hc])
    obtain ⟨e, he, hatarget⟩ := ih1 htarget'
    obtain ⟨k, hk, hakey⟩ := ih2 hkey'
    refine ⟨_, .index he (ho'.trans ho) hk (hc'.trans hc), ?_⟩
    rw [eval, eval]
    exact hatarget.bind fun _ ↦ hakey.bind fun _ ↦ .refl _
  | call hcallee ho hitems hc ih1 ih2 =>
    obtain ⟨vs, o, xs, rfl, hcallee', ho', hr⟩ :=
      hr.of_append_cons hg (hnested hcallee) (by simp [ho])
    obtain ⟨xs, c, rfl, hitems', hc'⟩ := hr.of_append_singleton hg (hnested hitems) (by simp [hc])
    obtain ⟨e, he, hacallee⟩ := ih1 hcallee'
    obtain ⟨es, hes, haitems⟩ := ih2 hitems'
    refine ⟨_, .call he (ho'.trans ho) hes (hc'.trans hc), ?_⟩
    rw [eval, eval]
    refine hacallee.bind fun f ↦ haitems.bind fun values ↦ ?_
    -- a callee that is no function is quoted, and the quotations can differ
    cases f <;> exact .refl _
  | number ht =>
    obtain ⟨u, us, rfl, hu, hr⟩ := hr.of_cons hg (by simp [ht])
    rw [hr.eq_nil hg]
    exact ⟨_, .number (hu.trans ht), by rw [eval, eval]; exact .refl _⟩
  | string ht =>
    obtain ⟨u, us, rfl, hu, hr⟩ := hr.of_cons hg (by simp [ht])
    rw [hr.eq_nil hg]
    exact ⟨_, .string (hu.trans ht), by rw [eval, eval]; exact .refl _⟩
  | name ht he =>
    obtain ⟨u, us, rfl, hu, hr⟩ := hr.of_cons hg (by simp [ht])
    rw [hr.eq_nil hg]
    obtain ⟨e', he'⟩ := exists_ofName he u.span
    exact ⟨e', .name (hu.trans ht) he', alike_of_ofName he he' hnames⟩
  | group ho hinside hc ih =>
    obtain ⟨o, _, rfl, ho', hr⟩ := hr.of_cons hg (by simp [ho])
    obtain ⟨vs, c, rfl, hinside', hc'⟩ := hr.of_append_singleton hg (hnested hinside) (by simp [hc])
    obtain ⟨e, he, halike⟩ := ih hinside'
    exact ⟨e, .group (ho'.trans ho) he (hc'.trans hc), halike⟩
  | array ho hitems hc ih =>
    obtain ⟨o, _, rfl, ho', hr⟩ := hr.of_cons hg (by simp [ho])
    obtain ⟨vs, c, rfl, hitems', hc'⟩ := hr.of_append_singleton hg (hnested hitems) (by simp [hc])
    obtain ⟨es, hes, halike⟩ := ih hitems'
    refine ⟨_, .array (ho'.trans ho) hes (hc'.trans hc), ?_⟩
    rw [eval, eval]
    exact halike.map _
  | object ho hms hc ih =>
    rcases hr.of_braces hg ho (hnested hms) hc with ⟨rfl, rfl⟩ | ⟨o, vs, c, rfl, ho', hms', hc'⟩
    · -- this is the object that is replaced
      have hsame := Phrase.expr.inj ((Derives.object ho hms hc).unique hg.primary)
      exact ⟨_, hg'.primary, hsame ▸ hobject⟩
    · obtain ⟨ms', hms', halike⟩ := ih hms'
      refine ⟨_, .object (ho'.trans ho) hms' (hc'.trans hc), ?_⟩
      rw [eval, eval]
      exact (halike []).map _
  | noItems =>
    rw [hr.eq_nil hg]
    exact ⟨[], .noItems, by rw [evalAll, evalAll]; exact .refl _⟩
  | lastItem _ ih =>
    obtain ⟨e, he, halike⟩ := ih hr
    refine ⟨_, .lastItem he, ?_⟩
    rw [evalAll, evalAll]
    exact halike.bind fun _ ↦ .refl _
  | item hfirst hc _ ih1 ih2 =>
    obtain ⟨vs, c, xs, rfl, hfirst', hc', hmore'⟩ :=
      hr.of_append_cons hg (hnested hfirst) (by simp [hc])
    obtain ⟨e, he, hafirst⟩ := ih1 hfirst'
    obtain ⟨es, hes, hamore⟩ := ih2 hmore'
    refine ⟨_, .item he (hc'.trans hc) hes, ?_⟩
    rw [evalAll, evalAll]
    exact hafirst.bind fun _ ↦ hamore.bind fun _ ↦ .refl _
  | noMembers =>
    rw [hr.eq_nil hg]
    exact ⟨[], .noMembers, fun record ↦ by rw [evalMembers, evalMembers]; exact .refl _⟩
  | lastMember _ ih =>
    obtain ⟨m, hm, halike⟩ := ih hr
    exact ⟨_, .lastMember hm, halike⟩
  | moreMembers hfirst hc _ ih1 ih2 =>
    obtain ⟨vs, c, xs, rfl, hfirst', hc', hmore'⟩ :=
      hr.of_append_cons hg (hnested hfirst) (by simp [hc])
    obtain ⟨m, hm, hafirst⟩ := ih1 hfirst'
    obtain ⟨ms', hms', hamore⟩ := ih2 hmore'
    refine ⟨_, .moreMembers hm (hc'.trans hc) hms', fun record ↦ ?_⟩
    rw [evalMembers_cons, evalMembers_cons scope']
    exact (hafirst record).bind hamore
  | pair hkey hc _ ih =>
    obtain ⟨t, _, rfl, ht, hr⟩ := hr.of_cons hg (ne_leftBrace_of_nest (nest_of_objectKey? hkey []))
    obtain ⟨c, xs, rfl, hc', hr⟩ := hr.of_cons hg (by simp [hc])
    obtain ⟨e, he, halike⟩ := ih hr
    refine ⟨_, .pair (by rw [ht, hkey]) (hc'.trans hc) he, fun record ↦ ?_⟩
    rw [evalMembers, evalMembers]
    exact halike.bind fun v ↦ by rw [evalMembers, evalMembers]; exact .refl _
  | shorthand hkey =>
    obtain ⟨u, us, rfl, hu, hr⟩ := hr.of_cons hg (ne_leftBrace_of_nest (nest_of_objectKey? hkey []))
    rw [hr.eq_nil hg]
    refine ⟨_, .shorthand (by rw [hu, hkey]), fun record ↦ ?_⟩
    rw [evalMembers, evalMembers, evalMembers, evalMembers, hnames]
    exact .refl _

/-! ## Sources -/

variable {front s s' back : List Char} {l inner inner' : Lexed}

/-- Are texts with these tokens, wherever they stand in braces, objects with the same result? -/
def AreAlikeInBraces (scope scope' : Scope) (inner inner' : Lexed) : Prop :=
  ∀ g g' : List Token,
    g.map Token.kind = .punct .leftBrace :: (inner.kinds ++ [.punct .rightBrace]) →
    g'.map Token.kind = .punct .leftBrace :: (inner'.kinds ++ [.punct .rightBrace]) →
    ∃ ms ns, IsObject g ms ∧ IsObject g' ns ∧
      Alike (eval scope (.object ms)) (eval scope' (.object ns))

/-- **What stands in braces can be replaced** in the source of an expression, by what is an object
with the same result. -/
theorem IsSource.replace {e : Expr} (hfront : tokensFrom 0 front = .ok l)
    (hs : tokensFrom 0 s = .ok inner) (hs' : tokensFrom 0 s' = .ok inner')
    (hinner : AreAlikeInBraces scope scope' inner inner')
    (hnames : ∀ name, scope'.resolve name = scope.resolve name)
    (he : IsSource .conditional (front ++ '{' :: (s ++ '}' :: back)) e) :
    ∃ e', IsSource .conditional (front ++ '{' :: (s' ++ '}' :: back)) e' ∧
      Alike (eval scope e) (eval scope' e') := by
  obtain ⟨lexed, hlexed, he⟩ := he
  obtain ⟨m, hback⟩ := exists_tokensFrom_behind_braces hfront hs hlexed
  obtain ⟨g, us, stop, htokens, hg, hus⟩ := exists_tokensFrom_braces hfront hs hback
  obtain ⟨g', vs, stop', htokens', hg', hvs⟩ := exists_tokensFrom_braces hfront hs' hback
  rw [htokens] at hlexed
  cases hlexed
  obtain ⟨ms, ns, hms, hns, hobject⟩ := hinner g g' hg hg'
  have hr : Replaces g g' (l.tokens ++ (g ++ us)) (l.tokens ++ (g' ++ vs)) :=
    (Replaces.of_kinds rfl).append (.replaced (.of_kinds (hvs.trans hus.symm)))
  obtain ⟨e', he', halike⟩ := he.replace hms hns hobject hnames hr
  exact ⟨e', ⟨_, htokens', he'⟩, halike⟩

end Expr

end HtmlTemplate
