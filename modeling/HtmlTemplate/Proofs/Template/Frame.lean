import HtmlTemplate.Proofs.Markup.Names
import HtmlTemplate.Proofs.Template.Markers
import HtmlTemplate.Proofs.Template.Static
import HtmlTemplate.Proofs.Template.Visibility
import HtmlTemplate.Proofs.Text.Trimming
import Mathlib.Data.List.Forall2

/-!
# What becomes of the attributes of an element

While the attributes that an element has at the start are bound, attributes are taken off, filled
and added. No directive disturbs another one's attribute by that: on the compiled element the
unmarked attributes stand in their order, each with the value that it has for itself, and there is
at most a style behind them that a show directive added (`framed_of_stays`). Only the value of a
style is open, since show directives write there.

## The invariant

If their names are distinct, every attribute keeps its place until it is bound. What stands in front
of the attributes that are still to come was made of those that were bound before, and what stands
behind them was added (`Options.Framed`). A directive that has priority is bound on all other
attributes, which are as they were but for a style, and then these are bound from the start
(`Options.Framed.of_first`).

## What one directive may do

A text directive and a repeating one leave the attributes alone. A show directive writes the style,
at its place or behind all attributes, and an unmarked attribute with an interpolation gets its text
where it stands. So an attribute that was bound is never touched again, except for a style
(`Options.Framed.step`).
-/

namespace HtmlTemplate

open Attribute (named)

/-! ## Values for themselves -/

namespace Attribute

/-- An attribute without a directive, and what is made of it on the data. The value of a style is
left open. -/
structure CompilesTo (data : Data) (a b : Attribute) : Prop where
  name : b.name = a.name
  /-- A value without an interpolation is kept. -/
  kept : a.name ≠ "style" → Interpolation.isInterpolated a.value = false → b.value = a.value
  /-- An interpolation is replaced with the text of its value. -/
  filled : a.name ≠ "style" → Interpolation.isInterpolated a.value = true → ∃ v,
    evaluate .attr data (Interpolation.expressionOf a.value) = .ok v ∧ b.value = v.toText

/-- Apart from the value of a style, the two attributes are the same. -/
structure Restyled (a b : Attribute) : Prop where
  name : b.name = a.name
  same : a.name ≠ "style" → b = a

variable {data : Data} {a b c : Attribute}

theorem Restyled.refl (a : Attribute) : a.Restyled a := ⟨rfl, fun _ ↦ rfl⟩

theorem Restyled.trans (hab : a.Restyled b) (hbc : b.Restyled c) : a.Restyled c where
  name := hbc.name.trans hab.name
  same h := (hbc.same (hab.name.symm ▸ h)).trans (hab.same h)

theorem CompilesTo.restyled (hab : a.CompilesTo data b) (hbc : b.Restyled c) :
    a.CompilesTo data c := by
  refine ⟨hbc.name.trans hab.name, fun h ↦ ?_, fun h ↦ ?_⟩
  · rw [hbc.same (hab.name.symm ▸ h)]
    exact hab.kept h
  · rw [hbc.same (hab.name.symm ▸ h)]
    exact hab.filled h

theorem Restyled.compilesTo (hab : a.Restyled b) (hbc : b.CompilesTo data c) :
    a.CompilesTo data c := by
  refine ⟨hbc.name.trans hab.name, fun h ↦ ?_, fun h ↦ ?_⟩
  · rw [← hab.same h]
    exact hbc.kept (hab.name.symm ▸ h)
  · rw [← hab.same h]
    exact hbc.filled (hab.name.symm ▸ h)

/-! ## Attributes at their places -/

theorem erase_append_cons {l : List Attribute} (r : List Attribute) (h : a.name ∉ l.map name) :
    erase (l ++ a :: r) a.name = l ++ r := by
  have hl : ∀ b ∈ l, ¬(b.name == a.name) = true := fun b hb hname ↦
    h (List.mem_map.mpr ⟨b, hb, eq_of_beq hname⟩)
  rw [erase, List.eraseP_append_right _ hl, List.eraseP_cons_of_pos (by exact beq_self_eq_true _)]

theorem set_append_cons {l : List Attribute} (value : String) (r : List Attribute)
    (h : a.name ∉ l.map name) :
    set a.name value (l ++ a :: r) = l ++ ⟨a.name, value⟩ :: r := by
  induction l with
  | nil => exact if_pos rfl
  | cons b l ih =>
    rw [List.map_cons, List.mem_cons, not_or] at h
    rw [List.cons_append, set, if_neg fun hb ↦ h.1 hb.symm, ih h.2, List.cons_append]

theorem exists_set_style (as : List Attribute) (value : String) :
    ∃ bs added, set "style" value as = bs ++ added ∧ List.Forall₂ Restyled as bs ∧
      ∀ b ∈ added, b.name = "style" := by
  induction as with
  | nil => exact ⟨[], [⟨"style", value⟩], rfl, .nil, by simp⟩
  | cons a as ih =>
    rw [set]
    by_cases h : a.name = "style"
    · rw [if_pos h]
      exact ⟨_ :: as, [], (List.append_nil _).symm,
        .cons ⟨rfl, fun hne ↦ absurd h hne⟩ (List.forall₂_same.mpr fun b _ ↦ .refl b), by simp⟩
    · rw [if_neg h]
      obtain ⟨bs, added, hset, hbs, hadded⟩ := ih
      exact ⟨a :: bs, added, by rw [hset, List.cons_append], .cons (.refl a) hbs, hadded⟩

end Attribute

section Related

variable {α β γ : Type} {R : α → β → Prop} {S : β → γ → Prop} {T : α → γ → Prop}

theorem exists_append_of_forall₂ {xs ys : List α} {zs : List β}
    (h : List.Forall₂ R (xs ++ ys) zs) :
    ∃ us vs, zs = us ++ vs ∧ List.Forall₂ R xs us ∧ List.Forall₂ R ys vs := by
  induction xs generalizing zs with
  | nil => exact ⟨[], zs, rfl, .nil, h⟩
  | cons x xs ih =>
    obtain ⟨z, zs, hz, hzs, rfl⟩ := List.forall₂_cons_left_iff.mp h
    obtain ⟨us, vs, rfl, hus, hvs⟩ := ih hzs
    exact ⟨z :: us, vs, rfl, .cons hz hus, hvs⟩

theorem forall₂_trans (hRS : ∀ {a b c}, R a b → S b c → T a c) {xs : List α} {ys : List β}
    {zs : List γ} (hxs : List.Forall₂ R xs ys) (hys : List.Forall₂ S ys zs) :
    List.Forall₂ T xs zs := by
  induction hxs generalizing zs with
  | nil =>
    cases hys
    exact .nil
  | cons hx _ ih =>
    obtain ⟨z, zs, hz, hzs, rfl⟩ := List.forall₂_cons_left_iff.mp hys
    exact .cons (hRS hx hz) (ih hzs)

theorem exists_of_forall₂_right {xs : List α} {ys : List β} {y : β} (h : List.Forall₂ R xs ys)
    (hy : y ∈ ys) : ∃ x ∈ xs, R x y := by
  induction h with
  | nil => cases hy
  | cons hx _ ih =>
    rcases List.mem_cons.mp hy with rfl | hy
    · exact ⟨_, List.mem_cons_self, hx⟩
    · obtain ⟨x, hmem, hxy⟩ := ih hy
      exact ⟨x, List.mem_cons_of_mem _ hmem, hxy⟩

end Related

/-! ## What one attribute does -/

namespace Options

variable (options : Options) (data : Data)

/-- Is it a show directive, and one that has a value? -/
def Shows (a : Attribute) : Prop :=
  options.mark? a = some .display ∧ ∃ v, evaluate .display data (Text.trimmed a.value) = .ok v

/-- What an attribute makes of the attributes of an element that stays. -/
inductive Effect (a : Attribute) (cs : List Attribute) : List Attribute → Prop
  | taken (h : (options.directiveOf? a.name).isSome = true) :
      Effect a cs (Attribute.erase cs a.name)
  | shown (h : options.Shows data a) (value : String) :
      Effect a cs (Attribute.set "style" value (Attribute.erase cs a.name))
  | compiled (h : options.directiveOf? a.name = none) {value : String}
      (ha : a.CompilesTo data ⟨a.name, value⟩) : Effect a cs (Attribute.set a.name value cs)
  | kept (h : options.directiveOf? a.name = none) (ha : a.CompilesTo data a) : Effect a cs cs

def unmarked (as : List Attribute) : List Attribute :=
  named (fun key ↦ (options.directiveOf? key).isNone) as

/-- Some attributes were bound and some are still to come: the attributes of the element are then
those that the bound ones were compiled to, those still to come, and an added style. -/
structure Framed (bound todo cs : List Attribute) : Prop where
  nodup : (cs.map Attribute.name).Nodup
  split : ∃ front rest added, cs = front ++ (rest ++ added) ∧
    List.Forall₂ (Attribute.CompilesTo data) (options.unmarked bound) front ∧
    List.Forall₂ Attribute.Restyled todo rest ∧
    ∀ b ∈ added, b.name = "style" ∧ ∃ c ∈ bound, options.Shows data c

end Options

variable {options : Options} {data : Data}

theorem isEmpty_trimmed_of_isInterpolated {s : String} (h : Interpolation.isInterpolated s = true) :
    (Text.trimmed s).isEmpty = false := by
  rw [← Bool.not_eq_true, String.isEmpty_iff, Text.trimmed, String.ofList_eq_empty_iff,
    Text.trim_eq_nil_iff]
  intro hblank
  obtain ⟨⟨a, c, b⟩, hspan⟩ := Option.isSome_iff_exists.mp h
  rw [← Interpolation.append_of_firstSpan? hspan, Text.isAllBlank, List.all_append, List.all_append,
    Bool.and_eq_true, Bool.and_eq_true] at hblank
  exact absurd hblank.2.1 (by decide)

/-- Only a show directive that has a value changes the attributes of an element that stays, and it
writes the style. -/
theorem attributes_of_bindMarked_or {name expression : String} {e f : Element} {d : Bool}
    (h : bindMarked data name expression e = .ok (.stays f d)) :
    f.attributes = e.attributes ∨ Directive.ofName? name = some .display ∧
      (∃ v, evaluate .display data expression = .ok v) ∧
      ∃ value, f.attributes = Attribute.set "style" value e.attributes := by
  by_cases hname : Directive.ofName? name = some .display
  · rw [bindMarked_of_some e hname, if_neg (by decide)] at h
    obtain ⟨v, hv, hf⟩ := map_eq_ok_iff.mp h
    obtain ⟨rfl, -⟩ := Bound.stays.inj hf
    exact Or.inr ⟨hname, ⟨v, hv⟩, _, rfl⟩
  · exact Or.inl (attributes_of_bindMarked hname h)

theorem effect_of_bindAttributes {a : Attribute} {as : List Attribute} {descend d : Bool}
    {e f : Element} (h : bindAttributes options data descend e (a :: as) = .ok (.stays f d)) :
    ∃ descend' g, bindAttributes options data descend' g as = .ok (.stays f d) ∧
      options.Effect data a e.attributes g.attributes := by
  simp only [bindAttributes] at h
  split at h
  · rename_i name hname
    have htaken : (options.directiveOf? a.name).isSome = true := by rw [hname]; rfl
    split at h
    · exact ⟨_, _, h, .taken htaken⟩
    · rename_i hvalue
      split at h
      · cases h
      · rename_i g d' hb
        -- whatever the directive is, the attribute is off, and only a show directive does more
        refine ⟨_, g, h, ?_⟩
        rcases attributes_of_bindMarked_or hb with hg | ⟨hdisplay, hv, value, hg⟩
        · rw [hg]
          exact .taken htaken
        · rw [hg]
          have hmark := mark?_of_directiveOf? hname (Bool.not_eq_true _ ▸ hvalue)
          exact .shown ⟨hmark.trans hdisplay, hv⟩ value
      · cases h
  · rename_i hname
    split at h
    · rename_i hfills
      have hinterpolated := (Bool.and_eq_true_iff.mp hfills).2
      split at h
      · cases h
      · rename_i v hv
        refine ⟨_, _, h, .compiled hname ⟨rfl, fun _ hnone ↦ ?_, fun _ _ ↦ ⟨v, hv, rfl⟩⟩⟩
        exact absurd (hinterpolated.symm.trans hnone) Bool.noConfusion
    · rename_i hfills
      refine ⟨_, _, h, .kept hname ⟨rfl, fun _ _ ↦ rfl, fun _ hsome ↦ absurd ?_ hfills⟩⟩
      rw [isEmpty_trimmed_of_isInterpolated hsome, hsome]
      rfl

/-! ## The attributes at their places

The relation is between lists: the attributes of the element are those that were bound, in their new
form, then those to come, then a style if one was added. -/

namespace Options

theorem unmarked_append (as bs : List Attribute) :
    options.unmarked (as ++ bs) = options.unmarked as ++ options.unmarked bs :=
    List.filter_append _ _

theorem unmarked_singleton_of_isSome {a : Attribute}
    (h : (options.directiveOf? a.name).isSome = true) : options.unmarked [a] = [] :=
  Attribute.named_cons_of_neg _ [] (Option.isNone_eq_false_iff.mpr h)

theorem unmarked_singleton_of_none {a : Attribute} (h : options.directiveOf? a.name = none) :
    options.unmarked [a] = [a] :=
  Attribute.named_cons_of_pos _ [] (by rw [h]; rfl)

/-- Marks are found by names alone, and these are the same. -/
theorem forall₂_unmarked {as bs : List Attribute} (h : List.Forall₂ Attribute.Restyled as bs) :
    List.Forall₂ Attribute.Restyled (options.unmarked as) (options.unmarked bs) :=
  List.rel_filter (fun a b hab ↦ by simp only [hab.name]) h

namespace Framed

variable {bound todo cs : List Attribute} {a : Attribute} {value : String}

theorem start (h : (cs.map Attribute.name).Nodup) : options.Framed data [] cs cs where
  nodup := h
  split := ⟨[], cs, [], (List.append_nil cs).symm, .nil,
    List.forall₂_same.mpr fun b _ ↦ .refl b, nofun⟩

/-- The next attribute stands at its place, no other one in front of it has its name, and it may
leave the place to what it is compiled to. -/
theorem next (h : options.Framed data bound (a :: todo) cs) : ∃ l b r, cs = l ++ b :: r ∧
    a.Restyled b ∧ b.name ∉ l.map Attribute.name ∧
    ∀ bs, List.Forall₂ (Attribute.CompilesTo data) (options.unmarked [a]) bs →
      ((l ++ (bs ++ r)).map Attribute.name).Nodup →
      options.Framed data (bound ++ [a]) todo (l ++ (bs ++ r)) := by
  obtain ⟨hnodup, front, rest, added, rfl, hfront, hrest, hadded⟩ := h
  obtain ⟨b, rest', hb, hrest', rfl⟩ := List.forall₂_cons_left_iff.mp hrest
  refine ⟨front, b, rest' ++ added, rfl, hb, fun hmem ↦ ?_, fun bs hbs hnodup' ↦
    ⟨hnodup', front ++ bs, rest', added, (List.append_assoc _ _ _).symm, ?_, hrest', fun c hc ↦ ?_⟩⟩
  · rw [List.map_append] at hnodup
    exact List.disjoint_of_nodup_append hnodup hmem List.mem_cons_self
  · rw [unmarked_append]
    exact List.rel_append hfront hbs
  · obtain ⟨hname, s, hs, hshows⟩ := hadded c hc
    exact ⟨hname, s, List.mem_append_left _ hs, hshows⟩

theorem taken (h : options.Framed data bound (a :: todo) cs)
    (ha : (options.directiveOf? a.name).isSome = true) :
    options.Framed data (bound ++ [a]) todo (Attribute.erase cs a.name) := by
  have hnodup := (Attribute.map_name_erase_sublist cs a.name).nodup h.nodup
  obtain ⟨l, b, r, rfl, hb, hnew, hnext⟩ := h.next
  rw [← hb.name, Attribute.erase_append_cons r hnew] at hnodup ⊢
  exact hnext [] (by rw [unmarked_singleton_of_isSome ha]; exact .nil) hnodup

private theorem compiled (h : options.Framed data bound (a :: todo) cs)
    (hnone : options.directiveOf? a.name = none) (ha : a.CompilesTo data ⟨a.name, value⟩) :
    options.Framed data (bound ++ [a]) todo (Attribute.set a.name value cs) := by
  have hnodup := Attribute.nodup_map_name_set a.name value h.nodup
  obtain ⟨l, b, r, rfl, hb, hnew, hnext⟩ := h.next
  rw [← hb.name] at ha hnodup ⊢
  rw [Attribute.set_append_cons value r hnew] at hnodup ⊢
  exact hnext [⟨b.name, value⟩] (by rw [unmarked_singleton_of_none hnone]; exact .cons ha .nil)
    hnodup

private theorem kept (h : options.Framed data bound (a :: todo) cs)
    (hnone : options.directiveOf? a.name = none) (ha : a.CompilesTo data a) :
    options.Framed data (bound ++ [a]) todo cs := by
  have hnodup := h.nodup
  obtain ⟨l, b, r, rfl, hb, -, hnext⟩ := h.next
  exact hnext [b]
    (by rw [unmarked_singleton_of_none hnone]; exact .cons (ha.restyled hb) .nil) hnodup

private theorem shown (h : options.Framed data bound todo cs)
    (hshows : ∃ c ∈ bound, options.Shows data c) :
    options.Framed data bound todo (Attribute.set "style" value cs) := by
  refine ⟨Attribute.nodup_map_name_set _ _ h.nodup, ?_⟩
  obtain ⟨-, front, rest, added, rfl, hfront, hrest, hadded⟩ := h
  -- the style may stand anywhere among the attributes, or be new behind them
  obtain ⟨bs, new, hset, hbs, hnew⟩ :=
    Attribute.exists_set_style (front ++ (rest ++ added)) value
  obtain ⟨front', behind, rfl, hfront', hbehind⟩ := exists_append_of_forall₂ hbs
  obtain ⟨rest', added', rfl, hrest', hadded'⟩ := exists_append_of_forall₂ hbehind
  refine ⟨front', rest', added' ++ new, ?_, forall₂_trans .restyled hfront hfront',
    forall₂_trans .trans hrest hrest', fun b hb ↦ ⟨?_, hshows⟩⟩
  · rw [hset, List.append_assoc, List.append_assoc]
  · rcases List.mem_append.mp hb with hb | hb
    · obtain ⟨c, hc, hcb⟩ := exists_of_forall₂_right hadded' hb
      rw [hcb.name, (hadded c hc).1]
    · exact hnew b hb

/-- One attribute is bound. -/
theorem step {ds : List Attribute} (h : options.Framed data bound (a :: todo) cs)
    (heffect : options.Effect data a cs ds) : options.Framed data (bound ++ [a]) todo ds := by
  cases heffect with
  | taken ha => exact h.taken ha
  | shown ha value =>
    have hmark := (directiveOf?_of_mark? ha.1).1
    exact (h.taken (by rw [hmark]; rfl)).shown
      ⟨a, List.mem_append_right _ (List.mem_singleton_self a), ha⟩
  | compiled hnone ha => exact h.compiled hnone ha
  | kept hnone ha => exact h.kept hnone ha

/-- The attributes of an element are bound after one of them that came first. -/
theorem of_first {l r s fs : List Attribute} (ha : (options.directiveOf? a.name).isSome = true)
    (hs : s = l ++ r ∨ options.Shows data a ∧ ∃ value, s = Attribute.set "style" value (l ++ r))
    (h : options.Framed data s [] fs) : options.Framed data (l ++ a :: r) [] fs := by
  have hrestyled : ∃ bs added, s = bs ++ added ∧ List.Forall₂ Attribute.Restyled (l ++ r) bs ∧
      ∀ b ∈ added, b.name = "style" ∧ options.Shows data a := by
    rcases hs with rfl | ⟨hshows, value, rfl⟩
    · exact ⟨l ++ r, [], (List.append_nil _).symm, List.forall₂_same.mpr fun b _ ↦ .refl b, nofun⟩
    · obtain ⟨bs, added, hset, hbs, hadded⟩ := Attribute.exists_set_style (l ++ r) value
      exact ⟨bs, added, hset, hbs, fun b hb ↦ ⟨hadded b hb, hshows⟩⟩
  obtain ⟨bs, added, rfl, hbs, hadded⟩ := hrestyled
  obtain ⟨hnodup, front, rest, added', rfl, hfront, hrest, hadded'⟩ := h
  obtain rfl := List.forall₂_nil_left_iff.mp hrest
  rw [unmarked_append] at hfront
  obtain ⟨us, vs, rfl, hus, hvs⟩ := exists_append_of_forall₂ hfront
  refine ⟨hnodup, us, [], vs ++ added', by simp, ?_, .nil, fun b hb ↦ ?_⟩
  · rw [List.append_cons, unmarked_append, unmarked_append, unmarked_singleton_of_isSome ha,
      List.append_nil, ← unmarked_append]
    exact forall₂_trans (fun hab hbc ↦ hab.compilesTo hbc) (forall₂_unmarked hbs) hus
  · rcases List.mem_append.mp hb with hb | hb
    · -- a style that was added first has gone through the bindings as any other attribute
      obtain ⟨c, hc, hcb⟩ := exists_of_forall₂_right hvs hb
      obtain ⟨hname, hshows⟩ := hadded c (Attribute.mem_named.mp hc).1
      exact ⟨hcb.name.trans hname, a, by simp, hshows⟩
    · -- a show directive that is bound behind the first one was on the element before
      obtain ⟨hname, c, hc, hshows⟩ := hadded' b hb
      have hne : c.name ≠ "style" := fun hstyle ↦ by
        rw [Shows, mark?_of_name_style hstyle] at hshows
        cases hshows.1
      rcases List.mem_append.mp hc with hc | hc
      · obtain ⟨c', hc', hcc⟩ := exists_of_forall₂_right hbs hc
        obtain rfl := hcc.same (hcc.name ▸ hne)
        exact ⟨hname, c, ((List.sublist_cons_self a r).append_left l).subset hc', hshows⟩
      · exact absurd (hadded c hc).1 hne

end Framed

end Options

theorem framed_of_bindAttributes {bound todo : List Attribute} {descend d : Bool} {e f : Element}
    (hframed : options.Framed data bound todo e.attributes)
    (h : bindAttributes options data descend e todo = .ok (.stays f d)) :
    options.Framed data (bound ++ todo) [] f.attributes := by
  induction todo generalizing bound descend e with
  | nil =>
    rw [bindAttributes] at h
    rwa [List.append_nil, ← (Bound.stays.inj (Except.ok.inj h)).1]
  | cons a todo ih =>
    obtain ⟨descend', g, h, heffect⟩ := effect_of_bindAttributes h
    rw [List.append_cons]
    exact ih (hframed.step heffect) h

/-- **What becomes of the attributes** of an element that stays, if their names are distinct. -/
theorem framed_of_stays (hsymbol : options.bindSymbol ≠ "") {e f : Element} {d : Bool}
    (hnodup : (e.attributes.map Attribute.name).Nodup)
    (h : bindElement options data e = .ok (.stays f d)) :
    options.Framed data e.attributes [] f.attributes := by
  unfold bindElement at h
  split at h
  · exact framed_of_bindAttributes (.start hnodup) h
  · rename_i m hm
    obtain ⟨l, a, r, he, herase, hexpression, hname, hmark⟩ :=
      exists_mark?_of_priorityOn? hsymbol hm
    simp only at h
    split at h
    · cases h
    · rename_i g d' hb
      have hg : g.attributes = l ++ r ∨ options.Shows data a ∧
          ∃ value, g.attributes = Attribute.set "style" value (l ++ r) := by
        rw [← herase]
        refine (attributes_of_bindMarked_or hb).imp_right fun ⟨hdisplay, hv, hset⟩ ↦ ?_
        exact ⟨⟨hmark.trans hdisplay, hexpression ▸ hv⟩, hset⟩
      have hnodup' : (g.attributes.map Attribute.name).Nodup :=
        (Options.Rewrites.start (.first hm (leaves_of_bindMarked hb))).nodup hnodup
      -- all other attributes are bound behind the directive, and with them the style that it added
      rw [he]
      exact .of_first (by rw [hname]; rfl) hg (framed_of_bindAttributes (.start hnodup') h)
    · cases h

/-- At most one attribute is added. -/
theorem Options.Framed.exists_append {as fs : List Attribute} (h : options.Framed data as [] fs) :
    ∃ front added, fs = front ++ added ∧
      List.Forall₂ (Attribute.CompilesTo data) (options.unmarked as) front ∧
      (added = [] ∨
        (∃ value, added = [⟨"style", value⟩]) ∧ ∃ a ∈ as, options.Shows data a) := by
  obtain ⟨hnodup, front, rest, added, rfl, hfront, hrest, hadded⟩ := h
  obtain rfl := List.forall₂_nil_left_iff.mp hrest
  refine ⟨front, added, rfl, hfront, ?_⟩
  match added with
  | [] => exact Or.inl rfl
  | [b] =>
    obtain ⟨hname, hshows⟩ := hadded b (List.mem_singleton_self b)
    exact Or.inr ⟨⟨b.value, by rw [← hname]⟩, hshows⟩
  | b :: c :: added =>
    have hb := (hadded b List.mem_cons_self).1
    have hc := (hadded c (List.mem_cons_of_mem b List.mem_cons_self)).1
    rw [List.map_append, List.nil_append, List.map_cons, List.map_cons, hb, hc] at hnodup
    exact absurd hnodup.of_append_right (by simp)

private theorem unmarked_eq_filter (hsymbol : options.bindSymbol ≠ "") (as : List Attribute) :
    options.unmarked as = as.filter fun a ↦ ¬options.bindSymbol.toList <+: a.name.toList := by
  refine List.filter_congr fun a _ ↦ ?_
  rw [Bool.eq_iff_iff, Option.isNone_iff_eq_none, directiveOf?_eq_none_iff hsymbol,
    decide_eq_true_iff]

/-! ## Compiling -/

/-- **Directives do not disturb the other attributes**: on the element that an element is compiled
to, the attributes that are not marked stand in their order, each with its value or with the text of
its interpolation, and at most a style is added, by a show directive. -/
theorem attributes_of_compileNodes {e : Element} {ns : List Node}
    (hsymbol : options.bindSymbol ≠ "") (hnodup : (e.attributes.map Attribute.name).Nodup)
    (hrepeats : ∀ a ∈ e.attributes, options.repeats a = false)
    (h : compileNodes options data [.element e] = .ok ns) :
    ∃ f front added, ns = [.element f] ∧ f.tag = e.tag ∧ f.attributes = front ++ added ∧
      List.Forall₂ (Attribute.CompilesTo data)
        (e.attributes.filter fun a ↦ ¬options.bindSymbol.toList <+: a.name.toList) front ∧
      (added = [] ∨
        (∃ value, added = [⟨"style", value⟩]) ∧ ∃ a ∈ e.attributes, options.Shows data a) := by
  rw [compileNodes_singleton, compileNode_element] at h
  rcases hb : bindElement options data e with err | b
  · rw [hb] at h
    cases h
  obtain ⟨f, d, rfl⟩ := exists_stays_of_bindElement hsymbol hrepeats hb
  obtain ⟨front, added, hf, hfront, hadded⟩ := (framed_of_stays hsymbol hnodup hb).exists_append
  rw [unmarked_eq_filter hsymbol] at hfront
  have htag := (rewrites_of_stays hb).tag
  rw [hb] at h
  cases d with
  | false => exact ⟨f, front, added, (Except.ok.inj h).symm, htag, hf, hfront, hadded⟩
  | true =>
    obtain ⟨cs, -, rfl⟩ := map_eq_ok_iff.mp h
    exact ⟨{ f with children := cs }, front, added, rfl, htag, hf, hfront, hadded⟩

/-- The directive has priority, so the style that it adds is there before the other attributes are
bound. -/
theorem attributes_of_compileNodes_show :
    let options : Options := { priority := ["show"] }
    let title : Attribute := ⟨"title", "\x7b\x7bs\x7d\x7d"⟩
    let e : Element := ⟨"p", [title, ⟨":show", "v"⟩, ⟨"id", "x"⟩], []⟩
    (options.bindSymbol ≠ "" ∧ (e.attributes.map Attribute.name).Nodup ∧
      ∀ a ∈ e.attributes, options.repeats a = false) ∧
    ∃ f front added, compileNodes options givenData [.element e] = .ok [.element f] ∧
      f.tag = "p" ∧ f.attributes = front ++ added ∧
      List.Forall₂ (Attribute.CompilesTo givenData) [title, ⟨"id", "x"⟩] front ∧
      (added = [] ∨
        (∃ value, added = [⟨"style", value⟩]) ∧ ∃ a ∈ e.attributes, options.Shows givenData a) := by
  intro options title e
  have hsymbol : options.bindSymbol ≠ "" := by decide
  have hnodup : (e.attributes.map Attribute.name).Nodup := by decide
  have hrepeats : ∀ a ∈ e.attributes, options.repeats a = false := by decide
  refine ⟨⟨hsymbol, hnodup, hrepeats⟩, ?_⟩
  have hbind : ∃ f, bindElement options givenData e = .ok (.stays f true) := by
    have hmarked : bindMarked givenData "show" (Text.trimmed "v") (e.eraseAttribute ":show") =
        .ok (.stays ⟨"p", [title, ⟨"id", "x"⟩, ⟨"style", "display: none;"⟩], []⟩ true) :=
      bindMarked_display (e.eraseAttribute ":show") evaluate_givenData
    have hstatic : ∀ a ∈ ([⟨"id", "x"⟩, ⟨"style", "display: none;"⟩] : List Attribute),
        a.IsStatic options :=
      List.forall_mem_cons.mpr
        ⟨⟨by decide, by decide⟩, List.forall_mem_singleton.mpr ⟨by decide, by decide⟩⟩
    have hpriority : options.priorityOn? e = some ⟨"show", ":show", Text.trimmed "v"⟩ := by decide
    rw [bindElement, hpriority]
    simp only [hmarked]
    rw [bindAttributes]
    simp only [show options.directiveOf? title.name = none by decide]
    rw [if_pos (by decide), show title.value = givenStyle.value by rfl, evaluate_givenStyle]
    exact ⟨_, bindAttributes_of_isStatic hstatic true _⟩
  obtain ⟨f, hf⟩ := hbind
  have hcompile : compileNodes options givenData [.element e] =
      .ok [.element { f with children := [] }] := by
    rw [compileNodes_singleton, compileNode_of_stays hf, compileNodes_nil]
    rfl
  have hfilter : (e.attributes.filter fun a ↦ ¬options.bindSymbol.toList <+: a.name.toList) =
      [title, ⟨"id", "x"⟩] := by decide
  obtain ⟨g, front, added, hg, htag, hattributes, hfront, hadded⟩ :=
    attributes_of_compileNodes hsymbol hnodup hrepeats hcompile
  exact ⟨g, front, added, hg ▸ hcompile, htag, hattributes, hfilter ▸ hfront, hadded⟩

end HtmlTemplate
