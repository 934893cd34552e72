import HtmlTemplate.Proofs.Markup.Names
import HtmlTemplate.Template.Binding
import Mathlib.Tactic.Common

/-!
# Binding, one attribute at a time

Binding goes through the attributes that an element has at the start, and each of them may change
the element: a marked one is taken off and its directive bound, another one may get a new value.
`Options.Step` says all that one attribute can do to an element that stays, and `Options.Start` what
the directive that has priority can do before.

## The invariant

What holds of the element at the start and is kept by every step holds where binding ends: of the
element that stays, with no attribute still to come, and of the element that a repeating attribute
is taken off (`bindElement_induction`). The first use is `Options.Rewrites`, which says how far an
element can differ from the one that it was bound from, whatever the data.

## How the steps are used

A claim about binding is stated as an invariant of three things: the attributes that are still to
come, whether the children are still to be compiled, and the element as it is. It is proved once for
the directive with priority (`Options.Start`) and once for an attribute (`Options.Step`), without a
look at the functions that bind. A directive that is added brings one more case for
`Directive.Leaves`.
-/

namespace HtmlTemplate

theorem name_of_ofName? {name : String} {d : Directive} (h : Directive.ofName? name = some d) :
    d.name = name := by
  simpa using List.find?_some h

/-! ## Steps -/

/-- What the directive of a name leaves of an element that stays, and whether the children of the
element are still to be compiled. -/
inductive Directive.Leaves (name : String) (e : Element) : Bool → Element → Prop
  | same : Leaves name e true e
  | shown (value : String) : Leaves name e true (e.setStyleProperty "display" value)
  | filled (h : name = Directive.text.name) (s : String) :
      Leaves name e false { e with children := Node.textChildren s }

namespace Options

variable (options : Options)

/-- What an attribute leaves of an element that stays. -/
inductive Step (a : Attribute) (e : Element) : Bool → Element → Prop
  | marked {name : String} {d : Bool} {f : Element} (h : options.directiveOf? a.name = some name)
      (hl : Directive.Leaves name (e.eraseAttribute a.name) d f) : Step a e d f
  | plain (h : options.directiveOf? a.name = none) : Step a e true e
  | interpolated (h : options.directiveOf? a.name = none) (value : String) :
      Step a e true (e.setAttribute a.name value)

/-- What the directive that has priority, if any, leaves of an element that stays. -/
inductive Start (e : Element) : Bool → Element → Prop
  | plain (h : options.priorityOn? e = none) : Start e true e
  | first {m : PriorityMatch} {d : Bool} {f : Element} (h : options.priorityOn? e = some m)
      (hl : Directive.Leaves m.name (e.eraseAttribute m.key) d f) : Start e d f

end Options

variable {options : Options} {data : Data}

theorem Element.attribute?_eq_some {e : Element} {name value : String}
    (h : e.attribute? name = some value) : ∃ a ∈ e.attributes, a.name = name ∧ a.value = value := by
  obtain ⟨a, ha, hv⟩ := Option.map_eq_some_iff.mp h
  exact ⟨a, List.mem_of_find?_eq_some ha, by simpa using List.find?_some ha, hv⟩

theorem attribute?_of_findPriority {e : Element} {names : List String} {m : PriorityMatch}
    (h : findPriority options e names = some m) :
    m.name ∈ names ∧ m.key = options.attributeOf m.name ∧ ∃ value,
      e.attribute? m.key = some value ∧ m.expression = Text.trimmed value ∧
        (Text.trimmed value).isEmpty = false := by
  induction names with
  | nil => cases h
  | cons name names ih =>
    have hbehind (h : findPriority options e names = some m) :=
      And.imp_left (List.mem_cons_of_mem name) (ih h)
    simp only [findPriority] at h
    split at h
    · exact hbehind h
    · rename_i value hv
      split at h
      · exact hbehind h
      · split at h
        · cases h
        · rename_i hvalue
          cases h
          exact ⟨List.mem_cons_self, rfl, value, hv, rfl, Bool.not_eq_true _ ▸ hvalue⟩

theorem mem_of_findPriority {e : Element} {names : List String} {m : PriorityMatch}
    (h : findPriority options e names = some m) :
    m.name ∈ names ∧ ∃ a ∈ e.attributes, a.name = options.attributeOf m.name ∧
      m.expression = Text.trimmed a.value := by
  obtain ⟨hmem, hkey, value, hvalue, hexpression, -⟩ := attribute?_of_findPriority h
  obtain ⟨a, ha, hname, rfl⟩ := Element.attribute?_eq_some hvalue
  exact ⟨hmem, a, ha, hname.trans hkey, hexpression⟩

theorem findPriority_congr {e f : Element} {names : List String}
    (h : ∀ name ∈ names,
      f.attribute? (options.attributeOf name) = e.attribute? (options.attributeOf name)) :
    findPriority options f names = findPriority options e names := by
  induction names with
  | nil => rfl
  | cons name names ih =>
    obtain ⟨hname, hnames⟩ := List.forall_mem_cons.mp h
    rw [findPriority, findPriority, hname, ih hnames]

theorem leaves_of_bindMarked {name value : String} {e f : Element} {d : Bool}
    (h : bindMarked data name value e = .ok (.stays f d)) : Directive.Leaves name e d f := by
  rcases stays_of_bindMarked h with ⟨_, rfl, rfl⟩ | ⟨kind, v, hname, hstays, rfl, rfl⟩
  · exact .same
  · cases kind with
    | display => exact .shown _
    | text => exact .filled (name_of_ofName? hname).symm _
    | attr => exact .same
    | each => exact absurd hstays (by decide)
    | forin => exact absurd hstays (by decide)

/-- An attribute that does not fail repeats the element without it, or makes a step. -/
theorem step_of_bindAttributes {a : Attribute} {as : List Attribute} {descend : Bool} {e : Element}
    {b : Bound} (h : bindAttributes options data descend e (a :: as) = .ok b) :
    ((options.directiveOf? a.name).isSome = true ∧
      ∃ d aliases v, b = .repeats (e.eraseAttribute a.name) d aliases v) ∨
    ∃ d f, options.Step a e d f ∧ bindAttributes options data (descend && d) f as = .ok b := by
  simp only [bindAttributes] at h
  split at h
  · rename_i name hname
    split at h
    · -- a blank mark is taken off and does nothing else
      refine Or.inr ⟨true, _, .marked hname .same, ?_⟩
      rwa [Bool.and_true]
    · split at h
      · exact nomatch h
      · rename_i f d hb
        exact Or.inr ⟨d, f, .marked hname (leaves_of_bindMarked hb), h⟩
      · rename_i t d aliases v hb
        refine Or.inl ⟨by rw [hname]; rfl, d, aliases, v, ?_⟩
        rw [← Except.ok.inj h, template_of_bindMarked hb]
  · rename_i hname
    split at h
    · split at h
      · exact nomatch h
      · rename_i v _
        refine Or.inr ⟨true, _, .interpolated hname v.toText, ?_⟩
        rwa [Bool.and_true]
    · refine Or.inr ⟨true, e, .plain hname, ?_⟩
      rwa [Bool.and_true]

/-- The directive that has priority repeats the element without its attribute, or leaves an element
to all the attributes that are on it then. -/
theorem start_of_bindElement {e : Element} {b : Bound} (h : bindElement options data e = .ok b) :
    (∃ m d aliases v, options.priorityOn? e = some m ∧
      b = .repeats (e.eraseAttribute m.key) d aliases v) ∨
    ∃ d f, options.Start e d f ∧ bindAttributes options data d f f.attributes = .ok b := by
  unfold bindElement at h
  split at h
  · rename_i hm
    exact Or.inr ⟨true, e, .plain hm, h⟩
  · rename_i m hm
    simp only at h
    split at h
    · exact nomatch h
    · rename_i f d hb
      exact Or.inr ⟨d, f, .first hm (leaves_of_bindMarked hb), h⟩
    · rename_i t d aliases v hb
      refine Or.inl ⟨m, d, aliases, v, hm, ?_⟩
      rw [← Except.ok.inj h, template_of_bindMarked hb]

/-! ## Directives and maps of elements -/

def Bound.map (φ : Element → Element) : Bound → Bound
  | .stays e descend => .stays (φ e) descend
  | .repeats t d aliases v => .repeats (φ t) d aliases v

/-- A directive reads nothing of its element, so only what it is applied to tells elements apart. -/
theorem bindMarked_map (φ : Element → Element) {name : String} (value : String) (e : Element)
    (happly : ∀ d, Directive.ofName? name = some d → ∀ v, d.apply v (φ e) = φ (d.apply v e)) :
    bindMarked data name value (φ e) = (bindMarked data name value e).map (Bound.map φ) := by
  rcases hname : Directive.ofName? name with _ | d
  · rw [bindMarked_of_none _ hname, bindMarked_of_none _ hname]
    rfl
  · rw [bindMarked_of_some _ hname, bindMarked_of_some _ hname]
    split
    · rcases evaluate d data (Aliases.ofDirective d value).collection with err | v <;> rfl
    · rcases evaluate d data value with err | v
      · rfl
      · exact congrArg (fun f ↦ Except.ok (Bound.stays f _)) (happly d hname v)

/-! ## Induction on the steps -/

section Induction

variable {I : List Attribute → Bool → Element → Prop}

private theorem bindAttributes_induction
    (step : ∀ {a as descend e d f}, I (a :: as) descend e → options.Step a e d f →
      I as (descend && d) f)
    {as : List Attribute} {descend : Bool} {e : Element} {b : Bound} (start : I as descend e)
    (h : bindAttributes options data descend e as = .ok b) :
    (∃ d f, b = .stays f d ∧ I [] d f) ∨
    ∃ a as descend f d aliases v, I (a :: as) descend f ∧
      (options.directiveOf? a.name).isSome = true ∧
      b = .repeats (f.eraseAttribute a.name) d aliases v := by
  induction as generalizing descend e with
  | nil =>
    rw [bindAttributes] at h
    exact Or.inl ⟨descend, e, (Except.ok.inj h).symm, start⟩
  | cons a as ih =>
    rcases step_of_bindAttributes h with ⟨hmark, d, aliases, v, hb⟩ | ⟨d, f, hstep, h⟩
    · exact Or.inr ⟨a, as, descend, e, d, aliases, v, start, hmark, hb⟩
    · exact ih (step start hstep) h

/-- **Induction on the steps of binding.** The invariant is about the attributes that are still to
come, whether the children are still to be compiled, and the element as it is. -/
theorem bindElement_induction
    (step : ∀ {a as descend e d f}, I (a :: as) descend e → options.Step a e d f →
      I as (descend && d) f)
    {e : Element} {b : Bound} (start : ∀ {d f}, options.Start e d f → I f.attributes d f)
    (h : bindElement options data e = .ok b) :
    (∃ m d aliases v, options.priorityOn? e = some m ∧
      b = .repeats (e.eraseAttribute m.key) d aliases v) ∨
    (∃ d f, b = .stays f d ∧ I [] d f) ∨
    ∃ a as descend f d aliases v, I (a :: as) descend f ∧
      (options.directiveOf? a.name).isSome = true ∧
      b = .repeats (f.eraseAttribute a.name) d aliases v := by
  rcases start_of_bindElement h with hfirst | ⟨d, f, hstart, h⟩
  · exact Or.inl hfirst
  · exact Or.inr (bindAttributes_induction step (start hstart) h)

end Induction

/-! ## What binding can change -/

namespace Options

/-- Is it the key of a text directive: is it marked as one, or does it hold one that has priority?
With an empty mark it may have priority without being marked. -/
def isTextKey (options : Options) (key : String) : Bool :=
  options.directiveOf? key == some Directive.text.name ||
    options.priority.contains Directive.text.name && key == options.attributeOf Directive.text.name

def carriesText (options : Options) (e : Element) : Bool :=
  e.attributes.any fun a ↦ options.isTextKey a.name

/-- How far an element may differ from the one that it was bound from. -/
structure Rewrites (options : Options) (e : Element) (descend : Bool) (f : Element) : Prop where
  tag : f.tag = e.tag
  /-- Only the style may be new. -/
  names : f.attributes.map Attribute.name ⊆ "style" :: e.attributes.map Attribute.name
  nodup : (e.attributes.map Attribute.name).Nodup → (f.attributes.map Attribute.name).Nodup
  /-- The children stay as long as they are to be compiled. -/
  kept : descend = true → f.children = e.children
  /-- Otherwise a text directive has put a text there. -/
  written : descend = false →
    options.carriesText e = true ∧ ∃ s, f.children = Node.textChildren s

end Options

theorem attributeOf_of_directiveOf? {key name : String}
    (h : options.directiveOf? key = some name) : key = options.attributeOf name := by
  rw [Options.directiveOf?] at h
  split at h
  · cases h
  · rename_i hmark
    simp only [Bool.or_eq_true, not_or, Bool.not_eq_true', Bool.not_eq_false] at hmark
    obtain ⟨s, hs⟩ := List.isPrefixOf_iff_prefix.mp hmark.2
    cases h
    rw [← hs, List.drop_left, Options.attributeOf, ← String.toList_inj, String.toList_append,
      String.toList_ofList, hs]

theorem bindSymbol_ne_of_directiveOf? {key name : String}
    (h : options.directiveOf? key = some name) : options.bindSymbol ≠ "" := by
  intro hempty
  rw [Options.directiveOf?, hempty] at h
  cases h

theorem directiveOf?_attributeOf (hsymbol : options.bindSymbol ≠ "") (name : String) :
    options.directiveOf? (options.attributeOf name) = some name := by
  have hne : options.bindSymbol.toList.isEmpty = false := by simpa using hsymbol
  have hfront : options.bindSymbol.toList.isPrefixOf
      (options.bindSymbol.toList ++ name.toList) = true :=
    List.isPrefixOf_iff_prefix.mpr (List.prefix_append _ _)
  simp [Options.directiveOf?, Options.attributeOf, hne, hfront]

private theorem attributeOf_of_isTextKey {key : String} (h : options.isTextKey key = true) :
    key = options.attributeOf Directive.text.name := by
  rw [Options.isTextKey, Bool.or_eq_true, Bool.and_eq_true, beq_iff_eq, beq_iff_eq] at h
  exact h.elim attributeOf_of_directiveOf? And.right

theorem attributeOf_name_ne_style (d : Directive) : options.attributeOf d.name ≠ "style" := by
  intro h
  have hsuffix : d.name.toList <:+ "style".toList := by
    rw [← h, Options.attributeOf, String.toList_append]
    exact List.suffix_append _ _
  revert hsuffix
  cases d <;> decide

theorem ofName?_of_directiveOf?_style {name : String}
    (h : options.directiveOf? "style" = some name) : Directive.ofName? name = none := by
  rcases hname : Directive.ofName? name with _ | d
  · rfl
  · rw [← name_of_ofName? hname] at h
    exact absurd (attributeOf_of_directiveOf? h).symm (attributeOf_name_ne_style d)

private theorem isTextKey_style : options.isTextKey "style" = false := by
  rw [← Bool.not_eq_true]
  exact fun h ↦ attributeOf_name_ne_style .text (attributeOf_of_isTextKey h).symm

theorem carriesText_of_mem {e : Element} {key : String} (hkey : options.isTextKey key = true)
    (h : key ∈ "style" :: e.attributes.map Attribute.name) : options.carriesText e = true := by
  rcases List.mem_cons.mp h with rfl | h
  · rw [isTextKey_style] at hkey
    exact absurd hkey Bool.false_ne_true
  · obtain ⟨a, ha, rfl⟩ := List.mem_map.mp h
    exact List.any_eq_true.mpr ⟨a, ha, hkey⟩

namespace Options.Rewrites

variable {e f g : Element} {d d' : Bool} {key value name : String}

theorem refl (e : Element) : options.Rewrites e true e where
  tag := rfl
  names := List.subset_cons_self _ _
  nodup h := h
  kept _ := rfl
  written h := absurd h Bool.noConfusion

theorem eraseAttribute (h : options.Rewrites e d f) :
    options.Rewrites e d (f.eraseAttribute key) where
  tag := h.tag
  names := List.Subset.trans (Attribute.map_name_erase_sublist _ _).subset h.names
  nodup he := (Attribute.map_name_erase_sublist _ _).nodup (h.nodup he)
  kept := h.kept
  written := h.written

theorem setAttribute (h : options.Rewrites e d f)
    (hkey : key ∈ "style" :: e.attributes.map Attribute.name) :
    options.Rewrites e d (f.setAttribute key value) where
  tag := h.tag
  names := List.Subset.trans (Attribute.map_name_set_subset _ _ _)
    (List.cons_subset.mpr ⟨hkey, h.names⟩)
  nodup he := Attribute.nodup_map_name_set _ _ (h.nodup he)
  kept := h.kept
  written := h.written

theorem leaves (h : options.Rewrites e d f) (hl : Directive.Leaves name f d' g)
    (htext : name = Directive.text.name → options.carriesText e = true) :
    options.Rewrites e (d && d') g := by
  cases hl with
  | same => rwa [Bool.and_true]
  | shown value =>
    rw [Bool.and_true]
    exact h.setAttribute List.mem_cons_self
  | filled hname s =>
    rw [Bool.and_false]
    exact ⟨h.tag, h.names, h.nodup, fun hd ↦ absurd hd Bool.noConfusion,
      fun _ ↦ ⟨htext hname, s, rfl⟩⟩

theorem step {a : Attribute} (h : options.Rewrites e d f)
    (ha : a.name ∈ "style" :: e.attributes.map Attribute.name) (hs : options.Step a f d' g) :
    options.Rewrites e (d && d') g := by
  cases hs with
  | marked hname hl =>
    refine h.eraseAttribute.leaves hl fun htext ↦ carriesText_of_mem ?_ ha
    rw [isTextKey, hname, htext, beq_self_eq_true, Bool.true_or]
  | plain _ => rwa [Bool.and_true]
  | interpolated _ value =>
    rw [Bool.and_true]
    exact h.setAttribute ha

theorem start (hs : options.Start e d f) : options.Rewrites e d f := by
  cases hs with
  | plain _ => exact refl e
  | first hm hl =>
    obtain ⟨hmem, a, ha, hkey, -⟩ := mem_of_findPriority hm
    rw [← Bool.true_and d]
    refine (refl e).eraseAttribute.leaves hl fun htext ↦ List.any_eq_true.mpr ⟨a, ha, ?_⟩
    rw [htext] at hmem hkey
    rw [isTextKey, Bool.or_eq_true, Bool.and_eq_true]
    exact Or.inr ⟨List.contains_iff_mem.mpr hmem, beq_iff_eq.mpr hkey⟩

theorem carriesText (h : options.Rewrites e d f) (hf : options.carriesText f = true) :
    options.carriesText e = true := by
  obtain ⟨a, ha, hkey⟩ := List.any_eq_true.mp hf
  exact carriesText_of_mem hkey (h.names (List.mem_map_of_mem ha))

end Options.Rewrites

/-- The invariant is that the attributes still to come have names of the first element. -/
theorem rewrites_of_bindElement {e : Element} {b : Bound} (h : bindElement options data e = .ok b) :
    (∃ d f, b = .stays f d ∧ options.Rewrites e d f) ∨
      ∃ descend t d aliases v, b = .repeats t d aliases v ∧ options.Rewrites e descend t := by
  have hbound := bindElement_induction
    (I := fun as d f ↦ options.Rewrites e d f ∧
      as.map Attribute.name ⊆ "style" :: e.attributes.map Attribute.name)
    (fun {a as descend f d g} hf hs ↦ by
      obtain ⟨ha, has⟩ := List.cons_subset.mp hf.2
      exact ⟨hf.1.step ha hs, has⟩)
    (fun hs ↦ ⟨.start hs, (Options.Rewrites.start hs).names⟩) h
  rcases hbound with ⟨m, d, aliases, v, -, hb⟩ | ⟨d, f, hb, hf, -⟩ |
    ⟨a, as, descend, f, d, aliases, v, ⟨hf, -⟩, -, hb⟩
  · exact Or.inr ⟨true, _, d, aliases, v, hb, (Options.Rewrites.refl e).eraseAttribute⟩
  · exact Or.inl ⟨d, f, hb, hf⟩
  · exact Or.inr ⟨descend, _, d, aliases, v, hb, hf.eraseAttribute⟩

theorem rewrites_of_stays {e f : Element} {d : Bool}
    (h : bindElement options data e = .ok (.stays f d)) : options.Rewrites e d f := by
  rcases rewrites_of_bindElement h with ⟨d, f, hb, hf⟩ | ⟨_, _, _, _, _, hb, _⟩
  · obtain ⟨rfl, rfl⟩ := Bound.stays.inj hb
    exact hf
  · exact nomatch hb

theorem rewrites_of_repeats {e t : Element} {d : Directive} {aliases : Aliases} {v : Value}
    (h : bindElement options data e = .ok (.repeats t d aliases v)) :
    ∃ descend, options.Rewrites e descend t := by
  rcases rewrites_of_bindElement h with ⟨_, _, hb, _⟩ | ⟨descend, t, d, aliases, v, hb, ht⟩
  · exact nomatch hb
  · obtain ⟨rfl, -⟩ := Bound.repeats.inj hb
    exact ⟨descend, ht⟩

end HtmlTemplate
