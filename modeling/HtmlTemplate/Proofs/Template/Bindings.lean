import HtmlTemplate.Proofs.Template.Steps

/-!
# What binding does to an element

Binding reads expressions in the attributes of an element, and it writes: a text directive puts a
text of the data inside the element, an interpolated attribute gets one for its value, and a show
directive rewrites the style. Here is what one attribute can do (`bindAttributes_cons`), what an
element can become (`bindElement_cases`), and which elements can be repeated in its place
(`mem_copies_of_bindElement`).

The elements are computed from the template alone. This is possible as long as nothing is written
into an element that is then repeated (`Options.keepsOrder`): only the value that a show directive
puts depends on the data, and it is one of two.

## Static and dynamic

What an element becomes depends on the data in two ways: by texts that are written into it, and by
the value of a show directive. The first are never read again if the order is kept, and the second
is one of two styles that the template alone gives (`Element.shown`). So the elements that
attributes are bound to, and those that are repeated, form a finite list for every template
(`Options.starts`, `Options.copies`), and a claim about all data is one about the members of these
lists.
-/

namespace HtmlTemplate

/-! ## Attributes and the elements they leave -/

/-- What a show directive may make of an element. -/
def Element.shown (e : Element) : List Element :=
  ["block", "none"].map fun value ↦ e.setStyleProperty "display" value

def Directive.results (d : Option Directive) (e : Element) : List Element :=
  match d with
  | some .display => e.shown
  | _ => [e]

namespace Options

variable (options : Options)

def mark? (a : Attribute) : Option Directive :=
  match options.directiveOf? a.name with
  | some name => if (Text.trimmed a.value).isEmpty then none else Directive.ofName? name
  | none => none

def fills (a : Attribute) : Bool :=
  (options.directiveOf? a.name).isNone && !(Text.trimmed a.value).isEmpty &&
    Interpolation.isInterpolated a.value

/-- Does the attribute hold a directive that may have priority? With an empty mark it needs not be a
marked one. -/
def precedes (a : Attribute) : Bool :=
  options.priority.any fun name ↦
    (Directive.ofName? name).isSome && options.attributeOf name == a.name

/-- Is an expression read in the attribute? -/
def reads (a : Attribute) : Bool :=
  (options.mark? a).isSome || options.fills a || options.precedes a

/-- Does the attribute put a text of the data into the element? -/
def overwrites (a : Attribute) : Bool := options.mark? a == some .text || options.fills a

/-- Does the attribute repeat the element? -/
def repeats (a : Attribute) : Bool := (options.mark? a).any Directive.isRepeating

/-- Does no attribute that repeats the element stand behind one that writes into it? -/
def isOrdered : List Attribute → Bool
  | [] => true
  | a :: as => !(options.overwrites a && as.any options.repeats) && isOrdered as

/-- The element as an attribute finds it: without the attribute itself, if that is marked. -/
def taken (e : Element) (a : Attribute) : Element :=
  if (options.directiveOf? a.name).isSome then e.eraseAttribute a.name else e

/-- The elements that the first repeating attribute may repeat, where nothing was written into the
element before. -/
def copiesFrom (e : Element) : List Attribute → List Element
  | [] => []
  | a :: as =>
    if options.repeats a then [options.taken e a]
    else (Directive.results (options.mark? a) (options.taken e a)).flatMap fun s ↦ copiesFrom s as

def priorityMark? (e : Element) : Option Directive :=
  (options.priorityOn? e).bind fun m ↦ Directive.ofName? m.name

def withoutPriority (e : Element) : Element :=
  match options.priorityOn? e with
  | some m => e.eraseAttribute m.key
  | none => e

/-- What the element may be when its attributes are bound, its children aside. -/
def starts (e : Element) : List Element :=
  if (options.priorityMark? e).any Directive.isRepeating then []
  else Directive.results (options.priorityMark? e) (options.withoutPriority e)

/-- The elements that may be repeated in the place of an element, where nothing was written into it
before. -/
def copies (e : Element) : List Element :=
  if (options.priorityMark? e).any Directive.isRepeating then [options.withoutPriority e]
  else (options.starts e).flatMap fun s ↦ options.copiesFrom s s.attributes

/-- Is the element never repeated after a text of the data was written into it? -/
def keepsOrder (e : Element) : Bool :=
  (options.starts e).all fun s ↦ options.isOrdered s.attributes &&
    !(options.priorityMark? e == some .text && s.attributes.any options.repeats)

def descends (as : List Attribute) : Bool :=
  as.all fun a ↦ !options.repeats a && options.mark? a != some .text

def isOpen (e : Element) : Bool :=
  options.priorityMark? e != some .text &&
    (options.starts e).any fun s ↦ options.descends s.attributes

end Options

/-- The expressions that may be read in an attribute: its interpolated value, its value without
outer blanks, and the collections of that. -/
def Attribute.expressions (a : Attribute) : List String :=
  [Interpolation.expressionOf a.value, Text.trimmed a.value,
    (Aliases.ofEach (Text.trimmed a.value)).collection,
    (Aliases.ofForin (Text.trimmed a.value)).collection]

/-! ## Binding one directive

A directive reads its value, or the collection in it, before it does anything to the element. -/

variable {options : Options} {data : Data}

theorem expression_of_evaluate {d : Directive} {expression : String} {err : CompileError}
    (h : evaluate d data expression = .error err) : err.expression = expression := by
  unfold evaluate at h
  split at h
  · cases h
    rfl
  · split at h
    · cases h
      rfl
    · cases h

theorem expression_of_bindMarked {name value : String} {e : Element} {err : CompileError}
    (h : bindMarked data name value e = .error err) :
    (Directive.ofName? name).isSome = true ∧
      (err.expression = value ∨ err.expression = (Aliases.ofEach value).collection ∨
        err.expression = (Aliases.ofForin value).collection) := by
  obtain ⟨d, hname, herr⟩ := fails_of_bindMarked h
  refine ⟨by rw [hname]; rfl, ?_⟩
  rw [expression_of_evaluate herr]
  cases d with
  | each => exact Or.inr (Or.inl rfl)
  | forin => exact Or.inr (Or.inr rfl)
  | _ => exact Or.inl rfl

theorem isRepeating_of_bindMarked {name value : String} {e t : Element} {d : Directive}
    {aliases : Aliases} {v : Value}
    (h : bindMarked data name value e = .ok (.repeats t d aliases v)) :
    (Directive.ofName? name).any Directive.isRepeating = true := by
  obtain ⟨hname, hrepeating, -⟩ := repeats_of_bindMarked h
  rw [hname]
  exact hrepeating

/-- What stays of an element after a directive. A text directive closes the element and leaves its
attributes. -/
theorem results_of_bindMarked {name value : String} {e e' : Element} {d : Bool}
    (h : bindMarked data name value e = .ok (.stays e' d)) :
    (Directive.ofName? name).any Directive.isRepeating = false ∧
      (d = true → Directive.ofName? name ≠ some .text) ∧
      ∃ s ∈ Directive.results (Directive.ofName? name) e, s.attributes = e'.attributes ∧
        (Directive.ofName? name ≠ some .text → e' = s) := by
  rcases stays_of_bindMarked h with ⟨hname, rfl, rfl⟩ | ⟨kind, v, hname, hstays, rfl, rfl⟩
  · rw [hname]
    exact ⟨rfl, fun _ ↦ nofun, e', List.mem_singleton_self e', rfl, fun _ ↦ rfl⟩
  · rw [hname]
    refine ⟨hstays, fun hd htext ↦ ?_, ?_⟩
    · rw [Option.some.inj htext] at hd
      exact absurd hd (by decide)
    · cases kind with
      | display =>
        refine ⟨_, List.mem_map_of_mem ?_, rfl, fun _ ↦ rfl⟩
        split <;> simp
      | text => exact ⟨e, List.mem_singleton_self e, rfl, fun h ↦ absurd rfl h⟩
      | _ => exact ⟨e, List.mem_singleton_self e, rfl, fun _ ↦ rfl⟩

/-! ## Attributes that are new

Nothing but a style is ever added, so a claim about all attributes of an element can be handed on to
what becomes of it. -/

theorem Attribute.mem_set {as : List Attribute} {name value : String} {a : Attribute}
    (h : a ∈ set name value as) : a ∈ as ∨ a = ⟨name, value⟩ := by
  induction as with
  | nil => exact Or.inr (List.mem_singleton.mp h)
  | cons b as ih =>
    rw [set] at h
    split_ifs at h with hname
    · rcases List.mem_cons.mp h with rfl | h
      · exact Or.inr (by rw [hname])
      · exact Or.inl (List.mem_cons_of_mem b h)
    · rcases List.mem_cons.mp h with rfl | h
      · exact Or.inl List.mem_cons_self
      · exact (ih h).imp_left (List.mem_cons_of_mem b)

/-- What a show directive writes is a style, and nothing else is new. -/
theorem mem_attributes_of_shown {e s : Element} {a : Attribute} (hs : s ∈ e.shown)
    (ha : a ∈ s.attributes) :
    a ∈ e.attributes ∨ a.name = "style" ∧ s.attribute? "style" = some a.value := by
  obtain ⟨value, -, rfl⟩ := List.mem_map.mp hs
  rcases Attribute.mem_set ha with ha | rfl
  · exact Or.inl ha
  · refine Or.inr ⟨rfl, ?_⟩
    rw [Element.setStyleProperty, Element.attribute?, Element.setAttribute, Attribute.get?_set,
      if_pos rfl]

theorem mem_attributes_of_withoutPriority {e : Element} {a : Attribute}
    (h : a ∈ (options.withoutPriority e).attributes) : a ∈ e.attributes := by
  rw [Options.withoutPriority] at h
  split at h
  · exact List.mem_of_mem_eraseP h
  · exact h

theorem mem_attributes_of_starts {e s : Element} {a : Attribute} (hs : s ∈ options.starts e)
    (ha : a ∈ s.attributes) : a ∈ (options.withoutPriority e).attributes ∨ a.name = "style" := by
  rw [Options.starts] at hs
  split at hs
  · cases hs
  · unfold Directive.results at hs
    split at hs
    · exact (mem_attributes_of_shown hs ha).imp_right And.left
    · exact Or.inl (List.mem_singleton.mp hs ▸ ha)

/-! ## Binding the attributes of an element -/

theorem mark?_of_directiveOf? {a : Attribute} {name : String}
    (hname : options.directiveOf? a.name = some name)
    (hvalue : (Text.trimmed a.value).isEmpty = false) :
    options.mark? a = Directive.ofName? name := by
  simp only [Options.mark?, hname, hvalue, Bool.false_eq_true, if_false]

theorem directiveOf?_of_mark? {a : Attribute} {d : Directive} (h : options.mark? a = some d) :
    options.directiveOf? a.name = some d.name ∧ (Text.trimmed a.value).isEmpty = false := by
  rw [Options.mark?] at h
  split at h
  · rename_i name hname
    split at h
    · cases h
    · rename_i hvalue
      exact ⟨by rw [hname, name_of_ofName? h], by simpa using hvalue⟩
  · cases h

theorem mark?_of_name_style {a : Attribute} (h : a.name = "style") : options.mark? a = none := by
  rw [Options.mark?, h]
  cases hname : options.directiveOf? "style" with
  | none => rfl
  | some name =>
    simp only [ofName?_of_directiveOf?_style hname, ite_self]

theorem Options.taken_of_directiveOf? {e : Element} {a : Attribute} {name : String}
    (hname : options.directiveOf? a.name = some name) :
    options.taken e a = e.eraseAttribute a.name := by
  rw [taken, hname]
  rfl

theorem mem_expressions_of_trimmed {a : Attribute} {expression : String}
    (h : expression = Text.trimmed a.value ∨
      expression = (Aliases.ofEach (Text.trimmed a.value)).collection ∨
        expression = (Aliases.ofForin (Text.trimmed a.value)).collection) :
    expression ∈ a.expressions := by
  simp only [Attribute.expressions, List.mem_cons, List.not_mem_nil, or_false]
  exact Or.inr h

/-- One attribute fails on an expression in it, repeats the element, or leaves the element to the
attributes behind it. -/
theorem bindAttributes_cons (options : Options) (data : Data) (descend : Bool) (e : Element)
    (a : Attribute) (as : List Attribute) :
    (∃ err, bindAttributes options data descend e (a :: as) = .error err ∧
      options.reads a = true ∧ err.expression ∈ a.expressions) ∨
    (∃ d aliases v, bindAttributes options data descend e (a :: as) =
        .ok (.repeats (options.taken e a) d aliases v) ∧ options.repeats a = true) ∨
    ∃ descend' e', bindAttributes options data descend e (a :: as) =
        bindAttributes options data descend' e' as ∧ options.repeats a = false ∧
      (descend' = true → descend = true ∧ options.mark? a ≠ some .text) ∧
      (options.overwrites a = true ∨
        e' ∈ Directive.results (options.mark? a) (options.taken e a)) := by
  simp only [bindAttributes]
  split
  · rename_i name hname
    have htaken := Options.taken_of_directiveOf? (e := e) hname
    by_cases hvalue : (Text.trimmed a.value).isEmpty = true
    · -- a blank mark is taken off and does nothing else
      have hmark : options.mark? a = none := by
        simp only [Options.mark?, hname, hvalue, if_true]
      refine Or.inr (Or.inr ⟨descend, e.eraseAttribute a.name, if_pos hvalue, ?_, ?_, Or.inr ?_⟩)
      · rw [Options.repeats, hmark]
        rfl
      · rw [hmark]
        exact fun h ↦ ⟨h, nofun⟩
      · rw [hmark, htaken]
        exact List.mem_singleton_self _
    · -- a directive fails, writes to the element, or repeats it
      have hmark := mark?_of_directiveOf? hname (Bool.not_eq_true _ ▸ hvalue)
      simp only [if_neg hvalue]
      split
      · rename_i err hb
        obtain ⟨hsome, hexpr⟩ := expression_of_bindMarked hb
        refine Or.inl ⟨err, rfl, ?_, mem_expressions_of_trimmed hexpr⟩
        rw [Options.reads, hmark, hsome]
        rfl
      · rename_i e' d hb
        obtain ⟨hrep, hopen, s, hs, _, hkeep⟩ := results_of_bindMarked hb
        refine Or.inr (Or.inr ⟨descend && d, e', rfl, ?_, ?_, ?_⟩)
        · rw [Options.repeats, hmark, hrep]
        · rw [hmark]
          intro h
          obtain ⟨hdescend, hd⟩ := Bool.and_eq_true_iff.mp h
          exact ⟨hdescend, hopen hd⟩
        · rw [Options.overwrites, hmark, htaken]
          by_cases htext : Directive.ofName? name = some .text
          · rw [htext]
            exact Or.inl rfl
          · rw [hkeep htext]
            exact Or.inr hs
      · rename_i t d aliases v hb
        refine Or.inr (Or.inl ⟨d, aliases, v, ?_, ?_⟩)
        · rw [template_of_bindMarked hb, htaken]
        · rw [Options.repeats, hmark]
          exact isRepeating_of_bindMarked hb
  · -- a plain attribute is filled in, or left as it is
    rename_i hname
    have hmark : options.mark? a = none := by
      rw [Options.mark?, hname]
    have htaken : options.taken e a = e := by
      rw [Options.taken, hname]
      rfl
    have hrep : options.repeats a = false := by
      rw [Options.repeats, hmark]
      rfl
    have hopen (h : descend = true) : descend = true ∧ options.mark? a ≠ some .text := by
      rw [hmark]
      exact ⟨h, nofun⟩
    split
    · rename_i hin
      have hfills : options.fills a = true := by
        rw [Options.fills, hname, Option.isNone_none, Bool.true_and, hin]
      split
      · rename_i err hev
        refine Or.inl ⟨err, rfl, ?_, ?_⟩
        · rw [Options.reads, hfills, Bool.or_true, Bool.true_or]
        · rw [Attribute.expressions, expression_of_evaluate hev]
          exact List.mem_cons_self
      · rename_i v hev
        refine Or.inr (Or.inr ⟨descend, _, rfl, hrep, hopen, Or.inl ?_⟩)
        rw [Options.overwrites, hfills, Bool.or_true]
    · refine Or.inr (Or.inr ⟨descend, e, rfl, hrep, hopen, Or.inr ?_⟩)
      rw [hmark, htaken]
      exact List.mem_singleton_self e

theorem expression_of_bindAttributes {descend : Bool} {e : Element} {as : List Attribute}
    {err : CompileError} (h : bindAttributes options data descend e as = .error err) :
    ∃ a ∈ as, options.reads a = true ∧ err.expression ∈ a.expressions := by
  induction as generalizing descend e with
  | nil => simp [bindAttributes] at h
  | cons a as ih =>
    rcases bindAttributes_cons options data descend e a as with
      ⟨err', heq, hreads, hexpr⟩ | ⟨d, aliases, v, heq, _⟩ | ⟨descend', e', heq, _⟩
    · rw [heq, Except.error.injEq] at h
      exact ⟨a, List.mem_cons_self, hreads, h ▸ hexpr⟩
    · rw [heq] at h
      cases h
    · rw [heq] at h
      obtain ⟨b, hb, hreads⟩ := ih h
      exact ⟨b, List.mem_cons_of_mem a hb, hreads⟩

theorem any_repeats_of_bindAttributes {descend : Bool} {e t : Element} {as : List Attribute}
    {d : Directive} {aliases : Aliases} {v : Value}
    (h : bindAttributes options data descend e as = .ok (.repeats t d aliases v)) :
    as.any options.repeats = true := by
  induction as generalizing descend e with
  | nil => simp [bindAttributes] at h
  | cons a as ih =>
    rw [List.any_cons, Bool.or_eq_true]
    rcases bindAttributes_cons options data descend e a as with
      ⟨err', heq, _⟩ | ⟨d, aliases, v, _, hrep⟩ | ⟨descend', e', heq, _⟩
    · rw [heq] at h
      cases h
    · exact Or.inl hrep
    · rw [heq] at h
      exact Or.inr (ih h)

/-- An element that is repeated before anything was written into it. -/
theorem mem_copiesFrom_of_bindAttributes {descend : Bool} {e t : Element} {as : List Attribute}
    {d : Directive} {aliases : Aliases} {v : Value} (hord : options.isOrdered as = true)
    (h : bindAttributes options data descend e as = .ok (.repeats t d aliases v)) :
    t ∈ options.copiesFrom e as := by
  induction as generalizing descend e with
  | nil => simp [bindAttributes] at h
  | cons a as ih =>
    simp only [Options.isOrdered, Bool.and_eq_true, Bool.not_eq_true'] at hord
    rw [Options.copiesFrom]
    rcases bindAttributes_cons options data descend e a as with
      ⟨err', heq, _⟩ | ⟨d', aliases', v', heq, hrep⟩ | ⟨descend', e', heq, hrep, _, hwrite⟩
    · rw [heq] at h
      cases h
    · rw [heq] at h
      cases h
      rw [if_pos hrep]
      exact List.mem_singleton_self _
    · rw [heq] at h
      rw [if_neg (by rw [hrep]; exact Bool.false_ne_true)]
      rcases hwrite with hw | hmem
      · -- ordered attributes write nothing in front of one that repeats
        rw [hw, any_repeats_of_bindAttributes h] at hord
        simp at hord
      · exact List.mem_flatMap.mpr ⟨e', hmem, ih hord.2 h⟩

theorem descends_of_bindAttributes {descend : Bool} {e e' : Element} {as : List Attribute}
    (h : bindAttributes options data descend e as = .ok (.stays e' true)) :
    descend = true ∧ options.descends as = true := by
  induction as generalizing descend e with
  | nil =>
    simp only [bindAttributes, Except.ok.injEq, Bound.stays.injEq] at h
    exact ⟨h.2, rfl⟩
  | cons a as ih =>
    rcases bindAttributes_cons options data descend e a as with
      ⟨err', heq, _⟩ | ⟨d, aliases, v, heq, _⟩ | ⟨descend', e', heq, hrep, hopen, _⟩
    · rw [heq] at h
      cases h
    · rw [heq] at h
      cases h
    · rw [heq] at h
      obtain ⟨hd, has⟩ := ih h
      obtain ⟨hdescend, hmark⟩ := hopen hd
      refine ⟨hdescend, ?_⟩
      rw [Options.descends, List.all_cons, hrep, ← Options.descends, has]
      simpa using hmark

/-! ## Binding an element -/

/-- An element fails on an expression of its priority directive, is repeated by that, or has its
other attributes bound. -/
theorem bindElement_cases (options : Options) (data : Data) (e : Element) :
    (∃ err, bindElement options data e = .error err ∧
      ∃ a ∈ e.attributes, options.reads a = true ∧ err.expression ∈ a.expressions) ∨
    (∃ d aliases v, bindElement options data e =
        .ok (.repeats (options.withoutPriority e) d aliases v) ∧
      (options.priorityMark? e).any Directive.isRepeating = true) ∨
    ∃ d e', ∃ s ∈ options.starts e,
      bindElement options data e = bindAttributes options data d e' s.attributes ∧
      (d = true → options.priorityMark? e ≠ some .text) ∧
      (options.priorityMark? e ≠ some .text → e' = s) := by
  unfold bindElement
  split
  · rename_i hm
    have hmark : options.priorityMark? e = none := by
      rw [Options.priorityMark?, hm]
      rfl
    refine Or.inr (Or.inr ⟨true, e, e, ?_, rfl, fun _ ↦ ?_, fun _ ↦ rfl⟩)
    · rw [Options.starts, hmark, Options.withoutPriority, hm]
      exact List.mem_singleton_self e
    · rw [hmark]
      exact nofun
  · rename_i m hm
    have hmark : options.priorityMark? e = Directive.ofName? m.name := by
      rw [Options.priorityMark?, hm]
      rfl
    have hwithout : options.withoutPriority e = e.eraseAttribute m.key := by
      rw [Options.withoutPriority, hm]
    simp only
    split
    · rename_i err hb
      obtain ⟨hsome, hexpr⟩ := expression_of_bindMarked hb
      obtain ⟨hmem, a, ha, hname, hvalue⟩ := mem_of_findPriority hm
      rw [hvalue] at hexpr
      refine Or.inl ⟨err, rfl, a, ha, ?_, mem_expressions_of_trimmed hexpr⟩
      have hprecedes : options.precedes a = true :=
        List.any_eq_true.mpr ⟨m.name, hmem, by simp [hsome, hname]⟩
      rw [Options.reads, hprecedes, Bool.or_true]
    · rename_i e' d hb
      obtain ⟨hrep, hopen, s, hs, hattributes, hkeep⟩ := results_of_bindMarked hb
      refine Or.inr (Or.inr ⟨d, e', s, ?_, by rw [hattributes], ?_, ?_⟩)
      · rw [Options.starts, hmark, hrep, hwithout]
        exact hs
      · rw [hmark]
        exact hopen
      · rw [hmark]
        exact hkeep
    · rename_i t d aliases v hb
      refine Or.inr (Or.inl ⟨d, aliases, v, ?_, ?_⟩)
      · rw [template_of_bindMarked hb, hwithout]
      · rw [hmark]
        exact isRepeating_of_bindMarked hb

theorem mem_copies_of_bindElement {e t : Element} {d : Directive} {aliases : Aliases} {v : Value}
    (order : options.keepsOrder e = true)
    (h : bindElement options data e = .ok (.repeats t d aliases v)) : t ∈ options.copies e := by
  rw [Options.copies]
  rcases bindElement_cases options data e with
    ⟨err', heq, _⟩ | ⟨d', aliases', v', heq, hrep⟩ | ⟨d', e', s, hs, heq, _, hkeep⟩
  · rw [heq] at h
    cases h
  · rw [heq] at h
    cases h
    rw [if_pos hrep]
    exact List.mem_singleton_self _
  · rw [heq] at h
    have hnot : ¬ (options.priorityMark? e).any Directive.isRepeating = true := by
      intro hrep
      rw [Options.starts, if_pos hrep] at hs
      cases hs
    have hstart := List.all_eq_true.mp order s hs
    rw [any_repeats_of_bindAttributes h, Bool.and_true, Bool.and_eq_true, Bool.not_eq_true',
      beq_eq_false_iff_ne] at hstart
    rw [if_neg hnot]
    refine List.mem_flatMap.mpr ⟨s, hs, ?_⟩
    have he := hkeep hstart.2
    subst he
    exact mem_copiesFrom_of_bindAttributes hstart.1 h

theorem isOpen_of_bindElement {e e' : Element}
    (h : bindElement options data e = .ok (.stays e' true)) : options.isOpen e = true := by
  rcases bindElement_cases options data e with
    ⟨err', heq, _⟩ | ⟨d, aliases, v, heq, _⟩ | ⟨d, e'', s, hs, heq, hopen, _⟩
  · rw [heq] at h
    cases h
  · rw [heq] at h
    cases h
  · rw [heq] at h
    obtain ⟨hd, has⟩ := descends_of_bindAttributes h
    rw [Options.isOpen, Bool.and_eq_true, bne_iff_ne]
    exact ⟨hopen hd, List.any_eq_true.mpr ⟨s, hs, has⟩⟩

/-! ## Children stay as they are -/

theorem children_of_results {d : Option Directive} {e s : Element}
    (h : s ∈ Directive.results d e) : s.children = e.children := by
  unfold Directive.results at h
  split at h
  · obtain ⟨value, _, rfl⟩ := List.mem_map.mp h
    rfl
  · rw [List.mem_singleton.mp h]

private theorem children_taken (e : Element) (a : Attribute) :
    (options.taken e a).children = e.children := by
  rw [Options.taken]
  split <;> rfl

private theorem children_of_copiesFrom {e t : Element} {as : List Attribute}
    (h : t ∈ options.copiesFrom e as) : t.children = e.children := by
  induction as generalizing e with
  | nil => cases h
  | cons a as ih =>
    rw [Options.copiesFrom] at h
    split at h
    · rw [List.mem_singleton.mp h, children_taken]
    · obtain ⟨s, hs, ht⟩ := List.mem_flatMap.mp h
      rw [ih ht, children_of_results hs, children_taken]

private theorem children_withoutPriority (e : Element) :
    (options.withoutPriority e).children = e.children := by
  rw [Options.withoutPriority]
  split <;> rfl

theorem children_of_copies {e t : Element} (h : t ∈ options.copies e) :
    t.children = e.children := by
  rw [Options.copies] at h
  split at h
  · rw [List.mem_singleton.mp h, children_withoutPriority]
  · rename_i hnot
    obtain ⟨s, hs, ht⟩ := List.mem_flatMap.mp h
    rw [Options.starts, if_neg hnot] at hs
    rw [children_of_copiesFrom ht, children_of_results hs, children_withoutPriority]

end HtmlTemplate
