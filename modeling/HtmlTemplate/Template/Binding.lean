import HtmlTemplate.Expr.Evaluator
import HtmlTemplate.Interpolation
import HtmlTemplate.Markup.Style
import HtmlTemplate.Markup.Weight
import HtmlTemplate.Template.Error
import HtmlTemplate.Template.Options

/-!
# Binding the attributes of an element

An element's directives are bound one after another: first the one that has priority, if any, then
all marked attributes in the order of the element. A marked attribute is taken off before its
directive is bound; an attribute that holds an interpolation gets the text of its value. In the end
the element stays, or it is the template of a repetition over the value of a collection.

A template weighs less than the element it came from (`weight_of_repeats`): every directive loses
its attribute and adds at most one attribute or one child.
-/

namespace HtmlTemplate

/-- Reads and evaluates the expression of a directive. -/
def evaluate (directive : Directive) (data : Data) (expression : String) :
    Except CompileError Value :=
  match Evaluator.ofSource expression with
  | .error e => .error ⟨directive, expression, .invalid e⟩
  | .ok evaluator =>
    match evaluator.call data with
    | .error e => .error ⟨directive, expression, .failed e⟩
    | .ok v => .ok v

/-- The text that a text directive puts: none for undefined and null. -/
def textOf (v : Value) : String := if v.isNullish then "" else v.toText

/-- A directive that comes first on an element. -/
structure PriorityMatch where
  name : String
  key : String
  expression : String
deriving DecidableEq

/-- The first of the priority directives on an element. An empty attribute counts as absent; a
blank one means that nothing has priority. -/
def findPriority (options : Options) (e : Element) : List String → Option PriorityMatch
  | [] => none
  | name :: names =>
    let key := options.attributeOf name
    match e.attribute? key with
    | none => findPriority options e names
    | some value =>
      if value.isEmpty then findPriority options e names
      else
        let expression := Text.trimmed value
        if expression.isEmpty then none else some ⟨name, key, expression⟩

/-- The priority directive of an element, if any. -/
def Options.priorityOn? (options : Options) (e : Element) : Option PriorityMatch :=
  findPriority options e options.priority

/-- What binding makes of an element. -/
inductive Bound where
  /-- The element stays; are its children still to be compiled? -/
  | stays (e : Element) (descend : Bool)
  /-- Copies of the template take its place, one for each item of the collection. -/
  | repeats (template : Element) (directive : Directive) (aliases : Aliases) (collection : Value)

/-- Binds the directive of a marked attribute to the element, from which the attribute has been
taken off. An unknown directive does nothing, and its expression is not read. -/
def bindMarked (data : Data) (name expression : String) (e : Element) :
    Except CompileError Bound :=
  match Directive.ofName? name with
  | none => .ok (.stays e true)
  | some .display => do
    let v ← evaluate .display data expression
    .ok (.stays (e.setStyleProperty "display" (if v.isTruthy then "block" else "none")) true)
  | some .text => do
    let v ← evaluate .text data expression
    .ok (.stays { e with children := Node.textChildren (textOf v) } false)
  | some .attr => do
    let _ ← evaluate .attr data expression
    .ok (.stays e true)
  | some .each => do
    let aliases := Aliases.ofEach expression
    let v ← evaluate .each data aliases.collection
    .ok (.repeats e .each aliases v)
  | some .forin => do
    let aliases := Aliases.ofForin expression
    let v ← evaluate .forin data aliases.collection
    .ok (.repeats e .forin aliases v)

/-- Binds attributes in order. -/
def bindAttributes (options : Options) (data : Data) (descend : Bool) (e : Element) :
    List Attribute → Except CompileError Bound
  | [] => .ok (.stays e descend)
  | a :: as =>
    let value := Text.trimmed a.value
    match options.directiveOf? a.name with
    | some name =>
      let e := e.eraseAttribute a.name
      if value.isEmpty then bindAttributes options data descend e as
      else
        match bindMarked data name value e with
        | .error err => .error err
        | .ok (.stays e d) => bindAttributes options data (descend && d) e as
        | .ok (.repeats t d aliases v) => .ok (.repeats t d aliases v)
    | none =>
      if !value.isEmpty && Interpolation.isInterpolated a.value then
        match evaluate .attr data (Interpolation.expressionOf a.value) with
        | .error err => .error err
        | .ok v => bindAttributes options data descend (e.setAttribute a.name v.toText) as
      else bindAttributes options data descend e as

/-- Binds the attributes of an element, the one that has priority first. -/
def bindElement (options : Options) (data : Data) (e : Element) : Except CompileError Bound :=
  match options.priorityOn? e with
  | none => bindAttributes options data true e e.attributes
  | some m =>
    let e := e.eraseAttribute m.key
    match bindMarked data m.name m.expression e with
    | .error err => .error err
    | .ok (.stays e d) => bindAttributes options data d e e.attributes
    | .ok (.repeats t d aliases v) => .ok (.repeats t d aliases v)

/-! ## A template weighs less than its element -/

theorem Element.weight_eraseAttribute {e : Element} {name : String}
    (h : 0 < Attribute.count e.attributes name) :
    (e.eraseAttribute name).weight + 1 = e.weight := by
  have := Attribute.length_erase h
  simp only [Element.weight_eq, eraseAttribute]
  omega

theorem Element.weight_setAttribute_le (e : Element) (name value : String) :
    (e.setAttribute name value).weight ≤ e.weight + 1 := by
  have := Attribute.length_set_le e.attributes name value
  simp only [Element.weight_eq, setAttribute]
  omega

theorem Element.weight_setAttribute {e : Element} {name : String} (value : String)
    (h : 0 < Attribute.count e.attributes name) :
    (e.setAttribute name value).weight = e.weight := by
  have := Attribute.length_set value h
  simp only [Element.weight_eq, setAttribute]
  omega

theorem weightAll_textChildren_le (s : String) : Node.weightAll (Node.textChildren s) ≤ 1 := by
  unfold Node.textChildren
  split <;> simp [Node.weightAll, Node.weight]

/-- What a directive that leaves the element makes of it. -/
def Directive.apply (d : Directive) (v : Value) (e : Element) : Element :=
  match d with
  | display => e.setStyleProperty "display" (if v.isTruthy then "block" else "none")
  | text => { e with children := Node.textChildren (textOf v) }
  | attr | each | forin => e

section BindMarked

variable {data : Data} {name expression : String}

theorem bindMarked_of_none (e : Element) (h : Directive.ofName? name = none) :
    bindMarked data name expression e = .ok (.stays e true) := by
  unfold bindMarked
  rw [h]

/-- A directive repeats the element over its collection, or leaves it with the value of its
expression. Only a text directive closes the element. -/
theorem bindMarked_of_some {d : Directive} (e : Element) (h : Directive.ofName? name = some d) :
    bindMarked data name expression e =
      if d.isRepeating then
        (evaluate d data (Aliases.ofDirective d expression).collection).map
          (.repeats e d (Aliases.ofDirective d expression))
      else (evaluate d data expression).map fun v ↦ .stays (d.apply v e) (d != .text) := by
  unfold bindMarked
  rw [h]
  cases d with
  | each => cases evaluate .each data (Aliases.ofEach expression).collection <;> rfl
  | forin => cases evaluate .forin data (Aliases.ofForin expression).collection <;> rfl
  | display => cases evaluate .display data expression <;> rfl
  | text => cases evaluate .text data expression <;> rfl
  | attr => cases evaluate .attr data expression <;> rfl

variable {e : Element}

/-- An element that stays: its directive is unknown, or has a value that it is applied with. -/
theorem stays_of_bindMarked {e' : Element} {descend : Bool}
    (h : bindMarked data name expression e = .ok (.stays e' descend)) :
    (Directive.ofName? name = none ∧ e' = e ∧ descend = true) ∨
    ∃ d v, Directive.ofName? name = some d ∧ d.isRepeating = false ∧ e' = d.apply v e ∧
      descend = (d != .text) := by
  rcases hd : Directive.ofName? name with _ | d
  · rw [bindMarked_of_none e hd] at h
    obtain ⟨rfl, rfl⟩ := Bound.stays.inj (Except.ok.inj h)
    exact Or.inl ⟨rfl, rfl, rfl⟩
  · rw [bindMarked_of_some e hd] at h
    by_cases hrepeating : d.isRepeating = true
    · rw [if_pos hrepeating] at h
      obtain ⟨v, _, h⟩ := map_eq_ok_iff.mp h
      exact nomatch h
    · rw [if_neg hrepeating] at h
      obtain ⟨v, _, h⟩ := map_eq_ok_iff.mp h
      obtain ⟨rfl, rfl⟩ := Bound.stays.inj h
      exact Or.inr ⟨d, v, rfl, Bool.not_eq_true _ ▸ hrepeating, rfl, rfl⟩

/-- An element that is repeated: it is the template as it is. -/
theorem repeats_of_bindMarked {t : Element} {d : Directive} {aliases : Aliases} {v : Value}
    (h : bindMarked data name expression e = .ok (.repeats t d aliases v)) :
    Directive.ofName? name = some d ∧ d.isRepeating = true ∧ t = e := by
  rcases hd : Directive.ofName? name with _ | d'
  · rw [bindMarked_of_none e hd] at h
    exact nomatch Except.ok.inj h
  · rw [bindMarked_of_some e hd] at h
    by_cases hrepeating : d'.isRepeating = true
    · rw [if_pos hrepeating] at h
      obtain ⟨v, _, h⟩ := map_eq_ok_iff.mp h
      obtain ⟨rfl, rfl, -, -⟩ := Bound.repeats.inj h
      exact ⟨rfl, hrepeating, rfl⟩
    · rw [if_neg hrepeating] at h
      obtain ⟨v, _, h⟩ := map_eq_ok_iff.mp h
      exact nomatch h

/-- A directive that fails: its expression does, or the collection in it. -/
theorem fails_of_bindMarked {err : CompileError}
    (h : bindMarked data name expression e = .error err) :
    ∃ d, Directive.ofName? name = some d ∧
      evaluate d data (if d.isRepeating then (Aliases.ofDirective d expression).collection
        else expression) = .error err := by
  rcases hd : Directive.ofName? name with _ | d
  · rw [bindMarked_of_none e hd] at h
    exact nomatch h
  · rw [bindMarked_of_some e hd] at h
    refine ⟨d, rfl, ?_⟩
    by_cases hrepeating : d.isRepeating = true
    · rw [if_pos hrepeating, map_eq_error_iff] at h
      rwa [if_pos hrepeating]
    · rw [if_neg hrepeating, map_eq_error_iff] at h
      rwa [if_neg hrepeating]

end BindMarked

theorem Directive.weight_apply_le (d : Directive) (v : Value) (e : Element) :
    (d.apply v e).weight ≤ e.weight + 1 := by
  cases d with
  | display => exact Element.weight_setAttribute_le _ _ _
  | text =>
    have := weightAll_textChildren_le (textOf v)
    simp only [apply, Element.weight_eq]
    omega
  | _ => exact Nat.le_succ _

/-- Applying a directive takes no attribute off. -/
theorem Directive.count_le_count_apply (d : Directive) (v : Value) (e : Element) (name : String) :
    Attribute.count e.attributes name ≤ Attribute.count (d.apply v e).attributes name := by
  cases d with
  | display => exact Attribute.count_le_count_set _ _ _ _
  | _ => exact Nat.le_refl _

/-- A directive that leaves the element adds at most one attribute or one child to it, and takes no
attribute off. -/
theorem bound_of_bindMarked_stays {data : Data} {name expression : String} {e e' : Element}
    {d : Bool} (h : bindMarked data name expression e = .ok (.stays e' d)) :
    e'.weight ≤ e.weight + 1 ∧
      ∀ n, Attribute.count e.attributes n ≤ Attribute.count e'.attributes n := by
  rcases stays_of_bindMarked h with ⟨_, rfl, _⟩ | ⟨d, v, _, _, rfl, _⟩
  · exact ⟨Nat.le_succ _, fun _ ↦ Nat.le_refl _⟩
  · exact ⟨d.weight_apply_le v e, d.count_le_count_apply v e⟩

/-- The template of a repetition is the element that the directive was bound to. -/
theorem template_of_bindMarked {data : Data} {name expression : String} {e t : Element}
    {d : Directive} {aliases : Aliases} {v : Value}
    (h : bindMarked data name expression e = .ok (.repeats t d aliases v)) : t = e :=
  (repeats_of_bindMarked h).2.2

/-- While attributes are bound, the element has all those that are still to come. -/
theorem weight_of_bindAttributes {options : Options} {data : Data} {descend : Bool}
    {e t : Element} {as : List Attribute} {d : Directive} {aliases : Aliases} {v : Value}
    (todo : ∀ n, Attribute.count as n ≤ Attribute.count e.attributes n)
    (h : bindAttributes options data descend e as = .ok (.repeats t d aliases v)) :
    t.weight < e.weight := by
  induction as generalizing e descend with
  | nil => simp [bindAttributes] at h
  | cons a as ih =>
    have hpos : 0 < Attribute.count e.attributes a.name := by
      have := todo a.name
      rw [Attribute.count_cons, if_pos rfl] at this
      omega
    have herase (n : String) :
        Attribute.count as n ≤ Attribute.count (e.eraseAttribute a.name).attributes n := by
      have := todo n
      rw [Attribute.count_cons] at this
      rw [Element.eraseAttribute, Attribute.count_erase]
      omega
    have hweight := Element.weight_eraseAttribute hpos
    have hkeep (n : String) : Attribute.count as n ≤ Attribute.count e.attributes n := by
      have := todo n
      rw [Attribute.count_cons] at this
      omega
    simp only [bindAttributes] at h
    split at h
    · split at h
      · have := ih herase h
        omega
      · split at h
        · simp at h
        · -- a directive may write a style, but takes away nothing that is still to come
          rename_i e' d' hm
          obtain ⟨hw, hc⟩ := bound_of_bindMarked_stays hm
          have := ih (fun n ↦ Nat.le_trans (herase n) (hc n)) h
          omega
        · rename_i hm
          simp only [Except.ok.injEq, Bound.repeats.injEq] at h
          rw [← h.1, template_of_bindMarked hm]
          omega
    · split at h
      · split at h
        · simp at h
        · rename_i w _
          have := ih (fun n ↦ Nat.le_trans (hkeep n)
            (Attribute.count_le_count_set e.attributes a.name w.toText n)) h
          rwa [Element.weight_setAttribute _ hpos] at this
      · exact ih hkeep h

theorem count_of_findPriority {options : Options} {e : Element} {names : List String}
    {m : PriorityMatch} (h : findPriority options e names = some m) :
    0 < Attribute.count e.attributes m.key := by
  induction names with
  | nil => simp [findPriority] at h
  | cons name names ih =>
    simp only [findPriority] at h
    split at h
    · exact ih h
    · rename_i value hv
      split at h
      · exact ih h
      · split at h
        · simp at h
        · simp only [Option.some.injEq] at h
          rw [← h]
          simp only [Element.attribute?, Attribute.get?, Option.map_eq_some_iff] at hv
          obtain ⟨a, ha, _⟩ := hv
          have hn :=
            List.find?_some (p := fun a : Attribute ↦ a.name == options.attributeOf name) ha
          exact List.countP_pos_iff.mpr ⟨a, List.mem_of_find?_eq_some ha, hn⟩

/-- The template of a repetition weighs less than the element it came from. -/
theorem weight_of_repeats {options : Options} {data : Data} {e t : Element} {d : Directive}
    {aliases : Aliases} {v : Value}
    (h : bindElement options data e = .ok (.repeats t d aliases v)) : t.weight < e.weight := by
  unfold bindElement at h
  split at h
  · exact weight_of_bindAttributes (fun _ ↦ Nat.le_refl _) h
  · rename_i m hm
    have hw := Element.weight_eraseAttribute (count_of_findPriority hm)
    simp only at h
    split at h
    · simp at h
    · rename_i e' d' hb
      have := (bound_of_bindMarked_stays hb).1
      have := weight_of_bindAttributes (fun _ ↦ Nat.le_refl _) h
      omega
    · rename_i hb
      simp only [Except.ok.injEq, Bound.repeats.injEq] at h
      rw [← h.1, template_of_bindMarked hb]
      omega

end HtmlTemplate
