import HtmlTemplate.Proofs.Markup.Names
import HtmlTemplate.Proofs.Template.Repetition
import HtmlTemplate.Proofs.Template.Visibility

/-!
# What a text directive covers

A text directive puts a text in the place of the children of its element, so whatever these were is
of no account: they are neither compiled nor copied. Other directives may be bound in front of it,
and one of them may repeat the element before the text is there; then the directive is still on the
copies, and covers the children of each.

## The invariant

An element that is bound has of every text directive that is still to come the attribute itself, in
the same order (`Attribute.named`). So if the element is repeated, the directive that was to come is
on the template. Two bindings of elements that differ in their children go on in step until it comes
(`Bound.Covers`).

## Errors

The claim includes failure: with other children the element fails with the same error. The children
cannot have a part in it, since an error before the text directive comes from an attribute, and
behind it the children are not there any more.
-/

namespace HtmlTemplate

open Attribute (named)

variable {options : Options} {data : Data}

/-! ## Text directives among attributes

All text directives have one name, and it is not that of a style. So on the attributes of this name
alone every other directive does nothing. -/

/-- Is one of the attributes a text directive that is not blank? -/
def Options.HasText (options : Options) (as : List Attribute) : Prop :=
  ∃ a ∈ as, options.mark? a = some .text

/-- Is it the name of an attribute with a text directive? -/
def Options.namesText (options : Options) (key : String) : Bool :=
  key == options.attributeOf Directive.text.name

private theorem namesText_of_mark? {a : Attribute} (h : options.mark? a = some .text) :
    options.namesText a.name = true :=
  beq_iff_eq.mpr (attributeOf_of_directiveOf? (directiveOf?_of_mark? h).1)

private theorem namesText_style : options.namesText "style" = false :=
  beq_eq_false_iff_ne.mpr (attributeOf_name_ne_style .text).symm

/-- The attributes of the one name decide whether there is a text directive. -/
theorem Options.HasText.of_named {as bs : List Attribute} (h : options.HasText bs)
    (heq : named options.namesText as = named options.namesText bs) : options.HasText as := by
  obtain ⟨a, ha, hmark⟩ := h
  have hmem : a ∈ named options.namesText as := by
    rw [heq]
    exact Attribute.mem_named.mpr ⟨ha, namesText_of_mark? hmark⟩
  exact ⟨a, (Attribute.mem_named.mp hmem).1, hmark⟩

theorem Options.HasText.bindSymbol_ne {as : List Attribute} (h : options.HasText as) :
    options.bindSymbol ≠ "" := by
  obtain ⟨a, -, hmark⟩ := h
  exact bindSymbol_ne_of_directiveOf? (directiveOf?_of_mark? hmark).1

/-- A directive that stays leaves the attributes of the name. -/
theorem named_namesText_apply (d : Directive) (v : Value) (e : Element) :
    named options.namesText (d.apply v e).attributes = named options.namesText e.attributes := by
  cases d with
  | display => exact Attribute.named_set_of_neg _ _ namesText_style
  | _ => rfl

theorem named_namesText_of_stays {name value : String} {e f : Element} {d : Bool}
    (h : bindMarked data name value e = .ok (.stays f d)) :
    named options.namesText f.attributes = named options.namesText e.attributes := by
  rcases stays_of_bindMarked h with ⟨-, rfl, -⟩ | ⟨kind, v, -, -, rfl, -⟩
  · rfl
  · exact named_namesText_apply kind v e

/-- An attribute of the name that is first among those to come is taken off. -/
theorem named_namesText_erase {a : Attribute} {as bs : List Attribute}
    (h : named options.namesText bs = named options.namesText (a :: as)) :
    named options.namesText (Attribute.erase bs a.name) = named options.namesText as := by
  cases ha : options.namesText a.name with
  | true =>
    rw [Attribute.named_erase_of_pos bs ha, h, Attribute.named_cons_of_pos _ _ ha, Attribute.erase,
      List.eraseP_cons_of_pos (by exact beq_self_eq_true a.name)]
  | false => rw [Attribute.named_erase_of_neg bs ha, h, Attribute.named_cons_of_neg _ _ ha]

/-! ## Two bindings in step -/

section Covers

variable (cs : List Node)

/-- How binding an element comes out, and how with other children in it: it comes out the same and
the children are not looked at, or it is repeated with a text directive still on it. -/
inductive Bound.Covers (options : Options) :
    Except CompileError Bound → Except CompileError Bound → Prop
  | fails (err : CompileError) : Covers options (.error err) (.error err)
  | closed (f : Element) : Covers options (.ok (.stays f false)) (.ok (.stays f false))
  | copied (t : Element) (d : Directive) (aliases : Aliases) (v : Value) :
    Covers options (.ok (.repeats t d aliases v)) (.ok (.repeats t d aliases v))
  | postponed {t : Element} (h : options.HasText t.attributes) (d : Directive) (aliases : Aliases)
      (v : Value) : Covers options (.ok (.repeats t d aliases v))
    (.ok (.repeats { t with children := cs } d aliases v))

theorem covers_of_closed (as : List Attribute) (e : Element) :
    Bound.Covers cs options (bindAttributes options data false e as)
      (bindAttributes options data false e as) := by
  rcases hb : bindAttributes options data false e as with err | b
  · exact .fails err
  cases b with
  | repeats t d aliases v => exact .copied t d aliases v
  | stays f d =>
    cases d with
    | false => exact .closed f
    | true => exact absurd (descends_of_bindAttributes hb).1 Bool.false_ne_true

theorem bindMarked_text (value : String) (e : Element) :
    bindMarked data Directive.text.name value e = (evaluate .text data value).map fun v ↦
      .stays { e with children := Node.textChildren (textOf v) } false := by
  rw [bindMarked_of_some _ (Directive.ofName?_name .text)]
  rfl

theorem bindMarked_withChildren {name : String} (hname : Directive.ofName? name ≠ some .text)
    (value : String) (e : Element) :
    bindMarked data name value { e with children := cs } =
      (bindMarked data name value e).map (Bound.map fun f ↦ { f with children := cs }) := by
  refine bindMarked_map (fun f ↦ { f with children := cs }) value e fun d hd v ↦ ?_
  cases d with
  | text => exact absurd hd hname
  | _ => rfl

theorem covers_of_bindAttributes {as : List Attribute} (descend : Bool) {e : Element}
    (htext : options.HasText as)
    (hkept : named options.namesText e.attributes = named options.namesText as) :
    Bound.Covers cs options (bindAttributes options data descend e as)
      (bindAttributes options data descend { e with children := cs } as) := by
  induction as generalizing descend e with
  | nil =>
    obtain ⟨a, ha, -⟩ := htext
    cases ha
  | cons a as ih =>
    by_cases hmark : options.mark? a = some .text
    · -- here the text comes, whatever the children were
      obtain ⟨hname, hvalue⟩ := directiveOf?_of_mark? hmark
      simp only [bindAttributes, hname, hvalue, Bool.false_eq_true, if_false, bindMarked_text]
      rcases evaluate .text data (Text.trimmed a.value) with err | v
      · exact .fails err
      · simp only [Except.map, Bool.and_false]
        exact covers_of_closed cs as _
    · have htext : options.HasText as := by
        obtain ⟨b, hb, hb'⟩ := htext
        rcases List.mem_cons.mp hb with rfl | hb
        · exact absurd hb' hmark
        · exact ⟨b, hb, hb'⟩
      have herase := named_namesText_erase hkept
      simp only [bindAttributes]
      split
      · rename_i name hname
        split
        · exact ih descend (e := e.eraseAttribute a.name) htext herase
        · rename_i hvalue
          rw [mark?_of_directiveOf? hname (Bool.not_eq_true _ ▸ hvalue)] at hmark
          have hsame : bindMarked data name (Text.trimmed a.value)
              (Element.eraseAttribute { e with children := cs } a.name) = _ :=
            bindMarked_withChildren cs hmark _ (e.eraseAttribute a.name)
          rw [hsame]
          rcases hb : bindMarked data name (Text.trimmed a.value) (e.eraseAttribute a.name) with
            err | b
          · exact .fails err
          cases b with
          | stays f d => exact ih _ htext ((named_namesText_of_stays hb).trans herase)
          | repeats t d aliases v =>
            rw [template_of_bindMarked hb]
            exact .postponed (htext.of_named herase) d aliases v
      · rename_i hname
        -- a plain attribute is not the text directive, and writing it leaves that where it is
        have hother : options.namesText a.name = false := beq_eq_false_iff_ne.mpr fun hkey ↦ by
          rw [hkey, directiveOf?_attributeOf htext.bindSymbol_ne] at hname
          cases hname
        have hkept : named options.namesText e.attributes = named options.namesText as := by
          rw [hkept, Attribute.named_cons_of_neg _ _ hother]
        split
        · rcases evaluate .attr data (Interpolation.expressionOf a.value) with err | v
          · exact .fails err
          · exact ih descend (e := e.setAttribute a.name v.toText) htext
              ((Attribute.named_set_of_neg _ _ hother).trans hkept)
        · exact ih descend htext hkept

private theorem covers_of_bindElement {e : Element} (htext : options.HasText e.attributes) :
    Bound.Covers cs options (bindElement options data e)
      (bindElement options data { e with children := cs }) := by
  have hpriority : options.priorityOn? { e with children := cs } = options.priorityOn? e :=
    findPriority_congr fun _ _ ↦ rfl
  rw [bindElement, bindElement, hpriority]
  rcases hm : options.priorityOn? e with _ | m
  · exact covers_of_bindAttributes cs true htext rfl
  · obtain ⟨l, a, r, he, herase, -, -, hmark⟩ := exists_mark?_of_priorityOn? htext.bindSymbol_ne hm
    dsimp only
    by_cases hname : Directive.ofName? m.name = some .text
    · rw [← name_of_ofName? hname, bindMarked_text, bindMarked_text]
      rcases evaluate .text data m.expression with err | v
      · exact .fails err
      · exact covers_of_closed cs _ _
    · -- the directive that has priority is another one, so the text directive is still to come
      have htext : options.HasText (e.eraseAttribute m.key).attributes := by
        obtain ⟨b, hb, hb'⟩ := htext
        rw [he, List.mem_append, List.mem_cons] at hb
        rcases hb with hb | rfl | hb
        · exact ⟨b, herase ▸ List.mem_append_left r hb, hb'⟩
        · exact absurd (hmark.symm.trans hb') hname
        · exact ⟨b, herase ▸ List.mem_append_right l hb, hb'⟩
      have hsame : bindMarked data m.name m.expression
          (Element.eraseAttribute { e with children := cs } m.key) = _ :=
        bindMarked_withChildren cs hname _ (e.eraseAttribute m.key)
      rw [hsame]
      rcases hb : bindMarked data m.name m.expression (e.eraseAttribute m.key) with err | b
      · exact .fails err
      cases b with
      | stays f d =>
        exact covers_of_bindAttributes cs d (htext.of_named (named_namesText_of_stays hb)) rfl
      | repeats t d aliases v =>
        rw [template_of_bindMarked hb]
        exact .postponed htext d aliases v

end Covers

/-! ## Compiling -/

theorem compileNode_withChildren {n : Node} {e : Element} (hn : n = .element e) (cs : List Node)
    (data : Data) (htext : options.HasText e.attributes) :
    compileNode options data (.element { e with children := cs }) =
      compileNode options data (.element e) := by
  induction n using Node.compileInduction options generalizing e data with
  | text s => cases hn
  | comment s => cases hn
  | fragment ns _ => cases hn
  | element e _ ih =>
    obtain rfl := Node.element.inj hn
    have hcovers : Bound.Covers cs options (bindElement options data e) _ :=
      covers_of_bindElement cs htext
    rw [compileNode_element, compileNode_element]
    generalize hb : bindElement options data e = b at hcovers
    generalize bindElement options data { e with children := cs } = b' at hcovers
    cases hcovers with
    | fails err => rfl
    | closed f => rfl
    | copied t d aliases v => cases v <;> rfl
    | postponed htext d aliases v =>
      cases v with
      | array items =>
        dsimp only
        simp only [ih hb rfl _ htext]
      | _ => rfl

/-- **A text directive covers the children of its element**: whatever they are, with any other
attributes around the directive, the element is compiled to the same nodes, or fails with the same
error. -/
theorem compileNodes_withChildren {e : Element} {a : Attribute} (ha : a ∈ e.attributes)
    (hmark : options.mark? a = some .text) (cs : List Node) :
    compileNodes options data [.element { e with children := cs }] =
      compileNodes options data [.element e] := by
  rw [compileNodes_singleton, compileNodes_singleton,
    compileNode_withChildren rfl cs data ⟨a, ha, hmark⟩]

/-- The directive is bound on the copies only, and covers a text that cannot be read. -/
theorem compileNodes_withChildren_each :
    let li : Element := ⟨"li", [⟨":each", "xs"⟩, ⟨":text", "item"⟩], []⟩
    let data : Data := [("xs", .array [.string "a"])]
    (⟨":text", "item"⟩ ∈ li.attributes ∧ ({} : Options).mark? ⟨":text", "item"⟩ = some .text) ∧
      compileNodes {} data [.element { li with children := [.text "\x7b\x7b)\x7d\x7d"] }] =
        .ok [.element ⟨"li", [], [.text "a"]⟩] := by
  intro li data
  have hmem : ⟨":text", "item"⟩ ∈ li.attributes := by simp [li]
  have hmark : ({} : Options).mark? ⟨":text", "item"⟩ = some .text := by decide
  refine ⟨⟨hmem, hmark⟩, ?_⟩
  have hpriority : ({} : Options).priorityOn? li = some ⟨"each", ":each", "xs"⟩ := by decide
  have hcollection : evaluate .each data (Aliases.ofDirective .each "xs").collection =
      .ok (.array [.string "a"]) := by
    rw [show (Aliases.ofDirective .each "xs").collection = "xs" by decide]
    exact evaluate_name .each _ rfl rfl rfl fun _ ↦ rfl
  have hcopy (index : Nat) :
      bindElement {} ((Aliases.ofDirective .each "xs").data (.string "a") index)
      (li.eraseAttribute ":each") = .ok (.stays ⟨"li", [], [.text "a"]⟩ false) :=
    bindElement_text (by decide) (by decide) (evaluate_name .text _ rfl rfl rfl fun _ ↦ rfl)
  rw [compileNodes_withChildren hmem hmark,
    compileNodes_of_collection hpriority (by decide : Directive.ofName? "each" = some .each) rfl,
    hcollection]
  simp only [List.zipIdx_cons, List.zipIdx_nil, List.mapM_cons, List.mapM_nil,
    compileNodes_singleton, compileNode_of_closed (hcopy _)]
  rfl

end HtmlTemplate
