import HtmlTemplate.Proofs.Interpolation.Sums
import HtmlTemplate.Proofs.Markup.Canonical
import HtmlTemplate.Proofs.Template.Bindings
import HtmlTemplate.Proofs.Template.Outcomes
import HtmlTemplate.Proofs.Template.Values
import HtmlTemplate.Proofs.Text.Trimming

/-!
# What a view depends on

Compiling looks a name up only if an expression of the template has it as a free name, so data that
agree on these names give the same view, or fail with the same error (`compileNodes_congr`). The
copies of a repeated element need no induction: they see nothing of the data but the item and its
index, and these are parts of the value of the collection, which is the same.

The expressions of a template are those of its texts and attributes (`Node.readings`), with one
exception. A show directive that has priority writes the style of its element again before that is
read, and leaves out the parts that are no declarations. What it writes can have a span where the
style of the template has none (`mendedStyle`), so the names in it count as well.

## Two runs

The proof is about two runs of the compiler, on the two data. They read the same expressions in the
same order, so they fail together, and the elements and nodes that they have in hand are the same
all the time (`bindElement_congr`). What an attribute is bound to is the same because its expression
reads names on which the data agree (`Attribute.BoundAlike`).
-/

namespace HtmlTemplate

open Interpolation

/-! ## The names of a template -/

/-- The names that an expression reads from its data; none if it cannot be read. -/
def Expr.namesRead (source : String) : List String :=
  match Expr.parse source with
  | .ok e => e.freeNames
  | .error _ => []

theorem Expr.namesRead_of_error {source : String} {err : SyntaxError}
    (h : tokenize source = .error err) : namesRead source = [] := by
  rw [namesRead, parse, h]
  rfl

theorem Expr.namesRead_of_isSource {s : List Char} {e : Expr} (h : IsSource .conditional s e) :
    namesRead (String.ofList s) = e.freeNames := by
  rw [namesRead, parse_eq_ok_iff.mpr h]

/-- Have the names the same values in both data? -/
def Data.AgreeOn (names : List String) (data data' : Data) : Prop :=
  ∀ name ∈ names, data.lookup name = data'.lookup name

/-- The expressions that an attribute can be read as: its interpolated value, its value without
outer blanks, and the collection of a `forin` in that. -/
def Attribute.readings (a : Attribute) : List String :=
  [expressionOf a.value, Text.trimmed a.value, (Aliases.ofForin (Text.trimmed a.value)).collection]

section Readings

/-! The expressions of a tree. What an element can be read as beyond its attributes is a
parameter. -/

variable (further : Element → List String)

mutual

/-- The expressions that a node can be read as. -/
def Node.readings : Node → List String
  | .element e => e.readings
  | .text s => [expressionOf s]
  | .comment _ => []
  | .fragment cs => Node.readingsAll cs

def Element.readings : Element → List String
  | ⟨tag, as, cs⟩ =>
    as.flatMap Attribute.readings ++ (further ⟨tag, as, cs⟩ ++ Node.readingsAll cs)

def Node.readingsAll : List Node → List String
  | [] => []
  | n :: ns => n.readings ++ Node.readingsAll ns

end

/-- The names that the expressions of a node read. -/
def Node.namesRead (n : Node) : List String := (n.readings further).flatMap Expr.namesRead

end Readings

/-- The interpolated styles that a show directive with priority writes. -/
def Options.restyled (options : Options) (e : Element) : List String :=
  if options.priorityMark? e = some .display then
    (options.withoutPriority e).shown.filterMap fun s ↦ (s.attribute? "style").map expressionOf
  else []

/-! ## Agreement

An expression that cannot be read reads no names. It fails in the same way on all data. -/

theorem Data.AgreeOn.of_flatMap {data data' : Data} {sources : List String} {x : String}
    (h : AgreeOn (sources.flatMap Expr.namesRead) data data') (hx : x ∈ sources) :
    AgreeOn (Expr.namesRead x) data data' :=
  fun name hname ↦ h name (List.mem_flatMap.mpr ⟨x, hx, hname⟩)

variable {options : Options} {data data' : Data}

theorem evaluate_congr (d : Directive) {expression : String}
    (h : Data.AgreeOn (Expr.namesRead expression) data data') :
    evaluate d data expression = evaluate d data' expression := by
  unfold evaluate Evaluator.ofSource
  unfold Expr.namesRead at h
  rcases hparse : Expr.parse expression with err | e
  · rfl
  · rw [hparse] at h
    have hscope : Evaluator.scope ⟨expression, e, e.freeNames⟩ data =
        Evaluator.scope ⟨expression, e, e.freeNames⟩ data' :=
      congrArg (Expr.Scope.mk _) (List.map_congr_left fun name hname ↦ by rw [h name hname])
    simp only [Except.map, Evaluator.call, hscope]

theorem compileText_congr {s : String}
    (h : Data.AgreeOn (Expr.namesRead (expressionOf s)) data data') :
    compileText data s = compileText data' s := by
  rw [compileText, compileText, evaluate_congr .text h]

/-! ## Binding -/

theorem bindMarked_congr {name value : String} (e : Element) (htrim : Text.trimmed value = value)
    (hvalue : Data.AgreeOn (Expr.namesRead value) data data')
    (hforin : Data.AgreeOn (Expr.namesRead (Aliases.ofForin value).collection) data data') :
    bindMarked data name value e = bindMarked data' name value e := by
  rcases hname : Directive.ofName? name with _ | d
  · rw [bindMarked_of_none e hname, bindMarked_of_none e hname]
  · have hcollection :
        Data.AgreeOn (Expr.namesRead (Aliases.ofDirective d value).collection) data data' := by
      cases d with
      | forin => exact hforin
      | _ =>
        show Data.AgreeOn (Expr.namesRead (Text.trimmed value)) data data'
        rwa [htrim]
    rw [bindMarked_of_some e hname, bindMarked_of_some e hname, evaluate_congr d hvalue,
      evaluate_congr d hcollection]

/-- Is an attribute bound alike on both data, whatever the element? -/
structure Attribute.BoundAlike (options : Options) (data data' : Data) (a : Attribute) : Prop where
  marked : ∀ name e, options.directiveOf? a.name = some name →
    bindMarked data name (Text.trimmed a.value) e = bindMarked data' name (Text.trimmed a.value) e
  interpolated : evaluate .attr data (expressionOf a.value) =
    evaluate .attr data' (expressionOf a.value)

theorem Attribute.bindMarked_congr {a : Attribute} (name : String) (e : Element)
    (h : ∀ x ∈ a.readings, Data.AgreeOn (Expr.namesRead x) data data') :
    bindMarked data name (Text.trimmed a.value) e =
      bindMarked data' name (Text.trimmed a.value) e :=
  HtmlTemplate.bindMarked_congr e (Text.trimmed_trimmed a.value)
    (h _ (List.mem_cons_of_mem _ List.mem_cons_self))
    (h _ (List.mem_cons_of_mem _ (List.mem_cons_of_mem _ List.mem_cons_self)))

theorem Attribute.boundAlike_of_agreeOn {a : Attribute}
    (h : ∀ x ∈ a.readings, Data.AgreeOn (Expr.namesRead x) data data') :
    a.BoundAlike options data data' where
  marked name e _ := a.bindMarked_congr name e h
  interpolated := evaluate_congr .attr (h _ List.mem_cons_self)

private theorem bindAttributes_congr {as : List Attribute}
    (h : ∀ a ∈ as, a.BoundAlike options data data') (descend : Bool) (e : Element) :
    bindAttributes options data descend e as = bindAttributes options data' descend e as := by
  induction as generalizing descend e with
  | nil => rfl
  | cons a as ih =>
    obtain ⟨ha, has⟩ := List.forall_mem_cons.mp h
    simp only [bindAttributes]
    rcases hmark : options.directiveOf? a.name with _ | name
    · simp only [ha.interpolated, ih has]
    · simp only [ha.marked name _ hmark, ih has]

/-! ## The directive that has priority -/

private theorem bindElement_congr {e : Element}
    (has : ∀ a ∈ e.attributes, ∀ x ∈ a.readings, Data.AgreeOn (Expr.namesRead x) data data')
    (hstyle : ∀ x ∈ options.restyled e, Data.AgreeOn (Expr.namesRead x) data data') :
    bindElement options data e = bindElement options data' e := by
  have halike : ∀ a ∈ e.attributes, a.BoundAlike options data data' := fun a ha ↦
    Attribute.boundAlike_of_agreeOn (has a ha)
  rw [bindElement, bindElement]
  rcases hpriority : options.priorityOn? e with _ | m
  · exact bindAttributes_congr halike true e
  · obtain ⟨-, a, ha, -, hexpression⟩ := mem_of_findPriority hpriority
    have hmark : options.priorityMark? e = Directive.ofName? m.name := by
      rw [Options.priorityMark?, hpriority, Option.bind_some]
    have hwithout : options.withoutPriority e = e.eraseAttribute m.key := by
      rw [Options.withoutPriority, hpriority]
    have hfirst := a.bindMarked_congr m.name (e.eraseAttribute m.key) (has a ha)
    rw [← hexpression] at hfirst
    simp only [hfirst]
    rcases hbound : bindMarked data' m.name m.expression (e.eraseAttribute m.key) with err | b
    · rfl
    cases b with
    | repeats t d aliases v => rfl
    | stays f d =>
      refine bindAttributes_congr (fun b hb ↦ ?_) d f
      obtain ⟨-, -, s, hs, hattributes, -⟩ := results_of_bindMarked hbound
      rw [← hattributes] at hb
      have hkept (hb : b ∈ (e.eraseAttribute m.key).attributes) : b.BoundAlike options data data' :=
        halike b (List.mem_of_mem_eraseP hb)
      by_cases hshow : Directive.ofName? m.name = some .display
      · rw [hshow] at hs
        rcases mem_attributes_of_shown hs hb with hb | ⟨hname, hvalue⟩
        · exact hkept hb
        · -- the style that was written is no directive, and its interpolation counts
          refine ⟨fun name g hmarked ↦ ?_, evaluate_congr .attr (hstyle _ ?_)⟩
          · have hnone := ofName?_of_directiveOf?_style (hname ▸ hmarked)
            rw [bindMarked_of_none g hnone, bindMarked_of_none g hnone]
          · rw [Options.restyled, if_pos (hmark.trans hshow), hwithout]
            exact List.mem_filterMap.mpr ⟨s, hs, by rw [hvalue, Option.map_some]⟩
      · -- any other directive leaves the attributes as they are
        have hsame : s = e.eraseAttribute m.key := by
          unfold Directive.results at hs
          split at hs
          · rename_i hd
            exact absurd hd hshow
          · exact List.mem_singleton.mp hs
        exact hkept (hsame ▸ hb)

/-! ## Compiling -/

/-- The induction is on the nodes of the template alone: once its collection is the same, a repeated
element has the same copies on the same items. -/
theorem compileNodes_congr (ns : List Node)
    (h : ∀ x ∈ Node.readingsAll options.restyled ns,
      Data.AgreeOn (Expr.namesRead x) data data') :
    compileNodes options data ns = compileNodes options data' ns := by
  induction ns using Node.forestInduction with
  | nil => rw [compileNodes_nil, compileNodes_nil]
  | text s ns ih =>
    obtain ⟨hs, hns⟩ := List.forall_mem_append.mp h
    rw [compileNodes_cons, compileNodes_cons, ih hns, compileNode, compileNode,
      compileText_congr (hs _ List.mem_cons_self)]
  | comment s ns ih =>
    rw [compileNodes_cons, compileNodes_cons, ih h, compileNode, compileNode]
  | element tag as cs ns ihcs ihns =>
    obtain ⟨he, hns⟩ := List.forall_mem_append.mp h
    obtain ⟨has, he⟩ := List.forall_mem_append.mp he
    obtain ⟨hstyle, hcs⟩ := List.forall_mem_append.mp he
    have hbind : bindElement options data ⟨tag, as, cs⟩ = bindElement options data' ⟨tag, as, cs⟩ :=
      bindElement_congr (fun a ha x hx ↦ has x (List.mem_flatMap.mpr ⟨a, ha, hx⟩)) hstyle
    rw [compileNodes_cons, compileNodes_cons, ihns hns, compileNode_element, compileNode_element,
      hbind, ihcs hcs]
  | fragment cs ns ihcs ihns =>
    obtain ⟨hcs, hns⟩ := List.forall_mem_append.mp h
    rw [compileNodes_cons, compileNodes_cons, ihns hns, compileNode, compileNode, ihcs hcs]

/-- **A view depends on the names that the expressions of its template read**, and on nothing else
of the data: where these have the same values, the view is the same, or the error. -/
theorem compile_eq_of_agreeOn {template : Node}
    (h : Data.AgreeOn (template.namesRead options.restyled) data data') :
    compile options data template = compile options data' template := by
  have hroot : ∀ x ∈ Node.readingsAll options.restyled [template],
      Data.AgreeOn (Expr.namesRead x) data data' := by
    rw [Node.readingsAll, Node.readingsAll, List.append_nil]
    exact fun x hx ↦ h.of_flatMap hx
  cases template with
  | fragment cs =>
    exact congrArg (Except.map Node.fragment) (compileNodes_congr cs fun x hx ↦ h.of_flatMap hx)
  | _ => exact congrArg (Except.map _) (compileNodes_congr _ hroot)

/-- A text reads the name in its span, so another entry of the data is of no account. -/
theorem compile_eq_of_agreeOn_text :
    Data.AgreeOn ((Node.text "\x7b\x7bx\x7d\x7d").namesRead ({} : Options).restyled)
        [("x", .null)] [("x", .null), ("y", .null)] ∧
      compile {} [("x", .null)] (.text "\x7b\x7bx\x7d\x7d") =
        compile {} [("x", .null), ("y", .null)] (.text "\x7b\x7bx\x7d\x7d") := by
  have hspan : expressionOf "\x7b\x7bx\x7d\x7d" = "x" := by
    rw [expressionOf, toExpression, if_pos (by decide),
      runs_of_firstSpan? (a := []) (c := ['x']) (b := []) rfl, runs_of_no_span (s := []) rfl]
    rfl
  have hx : Expr.IsSource (.level .or) ['x'] (.name "x" ⟨0, 1⟩) := Expr.isSource_name rfl rfl rfl
  have hnames : (Node.text "\x7b\x7bx\x7d\x7d").namesRead ({} : Options).restyled = ["x"] := by
    rw [Node.namesRead, Node.readings, hspan, List.flatMap_singleton]
    exact Expr.namesRead_of_isSource hx.conditional
  have hagree : Data.AgreeOn ((Node.text "\x7b\x7bx\x7d\x7d").namesRead ({} : Options).restyled)
      [("x", .null)] [("x", .null), ("y", .null)] := by
    rw [hnames]
    exact List.forall_mem_singleton.mpr rfl
  exact ⟨hagree, compile_eq_of_agreeOn hagree⟩

/-! ## A style that is written again

Of the style of the element only one span is a text of the template. What the show directive writes
has another one, whose expression has a name that stands in no expression of the template. -/

/-- A style whose first part is no declaration. A span begins there, and it is no expression. -/
def tornStyle : String := "\x7b\x7b;b:\x7b\x7bx\x7d\x7d"

/-- The style with a value for `display`: the part that is no declaration is left out, and another
span is left. -/
def mendedStyle : String := "b: \x7b\x7bx\x7d\x7d; display: none;"

/-- An element on which a show directive may have priority, with such a style. -/
def tornElement : Element := ⟨"p", [⟨":show", "v"⟩, ⟨"style", tornStyle⟩], []⟩

private theorem parse_tornStyle : Style.parse tornStyle = [⟨"b", "\x7b\x7bx\x7d\x7d"⟩] := by
  rw [Style.parse, Text.pieces_singleton]
  decide +kernel

theorem setStyleProperty_tornElement :
    (tornElement.eraseAttribute ":show").setStyleProperty "display" "none" =
      ⟨"p", [⟨"style", mendedStyle⟩], []⟩ := by
  have herase : tornElement.eraseAttribute ":show" = ⟨"p", [⟨"style", tornStyle⟩], []⟩ := rfl
  rw [herase, Element.setStyleProperty, Element.attribute?, Attribute.get?_cons, if_pos rfl,
    Option.map_some, parse_tornStyle]
  rfl

private theorem runs_mendedStyle : runs mendedStyle.toList =
    [.literal "b: ".toList, .span ['x'], .literal "; display: none;".toList] := by
  rw [runs_of_firstSpan? (a := "b: ".toList) (c := ['x']) (b := "; display: none;".toList) rfl,
    runs_of_no_span (s := "; display: none;".toList) rfl]
  rfl

private theorem evaluate_mendedStyle (s : String) :
    evaluate .attr [("x", .string s)] (expressionOf mendedStyle) =
      .ok (.string (textsOf [.string "b: ", .string s, .string "; display: none;"])) := by
  have hx : Expr.IsSource (.level .multiplicative) ['x'] (.name "x" ⟨0, 1⟩) :=
    Expr.isSource_name rfl rfl rfl
  have hdenotes : List.Forall₂ (Run.Denotes [("x", .string s)]) (runs mendedStyle.toList)
      [.string "b: ", .string s, .string "; display: none;"] := by
    rw [runs_mendedStyle]
    exact .cons rfl (.cons ⟨_, hx.conditional.ofSource, rfl⟩ (.cons rfl .nil))
  have hsum : IsSum (runs mendedStyle.toList) := by
    rw [runs_mendedStyle]
    obtain ⟨lexed, hlexed, he⟩ := isSource_quote "b: ".toList
    refine ⟨⟨_, lexed, hlexed, he.loosen (by decide)⟩, ?_⟩
    simp only [List.forall_mem_cons]
    exact ⟨⟨_, hx⟩, ⟨_, isSource_quote _⟩, List.forall_mem_nil _⟩
  have hliteral : ∃ text, .literal text ∈ runs mendedStyle.toList := by
    rw [runs_mendedStyle]
    exact ⟨_, List.mem_cons_self⟩
  obtain ⟨evaluator, hev, hcall⟩ :=
    call_of_isSum (t := mendedStyle) (by decide) hdenotes hliteral hsum
    fun a b rest h ↦ Or.inl (by cases h; rfl)
  simp only [evaluate, hev, hcall]

def filledElement (s : String) : Element :=
  ⟨"p", [⟨"style", textsOf [.string "b: ", .string s, .string "; display: none;"]⟩], []⟩

private theorem compile_tornElement (s : String) :
    compile ⟨":", ["show"]⟩ [("x", .string s)] (.element tornElement) =
      .ok (.element (filledElement s)) := by
  have hpriority : (Options.mk ":" ["show"]).priorityOn? tornElement =
      some ⟨"show", ":show", "v"⟩ := by decide
  have hshow : evaluate .display [("x", .string s)] "v" = .ok .undefined :=
    evaluate_name .display _ rfl rfl rfl fun _ ↦ rfl
  have hmarked : bindMarked [("x", .string s)] "show" "v" (tornElement.eraseAttribute ":show") =
      .ok (.stays ⟨"p", [⟨"style", mendedStyle⟩], []⟩ true) := by
    rw [bindMarked_of_some _ (show Directive.ofName? "show" = some .display by decide),
      if_neg (by decide), hshow, ← setStyleProperty_tornElement]
    rfl
  have hbind : bindElement ⟨":", ["show"]⟩ [("x", .string s)] tornElement =
      .ok (.stays (filledElement s) true) := by
    rw [bindElement, hpriority]
    simp only [hmarked]
    rw [bindAttributes]
    simp only [show (Options.mk ":" ["show"]).directiveOf? "style" = none by decide]
    rw [if_pos (by decide), evaluate_mendedStyle]
    rfl
  have hchildren : compileNodes ⟨":", ["show"]⟩ [("x", .string s)] tornElement.children = .ok [] :=
    compileNodes_nil
  rw [compile, compileNodes_cons, compileNode_of_stays hbind, compileNodes_nil, hchildren]
  · rfl
  · intro children heq
    cases heq

theorem tokensFrom_semicolon (offset : Nat) (s : List Char) :
    ∃ err, Expr.tokensFrom offset (';' :: s) = .error err := by
  have hscan : Expr.scanToken ';' s = .error ⟨.invalidCharacter ';', s⟩ := rfl
  exact ⟨_, Expr.tokensFrom_of_stop offset (s := ';' :: s) rfl hscan⟩

theorem namesRead_tornStyle :
    Expr.namesRead tornStyle = [] ∧ Expr.namesRead (expressionOf tornStyle) = [] := by
  have hbrace (offset : Nat) (s : List Char) : ∃ offset' f, Expr.tokensFrom offset ('{' :: s) =
      (Expr.tokensFrom offset' s).map f := by
    have hscan : Expr.scanToken '{' s = .ok (.punct .leftBrace, s) :=
      Expr.scanToken_of_inFront? (by decide) rfl
    exact ⟨_, _, Expr.tokensFrom_of_token offset (s := '{' :: s) rfl hscan⟩
  have hspan : expressionOf tornStyle = ";b:\x7b\x7bx" := by
    rw [expressionOf, toExpression, if_pos (by decide),
      runs_of_firstSpan? (a := []) (c := ";b:\x7b\x7bx".toList) (b := []) rfl,
      runs_of_no_span (s := []) rfl]
    rfl
  constructor
  · obtain ⟨o₁, f, h₁⟩ := hbrace 0 ('{' :: ';' :: "b:\x7b\x7bx\x7d\x7d".toList)
    obtain ⟨o₂, g, h₂⟩ := hbrace o₁ (';' :: "b:\x7b\x7bx\x7d\x7d".toList)
    obtain ⟨err, herr⟩ := tokensFrom_semicolon o₂ "b:\x7b\x7bx\x7d\x7d".toList
    rw [herr] at h₂
    rw [h₂] at h₁
    exact Expr.namesRead_of_error h₁
  · rw [hspan]
    obtain ⟨err, herr⟩ := tokensFrom_semicolon 0 "b:\x7b\x7bx".toList
    exact Expr.namesRead_of_error herr

/-- **A style that is written again is read as well**: the data agree on the names of all
attributes, and their views differ. -/
theorem compile_tornElement_ne :
    Data.AgreeOn ((Node.element tornElement).namesRead fun _ ↦ []) [("x", .string "1")]
        [("x", .string "2")] ∧
      compile ⟨":", ["show"]⟩ [("x", .string "1")] (.element tornElement) ≠
        compile ⟨":", ["show"]⟩ [("x", .string "2")] (.element tornElement) := by
  have hquoted : Expr.namesRead (expressionOf "v") = [] := by
    rw [expressionOf, toExpression, if_neg (by decide),
      Expr.namesRead_of_isSource (isSource_quote _).conditional]
    rfl
  have hv : Expr.namesRead "v" = ["v"] := by
    have hsource : Expr.IsSource (.level .or) ['v'] (.name "v" ⟨0, 1⟩) :=
      Expr.isSource_name rfl rfl rfl
    exact Expr.namesRead_of_isSource hsource.conditional
  have htrim : Text.trimmed tornStyle = tornStyle := by decide
  have hforin : (Aliases.ofForin tornStyle).collection = tornStyle := by decide
  have hnames : (Node.element tornElement).namesRead (fun _ ↦ []) = ["v", "v"] := by
    show List.flatMap Expr.namesRead [expressionOf "v", "v", "v", expressionOf tornStyle,
      Text.trimmed tornStyle, (Aliases.ofForin (Text.trimmed tornStyle)).collection] = _
    simp only [List.flatMap_cons, List.flatMap_nil, hquoted, hv, htrim, hforin, namesRead_tornStyle]
    rfl
  refine ⟨?_, ?_⟩
  · rw [hnames]
    simp [Data.AgreeOn, Data.lookup, Record.get?_cons]
  · rw [compile_tornElement, compile_tornElement]
    simp only [ne_eq, Except.ok.injEq, Node.element.injEq, filledElement, Element.mk.injEq,
      List.cons.injEq, Attribute.mk.injEq]
    decide

end HtmlTemplate
