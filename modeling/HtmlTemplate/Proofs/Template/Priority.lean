import HtmlTemplate.Proofs.Markup.Elements
import HtmlTemplate.Proofs.Markup.RoundTrip
import HtmlTemplate.Proofs.Template.Outcomes
import HtmlTemplate.Proofs.Template.Provenance
import HtmlTemplate.Proofs.Template.Repetition
import HtmlTemplate.Proofs.Template.Values
import Mathlib.Data.List.Nodup

/-!
# Repeating directives first

Options that give priority to the repeating directives, and to no others, as the defaults do, bind a
repeating directive before anything is written into its element. The one exception is a blank
priority attribute, which takes the priority from all others; without one, every template is tame
(`isTame_of_repeatsFirst`).

## What the options decide

The repeating directives come first because the options say so, and not because of where they stand.
An element on which one of them has priority is repeated as the template has it, and the other
directives are bound on the copies. So what they write is compiled no more. With a blank priority
attribute no directive has priority, the marked attributes are bound as they stand, and a repeating
directive can come behind a text that was written.
-/

namespace HtmlTemplate

/-! ## Elements without a blank priority attribute -/

/-- Do the repeating directives have priority, and no others? -/
structure Options.RepeatsFirst (options : Options) : Prop where
  only : ∀ name ∈ options.priority, (Directive.ofName? name).any Directive.isRepeating = true
  all : ∀ d : Directive, d.isRepeating = true → d.name ∈ options.priority

/-- Is no priority attribute of the element blank? An empty one counts as absent. -/
def Options.HasNoBlank (options : Options) (e : Element) : Prop :=
  ∀ a ∈ e.attributes, ∀ name ∈ options.priority, a.name = options.attributeOf name →
    (Text.trimmed a.value).isEmpty = true → a.value.isEmpty = true

/-- Has the element no two attributes of one name, and no blank priority attribute? -/
structure Options.IsRegular (options : Options) (e : Element) : Prop where
  nodup : (e.attributes.map Attribute.name).Nodup
  filled : options.HasNoBlank e

variable {options : Options}

private theorem isEmpty_trimmed_of_isEmpty {s : String} (h : s.isEmpty = true) :
    (Text.trimmed s).isEmpty = true := by
  rw [String.isEmpty_iff.mp h]
  rfl

theorem findPriority_ne_none {e : Element} {names : List String} {a : Attribute} {name : String}
    (he : options.IsRegular e) (hsub : names ⊆ options.priority) (ha : a ∈ e.attributes)
    (hname : name ∈ names) (hkey : a.name = options.attributeOf name)
    (hvalue : (Text.trimmed a.value).isEmpty = false) : findPriority options e names ≠ none := by
  induction names with
  | nil => cases hname
  | cons n names ih =>
    have hbehind (hne : name ≠ n) : findPriority options e names ≠ none :=
      ih (List.subset_of_cons_subset hsub) ((List.mem_cons.mp hname).resolve_left hne)
    simp only [findPriority]
    split
    · rename_i hnone
      refine hbehind ?_
      rintro rfl
      rw [Element.attribute?, Attribute.get?, Option.map_eq_none_iff, List.find?_eq_none] at hnone
      exact hnone a ha (by simpa using hkey)
    · rename_i value hsome
      obtain ⟨b, hb, hbname, rfl⟩ := Element.attribute?_eq_some hsome
      split
      · -- the attribute of this name is empty, so it is another one, as names are not repeated
        rename_i hempty
        refine hbehind ?_
        rintro rfl
        have hab : a = b := List.inj_on_of_nodup_map he.nodup ha hb (hkey.trans hbname.symm)
        rw [hab, isEmpty_trimmed_of_isEmpty hempty] at hvalue
        cases hvalue
      · rename_i hfull
        split
        · rename_i hblank
          exact absurd (he.filled b hb n (hsub List.mem_cons_self) hbname hblank) hfull
        · exact Option.some_ne_none _

theorem any_repeats_of_priorityOn? {e : Element} (hopt : options.RepeatsFirst)
    (he : options.IsRegular e) (h : options.priorityOn? e = none) :
    e.attributes.any options.repeats = false := by
  rw [List.any_eq_false]
  intro a ha hrep
  obtain ⟨d, hmark, hd⟩ := (Option.any_eq_true _ _).mp hrep
  obtain ⟨hname, hvalue⟩ := directiveOf?_of_mark? hmark
  exact findPriority_ne_none he (List.Subset.refl _) ha (hopt.all d hd)
    (attributeOf_of_directiveOf? hname) hvalue h

private theorem copiesFrom_of_not_repeats {e : Element} {as : List Attribute}
    (h : as.any options.repeats = false) : options.copiesFrom e as = [] := by
  induction as generalizing e with
  | nil => rfl
  | cons a as ih =>
    rw [List.any_cons, Bool.or_eq_false_iff] at h
    rw [Options.copiesFrom, if_neg (by rw [h.1]; exact Bool.false_ne_true),
      List.flatMap_eq_nil_iff]
    exact fun s _ ↦ ih h.2

private theorem isOrdered_of_not_repeats {as : List Attribute}
    (h : as.any options.repeats = false) :
    options.isOrdered as = true := by
  induction as with
  | nil => rfl
  | cons a as ih =>
    rw [List.any_cons, Bool.or_eq_false_iff] at h
    rw [Options.isOrdered, h.2, ih h.2, Bool.and_false]
    rfl

theorem Options.IsRegular.sublist {e : Element} {as : List Attribute} (he : options.IsRegular e)
    (hsub : as.Sublist e.attributes) : options.IsRegular { e with attributes := as } where
  nodup := (hsub.map _).nodup he.nodup
  filled a ha := he.filled a (hsub.subset ha)

/-- With the repeating directives first, only a blank priority attribute can make a template read
what was written. -/
theorem isTame_of_repeatsFirst (hopt : options.RepeatsFirst) (n : Node)
    (hn : ∀ e ∈ n.elements, options.IsRegular e) : n.IsTame options := by
  -- a copy is no part of its element, but lighter by the attribute that was taken off
  induction hk : n.weight using Nat.strong_induction_on generalizing n with
  | _ k ih =>
    subst hk
    cases n with
    | text s => exact .text s
    | comment s => exact .comment s
    | fragment cs =>
      refine .fragment fun c hc ↦ ih _ ?_ c (fun e he ↦ hn e ?_) rfl
      · have := Node.weight_le_of_mem hc
        rw [Node.weight]
        omega
      · exact Node.mem_elementsAll.mpr ⟨c, hc, he⟩
    | element e =>
      have he : options.IsRegular e := hn e (by rw [Node.elements, e.elements_eq]; simp)
      have hchildren : ∀ c ∈ e.children, c.IsTame options := by
        refine fun c hc ↦ ih _ ?_ c (fun f hf ↦ hn f ?_) rfl
        · have := Node.weight_le_of_mem hc
          rw [Node.weight, Element.weight_eq]
          omega
        · rw [Node.elements, e.elements_eq]
          exact List.mem_cons_of_mem e (Node.mem_elementsAll.mpr ⟨c, hc, hf⟩)
      cases hm : options.priorityOn? e with
      | none =>
        -- no attribute repeats, so there are no copies and nothing is out of order
        have hmark : options.priorityMark? e = none := by rw [Options.priorityMark?, hm]; rfl
        have hstarts : options.starts e = [e] := by
          rw [Options.starts, hmark, Options.withoutPriority, hm]
          rfl
        have hrep := any_repeats_of_priorityOn? hopt he hm
        have hcopies : options.copies e = [] := by
          rw [Options.copies, hmark, hstarts]
          simp [copiesFrom_of_not_repeats hrep]
        refine .element ?_ ?_ ?_ fun _ ↦ hchildren
        · rw [Options.keepsOrder, hstarts, List.all_cons, isOrdered_of_not_repeats hrep, hrep]
          simp
        · rw [hstarts, hcopies]
          simp only [List.append_nil, List.mem_singleton]
          rintro s rfl a ha _
          exact ha
        · rw [hcopies]
          simp
      | some m =>
        -- the directive with priority repeats, so the other attributes are bound on the copy
        obtain ⟨hname, -⟩ := mem_of_findPriority hm
        have hmark : (options.priorityMark? e).any Directive.isRepeating = true := by
          rw [Options.priorityMark?, hm]
          exact hopt.only m.name hname
        have hstarts : options.starts e = [] := by rw [Options.starts, if_pos hmark]
        have hcopies : options.copies e = [e.eraseAttribute m.key] := by
          rw [Options.copies, if_pos hmark, Options.withoutPriority, hm]
        have hsub : (e.eraseAttribute m.key).attributes.Sublist e.attributes :=
          List.eraseP_sublist
        refine .element ?_ ?_ ?_ fun _ ↦ hchildren
        · rw [Options.keepsOrder, hstarts]
          rfl
        · rw [hstarts, hcopies]
          simp only [List.nil_append, List.mem_singleton]
          rintro s rfl a ha _
          exact hsub.subset ha
        · rw [hcopies]
          simp only [List.mem_singleton]
          rintro t rfl
          refine ih _ ?_ _ (fun f hf ↦ ?_) rfl
          · have := Element.weight_eraseAttribute (count_of_findPriority hm)
            simp only [Node.weight]
            omega
          · rw [Node.elements, Element.elements_eq, List.mem_cons] at hf
            rcases hf with rfl | hf
            · exact he.sublist hsub
            · refine hn f ?_
              rw [Node.elements, e.elements_eq]
              exact List.mem_cons_of_mem e hf

/-! ## Templates that are read from a markup text -/

theorem repeatsFirst_default : Options.RepeatsFirst {} where
  only := by decide
  all d := by cases d <;> decide

private theorem isTame_parse (hopt : options.RepeatsFirst) (source : String)
    (h : ∀ e ∈ (Markup.parse source).elements, options.HasNoBlank e) :
    (Markup.parse source).IsTame options := by
  refine isTame_of_repeatsFirst hopt _ fun e he ↦ ⟨?_, h e he⟩
  rw [Markup.parse, Node.elements] at he
  exact (Node.isPlain_of_mem_elementsAll (Markup.areCanonical_parseNodes _) he).nodup

/-- **Data never becomes code of the template**, as long as nothing is repeated that compiling has
written into: every error is about an expression of the template. With the repeating directives
first, a markup text without blank priority attributes is such a template. -/
theorem expression_mem_template (options : Options) :
    (∀ template : Node, template.IsTame options → ∀ data err,
      compile options data template = .error err →
        err.expression ∈ template.expressions options) ∧
    (options.RepeatsFirst → ∀ source : String,
      (∀ e ∈ (Markup.parse source).elements, options.HasNoBlank e) → ∀ data err,
        compileMarkup options data source = .error err →
          err.expression ∈ (Markup.parse source).expressions options) :=
  ⟨fun _ htame _ _ h ↦ expression_of_compile htame h,
    fun hopt source hblank _ _ h ↦ expression_of_compile (isTame_parse hopt source hblank) h⟩

/-! ## Templates on data

A list in which a text of the data is put into every copy, and one entry of which cannot be read.
The text of the data reads as an expression that cannot be read either, and if it were read it would
be read first. -/

/-- What is no expression cannot be evaluated. -/
theorem exists_evaluate_closing (d : Directive) (data : Data) :
    ∃ err, evaluate d data ")" = .error err := by
  have hnone : ¬ ∃ evaluator, Evaluator.ofSource (String.ofList [')']) = .ok evaluator := by
    rw [Expr.exists_ofSource_iff]
    rintro ⟨e, l, hl, he⟩
    have hscan : Expr.scanToken ')' [] = .ok (.punct .rightParen, []) :=
      Expr.scanToken_of_inFront? (by decide) rfl
    rw [Expr.tokensFrom_single rfl hscan] at hl
    cases hl
    obtain ⟨t, r, ht, hclosing⟩ := he.exists_cons rfl
    cases ht
    cases hclosing
  rw [evaluate]
  split
  · exact ⟨_, rfl⟩
  · rename_i evaluator hev
    exact absurd ⟨evaluator, hev⟩ hnone

def entries : Element :=
  ⟨"ul", [], [.element ⟨"li", [⟨":each", "xs"⟩, ⟨":text", "item"⟩], []⟩,
    .element ⟨"li", [⟨":text", ")"⟩], []⟩]⟩

def oneText (s : String) : Data := [("xs", .array [.string s])]

private theorem parse_entries :
    Markup.parse "<ul><li :each=\"xs\" :text=\"item\"></li><li :text=\")\"></li></ul>" =
      .fragment [.element entries] := by
  have hitem : Element.IsPlain ⟨"li", [⟨":each", "xs"⟩, ⟨":text", "item"⟩], []⟩ :=
    ⟨.of_all rfl rfl rfl,
      List.forall_mem_cons.mpr ⟨.of_all (by decide) rfl,
        List.forall_mem_singleton.mpr (.of_all (by decide) rfl)⟩,
      by decide, by decide, fun hraw ↦ absurd hraw (by decide), by simp⟩
  have hlast : Element.IsPlain ⟨"li", [⟨":text", ")"⟩], []⟩ :=
    ⟨.of_all rfl rfl rfl, List.forall_mem_singleton.mpr (.of_all (by decide) rfl), by decide,
      by decide, fun hraw ↦ absurd hraw (by decide), by simp⟩
  have hlist : entries.IsPlain :=
    ⟨.of_all rfl rfl rfl, by simp [entries], by decide, by decide,
      fun hraw ↦ absurd hraw (by decide), by simp [entries, Markup.closesImplicitly]⟩
  refine Markup.parse_element hlist ?_ rfl
  simp [entries, Node.areCanonical_cons, Node.IsCanonical, Element.IsCanonical, Node.isText, hitem,
    hlast]

private theorem isTame_entries : (Node.element entries).IsTame {} := by
  have hnone {as : List Attribute}
      (h : ({} : Options).copies ⟨"li", as, []⟩ = []) {motive : Element → Prop} :
      ∀ t ∈ ({} : Options).copies ⟨"li", as, []⟩, motive t := by
    rw [h]
    exact nofun
  have hcopy : (Node.element ⟨"li", [⟨":text", "item"⟩], []⟩).IsTame {} :=
    .element (by decide) (by decide) (hnone (by decide)) fun _ ↦ nofun
  have hcopies : ({} : Options).copies ⟨"li", [⟨":each", "xs"⟩, ⟨":text", "item"⟩], []⟩ =
      [⟨"li", [⟨":text", "item"⟩], []⟩] := rfl
  have hitem : (Node.element ⟨"li", [⟨":each", "xs"⟩, ⟨":text", "item"⟩], []⟩).IsTame {} := by
    refine .element (by decide) (by decide) ?_ fun _ ↦ nofun
    rw [hcopies]
    exact List.forall_mem_singleton.mpr hcopy
  have hlast : (Node.element ⟨"li", [⟨":text", ")"⟩], []⟩).IsTame {} :=
    .element (by decide) (by decide) (hnone (by decide)) fun _ ↦ nofun
  refine .element (by decide) (by decide) ?_ fun _ ↦ ?_
  · rw [show ({} : Options).copies entries = [] by decide]
    exact nofun
  · exact List.forall_mem_cons.mpr ⟨hitem, List.forall_mem_singleton.mpr hlast⟩

theorem compileNode_repeatedText (s : String) :
    compileNode {} (oneText s) (.element ⟨"li", [⟨":each", "xs"⟩, ⟨":text", "item"⟩], []⟩) =
      .ok [.element ⟨"li", [], Node.textChildren s⟩] := by
  have hpriority : ({} : Options).priorityOn? ⟨"li", [⟨":each", "xs"⟩, ⟨":text", "item"⟩], []⟩ =
      some ⟨"each", ":each", "xs"⟩ := by decide
  have hname : Directive.ofName? "each" = some .each := by decide
  have hxs : evaluate .each (oneText s) (Aliases.ofDirective .each "xs").collection =
      .ok (.array [.string s]) := by
    rw [show (Aliases.ofDirective .each "xs").collection = "xs" by decide]
    exact evaluate_name .each _ rfl rfl rfl fun _ ↦ rfl
  have hitem : evaluate .text ((Aliases.ofDirective .each "xs").data (.string s) 0) "item" =
      .ok (.string s) :=
    evaluate_name .text _ rfl rfl rfl fun _ ↦ rfl
  have hcopy : compileNode {} ((Aliases.ofDirective .each "xs").data (.string s) 0)
      (.element ⟨"li", [⟨":text", "item"⟩], []⟩) = .ok [.element ⟨"li", [], Node.textChildren s⟩] :=
    compileNode_of_closed (bindElement_text rfl rfl hitem)
  rw [← compileNodes_singleton, compileNodes_of_collection hpriority hname rfl, hxs]
  dsimp only [List.zipIdx_cons, List.zipIdx_nil]
  rw [List.mapM_cons, List.mapM_nil, compileNodes_singleton]
  exact congrArg (fun outcome ↦ (outcome.bind fun c ↦ pure [c]).map List.flatten) hcopy

private theorem exists_compileNodes_entries (s : String) :
    ∃ err, compileNodes {} (oneText s) [.element entries] = .error err ∧ err.expression = ")" := by
  obtain ⟨err, herr⟩ := exists_evaluate_closing .text (oneText s)
  refine ⟨err, ?_, expression_of_evaluate herr⟩
  have hlast : compileNode {} (oneText s) (.element ⟨"li", [⟨":text", ")"⟩], []⟩) = .error err := by
    rw [compileNode_element, bindElement_text_eq rfl rfl, herr]
    rfl
  rw [compileNodes_singleton, compileNode_of_stays rfl, entries, compileNodes_cons,
    compileNode_repeatedText, compileNodes_singleton, hlast]
  rfl

/-- A text that reads as an expression is written into a copy, where `(` would fail before `)`. -/
theorem expression_mem_template_entries :
    let source := "<ul><li :each=\"xs\" :text=\"item\"></li><li :text=\")\"></li></ul>"
    let data := oneText "\x7b\x7b(\x7d\x7d"
    (Markup.parse source).IsTame {} ∧ Options.RepeatsFirst {} ∧
      (∀ e ∈ (Markup.parse source).elements, ({} : Options).HasNoBlank e) ∧
      "(" ∉ (Markup.parse source).expressions {} ∧
      (∃ err, compile {} data (Markup.parse source) = .error err ∧
        err.expression ∈ (Markup.parse source).expressions {}) ∧
      ∃ err, compileMarkup {} data source = .error err ∧
        err.expression ∈ (Markup.parse source).expressions {} := by
  intro source data
  have hparse : Markup.parse source = .fragment [.element entries] := parse_entries
  have htame : (Markup.parse source).IsTame {} := by
    rw [hparse]
    exact .fragment (List.forall_mem_singleton.mpr isTame_entries)
  have hfilled : ∀ e ∈ (Markup.parse source).elements, ({} : Options).HasNoBlank e := by
    rw [hparse]
    unfold Options.HasNoBlank
    decide
  obtain ⟨err, herr, -⟩ := exists_compileNodes_entries "\x7b\x7b(\x7d\x7d"
  have hcompile : compile {} data (Markup.parse source) = .error err := by
    rw [hparse, compile, herr]
    rfl
  refine ⟨htame, repeatsFirst_default, hfilled, ?_, ⟨err, hcompile, ?_⟩, err, hcompile, ?_⟩
  · rw [hparse]
    decide
  · exact (expression_mem_template {}).1 _ htame data err hcompile
  · exact (expression_mem_template {}).2 repeatsFirst_default source hfilled data err hcompile

/-! ## A template that is not tame

The blank attribute takes the priority from the others, the text is bound, and the element is
repeated with the text in it. -/

theorem expressionOf_closing : Interpolation.expressionOf "\x7b\x7b)\x7d\x7d" = ")" := by
  have hruns : Interpolation.runs "\x7b\x7b)\x7d\x7d".toList = [.span [')']] := by
    rw [Interpolation.runs_of_firstSpan? (a := []) (c := [')']) (b := []) rfl,
      Interpolation.runs_of_no_span (s := []) rfl]
    rfl
  rw [Interpolation.expressionOf, Interpolation.toExpression, if_pos (by decide), hruns]
  rfl

theorem exists_compileNodes_closing (options : Options) (data : Data) :
    ∃ err, compileNodes options data [.text "\x7b\x7b)\x7d\x7d"] = .error err ∧
      err.expression = ")" := by
  obtain ⟨err, herr⟩ := exists_evaluate_closing .text data
  refine ⟨err, ?_, expression_of_evaluate herr⟩
  rw [compileNodes_cons, compileNode, compileText, if_neg (by decide), expressionOf_closing, herr]
  rfl

/-- An element whose blank attribute has priority, so that its text is bound before the loop. -/
def blankPriority : Element := ⟨"li", [⟨":forin", " "⟩, ⟨":text", "v"⟩, ⟨":each", "xs"⟩], []⟩

def textAndItem (s : String) : Data := [("v", .string s), ("xs", .array [.null])]

private theorem bindElement_blankPriority (s : String) :
    bindElement {} (textAndItem s) blankPriority =
      .ok (.repeats ⟨"li", [], Node.textChildren s⟩ .each (Aliases.ofEach "xs")
        (.array [.null])) := by
  have htext : evaluate .text (textAndItem s) "v" = .ok (.string s) :=
    evaluate_name .text _ rfl rfl rfl fun _ ↦ rfl
  have heach : evaluate .each (textAndItem s) "xs" = .ok (.array [.null]) :=
    evaluate_name .each _ rfl rfl rfl fun _ ↦ rfl
  have hnameText : Directive.ofName? "text" = some .text := by decide
  have hnameEach : Directive.ofName? "each" = some .each := by decide
  have hmarked (e : Element) : bindMarked (textAndItem s) "text" "v" e =
      .ok (.stays { e with children := Node.textChildren s } false) := by
    rw [bindMarked_of_some e hnameText, if_neg (by decide), htext]
    rfl
  have hrepeat (e : Element) : bindMarked (textAndItem s) "each" "xs" e =
      .ok (.repeats e .each (Aliases.ofEach "xs") (.array [.null])) := by
    rw [bindMarked_of_some e hnameEach, if_pos (by decide)]
    simp only [Aliases.ofDirective, show (Aliases.ofEach "xs").collection = "xs" by decide, heach]
    rfl
  have hnone : ({} : Options).priorityOn? blankPriority = none := by decide
  have herase (a : Attribute) (as : List Attribute) (cs : List Node) :
      (Element.mk "li" (a :: as) cs).eraseAttribute a.name = ⟨"li", as, cs⟩ := by
    rw [Element.eraseAttribute, Attribute.erase, List.eraseP_cons_of_pos (by simp)]
  rw [bindElement, hnone]
  simp only [blankPriority, bindAttributes, herase,
    show ({} : Options).directiveOf? ":forin" = some "forin" by decide,
    show ({} : Options).directiveOf? ":text" = some "text" by decide,
    show ({} : Options).directiveOf? ":each" = some "each" by decide,
    show Text.trimmed " " = "" by decide, show Text.trimmed "v" = "v" by decide,
    show Text.trimmed "xs" = "xs" by decide]
  rw [if_pos (by decide), if_neg (by decide), hmarked]
  simp only [herase]
  rw [if_neg (by decide), hrepeat]

/-- **A text of the data is compiled as a part of the template**: whatever it is, its expression is
read. -/
theorem compile_blankPriority {s : String} {err : CompileError}
    (h : compileNodes {} ((Aliases.ofEach "xs").data .null 0) (Node.textChildren s) = .error err) :
    compile {} (textAndItem s) (.element blankPriority) = .error err := by
  have hcopy : compileNode {} ((Aliases.ofEach "xs").data .null 0)
      (.element ⟨"li", [], Node.textChildren s⟩) = .error err := by
    rw [compileNode_of_stays rfl, h]
    rfl
  have hroot : compileNode {} (textAndItem s) (.element blankPriority) = .error err := by
    rw [compileNode_of_repeats (bindElement_blankPriority s)]
    simp only [List.zipIdx_singleton, List.mapM_cons, hcopy]
    rfl
  rw [compile, compileNodes_cons, hroot]
  · rfl
  · exact nofun

/-- **Data can become code of a template that is not tame.** -/
theorem expression_of_data :
    ∃ s err, compile {} (textAndItem s) (.element blankPriority) = .error err ∧
      err.expression = Interpolation.expressionOf s ∧ blankPriority.children = [] ∧
      err.expression ∉ blankPriority.attributes.flatMap Attribute.expressions := by
  obtain ⟨err, herr, hexpr⟩ := exists_compileNodes_closing {} ((Aliases.ofEach "xs").data .null 0)
  refine ⟨"\x7b\x7b)\x7d\x7d", err, compile_blankPriority herr, ?_, rfl, ?_⟩
  · rw [hexpr, expressionOf_closing]
  · rw [hexpr]
    decide

end HtmlTemplate
