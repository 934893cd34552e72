import HtmlTemplate.Proofs.Markup.RoundTrip
import HtmlTemplate.Proofs.Template.Outcomes

/-!
# No mark is left

Every attribute that carries the mark of a directive is taken off before its directive is bound,
known or not, blank or not. A name may stand on an element more than once, and each binding takes
off one attribute of the name, so attributes have to be counted.

## The invariant

While the attributes of an element are bound, it has no more attributes of a marked name than are
still to come (`Options.Step.count_le`). So none is left on an element that stays. An element that
is repeated may still have some, and loses them when its copies are compiled.

## Which names

A marked name is one that begins with the bind symbol, whether a directive of that name exists or
not. The style is not to be marked, since a show directive writes it; this is the only condition. It
does not matter which directives may have priority, for the attribute of the one that has it is
taken off before the others are bound.
-/

namespace HtmlTemplate

theorem Attribute.count_set_of_ne {key name : String} (as : List Attribute) (value : String)
    (h : key ≠ name) : count (set key value as) name = count as name := by
  induction as with
  | nil => rw [set, count_cons, if_neg h, Nat.add_zero]
  | cons a as ih =>
    rw [set]
    by_cases ha : a.name = key
    · rw [if_pos ha, count_cons, count_cons]
    · rw [if_neg ha, count_cons, count_cons, ih]

variable {options : Options} {data : Data}

/-- A mark that is not empty marks the names that begin with it. -/
theorem directiveOf?_eq_none_iff {key : String} (h : options.bindSymbol ≠ "") :
    options.directiveOf? key = none ↔ ¬options.bindSymbol.toList <+: key.toList := by
  have hne : options.bindSymbol.toList.isEmpty = false := by
    rw [List.isEmpty_eq_false_iff, ne_eq, String.toList_eq_nil_iff]
    exact h
  rw [Options.directiveOf?, hne, Bool.false_or, ← List.isPrefixOf_iff_prefix]
  simp

/-! ## Marked attributes of one element -/

section Count

variable {key : String}

theorem Directive.Leaves.count_le {name : String} {e f : Element} {d : Bool}
    (hkey : "style" ≠ key) (h : Directive.Leaves name e d f) :
    Attribute.count f.attributes key ≤ Attribute.count e.attributes key := by
  cases h with
  | same => exact Nat.le_refl _
  | shown value => exact Nat.le_of_eq (Attribute.count_set_of_ne _ _ hkey)
  | filled _ s => exact Nat.le_refl _

/-- No step leaves more attributes of a marked name than are still to come behind it. -/
theorem Options.Step.count_le {a : Attribute} {as : List Attribute} {e f : Element} {d : Bool}
    (hmark : options.directiveOf? key ≠ none) (hstyle : "style" ≠ key)
    (h : Attribute.count e.attributes key ≤ Attribute.count (a :: as) key)
    (hs : options.Step a e d f) : Attribute.count f.attributes key ≤ Attribute.count as key := by
  -- an attribute that is not marked has another name
  have hother (ha : options.directiveOf? a.name = none) : a.name ≠ key := by
    intro hname
    rw [hname] at ha
    exact hmark ha
  cases hs with
  | marked _ hl =>
    refine Nat.le_trans (hl.count_le hstyle) ?_
    rw [Attribute.count_cons] at h
    rw [Element.eraseAttribute, Attribute.count_erase]
    omega
  | plain ha => rwa [Attribute.count_cons, if_neg (hother ha)] at h
  | interpolated ha value =>
    rw [Attribute.count_cons, if_neg (hother ha)] at h
    rw [Element.setAttribute, Attribute.count_set_of_ne _ _ (hother ha)]
    exact h

/-- An element that stays has lost its marked attributes. -/
theorem count_of_stays {e f : Element} {d : Bool} (hmark : options.directiveOf? key ≠ none)
    (hstyle : "style" ≠ key) (h : bindElement options data e = .ok (.stays f d)) :
    Attribute.count f.attributes key = 0 := by
  have hbound := bindElement_induction
    (I := fun as _ f ↦ Attribute.count f.attributes key ≤ Attribute.count as key)
    (fun hcount hs ↦ hs.count_le hmark hstyle hcount) (fun _ ↦ Nat.le_refl _) h
  rcases hbound with ⟨_, _, _, _, _, hb⟩ | ⟨d, f, hb, hcount⟩ | ⟨_, _, _, _, _, _, _, _, _, hb⟩
  · exact nomatch hb
  · obtain ⟨rfl, -⟩ := Bound.stays.inj hb
    exact Nat.le_zero.mp hcount
  · exact nomatch hb

theorem name_ne_of_stays {e f : Element} {d : Bool} (hmark : options.directiveOf? key ≠ none)
    (hstyle : "style" ≠ key) (h : bindElement options data e = .ok (.stays f d)) :
    ∀ a ∈ f.attributes, a.name ≠ key := by
  have hcount := count_of_stays hmark hstyle h
  rw [Attribute.count, List.countP_eq_zero] at hcount
  exact fun a ha hname ↦ hcount a ha (beq_iff_eq.mpr hname)

end Count

/-! ## Marked attributes of a view -/

section Key

variable {key : String} (hmark : options.directiveOf? key ≠ none) (hstyle : "style" ≠ key)

include hmark hstyle

theorem name_ne_of_yields {n m : Node} (h : n.Yields options data m) :
    ∀ e ∈ m.elements, ∀ a ∈ e.attributes, a.name ≠ key := by
  refine Node.Yields.induction
    (motive := fun _ _ m ↦ ∀ e ∈ m.elements, ∀ a ∈ e.attributes, a.name ≠ key)
    ?text ?comment ?fragment ?inside ?closed ?copy ?placeholder h
  case text => exact fun _ ↦ nofun
  case comment => exact fun _ ↦ nofun
  case fragment =>
    intro data cs ns ih e he
    obtain ⟨m, hm, he⟩ := Node.mem_elementsAll.mp he
    obtain ⟨c, _, _, hclean⟩ := ih m hm
    exact hclean e he
  case inside =>
    intro data e f cs hb _ ih g hg
    have hf := name_ne_of_stays hmark hstyle hb
    rcases Node.mem_elements.mp hg with heq | hg
    · rw [← Node.element.inj heq]
      exact hf
    · obtain ⟨m, hm, hg⟩ := Node.mem_elementsAll.mp hg
      obtain ⟨c, _, _, hclean⟩ := ih m hm
      exact hclean g hg
  case closed =>
    intro data e f hb g hg
    rcases Node.mem_elements.mp hg with heq | hg
    · rw [← Node.element.inj heq]
      exact name_ne_of_stays hmark hstyle hb
    · -- a text directive has left no element inside
      exact absurd ((rewrites_of_stays hb).elementsAll_of_closed ▸ hg) List.not_mem_nil
  case copy => exact fun _ _ ih ↦ ih
  case placeholder => exact fun _ ↦ nofun

theorem name_ne_of_compile {template view : Node} (h : compile options data template = .ok view) :
    ∀ e ∈ view.elements, ∀ a ∈ e.attributes, a.name ≠ key := by
  intro e he
  obtain ⟨n, _, m, hyields, he⟩ := exists_yields_of_compile h he
  exact name_ne_of_yields hmark hstyle hyields e he

end Key

/-- Does no attribute in the node begin with the mark of directives? -/
def Node.IsUnmarked (options : Options) (n : Node) : Prop :=
  ∀ e ∈ n.elements, ∀ a ∈ e.attributes, ¬options.bindSymbol.toList <+: a.name.toList

section View

variable (hsymbol : options.bindSymbol ≠ "")
  (hstyle : ¬options.bindSymbol.toList <+: "style".toList)

include hsymbol hstyle

theorem marked_of_prefix {key : String} (h : options.bindSymbol.toList <+: key.toList) :
    options.directiveOf? key ≠ none ∧ "style" ≠ key := by
  refine ⟨?_, fun hkey ↦ hstyle (hkey ▸ h)⟩
  rw [ne_eq, directiveOf?_eq_none_iff hsymbol, not_not]
  exact h

theorem not_prefix_of_stays {e f : Element} {d : Bool}
    (h : bindElement options data e = .ok (.stays f d)) :
    ∀ a ∈ f.attributes, ¬options.bindSymbol.toList <+: a.name.toList := by
  intro a ha hprefix
  obtain ⟨hmark, hne⟩ := marked_of_prefix hsymbol hstyle hprefix
  exact name_ne_of_stays hmark hne h a ha rfl

private theorem isUnmarked_of_yields {n m : Node} (h : n.Yields options data m) :
    m.IsUnmarked options := by
  intro e he a ha hprefix
  obtain ⟨hmark, hne⟩ := marked_of_prefix hsymbol hstyle hprefix
  exact name_ne_of_yields hmark hne h e he a ha rfl

/-- **No mark survives.** Whatever a template is compiled on, no attribute in the view has a name
that begins with the mark of directives, as long as the name of the style does not. A markup text is
a template once it is read. -/
theorem isUnmarked_compile :
    (∀ {template view : Node}, compile options data template = .ok view → view.IsUnmarked options) ∧
    ∀ {source : String} {view : Node}, compileMarkup options data source = .ok view →
      view.IsUnmarked options := by
  have hcompile {template view : Node} (h : compile options data template = .ok view) :
      view.IsUnmarked options := by
    intro e he
    obtain ⟨n, _, m, hyields, he⟩ := exists_yields_of_compile h he
    exact isUnmarked_of_yields hsymbol hstyle hyields e he
  exact ⟨hcompile, hcompile⟩

end View

/-- A name that is marked twice, of no directive, and a blank directive that has priority. -/
theorem isUnmarked_compile_unknown :
    let li : Element := ⟨"li", [⟨":if", "a"⟩, ⟨":if", "b"⟩, ⟨":each", " "⟩], []⟩
    ({} : Options).bindSymbol ≠ "" ∧ ¬({} : Options).bindSymbol.toList <+: "style".toList ∧
      compile {} [] (.element li) = .ok (.element ⟨"li", [], []⟩) ∧
      (Node.element ⟨"li", [], []⟩).IsUnmarked {} ∧
      compileMarkup {} [] "<p :if=\"a\"></p>" = .ok (.fragment [.element ⟨"p", [], []⟩]) ∧
      (Node.fragment [.element ⟨"p", [], []⟩]).IsUnmarked {} := by
  intro li
  have hsymbol : ({} : Options).bindSymbol ≠ "" := by decide
  have hstyle : ¬({} : Options).bindSymbol.toList <+: "style".toList := by decide
  have hli : compile {} [] (.element li) = .ok (.element ⟨"li", [], []⟩) := by
    rw [compile, compileNodes_cons, compileNode_of_stays rfl, compileNodes_nil]
    · rfl
    · exact nofun
  have hp : compileMarkup {} [] "<p :if=\"a\"></p>" = .ok (.fragment [.element ⟨"p", [], []⟩]) := by
    have hparse : Markup.parse "<p :if=\"a\"></p>" =
        .fragment [.element ⟨"p", [⟨":if", "a"⟩], []⟩] := by
      have hplain : Element.IsPlain ⟨"p", [⟨":if", "a"⟩], []⟩ :=
        ⟨.of_all rfl rfl rfl, List.forall_mem_singleton.mpr (.of_all (by decide) rfl), by decide,
          by decide, fun hraw ↦ absurd hraw (by decide), by simp⟩
      exact Markup.parse_element hplain Node.areCanonical_nil rfl
    rw [compileMarkup, hparse, compile, compileNodes_cons, compileNode_of_stays rfl,
      compileNodes_nil]
    rfl
  obtain ⟨hcompile, hmarkup⟩ := @isUnmarked_compile {} [] hsymbol hstyle
  exact ⟨hsymbol, hstyle, hli, hcompile hli, hp, hmarkup hp⟩

end HtmlTemplate
