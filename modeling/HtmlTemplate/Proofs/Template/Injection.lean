import HtmlTemplate.Proofs.Markup.Joined
import HtmlTemplate.Proofs.Template.RawText

/-!
# Data cannot inject markup

A view of a markup text is written in such a way that it is read back as it is, up to empty and
neighbouring texts, whatever texts the data has put into it. This takes that a text of the data
stands where it is escaped: in a script or a style it is written as it is, and in a void element it
is not written at all (`Options.IsGuarded`).

## The invariant

A node of a markup text is canonical, and what compiling puts in its place is a text or becomes
canonical when texts are joined (`isCanonical_of_yields`). Binding keeps the tag, adds no attribute
but a style, and leaves the children or one text; a child keeps its tag too, so that no element
closes the one around it.

## What the data can reach

A text of the data becomes a text node or the value of an attribute, and both are escaped when they
are written. So it can hold any characters. What is asked of canonical nodes concerns names,
comments and raw content, and none of these comes from the data where the guard holds.
-/

namespace HtmlTemplate

/-- Is no text of the data put into the element where it is not escaped, or not written? -/
structure Options.IsGuarded (options : Options) (e : Element) : Prop where
  raw : isRawTextTag e.tag = true → options.takesText e = false
  void : isVoidTag e.tag = true → options.carriesText e = false

variable {options : Options} {data : Data}

private theorem isPlainName_style : IsPlainName "style" := .of_all (by decide) rfl

namespace Options.Rewrites

variable {e f : Element} {d : Bool}

/-- An element that was bound is plain with any children that its tag allows. -/
theorem isPlain {cs : List Node} (h : options.Rewrites e d f) (he : e.IsPlain)
    (void : isVoidTag e.tag = true → cs = []) (raw : isRawTextTag e.tag = true → cs = e.children)
    (admitted : ∀ g : Element, .element g ∈ cs → Markup.closesImplicitly e.tag g.tag = false) :
    Element.IsPlain { f with children := cs } where
  tag := h.tag.symm ▸ he.tag
  names := by
    intro a ha
    rcases List.mem_cons.mp (h.names (List.mem_map_of_mem ha)) with hname | hmem
    · rw [hname]
      exact isPlainName_style
    · obtain ⟨b, hb, hname⟩ := List.mem_map.mp hmem
      rw [← hname]
      exact he.names b hb
  nodup := h.nodup he.nodup
  void hv := void (h.tag ▸ hv)
  raw hr := by
    dsimp only at hr ⊢
    rw [h.tag] at hr ⊢
    rw [raw hr]
    exact he.raw hr
  admitted := by
    dsimp only
    rw [h.tag]
    exact admitted

theorem areCanonical_children (h : options.Rewrites e d f) (he : Node.AreCanonical e.children) :
    Node.AreCanonical f.children ∧ ∀ g, .element g ∈ f.children → .element g ∈ e.children := by
  cases d with
  | true =>
    rw [h.kept rfl]
    exact ⟨he, fun _ hg ↦ hg⟩
  | false =>
    obtain ⟨-, s, hs⟩ := h.written rfl
    rw [hs]
    refine ⟨Markup.areCanonical_textChildren s, fun g hg ↦ ?_⟩
    have hmem := Node.mem_elementsAll.mpr ⟨_, hg, Node.self_mem_elements g⟩
    rw [Node.elementsAll_textChildren] at hmem
    exact absurd hmem List.not_mem_nil

theorem children_eq_of_void (h : options.Rewrites e d f) (hguard : options.IsGuarded e)
    (hv : isVoidTag e.tag = true) : f.children = e.children := by
  refine h.kept ?_
  by_contra hd
  have hcarries := (h.written (Bool.not_eq_true _ ▸ hd)).1
  rw [hguard.void hv] at hcarries
  exact absurd hcarries Bool.false_ne_true

theorem isCanonical (h : options.Rewrites e d f) (hguard : options.IsGuarded e) (he : e.IsPlain)
    (hcs : Node.AreCanonical e.children) : (Node.element f).IsCanonical := by
  obtain ⟨hchildren, helements⟩ := h.areCanonical_children hcs
  refine Node.isCanonical_element.mpr ⟨?_, hchildren⟩
  obtain ⟨tag, as, cs⟩ := f
  refine h.isPlain he (fun hv ↦ ?_) (fun hr ↦ ?_) fun g hg ↦ he.admitted g (helements g hg)
  · exact (h.children_eq_of_void hguard hv).trans (he.void hv)
  · exact (h.takesText (hguard.raw hr)).1

theorem isGuarded (h : options.Rewrites e d f) (hguard : options.IsGuarded e) :
    options.IsGuarded f where
  raw hr := (h.takesText (hguard.raw (h.tag ▸ hr))).2
  void hv := by
    rw [← Bool.not_eq_true]
    intro hcarries
    have he := h.carriesText hcarries
    rw [hguard.void (h.tag ▸ hv)] at he
    exact absurd he Bool.false_ne_true

end Options.Rewrites

/-- Do all elements of the node keep texts of the data where they are escaped? -/
def Node.IsGuarded (options : Options) (n : Node) : Prop := ∀ e ∈ n.elements, options.IsGuarded e

namespace Node.IsGuarded

variable {e : Element}

theorem self (h : (Node.element e).IsGuarded options) : options.IsGuarded e :=
  h e (Node.self_mem_elements e)

theorem child {n c : Node} (h : n.IsGuarded options) (hc : c ∈ n.children) : c.IsGuarded options :=
  fun f hf ↦ h f (Node.mem_elements.mpr (Or.inr (Node.mem_elementsAll.mpr ⟨c, hc, hf⟩)))

theorem rewrites {f : Element} {d : Bool} (h : (Node.element e).IsGuarded options)
    (hr : options.Rewrites e d f) : (Node.element f).IsGuarded options := by
  intro g hg
  rcases Node.mem_elements.mp hg with heq | hg
  · rw [← Node.element.inj heq]
    exact hr.isGuarded h.self
  · exact h g (Node.mem_elements.mpr (Or.inr (hr.elementsAll_subset hg)))

end Node.IsGuarded

theorem Node.isCanonical_of_mem {ns : List Node} {n : Node} (h : Node.AreCanonical ns)
    (hn : n ∈ ns) :
    n.IsCanonical := by
  induction ns with
  | nil => exact absurd hn List.not_mem_nil
  | cons m ns ih =>
    obtain ⟨hm, -, hns⟩ := Node.areCanonical_cons.mp h
    rcases List.mem_cons.mp hn with rfl | hn
    · exact hm
    · exact ih hns hn

private theorem isCanonical_placeholder (d : Directive) : (placeholder d).IsCanonical := by
  rw [placeholder, Node.IsCanonical]
  cases d <;> decide

/-- What a canonical node yields is a text, or becomes canonical when texts are joined. -/
theorem isCanonical_of_yields {n m : Node} (h : n.Yields options data m) (hn : n.IsCanonical)
    (hguard : n.IsGuarded options) : m.isText = true ∨ m.joined.IsCanonical := by
  refine Node.Yields.induction
    (motive := fun _ n m ↦ n.IsCanonical → n.IsGuarded options →
      m.isText = true ∨ m.joined.IsCanonical)
    ?text ?comment ?fragment ?inside ?closed ?copy ?placeholder h hn hguard
  case text => exact fun _ _ _ ↦ Or.inl rfl
  case comment => exact fun s hs _ ↦ Or.inr hs
  case fragment =>
    intro data cs ns _ hn
    rw [Node.IsCanonical] at hn
    exact hn.elim
  case inside =>
    intro data e f cs hb hcs ih hn hguard
    have hr := rewrites_of_stays hb
    obtain ⟨he, hchildren⟩ := Node.isCanonical_element.mp hn
    have hjoined : Node.AreCanonical (Node.joinedAll cs) := by
      refine Node.areCanonical_joinedAll fun m hm ↦ ?_
      obtain ⟨c, hc, -, hm⟩ := ih m hm
      exact hm (Node.isCanonical_of_mem hchildren hc) (hguard.child hc)
    refine Or.inr (Node.isCanonical_element.mpr ⟨?_, hjoined⟩)
    refine hr.isPlain he (fun hv ↦ ?_) (fun hraw ↦ ?_) fun g hg ↦ ?_
    · rw [he.void hv, compileNodes_nil] at hcs
      rw [← Except.ok.inj hcs, Node.joinedAll]
    · -- nothing of the data is put into raw content, so it is not changed
      have htakes := hguard.self.raw hraw
      have hkept : ({ f with children := cs } : Element).children = e.children :=
        children_of_yields ⟨data, _, compileNode_of_stays hb ▸ hcs ▸ rfl, List.mem_singleton_self _⟩
          (he.isText_of_mem hraw) htakes
      dsimp only at hkept
      rw [hkept, Node.joinedAll_of_areCanonical hchildren]
    · -- an element inside has the tag of the child that it is put in the place of
      obtain ⟨g', hg', rfl⟩ := Node.exists_of_element_mem_joinedAll hg
      obtain ⟨c, hc, hyields, -⟩ := ih _ hg'
      obtain ⟨e', rfl, htag⟩ := exists_element_of_yields hyields
      rw [Element.joined_eq, htag]
      exact he.admitted e' hc
  case closed =>
    intro data e f hb hn hguard
    obtain ⟨he, hchildren⟩ := Node.isCanonical_element.mp hn
    have hf := (rewrites_of_stays hb).isCanonical hguard.self he hchildren
    have hcs := (Node.isCanonical_element.mp hf).2
    obtain ⟨tag, as, cs⟩ := f
    refine Or.inr ?_
    rw [Node.joined, Element.joined, Node.joinedAll_of_areCanonical hcs]
    exact hf
  case copy =>
    -- a clone is what binding led to, so it is as canonical and as guarded as the element
    intro data e t d aliases items item index m hb _ ih hn hguard
    obtain ⟨he, hchildren⟩ := Node.isCanonical_element.mp hn
    obtain ⟨descend, hr⟩ := rewrites_of_repeats hb
    exact ih (hr.isCanonical hguard.self he hchildren) (hguard.rewrites hr)
  case placeholder =>
    intro data e t d aliases v _ _ _
    exact Or.inr (isCanonical_placeholder d)

/-- **Data cannot inject markup.** Where no text of the data is put into a script, a style or a void
element, the view of a markup text is read back from its compact markup as it is, but for empty
texts and texts that are neighbours. So whatever texts the data holds, what is written has the
elements, the attributes and the comments of the view, and no others. -/
theorem parse_toHtml_compileMarkup {source : String} {view : Node}
    (hguard : (Markup.parse source).IsGuarded options)
    (h : compileMarkup options data source = .ok view) :
    Markup.parse view.toHtml = view.joined ∧
      (Markup.parse view.toHtml).withoutTexts = view.withoutTexts := by
  rw [compileMarkup, Markup.parse, compile] at h
  obtain ⟨ns, hns, rfl⟩ := map_eq_ok_iff.mp h
  have hcanonical := Markup.areCanonical_parseNodes source.toList
  have hjoined : Node.AreCanonical (Node.joinedAll ns) := by
    refine Node.areCanonical_joinedAll fun m hm ↦ ?_
    obtain ⟨n, hn, hyields⟩ := yields_of_compileNodes hns hm
    exact isCanonical_of_yields hyields (Node.isCanonical_of_mem hcanonical hn) (hguard.child hn)
  have hparse := Markup.parse_toHtml_joined hjoined
  refine ⟨hparse, ?_⟩
  rw [hparse, Node.joined, Node.withoutTexts, Node.withoutTexts, Node.withoutTextsAll_joinedAll]

/-- A tag in the data, beside a script that the data does not reach. -/
theorem parse_toHtml_compileMarkup_tag :
    let source := "<div><p :text=\"v\"></p><script>a < b</script></div>"
    let view := Node.fragment [.element ⟨"div", [], [.element ⟨"p", [], [.text "<b>"]⟩,
      .element ⟨"script", [], [.text "a < b"]⟩]⟩]
    (Markup.parse source).IsGuarded {} ∧
      compileMarkup {} [("v", .string "<b>")] source = .ok view ∧
      Markup.parse view.toHtml = view.joined ∧
      (Markup.parse view.toHtml).withoutTexts = view.withoutTexts := by
  have hp : Element.IsPlain ⟨"p", [⟨":text", "v"⟩], []⟩ :=
    ⟨.of_all rfl rfl rfl, List.forall_mem_singleton.mpr (.of_all (by decide) rfl), by decide,
      by decide, fun hraw ↦ absurd hraw (by decide), by simp⟩
  have hscript : Element.IsPlain ⟨"script", [], [.text "a < b"]⟩ :=
    ⟨.of_all rfl rfl rfl, by simp, by decide, by decide, fun _ ↦ Or.inr ⟨_, rfl, by decide⟩,
      by simp⟩
  have hdiv : Element.IsPlain ⟨"div", [], [.element ⟨"p", [⟨":text", "v"⟩], []⟩,
      .element ⟨"script", [], [.text "a < b"]⟩]⟩ :=
    ⟨.of_all rfl rfl rfl, by simp, by decide, by decide, fun hraw ↦ absurd hraw (by decide),
      by simp [Markup.closesImplicitly]⟩
  have hparse : Markup.parse "<div><p :text=\"v\"></p><script>a < b</script></div>" =
      .fragment [.element ⟨"div", [], [.element ⟨"p", [⟨":text", "v"⟩], []⟩,
        .element ⟨"script", [], [.text "a < b"]⟩]⟩] := by
    refine Markup.parse_element hdiv ?_ rfl
    simp [Node.areCanonical_cons, Node.IsCanonical, Element.IsCanonical, Node.isText, hp, hscript]
  intro source view
  have hguard : (Markup.parse source).IsGuarded {} := by
    rw [hparse]
    intro e he
    simp only [Node.elements, Node.elementsAll, Element.elements, List.append_nil, List.cons_append,
      List.nil_append, List.mem_cons, List.not_mem_nil, or_false] at he
    rcases he with rfl | rfl | rfl
    · exact ⟨by decide, by decide⟩
    · exact ⟨by decide, by decide⟩
    · exact ⟨by decide, by decide⟩
  have hvalue : evaluate .text [("v", .string "<b>")] "v" = .ok (.string "<b>") :=
    evaluate_name .text _ rfl rfl rfl fun _ ↦ rfl
  have hcompile : compileMarkup {} [("v", .string "<b>")] source = .ok view := by
    rw [compileMarkup, hparse, compile, compileNodes_cons, compileNode_of_stays rfl,
      compileNodes_cons, compileNode_of_closed (bindElement_text rfl rfl hvalue), compileNodes_cons,
      compileNode_of_stays rfl,
      compileNodes_of_texts fun c hc ↦ ⟨_, List.mem_singleton.mp hc, by decide⟩]
    simp only [compileNodes_nil]
    rfl
  exact ⟨hguard, hcompile, parse_toHtml_compileMarkup hguard hcompile⟩

end HtmlTemplate
