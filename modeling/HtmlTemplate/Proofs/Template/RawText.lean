import HtmlTemplate.Proofs.Markup.RoundTrip
import HtmlTemplate.Proofs.Template.Outcomes
import HtmlTemplate.Proofs.Template.Values

/-!
# Elements with raw content

The content of a script or a style is written as it stands. Reading takes care that it does not hold
the end tag of its element, and compiling changes nothing in it, unless a text directive or a span
puts a text of the data there (`Options.takesText`). In that case the text stands there whatever it
holds, an end tag included.

To say so of every single element of a view, an element is followed back to the one of the template
that it was put in the place of (`exists_origin_of_compile`).

## Origins

The view has more elements than the template, or fewer, so that a claim about its elements names for
each of them an element of the template. The relation is that of binding: the origin of a copy is
the element that was repeated, and the origin of an element inside a copy is the one inside that
element. On the way the tag is kept, and so is the content if no text of the data is put into it.
-/

namespace HtmlTemplate

/-- Is the node a text with a span? -/
def Node.isInterpolated : Node → Bool
  | .text s => Interpolation.isInterpolated s
  | _ => false

/-- Does compiling put a text of the data into the element: does it carry a text directive, or hold
a text with a span? -/
def Options.takesText (options : Options) (e : Element) : Bool :=
  options.carriesText e || e.children.any Node.isInterpolated

/-- Is the element put in the place of the other one, on some data? -/
def Element.Yields (options : Options) (e f : Element) : Prop :=
  ∃ data, (Node.element e).Yields options data (.element f)

variable {options : Options} {data : Data}

/-! ## Where an element comes from -/

theorem exists_origin_of_yields {n m : Node} (h : n.Yields options data m) :
    ∀ f ∈ Node.elementsAll m.children, ∃ e ∈ Node.elementsAll n.children, e.Yields options f := by
  -- what a child yields comes from the child itself, or from an element inside it
  have hinside {data : Data} {cs ns : List Node}
      (ih : ∀ m ∈ ns, ∃ c ∈ cs, c.Yields options data m ∧
        ∀ f ∈ Node.elementsAll m.children, ∃ e ∈ Node.elementsAll c.children, e.Yields options f) :
      ∀ f ∈ Node.elementsAll ns, ∃ e ∈ Node.elementsAll cs, e.Yields options f := by
    intro f hf
    obtain ⟨m, hm, hf⟩ := Node.mem_elementsAll.mp hf
    obtain ⟨c, hc, hyields, hchildren⟩ := ih m hm
    rcases Node.mem_elements.mp hf with rfl | hf
    · obtain ⟨e, rfl, -⟩ := exists_element_of_yields hyields
      exact ⟨e, Node.mem_elementsAll.mpr ⟨_, hc, Node.self_mem_elements e⟩, data, hyields⟩
    · obtain ⟨e, he, hef⟩ := hchildren f hf
      exact ⟨e, Node.mem_elementsAll.mpr ⟨c, hc, Node.mem_elements.mpr (Or.inr he)⟩, hef⟩
  refine Node.Yields.induction
    (motive := fun _ n m ↦ ∀ f ∈ Node.elementsAll m.children,
      ∃ e ∈ Node.elementsAll n.children, e.Yields options f)
    ?text ?comment ?fragment ?inside ?closed ?copy ?placeholder h
  case text => exact fun _ ↦ nofun
  case comment => exact fun _ ↦ nofun
  case fragment => exact fun ih ↦ hinside ih
  case inside => exact fun _ _ ih ↦ hinside ih
  case closed =>
    intro data e f hb g hg
    exact absurd ((rewrites_of_stays hb).elementsAll_of_closed ▸ hg) List.not_mem_nil
  case copy =>
    intro data e t d aliases items item index m hb _ ih g hg
    obtain ⟨e', he', hyields⟩ := ih g hg
    obtain ⟨descend, hrewrites⟩ := rewrites_of_repeats hb
    exact ⟨e', hrewrites.elementsAll_subset he', hyields⟩
  case placeholder => exact fun _ ↦ nofun

/-- **Every element of a view is put in the place of one of the template**, which has its tag. -/
theorem exists_origin_of_compile {template view : Node} {f : Element}
    (h : compile options data template = .ok view) (hf : f ∈ view.elements) :
    ∃ e ∈ template.elements, f.tag = e.tag ∧ e.Yields options f := by
  have hmem {n : Node} {e : Element} (hn : n ∈ template.toList) (he : e ∈ n.elements) :
      e ∈ template.elements := by
    cases template with
    | fragment cs => exact Node.mem_elementsAll.mpr ⟨n, hn, he⟩
    | _ => exact List.mem_singleton.mp hn ▸ he
  obtain ⟨n, hn, m, hyields, hf⟩ := exists_yields_of_compile h hf
  rcases Node.mem_elements.mp hf with rfl | hf
  · obtain ⟨e, rfl, htag⟩ := exists_element_of_yields hyields
    exact ⟨e, hmem hn (Node.self_mem_elements e), htag, data, hyields⟩
  · obtain ⟨e, he, data', hef⟩ := exists_origin_of_yields hyields f hf
    obtain ⟨e', he', htag⟩ := exists_element_of_yields hef
    rw [← Node.element.inj he'] at htag
    exact ⟨e, hmem hn (Node.mem_elements.mpr (Or.inr he)), htag, data', hef⟩

/-! ## Content that no data reaches -/

theorem compileNodes_of_texts {cs : List Node}
    (htexts : ∀ c ∈ cs, ∃ s, c = .text s ∧ Interpolation.isInterpolated s = false) :
    compileNodes options data cs = .ok cs := by
  induction cs with
  | nil => exact compileNodes_nil
  | cons c cs ih =>
    obtain ⟨s, rfl, hs⟩ := htexts c List.mem_cons_self
    rw [compileNodes_cons, compileNode, compileText_of_not_isInterpolated hs,
      ih fun d hd ↦ htexts d (List.mem_cons_of_mem _ hd)]
    rfl

/-- An element that takes no text of the data is rewritten to one that has the same children and
takes none. -/
theorem Options.Rewrites.takesText {e f : Element} {d : Bool} (h : options.Rewrites e d f)
    (he : options.takesText e = false) : f.children = e.children ∧ options.takesText f = false := by
  rw [Options.takesText, Bool.or_eq_false_iff] at he
  have hkept : f.children = e.children := by
    refine h.kept ?_
    by_contra hd
    rw [(h.written (Bool.not_eq_true _ ▸ hd)).1] at he
    exact absurd he.1 Bool.noConfusion
  refine ⟨hkept, ?_⟩
  rw [Options.takesText, hkept, he.2, Bool.or_false, ← Bool.not_eq_true]
  intro hcarries
  rw [h.carriesText hcarries] at he
  exact absurd he.1 Bool.noConfusion

/-- An element that holds nothing but texts keeps its content, if it takes no text of the data. -/
theorem children_of_yields {e f : Element} (h : e.Yields options f)
    (htexts : ∀ c ∈ e.children, c.isText = true) (htakes : options.takesText e = false) :
    f.children = e.children := by
  obtain ⟨data, h⟩ := h
  refine Node.Yields.element_induction
    (motive := fun _ e f ↦ (∀ c ∈ e.children, c.isText = true) → options.takesText e = false →
      f.children = e.children)
    ?inside ?closed ?copy h htexts htakes
  case inside =>
    intro data e f cs hb hcs htexts htakes
    rw [Options.takesText, Bool.or_eq_false_iff, List.any_eq_false] at htakes
    rw [compileNodes_of_texts fun c hc ↦ ?_] at hcs
    · exact (Except.ok.inj hcs).symm
    · cases c with
      | text s => exact ⟨s, rfl, by simpa [Node.isInterpolated] using htakes.2 _ hc⟩
      | _ => exact absurd (htexts _ hc) Bool.false_ne_true
  case closed =>
    intro data e f hb htexts htakes
    obtain ⟨hcarries, -⟩ := (rewrites_of_stays hb).written rfl
    rw [Options.takesText, hcarries] at htakes
    exact absurd htakes Bool.noConfusion
  case copy =>
    intro data e t d aliases items item index f hb ih htexts htakes
    obtain ⟨descend, hrewrites⟩ := rewrites_of_repeats hb
    obtain ⟨hkept, ht⟩ := hrewrites.takesText htakes
    rw [ih (hkept.symm ▸ htexts) ht, hkept]

/-! ## Raw content ends where its element ends -/

def Element.holdsEndTag (e : Element) : Bool :=
  Text.occursIn (rawEnd e.tag) (Text.lowerAscii (Node.element e).textContent.toList)

/-- Is the content of the element, as it is written, read up to the element's end tag, whatever
follows that? -/
def Element.IsDelimited (e : Element) : Prop :=
  ∀ t, Markup.rawContent e.tag.toList (Node.charsAll true e.children ++ (Node.endTag e.tag ++ t)) =
    ((Node.element e).textContent.toList, Node.endTag e.tag ++ t)

theorem Element.textContent_eq (e : Element) :
    (Node.element e).textContent = Node.innerTextAll e.children := by
  obtain ⟨tag, as, cs⟩ := e
  rfl

theorem Element.IsPlain.holdsEndTag {e : Element} (h : e.IsPlain)
    (hraw : isRawTextTag e.tag = true) :
    e.holdsEndTag = false := by
  rw [Element.holdsEndTag, e.textContent_eq]
  rcases h.raw hraw with hcs | ⟨s, hcs, hs⟩
  · rw [hcs, Node.innerTextAll]
    rfl
  · rwa [hcs, Node.innerTextAll, Node.innerTextAll, Node.innerText, String.append_empty]

theorem Element.IsPlain.isDelimited {e : Element} (h : e.IsPlain)
    (hraw : isRawTextTag e.tag = true) :
    e.IsDelimited := by
  intro t
  rw [e.textContent_eq]
  exact Markup.rawContent_charsAll t h hraw

theorem Element.IsPlain.isText_of_mem {e : Element} (h : e.IsPlain)
    (hraw : isRawTextTag e.tag = true) :
    ∀ c ∈ e.children, c.isText = true := by
  intro c hc
  rcases h.raw hraw with hcs | ⟨s, hcs, -⟩
  · rw [hcs] at hc
    exact absurd hc List.not_mem_nil
  · rw [hcs] at hc
    rw [List.mem_singleton.mp hc]
    rfl

/-- **Raw content that no data is put into cannot be left.** Every element of the view of a markup
text is put in the place of one of the template, which has its tag. What is put in the place of an
element with raw content that takes no text of the data has its content, in which its end tag does
not begin, so that the content is read back up to where it was written. -/
theorem exists_origin_and_isDelimited {source : String} {view : Node}
    (h : compileMarkup options data source = .ok view) :
    (∀ f ∈ view.elements, ∃ e ∈ (Markup.parse source).elements,
      f.tag = e.tag ∧ e.Yields options f) ∧
    ∀ e ∈ (Markup.parse source).elements, isRawTextTag e.tag = true → options.takesText e = false →
      ∀ f, e.Yields options f → f.tag = e.tag ∧ f.children = e.children ∧ f.holdsEndTag = false ∧
        f.IsDelimited := by
  refine ⟨fun f hf ↦ exists_origin_of_compile h hf, ?_⟩
  intro e he hraw htakes f hf
  have hplain : e.IsPlain := Node.isPlain_of_mem_elementsAll (Markup.areCanonical_parseNodes _) he
  have hchildren := children_of_yields hf (hplain.isText_of_mem hraw) htakes
  have htag : f.tag = e.tag := by
    obtain ⟨data, hf⟩ := hf
    obtain ⟨e', he', htag⟩ := exists_element_of_yields hf
    rwa [← Node.element.inj he'] at htag
  refine ⟨htag, hchildren, ?_, ?_⟩
  · rw [Element.holdsEndTag, f.textContent_eq, htag, hchildren, ← e.textContent_eq]
    exact hplain.holdsEndTag hraw
  · rw [Element.IsDelimited, f.textContent_eq, htag, hchildren, ← e.textContent_eq]
    exact hplain.isDelimited hraw

/-- A script under a directive of no known name, which is compiled to the script alone. -/
theorem isDelimited_comparison :
    let source := "<script :if=\"a\">a < b</script>"
    let e : Element := ⟨"script", [⟨":if", "a"⟩], [.text "a < b"]⟩
    let f : Element := ⟨"script", [], [.text "a < b"]⟩
    compileMarkup {} [] source = .ok (.fragment [.element f]) ∧ e ∈ (Markup.parse source).elements ∧
      isRawTextTag e.tag = true ∧ ({} : Options).takesText e = false ∧ e.Yields {} f ∧
      f.holdsEndTag = false ∧ f.IsDelimited := by
  have hparse : Markup.parse "<script :if=\"a\">a < b</script>" =
      .fragment [.element ⟨"script", [⟨":if", "a"⟩], [.text "a < b"]⟩] := by
    have hplain : Element.IsPlain ⟨"script", [⟨":if", "a"⟩], [.text "a < b"]⟩ :=
      ⟨.of_all rfl rfl rfl, List.forall_mem_singleton.mpr (.of_all (by decide) rfl), by decide,
        by decide, fun _ ↦ Or.inr ⟨_, rfl, by decide⟩, by simp⟩
    exact Markup.parse_element hplain (by simp [Node.areCanonical_cons, Node.IsCanonical]) rfl
  intro source e f
  have hnode : compileNode {} [] (.element e) = .ok [.element f] := by
    rw [compileNode_of_stays rfl,
      compileNodes_of_texts fun c hc ↦ ⟨_, List.mem_singleton.mp hc, by decide⟩]
    rfl
  have hcompile : compileMarkup {} [] source = .ok (.fragment [.element f]) := by
    rw [compileMarkup, hparse, compile, compileNodes_cons, hnode, compileNodes_nil]
    rfl
  have he : e ∈ (Markup.parse source).elements := by
    rw [hparse]
    exact List.mem_cons_self
  have hyields : e.Yields {} f := ⟨[], _, hnode, List.mem_singleton_self _⟩
  have htakes : ({} : Options).takesText e = false := by decide
  obtain ⟨-, -, hend, hdelimited⟩ :=
    (exists_origin_and_isDelimited hcompile).2 e he rfl htakes f hyields
  exact ⟨hcompile, he, rfl, htakes, hyields, hend, hdelimited⟩

/-- **A text directive writes the end tag of its script**: the content is no longer read back as it
is. -/
theorem exists_endTag_in_script :
    let script : Element := ⟨"script", [], [.text "</script>"]⟩
    compileMarkup {} [("v", .string "</script>")] "<script :text=\"v\"></script>" =
        .ok (.fragment [.element script]) ∧
      isRawTextTag script.tag = true ∧ script.holdsEndTag = true ∧ ¬script.IsDelimited := by
  intro script
  have hparse : Markup.parse "<script :text=\"v\"></script>" =
      .fragment [.element ⟨"script", [⟨":text", "v"⟩], []⟩] := by
    have hplain : Element.IsPlain ⟨"script", [⟨":text", "v"⟩], []⟩ :=
      ⟨.of_all rfl rfl rfl, List.forall_mem_singleton.mpr (.of_all (by decide) rfl), by decide,
        by decide, by simp, by simp⟩
    exact Markup.parse_element hplain Node.areCanonical_nil rfl
  have hvalue : evaluate .text [("v", .string "</script>")] "v" = .ok (.string "</script>") :=
    evaluate_name .text _ rfl rfl rfl fun _ ↦ rfl
  refine ⟨?_, rfl, by decide, ?_⟩
  · rw [compileMarkup, hparse, compile, compileNodes_cons,
      compileNode_of_closed (bindElement_text rfl rfl hvalue), compileNodes_nil]
    rfl
  · intro h
    exact absurd (congrArg Prod.fst (h [])) (by decide)

end HtmlTemplate
