import HtmlTemplate.Proofs.Markup.Styles
import HtmlTemplate.Proofs.Template.Bindings
import HtmlTemplate.Proofs.Template.Outcomes
import HtmlTemplate.Proofs.Template.Values

/-!
# What a show directive decides

A show directive puts a value for `display` into the style of its element. The attributes behind it
are bound as the element had them at the start, so a style with an interpolation that stands behind
the directive gets the text of its value, and what the directive wrote into it is lost. If the
directive has priority, the style that it wrote is itself read as an interpolation.

Where none of this happens (`Options.ShowStands`), the value of the directive decides the display of
the compiled element: every other attribute leaves the style as it is
(`attribute?_style_of_bindAttributes`).

## The order of the attributes

An attribute with an interpolation is bound to a copy of the value that it had at the start, and not
to what it is by then. So of a show directive and an interpolated style the one that comes later
decides. In front of the directive the style is filled first and then gets its display; behind it
the display is overwritten. A static style is not written at all, and stands on either side.
-/

namespace HtmlTemplate

namespace Options

variable (options : Options)

/-- Is the style written when the attribute is bound? It is if the attribute is the style itself,
and has an interpolation or a mark. -/
def rewritesStyle (a : Attribute) : Bool :=
  a.name == "style" && (options.fills a || (options.directiveOf? a.name).isSome)

/-- Is the style left as it is behind a show directive? If that has priority, all attributes that
the element has then are bound behind it. -/
structure ShowStands (e : Element) : Prop where
  behind : options.priorityMark? e ≠ some .display → e.attributes.Pairwise fun a b ↦
    options.mark? a = some .display → options.rewritesStyle b = false
  first : options.priorityMark? e = some .display → ∀ s ∈ options.starts e, ∀ b ∈ s.attributes,
    options.rewritesStyle b = false

end Options

variable {options : Options} {data : Data}

/-! ## Attributes that leave the style -/

theorem attributes_of_bindMarked {name value : String} {e f : Element} {d : Bool}
    (hname : Directive.ofName? name ≠ some .display)
    (h : bindMarked data name value e = .ok (.stays f d)) : f.attributes = e.attributes := by
  rcases stays_of_bindMarked h with ⟨-, rfl, -⟩ | ⟨kind, v, hkind, -, rfl, -⟩
  · rfl
  · cases kind with
    | display => exact absurd hkind hname
    | _ => rfl

private theorem name_ne_style {a : Attribute} (hstyle : options.rewritesStyle a = false)
    (ha : options.fills a = true ∨ (options.directiveOf? a.name).isSome = true) :
    a.name ≠ "style" := by
  intro hname
  rw [Options.rewritesStyle, hname, beq_self_eq_true, Bool.true_and, ← hname,
    Bool.or_eq_false_iff] at hstyle
  rcases ha with ha | ha
  · exact Bool.false_ne_true (hstyle.1.symm.trans ha)
  · exact Bool.false_ne_true (hstyle.2.symm.trans ha)

theorem exists_bindAttributes_of_cons {a : Attribute} {as : List Attribute} {descend d : Bool}
    {e f : Element} (hmark : options.mark? a ≠ some .display)
    (hstyle : options.rewritesStyle a = false)
    (h : bindAttributes options data descend e (a :: as) = .ok (.stays f d)) :
    ∃ descend' e', bindAttributes options data descend' e' as = .ok (.stays f d) ∧
      e'.attribute? "style" = e.attribute? "style" := by
  simp only [bindAttributes] at h
  split at h
  · rename_i name hname
    have hne : a.name ≠ "style" := name_ne_style hstyle (Or.inr (by rw [hname]; rfl))
    have herase : (e.eraseAttribute a.name).attribute? "style" = e.attribute? "style" :=
      Attribute.get?_erase_of_ne hne
    split at h
    · exact ⟨descend, _, h, herase⟩
    · rename_i hvalue
      split at h
      · cases h
      · rename_i e' d' hb
        rw [mark?_of_directiveOf? hname (Bool.not_eq_true _ ▸ hvalue)] at hmark
        refine ⟨_, e', h, ?_⟩
        rw [Element.attribute?, attributes_of_bindMarked hmark hb]
        exact herase
      · cases h
  · rename_i hname
    split at h
    · rename_i hfills
      have hne : a.name ≠ "style" := name_ne_style hstyle <| Or.inl <| by
        rw [Options.fills, hname, Option.isNone_none, Bool.true_and, hfills]
      split at h
      · cases h
      · refine ⟨descend, _, h, ?_⟩
        rw [Element.attribute?, Element.setAttribute, Attribute.get?_set, if_neg hne]
        rfl
    · exact ⟨descend, e, h, rfl⟩

theorem attribute?_style_of_bindAttributes {as : List Attribute} {descend d : Bool} {e f : Element}
    (has : ∀ a ∈ as, options.mark? a ≠ some .display ∧ options.rewritesStyle a = false)
    (h : bindAttributes options data descend e as = .ok (.stays f d)) :
    f.attribute? "style" = e.attribute? "style" := by
  induction as generalizing descend e with
  | nil =>
    rw [bindAttributes] at h
    rw [(Bound.stays.inj (Except.ok.inj h)).1]
  | cons a as ih =>
    obtain ⟨ha, has⟩ := List.forall_mem_cons.mp has
    obtain ⟨descend', e', h', hstyle⟩ := exists_bindAttributes_of_cons ha.1 ha.2 h
    rw [ih has h', hstyle]

/-! ## The show directive -/

/-- The display that a show directive with a value gives. -/
def displayOf (v : Value) : String := if v.isTruthy then "block" else "none"

theorem styleProperty?_apply_display (v : Value) (e : Element) :
    (Directive.display.apply v e).styleProperty? "display" = some (displayOf v) := by
  have hplain : Declaration.IsPlain ⟨"display", displayOf v⟩ := by
    rw [displayOf]
    split <;> constructor <;> decide +kernel
  rw [Directive.apply, ← displayOf, Element.styleProperty?_setStyleProperty e hplain]
  rfl

theorem apply_display_mem_shown (v : Value) (e : Element) :
    Directive.display.apply v e ∈ e.shown := by
  refine List.mem_map_of_mem ?_
  split <;> simp

theorem styleProperty?_congr {e f : Element} (h : f.attribute? "style" = e.attribute? "style")
    (q : String) : f.styleProperty? q = e.styleProperty? q := by
  rw [Element.styleProperty?, h, Element.styleProperty?]

theorem bindMarked_display {expression : String} {v : Value} (e : Element)
    (hv : evaluate .display data expression = .ok v) :
    bindMarked data Directive.display.name expression e =
      .ok (.stays (Directive.display.apply v e) true) := by
  rw [bindMarked_of_some e (Directive.ofName?_name .display), if_neg (by decide), hv]
  rfl

theorem bindAttributes_of_display {a : Attribute} {as : List Attribute} {descend : Bool}
    {e : Element} {v : Value} (hmark : options.mark? a = some .display)
    (hv : evaluate .display data (Text.trimmed a.value) = .ok v) :
    bindAttributes options data descend e (a :: as) = bindAttributes options data descend
      (Directive.display.apply v (e.eraseAttribute a.name)) as := by
  obtain ⟨hname, hvalue⟩ := directiveOf?_of_mark? hmark
  simp only [bindAttributes, hname, hvalue, bindMarked_display _ hv, Bool.and_true,
    Bool.false_eq_true, if_false]

/-- The display after the only show directive among some attributes, if the style is left as it is
behind it. -/
theorem display_of_bindAttributes {a : Attribute} {as : List Attribute} {descend d : Bool}
    {e f : Element} {v : Value} (hshow : as.filter (options.mark? · == some .display) = [a])
    (hstands : as.Pairwise fun a b ↦
      options.mark? a = some .display → options.rewritesStyle b = false)
    (hv : evaluate .display data (Text.trimmed a.value) = .ok v)
    (h : bindAttributes options data descend e as = .ok (.stays f d)) :
    f.styleProperty? "display" = some (displayOf v) := by
  induction as generalizing descend e with
  | nil => cases hshow
  | cons b as ih =>
    obtain ⟨hb, has⟩ := List.pairwise_cons.mp hstands
    by_cases hmark : options.mark? b = some .display
    · -- behind the directive, no attribute changes the style any more
      rw [List.filter_cons_of_pos (by simpa using hmark)] at hshow
      obtain ⟨rfl, hnone⟩ := List.cons.inj hshow
      rw [bindAttributes_of_display hmark hv] at h
      have hstyle := attribute?_style_of_bindAttributes (fun c hc ↦
        ⟨by simpa using List.filter_eq_nil_iff.mp hnone c hc, hb c hc hmark⟩) h
      rw [styleProperty?_congr hstyle, styleProperty?_apply_display]
    · rw [List.filter_cons_of_neg (by simpa using hmark)] at hshow
      rcases step_of_bindAttributes h with ⟨-, _, _, _, hrepeats⟩ | ⟨_, e', -, h'⟩
      · cases hrepeats
      · exact ih hshow has h'

/-! ## The directive that has priority -/

theorem exists_mark?_of_priorityOn? {e : Element} {m : PriorityMatch}
    (hsymbol : options.bindSymbol ≠ "") (h : options.priorityOn? e = some m) :
    ∃ l a r, e.attributes = l ++ a :: r ∧ (e.eraseAttribute m.key).attributes = l ++ r ∧
      m.expression = Text.trimmed a.value ∧ options.directiveOf? a.name = some m.name ∧
      options.mark? a = Directive.ofName? m.name := by
  obtain ⟨-, hkey, value, hvalue, hexpression, hne⟩ := attribute?_of_findPriority h
  obtain ⟨a, hfind, rfl⟩ := Option.map_eq_some_iff.mp hvalue
  obtain ⟨ha, l, r, he, hl⟩ := List.find?_eq_some_iff_append.mp hfind
  have hname : options.directiveOf? a.name = some m.name := by
    rw [eq_of_beq ha, hkey, directiveOf?_attributeOf hsymbol]
  refine ⟨l, a, r, he, ?_, hexpression, hname, mark?_of_directiveOf? hname hne⟩
  rw [Element.eraseAttribute, Attribute.erase, he,
    List.eraseP_append_right _ fun b hb ↦ by simpa using hl b hb,
    List.eraseP_cons_of_pos (by exact ha)]

theorem display_of_bindAttributes_apply {e f : Element} {descend d : Bool} {v : Value}
    (hnone : ∀ a ∈ e.attributes, options.mark? a ≠ some .display)
    (hstyle : ∀ a ∈ (Directive.display.apply v e).attributes, options.rewritesStyle a = false)
    (h : bindAttributes options data descend (Directive.display.apply v e)
      (Directive.display.apply v e).attributes = .ok (.stays f d)) :
    f.styleProperty? "display" = some (displayOf v) := by
  have hkept := attribute?_style_of_bindAttributes (fun a ha ↦ ⟨?_, hstyle a ha⟩) h
  · rw [styleProperty?_congr hkept, styleProperty?_apply_display]
  · rcases mem_attributes_of_shown (apply_display_mem_shown v e) ha with ha | ⟨hname, -⟩
    · exact hnone a ha
    · rw [mark?_of_name_style hname]
      exact (Option.some_ne_none _).symm

theorem exists_stays_of_bindElement {e : Element} {b : Bound} (hsymbol : options.bindSymbol ≠ "")
    (hrepeats : ∀ a ∈ e.attributes, options.repeats a = false)
    (h : bindElement options data e = .ok b) : ∃ f d, b = .stays f d := by
  rcases bindElement_cases options data e with
    ⟨_, heq, -⟩ | ⟨_, _, _, -, hrep⟩ | ⟨_, _, s, hs, heq, -, -⟩
  · rw [heq] at h
    cases h
  · obtain ⟨d, hd, hrep⟩ := (Option.any_eq_true _ _).mp hrep
    obtain ⟨m, hm, hname⟩ := Option.bind_eq_some_iff.mp hd
    obtain ⟨l, a, r, he, -, -, -, hmark⟩ := exists_mark?_of_priorityOn? hsymbol hm
    have ha := hrepeats a (by simp [he])
    rw [Options.repeats, hmark, hname, Option.any_some, hrep] at ha
    cases ha
  · cases b with
    | stays f d => exact ⟨f, d, rfl⟩
    | repeats t d aliases v =>
      rw [heq] at h
      obtain ⟨a, ha, hrep⟩ := List.any_eq_true.mp (any_repeats_of_bindAttributes h)
      rcases mem_attributes_of_starts hs ha with ha | hstyle
      · rw [hrepeats a (mem_attributes_of_withoutPriority ha)] at hrep
        cases hrep
      · rw [Options.repeats, mark?_of_name_style hstyle] at hrep
        cases hrep

private theorem display_of_bindElement {e f : Element} {a : Attribute} {d : Bool} {v : Value}
    (hsymbol : options.bindSymbol ≠ "")
    (hshow : e.attributes.filter (options.mark? · == some .display) = [a])
    (hstands : options.ShowStands e)
    (hv : evaluate .display data (Text.trimmed a.value) = .ok v)
    (h : bindElement options data e = .ok (.stays f d)) :
    f.styleProperty? "display" = some (displayOf v) := by
  unfold bindElement at h
  split at h
  · rename_i hm
    refine display_of_bindAttributes hshow (hstands.behind ?_) hv h
    rw [Options.priorityMark?, hm]
    exact (Option.some_ne_none _).symm
  · rename_i m hm
    obtain ⟨l, b, r, he, herase, hexpression, -, hmark⟩ := exists_mark?_of_priorityOn? hsymbol hm
    have hpriority : options.priorityMark? e = options.mark? b := by
      rw [Options.priorityMark?, hm, hmark]
      rfl
    simp only at h
    split at h
    · cases h
    · rename_i e' d' hb
      by_cases hdisplay : options.mark? b = some .display
      · -- the directive itself is bound first, and all other attributes behind it
        rw [he, List.filter_append, List.filter_cons_of_pos (by simpa using hdisplay)] at hshow
        obtain ⟨hl, hcons⟩ : l.filter (options.mark? · == some .display) = [] ∧
            b :: r.filter (options.mark? · == some .display) = [a] :=
          (List.append_eq_singleton_iff.mp hshow).resolve_right fun h ↦ List.cons_ne_nil _ _ h.2
        obtain ⟨rfl, hr⟩ := List.cons.inj hcons
        have hname : Directive.ofName? m.name = some .display := hmark.symm.trans hdisplay
        rw [← name_of_ofName? hname, hexpression, bindMarked_display _ hv] at hb
        obtain ⟨rfl, -⟩ := Bound.stays.inj (Except.ok.inj hb)
        have hstart : Directive.display.apply v (e.eraseAttribute m.key) ∈ options.starts e := by
          rw [Options.starts, hpriority, hdisplay, Options.withoutPriority, hm]
          exact apply_display_mem_shown v _
        refine display_of_bindAttributes_apply (fun c hc ↦ ?_)
          (hstands.first (hpriority.trans hdisplay) _ hstart) h
        have hnone : (l ++ r).filter (options.mark? · == some .display) = [] := by
          rw [List.filter_append, hl, hr, List.append_nil]
        simpa using List.filter_eq_nil_iff.mp hnone c (herase ▸ hc)
      · -- another directive is bound first, and leaves the attributes
        have hattributes : e'.attributes = l ++ r := by
          rw [attributes_of_bindMarked (hmark ▸ hdisplay) hb, herase]
        have hstands' := hstands.behind (hpriority ▸ hdisplay)
        rw [he] at hstands' hshow
        rw [hattributes] at h
        refine display_of_bindAttributes ?_
          (hstands'.sublist ((List.sublist_cons_self b r).append_left l)) hv h
        rwa [List.filter_append, List.filter_cons_of_neg (by simpa using hdisplay),
          ← List.filter_append] at hshow
    · cases h

/-- **A show directive decides the display of its element**, if no other attribute writes the style
behind it. -/
theorem display_of_compileNode {e : Element} {a : Attribute} {v : Value} {ns : List Node}
    (hshow : e.attributes.filter (options.mark? · == some .display) = [a])
    (hrepeats : ∀ b ∈ e.attributes, options.repeats b = false)
    (hstands : options.ShowStands e)
    (hv : evaluate .display data (Text.trimmed a.value) = .ok v)
    (h : compileNode options data (.element e) = .ok ns) :
    ∃ f, ns = [.element f] ∧
      f.styleProperty? "display" = some (if v.isTruthy then "block" else "none") := by
  have ha : a ∈ e.attributes.filter (options.mark? · == some .display) := by
    rw [hshow]
    exact List.mem_singleton_self a
  have hmark : options.mark? a = some .display := eq_of_beq (List.mem_filter.mp ha).2
  have hsymbol := bindSymbol_ne_of_directiveOf? (directiveOf?_of_mark? hmark).1
  rw [compileNode_element] at h
  cases hb : bindElement options data e with
  | error err =>
    rw [hb] at h
    cases h
  | ok b =>
    obtain ⟨f, d, rfl⟩ := exists_stays_of_bindElement hsymbol hrepeats hb
    have hdisplay := display_of_bindElement hsymbol hshow hstands hv hb
    rw [hb] at h
    cases d with
    | false => exact ⟨f, (Except.ok.inj h).symm, hdisplay⟩
    | true =>
      obtain ⟨cs, -, rfl⟩ := map_eq_ok_iff.mp h
      exact ⟨{ f with children := cs }, rfl, hdisplay⟩

/-! ## A style in front of the directive, and one behind it -/

def givenStyle : Attribute := ⟨"style", "\x7b\x7bs\x7d\x7d"⟩

def givenData : Data := [("s", .string "color: red"), ("v", .bool false)]

theorem evaluate_givenStyle :
    evaluate .attr givenData (Interpolation.expressionOf givenStyle.value) =
      .ok (.string "color: red") := by
  have hspan : Interpolation.expressionOf givenStyle.value = "s" := by
    rw [Interpolation.expressionOf, Interpolation.toExpression, if_pos (by decide),
      Interpolation.runs_of_firstSpan? (a := []) (c := ['s']) (b := []) rfl,
      Interpolation.runs_of_no_span (s := []) rfl]
    rfl
  rw [hspan]
  exact evaluate_name .attr _ rfl rfl rfl fun _ ↦ rfl

theorem evaluate_givenData :
    evaluate .display givenData (Text.trimmed "v") = .ok (.bool false) := by
  rw [show Text.trimmed "v" = "v" by decide]
  exact evaluate_name .display _ rfl rfl rfl fun _ ↦ rfl

theorem bindAttributes_givenStyle (as : List Attribute) (descend : Bool) (e : Element) :
    bindAttributes {} givenData descend e (givenStyle :: as) =
      bindAttributes {} givenData descend (e.setAttribute "style" "color: red") as := by
  rw [bindAttributes]
  simp only [show ({} : Options).directiveOf? givenStyle.name = none by decide]
  rw [if_pos (by decide), evaluate_givenStyle]
  rfl

/-- A style in front of the directive keeps the display that it writes. -/
theorem display_of_compileNode_behind :
    let e : Element := ⟨"p", [givenStyle, ⟨":show", "v"⟩], []⟩
    (e.attributes.filter (({} : Options).mark? · == some .display) = [⟨":show", "v"⟩] ∧
      (∀ b ∈ e.attributes, ({} : Options).repeats b = false) ∧ ({} : Options).ShowStands e ∧
      evaluate .display givenData (Text.trimmed "v") = .ok (.bool false)) ∧
    ∃ f, compileNode {} givenData (.element e) = .ok [.element f] ∧
      f.styleProperty? "display" = some "none" := by
  intro e
  have hshow :
      e.attributes.filter (({} : Options).mark? · == some .display) = [⟨":show", "v"⟩] := by
    decide
  have hrepeats : ∀ b ∈ e.attributes, ({} : Options).repeats b = false := by decide
  have hstands : ({} : Options).ShowStands e :=
    ⟨fun _ ↦ by decide, fun h ↦ absurd h (by decide)⟩
  have hbind : ∃ f, bindElement {} givenData e = .ok (.stays f true) := by
    rw [bindElement, show ({} : Options).priorityOn? e = none by decide]
    simp only [e, bindAttributes_givenStyle]
    rw [bindAttributes_of_display (a := ⟨":show", "v"⟩) (by decide) evaluate_givenData,
      bindAttributes]
    exact ⟨_, rfl⟩
  obtain ⟨f, hf⟩ := hbind
  have hcompile :
      compileNode {} givenData (.element e) = .ok [.element { f with children := [] }] := by
    rw [compileNode_of_stays hf, compileNodes_nil]
    rfl
  obtain ⟨g, hg, hdisplay⟩ :=
    display_of_compileNode hshow hrepeats hstands evaluate_givenData hcompile
  exact ⟨⟨hshow, hrepeats, hstands, evaluate_givenData⟩, g, hg ▸ hcompile, hdisplay⟩

/-- A style behind the directive takes the place of the one that it wrote. -/
theorem not_display_of_compileNode : ¬ ∀ (options : Options) (data : Data) (e : Element)
    (a : Attribute) (v : Value) (ns : List Node),
    e.attributes.filter (options.mark? · == some .display) = [a] →
    (∀ b ∈ e.attributes, options.repeats b = false) →
    evaluate .display data (Text.trimmed a.value) = .ok v →
    compileNode options data (.element e) = .ok ns →
    ∃ f, ns = [.element f] ∧
      f.styleProperty? "display" = some (if v.isTruthy then "block" else "none") := by
  intro h
  have hbind : bindElement {} givenData ⟨"p", [⟨":show", "v"⟩, givenStyle], []⟩ =
      .ok (.stays ⟨"p", [⟨"style", "color: red"⟩], []⟩ true) := by
    rw [bindElement, show ({} : Options).priorityOn? _ = none by decide]
    simp only
    rw [bindAttributes_of_display (a := ⟨":show", "v"⟩) (by decide) evaluate_givenData,
      bindAttributes_givenStyle, Directive.apply, Element.setAttribute_setStyleProperty]
    rfl
  have hcompile : compileNode {} givenData (.element ⟨"p", [⟨":show", "v"⟩, givenStyle], []⟩) =
      .ok [.element ⟨"p", [⟨"style", "color: red"⟩], []⟩] := by
    rw [compileNode_of_stays hbind, compileNodes_nil]
    rfl
  obtain ⟨f, hf, hdisplay⟩ :=
    h {} givenData _ ⟨":show", "v"⟩ (.bool false) _ (by decide) (by decide)
    evaluate_givenData hcompile
  rw [← Node.element.inj (List.cons.inj hf).1, Element.styleProperty?_eq, Style.parse,
    Text.pieces_singleton] at hdisplay
  revert hdisplay
  decide +kernel

end HtmlTemplate
