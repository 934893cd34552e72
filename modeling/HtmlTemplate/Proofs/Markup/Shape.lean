import HtmlTemplate.Proofs.Markup.Canonical
import HtmlTemplate.Proofs.Markup.Escaping

/-!
# Reading gives canonical trees

Every event that is cut from a text is plain: what it carries cannot be read as anything else
(`isPlain_of_mem_events`). Building keeps that, joins neighbouring texts, and never puts an element
into one that it closes, so that the nodes of a markup text are canonical
(`areCanonical_parseNodes`).

## From texts to events to trees

What makes a tree canonical is shown where it comes from. Names, values and contents are taken from
the text by the reader of events, so their form is a property of events. That neighbouring texts are
one and that children are admitted comes from building, for any plain events.
-/

namespace HtmlTemplate.Markup

/-! ## Plain events -/

/-- Is the event one that is cut from a text? -/
def Event.IsPlain : Event → Prop
  | .text s => s ≠ ""
  | .comment s => Text.occursIn ['-', '-', '>'] s.toList = false
  | .declaration => True
  | .startTag tag as form =>
    IsPlainTag tag ∧ (∀ a ∈ as, IsPlainName a.name) ∧ (as.map Attribute.name).Nodup ∧
      match form with
      | .empty => True
      | .opens => isVoidTag tag = false ∧ isRawTextTag tag = false
      | .raw content => isVoidTag tag = false ∧ isRawTextTag tag = true ∧
          Text.occursIn (rawEnd tag) (Text.lowerAscii content.toList) = false
  | .endTag _ => True

/-! ### Names -/

private theorem isTagChar_toLower {c : Char} (h : isTagChar c = true) :
    isTagChar c.toLower = true := by
  by_cases hc : c.isUpper = true
  · have hl := Text.isLower_toLower (Text.isAlpha_iff.mpr (Or.inl hc))
    rw [isTagChar, Text.isAlpha_iff.mpr (Or.inr hl)]
    rfl
  · rw [Bool.not_eq_true] at hc
    rwa [Text.toLower_of_not_isUpper hc]

private theorem isAttributeChar_toLower {c : Char} (h : isAttributeChar c = true) :
    isAttributeChar c.toLower = true := by
  by_cases hc : c.isUpper = true
  · have hn := Text.isUpper_iff.mp hc
    have hl := Text.toNat_toLower hc
    rw [isAttributeChar, Bool.not_eq_true', Bool.or_eq_false_iff]
    constructor
    · simp only [Text.isBlank, hl, Bool.or_eq_false_iff, Bool.and_eq_false_iff, beq_eq_false_iff_ne,
        decide_eq_false_iff_not]
      omega
    · rw [List.contains_eq_mem, decide_eq_false_iff_not]
      intro hmem
      simp only [List.mem_cons, List.not_mem_nil, or_false] at hmem
      rcases hmem with h' | h' | h' | h' | h' | h' <;> rw [h'] at hl <;> simp at hl <;> omega
  · rw [Bool.not_eq_true] at hc
    rwa [Text.toLower_of_not_isUpper hc]

theorem isPlainTag_tagName {c : Char} (s : List Char) (hc : c.isAlpha = true) :
    IsPlainTag (tagName (c :: s)) := by
  have hstart : isTagChar c = true := by
    rw [isTagChar, hc]
    rfl
  refine ⟨c.toLower, Text.lowerAscii (s.takeWhile isTagChar), ?_, Text.isLower_toLower hc, ?_⟩
  · rw [tagName, List.takeWhile_cons_of_pos hstart, String.toList_ofList]
    rfl
  · intro d hd
    refine ⟨?_, Text.isUpper_of_mem_lowerAscii hd⟩
    obtain ⟨e, he, rfl⟩ := List.mem_map.mp hd
    exact isTagChar_toLower (List.mem_takeWhile_imp he)

/-! ### Attributes -/

theorem isPlainName_of_mem_readAttributes {s : List Char} {a : Attribute}
    (h : a ∈ (readAttributes s).1) : IsPlainName a.name := by
  fun_induction readAttributes s with
  | case1 => exact absurd h List.not_mem_nil
  | case2 => exact absurd h List.not_mem_nil
  | case3 => exact absurd h List.not_mem_nil
  | case4 s c t _ _ hs hc name assigned more ih =>
    rcases List.mem_cons.mp h with rfl | h
    · dsimp only
      constructor
      · intro he
        have hnil := String.toList_eq_nil_iff.mpr he
        simp only [String.toList_ofList, name, List.takeWhile_cons_of_pos hc] at hnil
        exact absurd hnil (List.cons_ne_nil _ _)
      · intro d hd
        rw [String.toList_ofList] at hd
        refine ⟨?_, Text.isUpper_of_mem_lowerAscii hd⟩
        obtain ⟨e, he, rfl⟩ := List.mem_map.mp hd
        exact isAttributeChar_toLower (List.mem_takeWhile_imp he)
    · exact ih h
  | case5 s c t _ _ hs hc ih => exact ih h

theorem mem_firstOfEach {as : List Attribute} {a : Attribute} (h : a ∈ Attribute.firstOfEach as) :
    a ∈ as := by
  induction as with
  | nil => exact h
  | cons b as ih =>
    rw [Attribute.firstOfEach] at h
    rcases List.mem_cons.mp h with rfl | h
    · exact List.mem_cons_self
    · exact List.mem_cons_of_mem b (ih (List.mem_filter.mp h).1)

theorem nodup_firstOfEach (as : List Attribute) :
    ((Attribute.firstOfEach as).map Attribute.name).Nodup := by
  induction as with
  | nil => exact List.nodup_nil
  | cons a as ih =>
    rw [Attribute.firstOfEach, List.map_cons, List.nodup_cons]
    constructor
    · intro hmem
      obtain ⟨b, hb, hab⟩ := List.mem_map.mp hmem
      have := (List.mem_filter.mp hb).2
      rw [bne_iff_ne] at this
      exact this hab
    · exact ih.sublist (List.filter_sublist.map _)

/-! ### Content -/

private theorem rawContent_prefix (tag s : List Char) : (rawContent tag s).1 <+: s := by
  induction s with
  | nil => exact List.prefix_refl _
  | cons c s ih =>
    rw [rawContent]
    split_ifs
    · exact List.nil_prefix
    · exact List.cons_prefix_cons.mpr ⟨rfl, ih⟩

theorem occursIn_rawContent (tag s : List Char) :
    Text.occursIn ('<' :: '/' :: tag) (Text.lowerAscii (rawContent tag s).1) = false := by
  induction s with
  | nil => rfl
  | cons c s ih =>
    rw [rawContent]
    split_ifs with h
    · rfl
    · -- what is kept is the beginning of what the end tag was looked for in
      dsimp only
      rw [Text.lowerAscii, List.map_cons, ← Text.lowerAscii]
      refine Text.occursIn_cons_iff.mpr ⟨?_, ih⟩
      rw [Text.beginsWithLowered_iff] at h
      rw [← Bool.not_eq_true, List.isPrefixOf_iff_prefix]
      have hfront : c :: (rawContent tag s).1 <+: c :: s :=
        List.cons_prefix_cons.mpr ⟨rfl, rawContent_prefix tag s⟩
      exact fun hp ↦ h (hp.trans (hfront.map Char.toLower))

private theorem isPlain_readComment (s : List Char) : (readComment s).1.IsPlain := by
  rw [readComment]
  split
  · rename_i content rest h
    rw [Event.IsPlain, String.toList_ofList]
    exact Text.occursIn_of_cutAt (List.cons_ne_nil _ _) h
  · rename_i h
    rw [Event.IsPlain, String.toList_ofList, Text.occursIn, h]
    rfl

private theorem isPlain_readStartTag {c : Char} (s : List Char) (hc : c.isAlpha = true) :
    (readStartTag (c :: s)).1.IsPlain := by
  have htag := isPlainTag_tagName s hc
  have hnames : ∀ a ∈ Attribute.firstOfEach (readAttributes ((c :: s).dropWhile isTagChar)).1,
      IsPlainName a.name := fun a ha ↦ isPlainName_of_mem_readAttributes (mem_firstOfEach ha)
  have hnodup := nodup_firstOfEach (readAttributes ((c :: s).dropWhile isTagChar)).1
  simp only [readStartTag]
  split_ifs with hempty hraw
  · exact ⟨htag, hnames, hnodup, trivial⟩
  · rw [Bool.or_eq_true, not_or] at hempty
    refine ⟨htag, hnames, hnodup, by simpa using hempty.2, hraw, ?_⟩
    rw [String.toList_ofList]
    exact occursIn_rawContent _ _
  · rw [Bool.or_eq_true, not_or] at hempty
    exact ⟨htag, hnames, hnodup, by simpa using hempty.2, by simpa using hraw⟩

theorem exists_cons_of_isAtMarkup {c : Char} {s : List Char} (h : isAtMarkup (c :: s) = true)
    (hend : ∀ t, s ≠ '/' :: t) (hdecl : ∀ t, s ≠ '!' :: t) :
    ∃ d t, s = d :: t ∧ d.isAlpha = true := by
  unfold isAtMarkup at h
  split at h
  · rename_i heq
    exact absurd (List.cons.inj heq).2 (hend _)
  · rename_i d t _ heq
    have hs := (List.cons.inj heq).2
    refine ⟨d, t, hs, ?_⟩
    rw [Bool.or_eq_true, decide_eq_true_eq] at h
    rcases h with h | rfl
    · exact h
    · exact absurd hs (hdecl t)
  · exact absurd h Bool.false_ne_true

private theorem isPlain_next (c : Char) (s : List Char) : (Event.next c s).1.IsPlain := by
  unfold Event.next
  split
  · rename_i hat
    split
    · trivial
    · exact isPlain_readComment _
    · trivial
    · rename_i hend _ hdecl
      obtain ⟨d, t, rfl, hd⟩ := exists_cons_of_isAtMarkup hat hend hdecl
      exact isPlain_readStartTag t hd
  · -- a text has its first character at least
    rw [Event.IsPlain]
    intro h
    have := String.toList_eq_nil_iff.mpr h
    rw [String.toList_ofList] at this
    exact Entity.decode_ne_nil (List.cons_ne_nil c _) this

theorem isPlain_of_mem_events {s : List Char} {e : Event} (h : e ∈ events s) : e.IsPlain := by
  fun_induction events s with
  | case1 => exact absurd h List.not_mem_nil
  | case2 c t ih =>
    rcases List.mem_cons.mp h with rfl | h
    · exact isPlain_next c t
    · exact ih h

/-! ## Canonical nodes

Building keeps three things at once, and the induction needs all of them: the nodes are canonical,
the open element around them admits them, and the events that are left are plain. -/

/-- What building keeps, inside the given open elements: the nodes are canonical, the innermost open
element admits them, and the events behind them are plain. -/
structure Built.IsCanonical {bound : Nat} (openTags : List String) (b : Built bound) : Prop where
  nodes : Node.AreCanonical b.nodes
  admitted : ∀ f : Element, .element f ∈ b.nodes →
    openTags.head?.any (closesImplicitly · f.tag) = false
  rest : ∀ e ∈ b.rest, e.IsPlain

theorem areCanonical_consText {s : String} {ns : List Node} (hs : s ≠ "")
    (h : Node.AreCanonical ns) : Node.AreCanonical (consText s ns) := by
  unfold consText
  split
  · rename_i t ns
    obtain ⟨-, hnext, hns⟩ := Node.areCanonical_cons.mp h
    refine Node.areCanonical_cons.mpr ⟨?_, hnext, hns⟩
    rw [Node.IsCanonical]
    exact fun he ↦ hs (String.append_eq_empty_iff.mp he).1
  · rename_i hno
    refine Node.areCanonical_cons.mpr ⟨by rwa [Node.IsCanonical], ?_, h⟩
    -- a text in front would have been joined
    rintro ⟨-, hany⟩
    rcases ns with _ | ⟨n, ns⟩
    · cases hany
    · cases n with
      | text t => exact hno t ns rfl
      | _ => cases hany

theorem element_mem_consText {s : String} {ns : List Node} {f : Element}
    (h : .element f ∈ consText s ns) : .element f ∈ ns := by
  unfold consText at h
  split at h
  · rcases List.mem_cons.mp h with h | h
    · cases h
    · exact List.mem_cons_of_mem _ h
  · rcases List.mem_cons.mp h with h | h
    · cases h
    · exact h

theorem areCanonical_textChildren (s : String) : Node.AreCanonical (Node.textChildren s) := by
  rw [Node.textChildren]
  split_ifs with hs
  · exact Node.areCanonical_nil
  · refine Node.areCanonical_cons.mpr ⟨?_, ?_, Node.areCanonical_nil⟩
    · rw [Node.IsCanonical]
      exact fun he ↦ hs (String.isEmpty_iff.mpr he)
    · exact fun h ↦ Bool.false_ne_true h.2

theorem isPlain_element_raw {tag : String} {as : List Attribute} {content : String}
    (h : (Event.startTag tag as (.raw content)).IsPlain) :
    Element.IsPlain ⟨tag, as, Node.textChildren content⟩ := by
  obtain ⟨htag, hnames, hnodup, hvoid, -, hcontent⟩ := h
  refine ⟨htag, hnames, hnodup, fun hv ↦ ?_, fun _ ↦ ?_, fun f hf ↦ ?_⟩
  · rw [hvoid] at hv
    exact absurd hv Bool.false_ne_true
  · dsimp only
    rw [Node.textChildren]
    split_ifs
    · exact Or.inl rfl
    · exact Or.inr ⟨content, rfl, hcontent⟩
  · dsimp only at hf
    rw [Node.textChildren] at hf
    split_ifs at hf
    · exact absurd hf List.not_mem_nil
    · cases List.mem_singleton.mp hf

namespace Built.IsCanonical

variable {bound bound' : Nat} {openTags : List String} {nodes : List Node} {rest : List Event}
  {h : rest.length ≤ bound} {h' : rest.length ≤ bound'}

private theorem nil (hrest : ∀ e ∈ rest, e.IsPlain) : (Built.mk [] rest h).IsCanonical openTags :=
  ⟨Node.areCanonical_nil, fun _ hf ↦ absurd hf List.not_mem_nil, hrest⟩

/-- An element in front that the innermost open element admits. -/
theorem element {e : Element} (hb : (Built.mk nodes rest h).IsCanonical openTags) (he : e.IsPlain)
    (hcs : Node.AreCanonical e.children)
    (hopen : ¬openTags.head?.any (closesImplicitly · e.tag) = true) :
    (Built.mk (.element e :: nodes) rest h').IsCanonical openTags := by
  refine ⟨?_, fun f hf ↦ ?_, hb.rest⟩
  · obtain ⟨tag, as, cs⟩ := e
    exact Node.areCanonical_cons_of_not_text (Node.isCanonical_element.mpr ⟨he, hcs⟩) rfl hb.nodes
  · rcases List.mem_cons.mp hf with hf | hf
    · cases hf
      rwa [Bool.not_eq_true] at hopen
    · exact hb.admitted f hf

end Built.IsCanonical

private theorem isCanonical_build {openTags : List String} {es : List Event}
    (h : ∀ e ∈ es, e.IsPlain) :
    (build openTags es).IsCanonical openTags := by
  fun_induction build openTags es with
  | case1 => exact Built.IsCanonical.nil h
  | case2 o tag es _ => exact Built.IsCanonical.nil fun e he ↦ h e (List.mem_cons_of_mem _ he)
  | case3 => exact Built.IsCanonical.nil h
  | case4 o tag es _ _ nodes rest _ hbuild ih =>
    have hb := ih fun e he ↦ h e (List.mem_cons_of_mem _ he)
    rw [hbuild] at hb
    exact ⟨hb.nodes, hb.admitted, hb.rest⟩
  | case5 o s es nodes rest _ hbuild ih =>
    have hb := ih fun e he ↦ h e (List.mem_cons_of_mem _ he)
    have hs := h _ List.mem_cons_self
    rw [hbuild] at hb
    exact ⟨areCanonical_consText hs hb.nodes, fun f hf ↦ hb.admitted f (element_mem_consText hf),
      hb.rest⟩
  | case6 o s es nodes rest _ hbuild ih =>
    have hb := ih fun e he ↦ h e (List.mem_cons_of_mem _ he)
    have hs := h _ List.mem_cons_self
    rw [hbuild] at hb
    refine ⟨Node.areCanonical_cons_of_not_text ?_ rfl hb.nodes, fun f hf ↦ ?_, hb.rest⟩
    · rwa [Node.IsCanonical]
    · rcases List.mem_cons.mp hf with hf | hf
      · cases hf
      · exact hb.admitted f hf
  | case7 o es nodes rest _ hbuild ih =>
    have hb := ih fun e he ↦ h e (List.mem_cons_of_mem _ he)
    rw [hbuild] at hb
    exact ⟨hb.nodes, hb.admitted, hb.rest⟩
  | case8 => exact Built.IsCanonical.nil h
  | case9 o tag as es hopen nodes rest _ hbuild ih =>
    have hb := ih fun e he ↦ h e (List.mem_cons_of_mem _ he)
    obtain ⟨htag, hnames, hnodup, -⟩ := h _ List.mem_cons_self
    rw [hbuild] at hb
    refine hb.element ⟨htag, hnames, hnodup, fun _ ↦ rfl, fun _ ↦ Or.inl rfl, ?_⟩
      Node.areCanonical_nil hopen
    exact fun f hf ↦ absurd hf List.not_mem_nil
  | case10 o tag as es hopen content nodes rest _ hbuild ih =>
    have hb := ih fun e he ↦ h e (List.mem_cons_of_mem _ he)
    have hplain := isPlain_element_raw (h _ List.mem_cons_self)
    rw [hbuild] at hb
    exact hb.element hplain (areCanonical_textChildren content) hopen
  | case11 o tag as es hopen children rest' _ hinner nodes rest _ houter ihinner ihouter =>
    -- the children are read with the element open, and what follows from where they end
    have hbi := ihinner fun e he ↦ h e (List.mem_cons_of_mem _ he)
    rw [hinner] at hbi
    have hbo := ihouter hbi.rest
    obtain ⟨htag, hnames, hnodup, hvoid, hraw⟩ := h _ List.mem_cons_self
    rw [houter] at hbo
    refine hbo.element ⟨htag, hnames, hnodup, fun hv ↦ ?_, fun hr ↦ ?_, hbi.admitted⟩ hbi.nodes
      hopen
    · rw [hvoid] at hv
      exact absurd hv Bool.false_ne_true
    · rw [hraw] at hr
      exact absurd hr Bool.false_ne_true

/-- **The nodes of a markup text are canonical.** -/
theorem areCanonical_parseNodes (s : List Char) : Node.AreCanonical (parseNodes s) :=
  (isCanonical_build fun _ he ↦ isPlain_of_mem_events he).nodes

/-- **The document of a markup text is a fragment of canonical nodes**, whatever the text is: so at
every depth, no fragment and no empty text is among the nodes, no two neighbours are both texts, and
comments, names and contents are such as can be written down. -/
theorem exists_areCanonical_of_parse (source : String) :
    ∃ ns, parse source = .fragment ns ∧ Node.AreCanonical ns :=
  ⟨parseNodes source.toList, rfl, areCanonical_parseNodes source.toList⟩

/-- Two texts may be siblings where they are no neighbours. -/
theorem exists_text_siblings : ∃ ns, parse "a<br>b" = .fragment ns ∧
    ¬ns.Pairwise fun m n ↦ ¬(m.isText = true ∧ n.isText = true) := by
  have hevents : events "a<br>b".toList = [.text "a", .startTag "br" [] .empty, .text "b"] := by
    decide +kernel
  refine ⟨[.text "a", .element ⟨"br", [], []⟩, .text "b"], ?_, fun h ↦ ?_⟩
  · rw [parse, parseNodes, hevents]
    simp only [build, consText]
    rfl
  · have htexts := (List.pairwise_cons.mp h).1 (.text "b") (by simp)
    exact htexts ⟨rfl, rfl⟩

end HtmlTemplate.Markup
