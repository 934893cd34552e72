import HtmlTemplate.Proofs.Markup.ReadBack
import HtmlTemplate.Proofs.Markup.Shape

/-!
# Reading undoes writing

The events that canonical nodes are written as are built into these nodes again, whatever is open
around them, as long as what follows does not continue them (`build_eventsAll`). Together with
`events_charsAll` this gives the round trip: a canonical tree is read back as it is, and because
what reading gives is canonical, a second round changes nothing.

## What does not continue a node

A text behind a text continues it, and so does anything behind an element that the element would
admit as long as it is open. The end tag closes the element, so only an element without an end tag
could be continued, and these have no children. What is left is the text at the end of a list.
-/

namespace HtmlTemplate.Markup

open Node (AreCanonical charsAll eventsAll)

/-! ## What building does with one event -/

variable (openTags : List String) (es : List Event)

theorem nodes_build_text (s : String) :
    (build openTags (.text s :: es)).nodes = consText s (build openTags es).nodes ∧
      (build openTags (.text s :: es)).rest = (build openTags es).rest := by
  rw [build]
  exact ⟨rfl, rfl⟩

theorem nodes_build_comment (s : String) :
    (build openTags (.comment s :: es)).nodes = .comment s :: (build openTags es).nodes ∧
      (build openTags (.comment s :: es)).rest = (build openTags es).rest := by
  rw [build]
  exact ⟨rfl, rfl⟩

theorem nodes_build_endTag (tag : String) :
    (build (tag :: openTags) (.endTag tag :: es)).nodes = [] ∧
      (build (tag :: openTags) (.endTag tag :: es)).rest = es := by
  rw [build, if_pos List.head?_cons]
  exact ⟨rfl, rfl⟩

variable {tag : String} (as : List Attribute)

theorem nodes_build_empty (h : openTags.head?.any (closesImplicitly · tag) = false) :
    (build openTags (.startTag tag as .empty :: es)).nodes =
        .element ⟨tag, as, []⟩ :: (build openTags es).nodes ∧
      (build openTags (.startTag tag as .empty :: es)).rest = (build openTags es).rest := by
  rw [build, if_neg (by rw [h]; exact Bool.false_ne_true)]
  exact ⟨rfl, rfl⟩

theorem nodes_build_raw (content : String)
    (h : openTags.head?.any (closesImplicitly · tag) = false) :
    (build openTags (.startTag tag as (.raw content) :: es)).nodes =
        .element ⟨tag, as, Node.textChildren content⟩ :: (build openTags es).nodes ∧
      (build openTags (.startTag tag as (.raw content) :: es)).rest = (build openTags es).rest := by
  rw [build, if_neg (by rw [h]; exact Bool.false_ne_true)]
  exact ⟨rfl, rfl⟩

theorem nodes_build_opens (h : openTags.head?.any (closesImplicitly · tag) = false) :
    (build openTags (.startTag tag as .opens :: es)).nodes =
        .element ⟨tag, as, (build (tag :: openTags) es).nodes⟩ ::
          (build openTags (build (tag :: openTags) es).rest).nodes ∧
      (build openTags (.startTag tag as .opens :: es)).rest =
        (build openTags (build (tag :: openTags) es).rest).rest := by
  rw [build, if_neg (by rw [h]; exact Bool.false_ne_true)]
  exact ⟨rfl, rfl⟩

/-! ## Building undoes the events -/

theorem consText_of_not_text {s : String} {ns : List Node} (h : ¬ns.head?.any Node.isText = true) :
    consText s ns = .text s :: ns := by
  unfold consText
  split
  · exact absurd rfl h
  · rfl

theorem textChildren_innerTextAll {e : Element} (h : e.IsPlain) (hcs : AreCanonical e.children)
    (hraw : isRawTextTag e.tag = true) :
    Node.textChildren (Node.innerTextAll e.children) = e.children := by
  rcases h.raw hraw with he | ⟨s, he, -⟩
  · rw [he, Node.innerTextAll]
    rfl
  · rw [he] at hcs ⊢
    have hs := (Node.areCanonical_cons.mp hcs).1
    rw [Node.IsCanonical] at hs
    rw [Node.innerTextAll, Node.innerTextAll, Node.innerText, String.append_empty,
      Node.textChildren, if_neg (fun hempty ↦ hs (String.isEmpty_iff.mp hempty))]

/-- **Building gives back the nodes that the events were written from**, and leaves what follows
them as it would be left alone, if that begins with nothing that is built here. -/
theorem build_eventsAll {ns : List Node} : ∀ {openTags : List String} {es : List Event},
    AreCanonical ns →
    (∀ f : Element, .element f ∈ ns → openTags.head?.any (closesImplicitly · f.tag) = false) →
    (build openTags es).nodes = [] →
    (build openTags (eventsAll ns ++ es)).nodes = ns ∧
      (build openTags (eventsAll ns ++ es)).rest = (build openTags es).rest := by
  induction ns using Node.forestInduction with
  | nil =>
    intro o es _ _ hes
    rw [eventsAll, List.nil_append]
    exact ⟨hes, rfl⟩
  | text s ns ih =>
    intro o es h hadmit hes
    obtain ⟨-, hnext, hns⟩ := Node.areCanonical_cons.mp h
    obtain ⟨hnodes, hrest⟩ := ih hns (fun f hf ↦ hadmit f (List.mem_cons_of_mem _ hf)) hes
    -- no text follows, so the one that is built stays apart
    have htext := nodes_build_text o (eventsAll ns ++ es) s
    rw [eventsAll, Node.events, List.append_assoc, List.singleton_append, htext.1, htext.2, hnodes,
      consText_of_not_text fun hany ↦ hnext ⟨rfl, hany⟩]
    exact ⟨rfl, hrest⟩
  | comment s ns ih =>
    intro o es h hadmit hes
    obtain ⟨-, -, hns⟩ := Node.areCanonical_cons.mp h
    obtain ⟨hnodes, hrest⟩ := ih hns (fun f hf ↦ hadmit f (List.mem_cons_of_mem _ hf)) hes
    have hcomment := nodes_build_comment o (eventsAll ns ++ es) s
    rw [eventsAll, Node.events, List.append_assoc, List.singleton_append, hcomment.1, hcomment.2,
      hnodes]
    exact ⟨rfl, hrest⟩
  | element tag as cs ns ihcs ihns =>
    intro o es h hadmit hes
    obtain ⟨hn, -, hns⟩ := Node.areCanonical_cons.mp h
    obtain ⟨he, hcs⟩ := Node.isCanonical_element.mp hn
    have hopen : o.head?.any (closesImplicitly · tag) = false := hadmit _ List.mem_cons_self
    obtain ⟨hnodes, hrest⟩ := ihns hns (fun f hf ↦ hadmit f (List.mem_cons_of_mem _ hf)) hes
    rw [eventsAll, Node.events, List.append_assoc]
    by_cases hvoid : isVoidTag tag = true
    · have hempty := nodes_build_empty o (eventsAll ns ++ es) as hopen
      rw [Element.events, if_pos hvoid, List.singleton_append, hempty.1, hempty.2, hnodes,
        ← he.void hvoid]
      exact ⟨rfl, hrest⟩
    by_cases hraw : isRawTextTag tag = true
    · have htext := nodes_build_raw o (eventsAll ns ++ es) as (Node.innerTextAll cs) hopen
      have hback := textChildren_innerTextAll he hcs hraw
      dsimp only at hback
      rw [Element.events, if_neg hvoid, if_pos hraw, List.singleton_append, htext.1, htext.2,
        hnodes, hback]
      exact ⟨rfl, hrest⟩
    -- the end tag ends the children, which are read with the element open
    have hend := nodes_build_endTag o (eventsAll ns ++ es) tag
    have hadmitted : ∀ f : Element, .element f ∈ cs →
        (tag :: o).head?.any (closesImplicitly · f.tag) = false := he.admitted
    obtain ⟨hchildren, hbehind⟩ := ihcs hcs hadmitted hend.1
    have hopens := nodes_build_opens o
      (eventsAll cs ++ .endTag tag :: (eventsAll ns ++ es)) as hopen
    rw [Element.events, if_neg hvoid, if_neg hraw, List.cons_append, List.append_assoc,
      List.singleton_append, hopens.1, hopens.2, hchildren, hbehind, hend.2, hnodes]
    exact ⟨rfl, hrest⟩
  | fragment cs ns _ _ =>
    intro o es h
    exact absurd (Node.areCanonical_cons.mp h).1 (by rw [Node.IsCanonical]; exact id)

/-! ## The round trip -/

theorem parseNodes_charsAll {ns : List Node} (h : AreCanonical ns) :
    parseNodes (charsAll false ns) = ns := by
  have hnil : (build [] []).nodes = [] := by rw [build]
  have hevents := events_charsAll (t := []) h (Or.inl rfl)
  have hbuild := (build_eventsAll h (fun _ _ ↦ rfl) hnil).1
  rw [List.append_nil, events, List.append_nil] at hevents
  rw [List.append_nil] at hbuild
  rw [parseNodes, hevents, hbuild]

theorem parse_element {e : Element} {source : String} (he : e.IsPlain)
    (hchildren : AreCanonical e.children) (hsource : source.toList = charsAll false [.element e]) :
    parse source = .fragment [.element e] := by
  have hcanonical : AreCanonical [.element e] :=
    Node.areCanonical_cons_of_not_text (Node.isCanonical_element.mpr ⟨he, hchildren⟩) rfl
      Node.areCanonical_nil
  rw [parse, hsource, parseNodes_charsAll hcanonical]

theorem parse_toHtml_canonical {ns : List Node} (h : AreCanonical ns) :
    parse (Node.fragment ns).toHtml = .fragment ns := by
  rw [parse, Node.toHtml, Node.chars, String.toList_ofList, parseNodes_charsAll h]

/-- **Reading undoes writing.** A canonical list of nodes is read back as it is from its compact
markup; so writing what was read from any text, and reading it again, changes nothing. -/
theorem parse_toHtml :
    (∀ ns : List Node, AreCanonical ns → parse (Node.fragment ns).toHtml = .fragment ns) ∧
      ∀ s : String, parse (parse s).toHtml = parse s :=
  ⟨fun _ h ↦ parse_toHtml_canonical h,
    fun s ↦ parse_toHtml_canonical (areCanonical_parseNodes s.toList)⟩

/-- A list with an item, a comment that ends like one, and a script with markup in its text. -/
theorem parse_toHtml_list :
    let ns : List Node := [
      .element ⟨"ul", [⟨"title", "a \"b\" & c"⟩], [.element ⟨"li", [], [.text "1 < 2"]⟩]⟩,
      .comment "--", .element ⟨"script", [], [.text "if (a </b>)"]⟩]
    AreCanonical ns ∧ parse (Node.fragment ns).toHtml = .fragment ns := by
  intro ns
  have hli : Element.IsPlain ⟨"li", [], [.text "1 < 2"]⟩ :=
    ⟨.of_all rfl rfl rfl, by simp, by decide, by decide,
      fun h ↦ absurd h (by decide), by simp⟩
  have hul : Element.IsPlain ⟨"ul", [⟨"title", "a \"b\" & c"⟩],
      [.element ⟨"li", [], [.text "1 < 2"]⟩]⟩ :=
    ⟨.of_all rfl rfl rfl, by simp [IsPlainName]; decide, by decide, by decide,
      fun h ↦ absurd h (by decide), by simp [closesImplicitly]⟩
  have hscript : Element.IsPlain ⟨"script", [], [.text "if (a </b>)"]⟩ :=
    ⟨.of_all rfl rfl rfl, by simp, by decide, by decide,
      fun _ ↦ Or.inr ⟨_, rfl, by decide⟩, by simp⟩
  have hns : AreCanonical ns := by
    simp [ns, Node.areCanonical_cons, Node.IsCanonical, Element.IsCanonical, Node.isText, hli, hul,
      hscript]
    decide
  exact ⟨hns, parse_toHtml.1 ns hns⟩

end HtmlTemplate.Markup
