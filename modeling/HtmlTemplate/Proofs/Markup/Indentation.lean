import HtmlTemplate.Proofs.Markup.Joined
import HtmlTemplate.Proofs.Text.Trimming

/-!
# Indented markup

The indented form of a tree is the compact form of another one, which has blank texts between its
nodes (`charsAll_paddedAll`). So it is read back as that tree with neighbouring texts joined, and
what is left to see is that the blank texts are all that is new: without blanks around texts, the
padded tree is the tree (`strippedAll_paddedAll`).

Padding stays out of void elements, and of elements that hold text only. This takes in the elements
with raw content, in which blanks would count as content and would be written without escapes.

## The invariant

Where a text of a canonical list was padded, no other text of the list follows, so that the text is
joined to blank ones only. The induction carries this along: the texts that stand in front of what
follows a text are blank (`Node.StartsBlank`).

## Stripping

What indentation may change is the blanks around texts, so trees are compared after these are taken
off (`Node.stripped`): every text is trimmed, and one that becomes empty is left out. A text between
two lines is joined to the blanks on both sides of it when it is read, and trimming takes them off
again.
-/

namespace HtmlTemplate

open Text (isAllBlank trim trimmed)

/-! ## Trees without blanks around texts -/

/-- Is the node a text that nothing is left of once it is trimmed? -/
def Node.isBlankText : Node → Bool
  | .text s => (trim s.toList).isEmpty
  | _ => false

mutual

/-- The node with its texts trimmed, and without those inside that become empty. -/
def Node.stripped : Node → Node
  | .element e => .element e.stripped
  | .text s => .text (trimmed s)
  | .comment s => .comment s
  | .fragment cs => .fragment (Node.strippedAll cs)

def Element.stripped : Element → Element
  | ⟨tag, as, cs⟩ => ⟨tag, as, Node.strippedAll cs⟩

def Node.strippedAll : List Node → List Node
  | [] => []
  | n :: ns =>
    if n.isBlankText then Node.strippedAll ns else n.stripped :: Node.strippedAll ns

end

/-! ## Trees with blanks between nodes

Padding follows the printer of the indented form, one definition for each of its own. -/

def Node.indentText (depth : Nat) : Node := .text (String.ofList (indent depth))

def Node.lineEnd : Node := .text "\n"

mutual

def Node.padded (depth : Nat) : Node → List Node
  | .element e => [Node.indentText depth, .element (e.padded depth), Node.lineEnd]
  | .text s =>
    let t := trim s.toList
    if t.isEmpty then [] else [.text (String.ofList (Node.line depth t))]
  | .comment s => [Node.indentText depth, .comment s, Node.lineEnd]
  | .fragment cs => Node.paddedAll depth cs

def Element.padded (depth : Nat) : Element → Element
  | ⟨tag, as, cs⟩ =>
    if isVoidTag tag || cs.all Node.isText then ⟨tag, as, cs⟩
    else ⟨tag, as, Node.lineEnd :: (Node.paddedAll (depth + 1) cs ++ [Node.indentText depth])⟩

def Node.paddedAll (depth : Nat) : List Node → List Node
  | [] => []
  | n :: ns => n.padded depth ++ Node.paddedAll depth ns

end

namespace Node

/-! ## The indented form is a compact form

Blanks need no escapes, so the text of a line's indentation is what is written for it. -/

theorem escapeText_indent (depth : Nat) : Entity.escapeText (indent depth) = indent depth := by
  have hspace : Entity.escapeTextChar ' ' = [' '] := by decide
  rw [indent, Entity.escapeText, List.flatMap_replicate, hspace, List.flatten_replicate_singleton]

theorem chars_indentText (depth : Nat) : chars false (indentText depth) = indent depth := by
  rw [indentText, chars, if_neg Bool.false_ne_true, String.toList_ofList, escapeText_indent]

private theorem chars_lineEnd : chars false lineEnd = ['\n'] := by
  rw [lineEnd, chars, if_neg Bool.false_ne_true]
  decide

private theorem escapeText_line (depth : Nat) (s : List Char) :
    Entity.escapeText (line depth s) = line depth (Entity.escapeText s) := by
  rw [line, line, Entity.escapeText, List.flatMap_append, List.flatMap_append, ← Entity.escapeText,
    ← Entity.escapeText, ← Entity.escapeText, escapeText_indent]
  rfl

theorem not_isRawTextTag {e : Element} (he : e.IsPlain) (h : e.children.all isText = false) :
    isRawTextTag e.tag = false := by
  rw [← Bool.not_eq_true]
  intro hraw
  rcases he.raw hraw with hcs | ⟨s, hcs, -⟩
  · rw [hcs] at h
    exact absurd h (by decide)
  · rw [hcs] at h
    exact absurd h (by simp [isText])

/-- **The indented form is the compact form of the padded nodes.** -/
theorem charsAll_paddedAll {ns : List Node} (h : AreCanonical ns) (depth : Nat) :
    charsAll false (paddedAll depth ns) = prettyAll depth ns := by
  induction ns using forestInduction generalizing depth with
  | nil => rw [paddedAll, charsAll, prettyAll]
  | text s ns ih =>
    rw [paddedAll, charsAll_append, ih (areCanonical_cons.mp h).2.2, prettyAll, padded, prettyChars]
    split_ifs
    · rw [charsAll]
    · rw [charsAll, charsAll, List.append_nil, chars, if_neg Bool.false_ne_true,
        String.toList_ofList, escapeText_line]
  | comment s ns ih =>
    rw [paddedAll, charsAll_append, ih (areCanonical_cons.mp h).2.2, prettyAll, padded, prettyChars,
      line]
    simp only [charsAll, chars_indentText, chars_lineEnd, chars, List.append_nil, List.append_assoc]
  | element tag as cs ns ihcs ihns =>
    obtain ⟨hn, -, hns⟩ := areCanonical_cons.mp h
    obtain ⟨he, hcs⟩ := isCanonical_element.mp hn
    rw [paddedAll, charsAll_append, ihns hns, prettyAll, padded, prettyChars, Element.padded,
      prettyElement]
    split_ifs with hcompact
    · rw [line]
      simp only [charsAll, chars_indentText, chars_lineEnd, chars, List.append_nil,
        List.append_assoc]
    · rw [Bool.or_eq_true, not_or, Bool.not_eq_true, Bool.not_eq_true] at hcompact
      have hraw := not_isRawTextTag he hcompact.2
      simp only [line, charsAll, charsAll_append, ihcs hcs, chars_indentText, chars_lineEnd, chars,
        elementChars, hraw, hcompact.1, List.append_nil, List.append_assoc, Bool.false_eq_true,
        if_false, List.cons_append, List.nil_append]
  | fragment cs ns _ _ =>
    exact absurd (areCanonical_cons.mp h).1 (by rw [IsCanonical]; exact id)

/-! ## Padded nodes are read back -/

private theorem tag_padded (e : Element) (depth : Nat) : (e.padded depth).tag = e.tag := by
  obtain ⟨tag, as, cs⟩ := e
  rw [Element.padded]
  split_ifs <;> rfl

private theorem exists_of_element_mem_paddedAll {ns : List Node} (h : AreCanonical ns) {depth : Nat}
    {f : Element} (hf : .element f ∈ paddedAll depth ns) :
    ∃ e, .element e ∈ ns ∧ f = e.padded depth := by
  induction ns with
  | nil => exact absurd hf List.not_mem_nil
  | cons n ns ih =>
    obtain ⟨hn, -, hns⟩ := areCanonical_cons.mp h
    rw [paddedAll, List.mem_append] at hf
    rcases hf with hf | hf
    · cases n with
      | element e =>
        simp only [padded, indentText, lineEnd, List.mem_cons, List.not_mem_nil, or_false,
          reduceCtorEq, false_or, element.injEq] at hf
        exact ⟨e, List.mem_cons_self, hf⟩
      | text s =>
        rw [padded] at hf
        split_ifs at hf <;> simp at hf
      | comment s => simp [padded, indentText, lineEnd] at hf
      | fragment cs => exact absurd hn (by rw [IsCanonical]; exact id)
    · obtain ⟨e, he, rfl⟩ := ih hns hf
      exact ⟨e, List.mem_cons_of_mem n he, rfl⟩

theorem isCanonical_padded {e : Element} (h : (Node.element e).IsCanonical) {depth : Nat}
    (hchildren : ∀ n ∈ paddedAll (depth + 1) e.children, n.isText = true ∨ n.joined.IsCanonical) :
    (Node.element (e.padded depth)).joined.IsCanonical := by
  obtain ⟨he, hcs⟩ := isCanonical_element.mp h
  obtain ⟨tag, as, cs⟩ := e
  rw [joined, Element.padded]
  split_ifs with hcompact
  · rwa [Element.joined, joinedAll_of_areCanonical hcs]
  rw [Bool.or_eq_true, not_or, Bool.not_eq_true, Bool.not_eq_true] at hcompact
  have hraw := not_isRawTextTag he hcompact.2
  have hpadded : ∀ n ∈ lineEnd :: (paddedAll (depth + 1) cs ++ [indentText depth]),
      n.isText = true ∨ n.joined.IsCanonical := by
    rw [List.forall_mem_cons, List.forall_mem_append]
    exact ⟨Or.inl rfl, hchildren, List.forall_mem_singleton.mpr (Or.inl rfl)⟩
  refine isCanonical_element.mpr ⟨?_, areCanonical_joinedAll hpadded⟩
  refine ⟨he.tag, he.names, he.nodup, fun hvoid ↦ ?_, fun hrawtag ↦ ?_, fun f hf ↦ ?_⟩
  · exact absurd (hcompact.1.symm.trans hvoid) Bool.false_ne_true
  · exact absurd (hraw.symm.trans hrawtag) Bool.false_ne_true
  · -- the elements inside are the children, padded, with the tags of the children
    obtain ⟨g, hg, rfl⟩ := exists_of_element_mem_joinedAll hf
    have hmem : .element g ∈ paddedAll (depth + 1) cs := by
      simpa [lineEnd, indentText] using hg
    obtain ⟨child, hchild, rfl⟩ := exists_of_element_mem_paddedAll hcs hmem
    have htag : (child.padded (depth + 1)).joined.tag = child.tag := by
      rw [Element.joined_eq, tag_padded]
    rw [htag]
    exact he.admitted child hchild

theorem isCanonical_joined_of_mem_paddedAll {ns : List Node} (h : AreCanonical ns) (depth : Nat) :
    ∀ n ∈ paddedAll depth ns, n.isText = true ∨ n.joined.IsCanonical := by
  induction ns using forestInduction generalizing depth with
  | nil =>
    rw [paddedAll]
    exact List.forall_mem_nil _
  | text s ns ih =>
    rw [paddedAll, padded, List.forall_mem_append]
    refine ⟨?_, ih (areCanonical_cons.mp h).2.2 depth⟩
    split_ifs
    · exact List.forall_mem_nil _
    · exact List.forall_mem_singleton.mpr (Or.inl rfl)
  | comment s ns ih =>
    obtain ⟨hn, -, hns⟩ := areCanonical_cons.mp h
    rw [paddedAll, padded, List.forall_mem_append]
    refine ⟨?_, ih hns depth⟩
    simp only [List.forall_mem_cons]
    exact ⟨Or.inl rfl, Or.inr (by rwa [joined]), Or.inl rfl, List.forall_mem_nil _⟩
  | element tag as cs ns ihcs ihns =>
    obtain ⟨hn, -, hns⟩ := areCanonical_cons.mp h
    have hchildren := ihcs (isCanonical_element.mp hn).2 (depth + 1)
    rw [paddedAll, padded, List.forall_mem_append]
    refine ⟨?_, ihns hns depth⟩
    simp only [List.forall_mem_cons]
    exact ⟨Or.inl rfl, Or.inr (isCanonical_padded hn hchildren), Or.inl rfl, List.forall_mem_nil _⟩
  | fragment cs ns _ _ =>
    exact absurd (areCanonical_cons.mp h).1 (by rw [IsCanonical]; exact id)

/-! ## Blanks around texts are all that is new -/

/-- Is the first node a text of blanks, if it is a text? -/
def StartsBlank (ns : List Node) : Prop :=
  ∀ s, ns.head? = some (.text s) → isAllBlank s.toList = true

theorem isBlankText_iff {s : String} :
    (Node.text s).isBlankText = true ↔ isAllBlank s.toList = true := by
  rw [isBlankText, List.isEmpty_iff, Text.trim_eq_nil_iff]

theorem strippedAll_text_of_blank {s : String} (h : isAllBlank s.toList = true) (ns : List Node) :
    strippedAll (.text s :: ns) = strippedAll ns := by
  rw [strippedAll, if_pos (isBlankText_iff.mpr h)]

theorem strippedAll_text_congr {s t : String} (h : trim s.toList = trim t.toList) (ns : List Node) :
    strippedAll (.text s :: ns) = strippedAll (.text t :: ns) := by
  rw [strippedAll, strippedAll, isBlankText, isBlankText, stripped, stripped, trimmed, trimmed, h]

theorem strippedAll_of_not_text {n : Node} (h : n.isText = false) (ns : List Node) :
    strippedAll (n :: ns) = n.stripped :: strippedAll ns := by
  cases n with
  | text s => exact absurd h Bool.noConfusion
  | _ => exact if_neg Bool.false_ne_true

/-- Blanks in front of nodes are of no account, whether they are joined to a text or not. -/
theorem strippedAll_joinCons_blank {s : String} (h : isAllBlank s.toList = true) (ns : List Node) :
    strippedAll (joinCons (.text s) ns) = strippedAll ns := by
  rw [joinCons]
  split_ifs with hs
  · rfl
  · unfold Markup.consText
    split
    · rename_i t ns
      refine strippedAll_text_congr ?_ ns
      have htrim := Text.trim_between (s := t.toList) h (b := []) rfl
      rwa [List.append_nil, ← String.toList_append] at htrim
    · exact strippedAll_text_of_blank h ns

theorem strippedAll_joinCons_text {ns : List Node} (h : StartsBlank ns) (s : String) :
    strippedAll (joinCons (.text s) ns) = strippedAll (.text s :: ns) := by
  rw [joinCons]
  split_ifs with hs
  · rw [String.isEmpty_iff.mp hs, strippedAll_text_of_blank rfl]
  · unfold Markup.consText
    split
    · rename_i t ns
      have ht := h t rfl
      have htrim := Text.trim_between (a := []) (s := s.toList) rfl ht
      rw [List.nil_append, ← String.toList_append] at htrim
      rw [strippedAll_text_congr htrim, strippedAll, strippedAll, strippedAll_text_of_blank ht]
    · rfl

theorem startsBlank_joinCons {s : String} {ns : List Node} (hs : isAllBlank s.toList = true)
    (h : StartsBlank ns) : StartsBlank (joinCons (.text s) ns) := by
  rw [joinCons]
  split_ifs
  · exact h
  · unfold Markup.consText
    split
    · rename_i t ns
      rintro _ ⟨⟩
      rw [String.toList_append, isAllBlank, List.all_append, Bool.and_eq_true]
      exact ⟨hs, h t rfl⟩
    · rintro _ ⟨⟩
      exact hs

theorem startsBlank_nil : StartsBlank [] := by
  rintro s ⟨⟩

private theorem startsBlank_of_not_text {n : Node} (h : n.isText = false) (ns : List Node) :
    StartsBlank (n :: ns) := by
  rintro s ⟨⟩
  exact absurd h Bool.noConfusion

theorem isAllBlank_indent (depth : Nat) : isAllBlank (indent depth) = true := by
  rw [indent, isAllBlank, List.all_eq_true]
  intro c hc
  rw [List.eq_of_mem_replicate hc]
  decide

theorem isAllBlank_indentText (depth : Nat) :
    isAllBlank (String.ofList (indent depth)).toList = true := by
  rw [String.toList_ofList, isAllBlank_indent]

/-- A node that is no text, with blanks around it and others behind. -/
theorem strippedAll_joinedAll_between {n : Node} (hn : n.isText = false) (depth : Nat)
    (ns : List Node) :
    strippedAll (joinedAll (indentText depth :: n :: lineEnd :: ns)) =
        n.joined.stripped :: strippedAll (joinedAll ns) ∧
      StartsBlank (joinedAll (indentText depth :: n :: lineEnd :: ns)) := by
  have hjoined : n.joined.isText = false := by rwa [isText_joined]
  have hbetween : joinedAll (indentText depth :: n :: lineEnd :: ns) =
      joinCons (indentText depth) (n.joined :: joinCons lineEnd (joinedAll ns)) := by
    rw [joinedAll, joinedAll, joinedAll, joinCons_of_not_text hjoined, indentText, lineEnd, joined,
      joined]
  rw [hbetween]
  constructor
  · rw [indentText, strippedAll_joinCons_blank (isAllBlank_indentText depth),
      strippedAll_of_not_text hjoined, lineEnd, strippedAll_joinCons_blank (by decide)]
  · exact startsBlank_joinCons (isAllBlank_indentText depth) (startsBlank_of_not_text hjoined _)

/-- **Without the blanks around texts, padded nodes are the nodes.** The nodes may stand in front of
others that nothing is left of. -/
theorem strippedAll_paddedAll {ns tail : List Node} (h : AreCanonical ns) (depth : Nat)
    (htail : strippedAll (joinedAll tail) = []) (hstart : StartsBlank (joinedAll tail)) :
    strippedAll (joinedAll (paddedAll depth ns ++ tail)) = strippedAll ns ∧
      (ns.head?.any isText = false → StartsBlank (joinedAll (paddedAll depth ns ++ tail))) := by
  induction ns using forestInduction generalizing depth tail with
  | nil =>
    rw [paddedAll, List.nil_append, strippedAll]
    exact ⟨htail, fun _ ↦ hstart⟩
  | text s ns ih =>
    obtain ⟨-, hnext, hns⟩ := areCanonical_cons.mp h
    obtain ⟨hstripped, hblank⟩ := ih hns depth htail hstart
    refine ⟨?_, fun htext ↦ absurd htext Bool.noConfusion⟩
    rw [paddedAll, padded]
    split_ifs with hs
    · rw [List.nil_append, hstripped, strippedAll_text_of_blank]
      rwa [← isBlankText_iff]
    · -- no text follows, so the blanks that were put around this one are joined to blanks only
      have hnone : ns.head?.any isText = false := by
        rw [← Bool.not_eq_true]
        exact fun hany ↦ hnext ⟨rfl, hany⟩
      have htrim : trim (String.ofList (line depth (trim s.toList))).toList = trim s.toList := by
        rw [String.toList_ofList, line, Text.trim_between (isAllBlank_indent depth) rfl,
          Text.trim_trim]
      rw [List.singleton_append, List.cons_append, joinedAll, joined,
        strippedAll_joinCons_text (hblank hnone), strippedAll_text_congr htrim, strippedAll,
        strippedAll, hstripped]
  | comment s ns ih =>
    -- a node that is no text separates the blanks in front of it from those behind it
    obtain ⟨hstripped, -⟩ := ih (areCanonical_cons.mp h).2.2 depth htail hstart
    have hbetween := strippedAll_joinedAll_between (n := .comment s) rfl depth
      (paddedAll depth ns ++ tail)
    rw [paddedAll, padded, List.append_assoc]
    refine ⟨hbetween.1.trans ?_, fun _ ↦ hbetween.2⟩
    rw [hstripped, strippedAll_of_not_text rfl, joined]
  | element tag as cs ns ihcs ihns =>
    obtain ⟨hn, -, hns⟩ := areCanonical_cons.mp h
    obtain ⟨-, hcs⟩ := isCanonical_element.mp hn
    obtain ⟨hstripped, -⟩ := ihns hns depth htail hstart
    have hbetween := strippedAll_joinedAll_between
      (n := .element (Element.padded depth ⟨tag, as, cs⟩)) rfl depth (paddedAll depth ns ++ tail)
    rw [paddedAll, padded, List.append_assoc]
    refine ⟨hbetween.1.trans ?_, fun _ ↦ hbetween.2⟩
    -- the line of the end tag is the tail that the children stand in front of
    have hinside : strippedAll (joinedAll (paddedAll (depth + 1) cs ++ [indentText depth])) =
        strippedAll cs := by
      have hlast : joinedAll [indentText depth] = joinCons (indentText depth) [] := by
        rw [joinedAll, joinedAll, indentText, joined]
      refine (ihcs hcs (depth + 1) ?_ ?_).1
      · rw [hlast, indentText, strippedAll_joinCons_blank (isAllBlank_indentText depth),
          strippedAll]
      · rw [hlast]
        exact startsBlank_joinCons (isAllBlank_indentText depth) startsBlank_nil
    rw [hstripped, strippedAll_of_not_text rfl, joined, stripped, stripped, Element.padded]
    split_ifs
    · rw [Element.joined, joinedAll_of_areCanonical hcs]
    · rw [Element.joined, Element.stripped, Element.stripped, joinedAll, lineEnd, joined,
        strippedAll_joinCons_blank (by decide), hinside]
  | fragment cs ns _ _ =>
    exact absurd (areCanonical_cons.mp h).1 (by rw [IsCanonical]; exact id)

end Node

namespace Markup

/-- Indented nodes are read back as the padded ones. -/
theorem parse_toPrettyHtml {ns : List Node} (h : Node.AreCanonical ns) :
    parse (Node.fragment ns).toPrettyHtml = .fragment (Node.joinedAll (Node.paddedAll 0 ns)) := by
  have hpretty :
      (Node.fragment ns).toPrettyHtml = (Node.fragment (Node.paddedAll 0 ns)).toHtml := by
    rw [Node.toPrettyHtml, Node.toHtml, Node.prettyChars, Node.chars, Node.charsAll_paddedAll h]
  have hcanonical : Node.AreCanonical (Node.joinedAll (Node.paddedAll 0 ns)) :=
    Node.areCanonical_joinedAll (Node.isCanonical_joined_of_mem_paddedAll h 0)
  rw [hpretty, parse_toHtml_joined hcanonical, Node.joined]

/-- **Indentation changes nothing but the blanks around texts.** The elements of a document, their
attributes and nesting, its comments and its texts apart from outer blanks are the same in what is
read from the indented form, from the compact form, and in the document itself. -/
theorem stripped_parse_toPrettyHtml (source : String) :
    (parse (parse source).toPrettyHtml).stripped = (parse source).stripped ∧
      (parse (parse source).toHtml).stripped = (parse source).stripped := by
  have hcanonical : Node.AreCanonical (parseNodes source.toList) := areCanonical_parseNodes _
  have hdocument : parse source = .fragment (parseNodes source.toList) := rfl
  have hnil : Node.joinedAll [] = [] := by rw [Node.joinedAll]
  constructor
  · have hpadded := @Node.strippedAll_paddedAll _ [] hcanonical 0
      (by rw [hnil, Node.strippedAll]) (by rw [hnil]; exact Node.startsBlank_nil)
    rw [List.append_nil] at hpadded
    rw [hdocument, parse_toPrettyHtml hcanonical, Node.stripped, Node.stripped, hpadded.1]
  · rw [hdocument, parse_toHtml_canonical hcanonical]

end Markup

end HtmlTemplate
