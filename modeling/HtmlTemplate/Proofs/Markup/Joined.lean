import HtmlTemplate.Proofs.Markup.RoundTrip

/-!
# Texts that are joined

A tree may hold empty texts and texts next to each other, which reading never gives. Written as
markup, an empty text is nothing and neighbouring texts are one, so a tree is written like the
joined one, which has neither (`charsAll_joinedAll`). Joining leaves everything apart from the texts
as it is (`withoutTextsAll_joinedAll`), and gives a canonical list whenever the nodes allow for one
(`areCanonical_joinedAll`).

## Joining in one pass

A list is joined from the end: a node is put in front of what is joined already, where it meets a
text if the next node is one. So a run of texts is joined one by one, and that the order does not
matter is not needed.
-/

namespace HtmlTemplate

/-- The nodes behind a node: a text joins a text that follows it, and an empty one is left out. -/
def Node.joinCons : Node → List Node → List Node
  | .text s, ns => if s.isEmpty then ns else Markup.consText s ns
  | n, ns => n :: ns

mutual

def Node.joined : Node → Node
  | .element e => .element e.joined
  | .text s => .text s
  | .comment s => .comment s
  | .fragment cs => .fragment (Node.joinedAll cs)

def Element.joined : Element → Element
  | ⟨tag, as, cs⟩ => ⟨tag, as, Node.joinedAll cs⟩

/-- The nodes without the empty texts, and with one text for every run of texts that are neighbours
then. -/
def Node.joinedAll : List Node → List Node
  | [] => []
  | n :: ns => Node.joinCons n.joined (Node.joinedAll ns)

end

mutual

/-- The node without the texts inside it. -/
def Node.withoutTexts : Node → Node
  | .element e => .element e.withoutTexts
  | .text s => .text s
  | .comment s => .comment s
  | .fragment cs => .fragment (Node.withoutTextsAll cs)

def Element.withoutTexts : Element → Element
  | ⟨tag, as, cs⟩ => ⟨tag, as, Node.withoutTextsAll cs⟩

def Node.withoutTextsAll : List Node → List Node
  | [] => []
  | n :: ns =>
    if n.isText then Node.withoutTextsAll ns else n.withoutTexts :: Node.withoutTextsAll ns

end

theorem Element.joined_eq (e : Element) :
    e.joined = { e with children := Node.joinedAll e.children } := by
  cases e
  rfl

namespace Node

theorem joinCons_of_not_text {n : Node} {ns : List Node} (h : n.isText = false) :
    joinCons n ns = n :: ns := by
  cases n with
  | text s => exact absurd h Bool.noConfusion
  | _ => rfl

@[simp] theorem isText_joined (n : Node) : n.joined.isText = n.isText := by
  cases n <;> rw [joined] <;> rfl

/-! ## Joined nodes are written alike -/

private theorem charsAll_consText (raw : Bool) (s : String) (ns : List Node) :
    charsAll raw (Markup.consText s ns) = chars raw (.text s) ++ charsAll raw ns := by
  unfold Markup.consText
  split
  · rename_i t ns
    rw [charsAll, charsAll, chars, chars, chars]
    cases raw with
    | true => simp
    | false => simp [Entity.escapeText]
  · rw [charsAll]

private theorem charsAll_joinCons (raw : Bool) (n : Node) (ns : List Node) :
    charsAll raw (joinCons n ns) = chars raw n ++ charsAll raw ns := by
  cases n with
  | text s =>
    rw [joinCons]
    split_ifs with hs
    · rw [String.isEmpty_iff.mp hs, chars]
      cases raw <;> rfl
    · exact charsAll_consText raw s ns
  | _ => rw [joinCons_of_not_text rfl, charsAll]

theorem charsAll_joinedAll (ns : List Node) (raw : Bool) :
    charsAll raw (joinedAll ns) = charsAll raw ns := by
  induction ns using forestInduction generalizing raw with
  | nil => rw [joinedAll]
  | text s ns ih => rw [joinedAll, charsAll_joinCons, joined, ih, charsAll]
  | comment s ns ih => rw [joinedAll, charsAll_joinCons, joined, ih, charsAll]
  | element tag as cs ns ihcs ihns =>
    rw [joinedAll, charsAll_joinCons, joined, Element.joined, ihns, charsAll, chars, chars,
      elementChars, elementChars, ihcs]
  | fragment cs ns ihcs ihns =>
    rw [joinedAll, charsAll_joinCons, joined, ihns, charsAll, chars, chars, ihcs]

/-! ## Joining is about texts only -/

private theorem withoutTextsAll_joinCons (n : Node) (ns : List Node) :
    withoutTextsAll (joinCons n ns) =
      if n.isText then withoutTextsAll ns else n.withoutTexts :: withoutTextsAll ns := by
  cases n with
  | text s =>
    rw [joinCons, isText, if_pos rfl]
    split_ifs
    · rfl
    · unfold Markup.consText
      split <;> simp [withoutTextsAll, isText]
  | _ => rw [joinCons_of_not_text rfl, withoutTextsAll]

theorem withoutTextsAll_joinedAll (ns : List Node) :
    withoutTextsAll (joinedAll ns) = withoutTextsAll ns := by
  induction ns using forestInduction with
  | nil => rw [joinedAll]
  | text s ns ih =>
    rw [joinedAll, withoutTextsAll_joinCons, isText_joined, ih, withoutTextsAll, joined]
  | comment s ns ih =>
    rw [joinedAll, withoutTextsAll_joinCons, isText_joined, ih, withoutTextsAll, joined]
  | element tag as cs ns ihcs ihns =>
    rw [joinedAll, withoutTextsAll_joinCons, isText_joined, ihns, withoutTextsAll, joined,
      Element.joined, withoutTexts, withoutTexts, Element.withoutTexts, Element.withoutTexts, ihcs]
  | fragment cs ns ihcs ihns =>
    rw [joinedAll, withoutTextsAll_joinCons, isText_joined, ihns, withoutTextsAll, joined,
      withoutTexts, withoutTexts, ihcs]

/-! ## Joined nodes are canonical

Joining makes no element, so what canonical nodes ask of the elements has to hold already. -/

theorem exists_of_element_mem_joinedAll {ns : List Node} {f : Element}
    (h : .element f ∈ joinedAll ns) :
    ∃ e, .element e ∈ ns ∧ f = e.joined := by
  induction ns with
  | nil => exact absurd h List.not_mem_nil
  | cons n ns ih =>
    have hbehind (h : .element f ∈ joinedAll ns) : ∃ e, .element e ∈ n :: ns ∧ f = e.joined := by
      obtain ⟨e, he, hf⟩ := ih h
      exact ⟨e, List.mem_cons_of_mem n he, hf⟩
    rw [joinedAll] at h
    by_cases ht : n.isText = true
    · cases n with
      | text s =>
        rw [joined, joinCons] at h
        split_ifs at h
        · exact hbehind h
        · exact hbehind (Markup.element_mem_consText h)
      | _ => exact absurd ht Bool.false_ne_true
    · rw [joinCons_of_not_text (by rwa [isText_joined, ← Bool.not_eq_true])] at h
      rcases List.mem_cons.mp h with h | h
      · cases n with
        | element e =>
          rw [joined] at h
          exact ⟨e, List.mem_cons_self, Node.element.inj h⟩
        | _ =>
          rw [joined] at h
          exact nomatch h
      · exact hbehind h

theorem areCanonical_joinedAll {ns : List Node}
    (h : ∀ n ∈ ns, n.isText = true ∨ n.joined.IsCanonical) : AreCanonical (joinedAll ns) := by
  induction ns with
  | nil =>
    rw [joinedAll]
    exact areCanonical_nil
  | cons n ns ih =>
    have hns := ih fun m hm ↦ h m (List.mem_cons_of_mem n hm)
    rw [joinedAll]
    by_cases ht : n.isText = true
    · cases n with
      | text s =>
        rw [joined, joinCons]
        split_ifs with hs
        · exact hns
        · exact Markup.areCanonical_consText (fun he ↦ hs (String.isEmpty_iff.mpr he)) hns
      | _ => exact absurd ht Bool.false_ne_true
    · have hjoined : n.joined.isText = false := by rwa [isText_joined, ← Bool.not_eq_true]
      rw [joinCons_of_not_text hjoined]
      exact areCanonical_cons_of_not_text ((h n List.mem_cons_self).resolve_left ht) hjoined hns

theorem joinedAll_of_areCanonical {ns : List Node} (h : AreCanonical ns) : joinedAll ns = ns := by
  induction ns using forestInduction with
  | nil => rw [joinedAll]
  | text s ns ih =>
    obtain ⟨hs, hnext, hns⟩ := areCanonical_cons.mp h
    rw [IsCanonical] at hs
    rw [joinedAll, ih hns, joined, joinCons, if_neg fun he ↦ hs (String.isEmpty_iff.mp he),
      Markup.consText_of_not_text fun hany ↦ hnext ⟨rfl, hany⟩]
  | comment s ns ih =>
    rw [joinedAll, ih (areCanonical_cons.mp h).2.2, joined, joinCons_of_not_text rfl]
  | element tag as cs ns ihcs ihns =>
    obtain ⟨hn, -, hns⟩ := areCanonical_cons.mp h
    rw [joinedAll, ihns hns, joined, Element.joined, ihcs (isCanonical_element.mp hn).2,
      joinCons_of_not_text rfl]
  | fragment cs ns _ _ =>
    exact absurd (areCanonical_cons.mp h).1 (by rw [IsCanonical]; exact id)

end Node

/-- What can be joined to canonical nodes is read back as joined. -/
theorem Markup.parse_toHtml_joined {ns : List Node} (h : Node.AreCanonical (Node.joinedAll ns)) :
    parse (Node.fragment ns).toHtml = (Node.fragment ns).joined := by
  rw [parse, Node.toHtml, Node.chars, String.toList_ofList, ← Node.charsAll_joinedAll,
    parseNodes_charsAll h, Node.joined]

end HtmlTemplate
