import HtmlTemplate.Proofs.Markup.Canonical
import HtmlTemplate.Proofs.Markup.Escaping

/-!
# Written markup is cut back into its events

The events of a tree are what its written form should be cut into. `events_charsAll` says that it
is, for a canonical tree and whatever follows, as long as a text at the end is not run on. Each part
of the written form has a lemma of its own: names, attributes, start tags, comments, raw content and
runs of text. What ends each of them cannot begin inside it.

## Whatever follows

Each lemma reads one written part in front of any text that does not run on into it, and leaves that
text. Where a part has an end mark of its own, such as a quote or a bracket, nothing is asked of
what follows. A name or a run of text has none, and ends where a character of another class stands.
-/

namespace HtmlTemplate.Markup

open Text (isBlank)

/-! ## Classes of characters -/

theorem isBlank_of_isAttributeChar {c : Char} (h : isAttributeChar c = true) :
    isBlank c = false := by
  rw [isAttributeChar, Bool.not_eq_true', Bool.or_eq_false_iff] at h
  exact h.1

theorem ne_of_isAttributeChar {c d : Char} (h : isAttributeChar c = true)
    (hd : isAttributeChar d = false) : c ≠ d := by
  rintro rfl
  rw [h] at hd
  exact absurd hd (by decide)

theorem ne_of_isTagChar {c d : Char} (h : isTagChar c = true) (hd : isTagChar d = false) :
    c ≠ d := by
  rintro rfl
  rw [h] at hd
  exact absurd hd (by decide)

/-! ## Tags

A tag of an element is written in lower case, and reading lowers it again. -/

section Tag

variable {tag : String} {d : Char}

theorem tagName_append (t : List Char) (h : IsPlainTag tag) (hd : isTagChar d = false) :
    tagName (tag.toList ++ d :: t) = tag := by
  rw [tagName, Text.takeWhile_append_stop t (fun c hc ↦ (h.mem hc).1) hd,
    Text.lowerAscii_of_not_isUpper fun c hc ↦ (h.mem hc).2, String.ofList_toList]

theorem dropWhile_isTagChar_append (t : List Char) (h : IsPlainTag tag) (hd : isTagChar d = false) :
    (tag.toList ++ d :: t).dropWhile isTagChar = d :: t :=
  Text.dropWhile_append_stop t (fun _ hc ↦ (h.mem hc).1) hd

theorem afterBracket_append {s : List Char} (t : List Char) (h : '>' ∉ s) :
    afterBracket (s ++ '>' :: t) = t := by
  rw [afterBracket, Text.dropWhile_append_stop t _ (by decide), List.drop_succ_cons, List.drop_zero]
  intro c hc
  rw [bne_iff_ne]
  rintro rfl
  exact h hc

theorem not_mem_tag (h : IsPlainTag tag) (hd : isTagChar d = false) : d ∉ tag.toList :=
  fun hc ↦ ne_of_isTagChar (h.mem hc).1 hd rfl

theorem afterBracket_endTag (t : List Char) (h : IsPlainTag tag) :
    afterBracket (Node.endTag tag ++ t) = t := by
  rw [Node.endTag, ← List.cons_append, ← List.cons_append, List.append_assoc, List.singleton_append]
  refine afterBracket_append t ?_
  rw [List.mem_cons, List.mem_cons, not_or, not_or]
  exact ⟨by decide, by decide, not_mem_tag h (by decide)⟩

theorem isAtMarkup_startTag (t : List Char) (h : IsPlainTag tag) :
    isAtMarkup ('<' :: (tag.toList ++ t)) = true := by
  obtain ⟨c, s, hs, hc, -⟩ := h
  have ha : c.isAlpha = true := Text.isAlpha_iff.mpr (Or.inr hc)
  rw [hs, List.cons_append, isAtMarkup, ha, Bool.true_or]
  rintro e t' rfl
  exact absurd hc (by decide)

theorem isAtMarkup_endTag (t : List Char) (h : IsPlainTag tag) :
    isAtMarkup ('<' :: '/' :: (tag.toList ++ t)) = true := by
  obtain ⟨c, s, hs, hc, -⟩ := h
  rw [hs, List.cons_append, isAtMarkup]
  exact Text.isAlpha_iff.mpr (Or.inr hc)

end Tag

/-! ## Attributes

Attributes are written with a blank in front of each and their values in double quotes, which is
only one of the forms that are read. -/

theorem readAssignment_quoted {raw : List Char} (t : List Char) (h : '"' ∉ raw) :
    readAssignment ('=' :: '"' :: (raw ++ '"' :: t)) = (Entity.decode raw, t) := by
  have hq : ∀ c ∈ raw, (c != '"') = true := by
    intro c hc
    rw [bne_iff_ne]
    rintro rfl
    exact h hc
  have hvalue : readValue ('"' :: (raw ++ '"' :: t)) = (raw, t) := by
    rw [readValue, if_pos (Or.inl rfl), Text.takeWhile_append_stop t hq (by decide),
      Text.dropWhile_append_stop t hq (by decide), List.drop_succ_cons, List.drop_zero]
  rw [readAssignment, Text.trimStart_cons_of_not_blank _ (by decide)]
  simp only [Text.trimStart_cons_of_not_blank _ (by decide : isBlank '"' = false), hvalue]

theorem readAttributes_of_name {s t : List Char} {c : Char} (hs : Text.trimStart s = c :: t)
    (hc : isAttributeChar c = true) :
    readAttributes s =
      let name := Text.lowerAscii ((c :: t).takeWhile isAttributeChar)
      let assigned := readAssignment (t.dropWhile isAttributeChar)
      let more := readAttributes assigned.2
      (⟨String.ofList name, String.ofList assigned.1⟩ :: more.1, more.2) := by
  rw [readAttributes]
  split
  · rename_i h
    rw [hs] at h
    exact absurd h (List.cons_ne_nil c t)
  · rename_i u h
    rw [hs, List.cons.injEq] at h
    exact absurd h.1 (ne_of_isAttributeChar hc (by decide))
  · rename_i u h
    rw [hs, List.cons.injEq] at h
    exact absurd h.1 (ne_of_isAttributeChar hc (by decide))
  · rename_i c' u _ _ h
    rw [hs, List.cons.injEq] at h
    obtain ⟨rfl, rfl⟩ := h
    rw [if_pos hc]

theorem readAttributes_bracket (t : List Char) : readAttributes ('>' :: t) = ([], '>' :: t) := by
  have hs : Text.trimStart ('>' :: t) = '>' :: t :=
    Text.trimStart_cons_of_not_blank t (by decide)
  rw [readAttributes]
  split
  · rename_i h
    rw [hs] at h
    exact absurd h (List.cons_ne_nil _ t)
  · rename_i u h
    rw [hs, List.cons.injEq] at h
    rw [h.2]
  · rename_i u h
    rw [hs, List.cons.injEq] at h
    exact absurd h.1 (by decide)
  · rename_i c' u h1 _ h
    rw [hs, List.cons.injEq] at h
    exact absurd h.1.symm (by rintro rfl; exact h1 rfl)

theorem readAttributes_quoted {name : String} {raw : List Char} (t : List Char)
    (hname : IsPlainName name) (hraw : '"' ∉ raw) :
    readAttributes (' ' :: (name.toList ++ '=' :: '"' :: (raw ++ '"' :: t))) =
      (⟨name, String.ofList (Entity.decode raw)⟩ :: (readAttributes t).1,
        (readAttributes t).2) := by
  obtain ⟨hne, hmem⟩ := hname
  obtain ⟨c, s, hs⟩ := List.exists_cons_of_ne_nil fun hnil ↦ hne (String.toList_eq_nil_iff.mp hnil)
  have hchars : ∀ d ∈ name.toList, isAttributeChar d = true := fun d hd ↦ (hmem d hd).1
  have hupper : ∀ d ∈ name.toList, d.isUpper = false := fun d hd ↦ (hmem d hd).2
  rw [hs] at hchars
  have hc : isAttributeChar c = true := hchars c List.mem_cons_self
  -- the name ends at the equals sign
  have hstop : isAttributeChar '=' = false := by decide
  have htrim : Text.trimStart (' ' :: (name.toList ++ '=' :: '"' :: (raw ++ '"' :: t)))
      = c :: (s ++ '=' :: '"' :: (raw ++ '"' :: t)) := by
    rw [hs, List.cons_append, Text.trimStart_cons_of_blank _ (by decide),
      Text.trimStart_cons_of_not_blank _ (isBlank_of_isAttributeChar hc)]
  have htake :
      (c :: (s ++ '=' :: '"' :: (raw ++ '"' :: t))).takeWhile isAttributeChar = c :: s := by
    rw [← List.cons_append]
    exact Text.takeWhile_append_stop _ hchars hstop
  rw [readAttributes_of_name htrim hc, htake,
    Text.dropWhile_append_stop _ (fun d hd ↦ hchars d (List.mem_cons_of_mem c hd)) hstop,
    readAssignment_quoted t hraw, ← hs, Text.lowerAscii_of_not_isUpper hupper]
  simp only [String.ofList_toList]

/-- A written attribute reads back, whatever follows: the quotes inside its value are escaped. -/
theorem readAttributes_chars (a : Attribute) (t : List Char) (h : IsPlainName a.name) :
    readAttributes (a.chars ++ t) = (a :: (readAttributes t).1, (readAttributes t).2) := by
  have hread := readAttributes_quoted t h (Entity.not_mem_escapeAttribute a.value.toList)
  rw [Entity.decode_escapeAttribute, String.ofList_toList] at hread
  rw [← hread]
  simp only [Attribute.chars, List.cons_append, List.append_assoc, List.nil_append]

private theorem readAttributes_flatMap_chars {as : List Attribute} (t : List Char)
    (h : ∀ a ∈ as, IsPlainName a.name) :
    readAttributes (as.flatMap Attribute.chars ++ '>' :: t) = (as, '>' :: t) := by
  induction as with
  | nil => rw [List.flatMap_nil, List.nil_append, readAttributes_bracket]
  | cons a as ih =>
    rw [List.flatMap_cons, List.append_assoc, readAttributes_chars a _ (h a List.mem_cons_self),
      ih fun b hb ↦ h b (List.mem_cons_of_mem a hb)]

private theorem firstOfEach_of_nodup {as : List Attribute} (h : (as.map Attribute.name).Nodup) :
    Attribute.firstOfEach as = as := by
  induction as with
  | nil => rfl
  | cons a as ih =>
    rw [List.map_cons, List.nodup_cons] at h
    rw [Attribute.firstOfEach, ih h.2, List.filter_eq_self.mpr]
    intro b hb
    rw [bne_iff_ne]
    intro hab
    exact h.1 (hab ▸ List.mem_map_of_mem hb)

/-! ## Start tags -/

/-- What reading makes of a plain tag and of attributes behind it, which end at a bracket: the
content of raw text is taken with it. -/
theorem readStartTag_append {tag : String} {d : Char} {s t : List Char} {as : List Attribute}
    (htag : IsPlainTag tag) (hd : isTagChar d = false)
    (has : readAttributes (d :: s) = (as, '>' :: t)) (hnodup : (as.map Attribute.name).Nodup) :
    readStartTag (tag.toList ++ d :: s) =
      if isVoidTag tag then (.startTag tag as .empty, t)
      else if isRawTextTag tag then
        (.startTag tag as (.raw (String.ofList (rawContent tag.toList t).1)),
          afterBracket (rawContent tag.toList t).2)
      else (.startTag tag as .opens, t) := by
  simp only [readStartTag, tagName_append s htag hd, dropWhile_isTagChar_append s htag hd, has,
    firstOfEach_of_nodup hnodup, readTagEnd, Bool.false_or]

theorem readStartTag_chars {e : Element} (t : List Char) (h : e.IsPlain) :
    readStartTag (e.tag.toList ++ (e.attributes.flatMap Attribute.chars ++ '>' :: t)) =
      if isVoidTag e.tag then (.startTag e.tag e.attributes .empty, t)
      else if isRawTextTag e.tag then
        (.startTag e.tag e.attributes (.raw (String.ofList (rawContent e.tag.toList t).1)),
          afterBracket (rawContent e.tag.toList t).2)
      else (.startTag e.tag e.attributes .opens, t) := by
  -- the tag ends at the blank of the first attribute, or at the bracket
  obtain ⟨d, u, hu, hd⟩ : ∃ d u,
      e.attributes.flatMap Attribute.chars ++ '>' :: t = d :: u ∧ isTagChar d = false := by
    cases e.attributes with
    | nil => exact ⟨'>', t, rfl, by decide⟩
    | cons a as =>
      rw [List.flatMap_cons, Attribute.chars, List.cons_append, List.cons_append]
      exact ⟨' ', _, rfl, by decide⟩
  have hread := readAttributes_flatMap_chars t h.names
  rw [hu] at hread ⊢
  exact readStartTag_append h.tag hd hread h.nodup

theorem next_startTag {tag : String} (t : List Char) (h : IsPlainTag tag) :
    Event.next '<' (tag.toList ++ t) = readStartTag (tag.toList ++ t) := by
  have hat := isAtMarkup_startTag t h
  obtain ⟨c, s, hs, hc, -⟩ := h
  have hne (d : Char) (u : List Char) (hd : d.isLower = false) : ¬tag.toList ++ t = d :: u := by
    rw [hs, List.cons_append, List.cons.injEq]
    rintro ⟨rfl, -⟩
    rw [hc] at hd
    exact absurd hd (by decide)
  unfold Event.next
  rw [if_pos hat]
  split
  · rename_i heq
    exact absurd heq (hne '/' _ (by decide))
  · rename_i heq
    exact absurd heq (hne '!' _ (by decide))
  · rename_i heq
    exact absurd heq (hne '!' _ (by decide))
  · rfl

/-! ## End tags, comments and texts -/

theorem next_endTag {tag : String} (t : List Char) (h : IsPlainTag tag) :
    Event.next '<' ('/' :: (tag.toList ++ '>' :: t)) = (.endTag tag, t) := by
  have hname := tagName_append t h (by decide : isTagChar '>' = false)
  unfold Event.next
  rw [if_pos (isAtMarkup_endTag _ h)]
  simp only [hname, afterBracket_append t (not_mem_tag h (by decide))]

theorem cutAt_comment {s : List Char} (t : List Char)
    (h : Text.occursIn ['-', '-', '>'] s = false) :
    Text.cutAt ['-', '-', '>'] (s ++ '-' :: '-' :: '>' :: t) = some (s, t) := by
  induction s with
  | nil => rfl
  | cons c s ih =>
    obtain ⟨hp, hs⟩ := Text.occursIn_of_cons h
    rw [List.cons_append, Text.cutAt, if_neg, ih hs, Option.map_some]
    rcases s with _ | ⟨d, _ | ⟨e, s⟩⟩
    · simp
    · simp
    · simpa [List.isPrefixOf] using hp

theorem next_comment {s : String} (t : List Char)
    (h : Text.occursIn ['-', '-', '>'] s.toList = false) :
    Event.next '<' ('!' :: '-' :: '-' :: (s.toList ++ '-' :: '-' :: '>' :: t)) =
      (.comment s, t) := by
  unfold Event.next
  rw [if_pos (by rfl)]
  simp only [readComment, cutAt_comment t h, String.ofList_toList]

theorem textRun_append {s t : List Char} (hs : '<' ∉ s) (ht : t = [] ∨ isAtMarkup t = true) :
    textRun (s ++ t) = (s, t) := by
  induction s with
  | nil =>
    cases t with
    | nil => rfl
    | cons c t => rw [List.nil_append, textRun, if_pos (ht.resolve_left (List.cons_ne_nil c t))]
  | cons c s ih =>
    rw [List.mem_cons, not_or] at hs
    rw [List.cons_append, textRun, if_neg, ih hs.2]
    rw [isAtMarkup]
    · exact Bool.false_ne_true
    · rintro d u heq
      exact hs.1 (List.cons.inj heq).1.symm
    · rintro d u heq
      exact hs.1 (List.cons.inj heq).1.symm

/-- Raw content is read up to its end tag, which does not begin inside it. -/
theorem rawContent_append {tag s : List Char} (t : List Char) (htag : '<' ∉ tag)
    (hlower : ∀ c ∈ tag, c.isUpper = false)
    (h : Text.occursIn ('<' :: '/' :: tag) (Text.lowerAscii s) = false) :
    rawContent tag (s ++ '<' :: '/' :: (tag ++ t)) = (s, '<' :: '/' :: (tag ++ t)) := by
  induction s with
  | nil =>
    rw [List.nil_append, rawContent, if_pos]
    rw [Text.beginsWithLowered_iff, ← List.cons_append, ← List.cons_append, Text.lowerAscii_append,
      Text.lowerAscii_of_not_isUpper]
    · exact List.prefix_append _ _
    · intro c hc
      rw [List.mem_cons, List.mem_cons] at hc
      rcases hc with rfl | rfl | hc
      · decide
      · decide
      · exact hlower c hc
  | cons c s ih =>
    obtain ⟨hp, hs⟩ := Text.occursIn_of_cons h
    rw [List.cons_append, rawContent, if_neg, ih hs]
    rw [Text.beginsWithLowered_iff, ← List.cons_append, Text.lowerAscii_append]
    -- an end tag that began in the content would lie in it, as it has one opening bracket only
    intro hpre
    have htail : '<' ∉ ('<' :: '/' :: tag).tail := by
      rw [List.tail_cons, List.mem_cons, not_or]
      exact ⟨by decide, htag⟩
    have hp' := Text.prefix_of_prefix_append hpre (List.cons_ne_nil _ _) htail
    rw [← List.isPrefixOf_iff_prefix] at hp'
    exact absurd hp' (by rw [← Bool.not_eq_true] at hp; exact hp)

end HtmlTemplate.Markup

namespace HtmlTemplate

/-! ## The events of a tree -/

mutual

def Node.events : Node → List Markup.Event
  | .element e => e.events
  | .text s => [.text s]
  | .comment s => [.comment s]
  | .fragment cs => Node.eventsAll cs

def Element.events : Element → List Markup.Event
  | ⟨tag, as, cs⟩ =>
    if isVoidTag tag then [.startTag tag as .empty]
    else if isRawTextTag tag then [.startTag tag as (.raw (Node.innerTextAll cs))]
    else .startTag tag as .opens :: (Node.eventsAll cs ++ [.endTag tag])

def Node.eventsAll : List Node → List Markup.Event
  | [] => []
  | n :: ns => n.events ++ Node.eventsAll ns

end

namespace Markup

open Node (AreCanonical charsAll eventsAll)

theorem isAtMarkup_charsAll {ns : List Node} {t : List Char} (h : AreCanonical ns)
    (hns : ¬ns.head?.any Node.isText = true) (ht : t = [] ∨ isAtMarkup t = true) :
    charsAll false ns ++ t = [] ∨ isAtMarkup (charsAll false ns ++ t) = true := by
  match ns, h with
  | [], _ => rwa [charsAll, List.nil_append]
  | .text s :: ns, _ => exact absurd rfl hns
  | .comment s :: ns, _ => exact Or.inr rfl
  | .fragment cs :: ns, h =>
    exact absurd (Node.areCanonical_cons.mp h).1 (by rw [Node.IsCanonical]; exact id)
  | .element ⟨tag, as, cs⟩ :: ns, h =>
    have he := (Node.isCanonical_element.mp (Node.areCanonical_cons.mp h).1).1
    refine Or.inr ?_
    rw [charsAll, Node.chars, Node.elementChars, Node.startTag]
    simp only [List.cons_append, List.append_assoc]
    exact isAtMarkup_startTag _ he.tag

theorem events_cons (c : Char) (t : List Char) :
    events (c :: t) = (Event.next c t).1 :: events (Event.next c t).2 := by
  rw [events]

theorem events_escapeText {s : String} {t : List Char} (hs : s ≠ "")
    (ht : t = [] ∨ isAtMarkup t = true) :
    events (Entity.escapeText s.toList ++ t) = .text s :: events t := by
  have hne : s.toList ≠ [] := fun h ↦ hs (String.toList_eq_nil_iff.mp h)
  obtain ⟨c, more, hc⟩ := List.exists_cons_of_ne_nil (Entity.escapeText_ne_nil hne)
  have hmem := Entity.not_mem_escapeText s.toList
  rw [hc, List.mem_cons, not_or] at hmem
  have hat : isAtMarkup (c :: (more ++ t)) = false := by
    rw [isAtMarkup]
    · rintro d u heq
      exact hmem.1 (List.cons.inj heq).1.symm
    · rintro d u heq
      exact hmem.1 (List.cons.inj heq).1.symm
  rw [hc, List.cons_append, events_cons]
  unfold Event.next
  rw [if_neg (by rw [hat]; exact Bool.false_ne_true), textRun_append hmem.2 ht]
  dsimp only
  rw [← hc, Entity.decode_escapeText, String.ofList_toList]

theorem events_commentChars {s : String} (t : List Char)
    (h : Text.occursIn ['-', '-', '>'] s.toList = false) :
    events (Node.commentChars s ++ t) = .comment s :: events t := by
  have hchars : Node.commentChars s ++ t
      = '<' :: '!' :: '-' :: '-' :: (s.toList ++ '-' :: '-' :: '>' :: t) := by
    rw [Node.commentChars, List.append_assoc, List.append_assoc]
    rfl
  rw [hchars, events_cons, next_comment t h]

theorem events_endTag {tag : String} (t : List Char) (h : IsPlainTag tag) :
    events (Node.endTag tag ++ t) = .endTag tag :: events t := by
  rw [Node.endTag, List.cons_append, List.cons_append, List.append_assoc, List.singleton_append,
    events_cons, next_endTag t h]

private theorem events_startTag {e : Element} (t : List Char) (h : e.IsPlain) :
    events (Node.startTag e.tag e.attributes ++ t) =
      if isVoidTag e.tag then .startTag e.tag e.attributes .empty :: events t
      else if isRawTextTag e.tag then
        .startTag e.tag e.attributes (.raw (String.ofList (rawContent e.tag.toList t).1)) ::
          events (afterBracket (rawContent e.tag.toList t).2)
      else .startTag e.tag e.attributes .opens :: events t := by
  have hchars : Node.startTag e.tag e.attributes ++ t
      = '<' :: (e.tag.toList ++ (e.attributes.flatMap Attribute.chars ++ '>' :: t)) := by
    rw [Node.startTag, List.cons_append, List.append_assoc, List.append_assoc,
      List.singleton_append]
  rw [hchars, events_cons, next_startTag _ h.tag, readStartTag_chars t h]
  split_ifs <;> rfl

theorem rawContent_charsAll {e : Element} (t : List Char) (h : e.IsPlain)
    (hraw : isRawTextTag e.tag = true) :
    rawContent e.tag.toList (charsAll true e.children ++ (Node.endTag e.tag ++ t)) =
      ((Node.innerTextAll e.children).toList, Node.endTag e.tag ++ t) := by
  have hmem : '<' ∉ e.tag.toList := not_mem_tag h.tag (by decide)
  have hend : Node.endTag e.tag ++ t = '<' :: '/' :: (e.tag.toList ++ '>' :: t) := by
    rw [Node.endTag, List.cons_append, List.cons_append, List.append_assoc, List.singleton_append]
  rw [hend]
  rcases h.raw hraw with hcs | ⟨s, hcs, hs⟩
  · rw [hcs, charsAll, Node.innerTextAll]
    exact rawContent_append _ hmem (fun c hc ↦ (h.tag.mem hc).2) rfl
  · rw [hcs, charsAll, charsAll, Node.chars, if_pos rfl, List.append_nil, Node.innerTextAll,
      Node.innerTextAll, Node.innerText, String.append_empty]
    exact rawContent_append _ hmem (fun c hc ↦ (h.tag.mem hc).2) hs

/-- **Written markup is cut back into its events**, whatever markup follows. -/
theorem events_charsAll {ns : List Node} : ∀ {t : List Char}, AreCanonical ns →
    (t = [] ∨ isAtMarkup t = true) →
    events (charsAll false ns ++ t) = eventsAll ns ++ events t := by
  induction ns using Node.forestInduction with
  | nil =>
    intro t _ _
    rw [charsAll, eventsAll, List.nil_append, List.nil_append]
  | text s ns ih =>
    intro t h ht
    obtain ⟨hs, hnext, hns⟩ := Node.areCanonical_cons.mp h
    have hat := isAtMarkup_charsAll hns (fun hany ↦ hnext ⟨rfl, hany⟩) ht
    rw [charsAll, Node.chars, if_neg Bool.false_ne_true, List.append_assoc,
      events_escapeText (by rwa [Node.IsCanonical] at hs) hat, ih hns ht, eventsAll, Node.events,
      List.cons_append, List.cons_append, List.nil_append]
  | comment s ns ih =>
    intro t h ht
    obtain ⟨hs, -, hns⟩ := Node.areCanonical_cons.mp h
    rw [charsAll, Node.chars, List.append_assoc,
      events_commentChars _ (by rwa [Node.IsCanonical] at hs), ih hns ht, eventsAll, Node.events,
      List.cons_append, List.cons_append, List.nil_append]
  | element tag as cs ns ihcs ihns =>
    intro t h ht
    obtain ⟨hn, -, hns⟩ := Node.areCanonical_cons.mp h
    obtain ⟨he, hcs⟩ := Node.isCanonical_element.mp hn
    rw [charsAll, Node.chars, Node.elementChars, List.append_assoc, List.append_assoc,
      events_startTag (e := ⟨tag, as, cs⟩) _ he, eventsAll, Node.events, Element.events]
    dsimp only
    split_ifs with hvoid hraw
    · rw [List.nil_append, ihns hns ht, List.singleton_append, List.cons_append]
    · -- raw content ends at the end tag, which is part of the event
      have hcontent := rawContent_charsAll (e := ⟨tag, as, cs⟩) (charsAll false ns ++ t) he hraw
      dsimp only at hcontent
      rw [hraw, List.append_assoc, hcontent]
      dsimp only
      rw [String.ofList_toList, afterBracket_endTag _ he.tag, ihns hns ht, List.singleton_append,
        List.cons_append]
    · -- behind the children stands the end tag, which is markup
      rw [Bool.not_eq_true] at hraw
      have hend : isAtMarkup (Node.endTag tag ++ (charsAll false ns ++ t)) = true := by
        rw [Node.endTag, List.cons_append, List.cons_append, List.append_assoc]
        exact isAtMarkup_endTag _ he.tag
      rw [hraw, List.append_assoc, ihcs hcs (Or.inr hend), events_endTag _ he.tag, ihns hns ht]
      simp only [List.cons_append, List.append_assoc, List.nil_append]
  | fragment cs ns _ _ =>
    intro t h _
    exact absurd (Node.areCanonical_cons.mp h).1 (by rw [Node.IsCanonical]; exact id)

end Markup

end HtmlTemplate
