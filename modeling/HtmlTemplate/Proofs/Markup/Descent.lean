import HtmlTemplate.Proofs.Markup.OpenElements
import HtmlTemplate.Proofs.Markup.RoundTrip
import HtmlTemplate.Proofs.Markup.TagReader

/-!
# Reading markup by recursive descent

The nodes of a markup text can be read in one pass, without events: a list of nodes is read as it is
met, and the children of an element are read by the same reader. The tags of the open elements are
kept on a stack. A list ends where an end tag or a start tag closes an element further out. Nothing
is taken then, and the list around, to which reading returns, looks at the same place again.

## Why it ends

Unwinding takes nothing, but it closes an element, which was opened by a start tag that has been
taken. So in a round of a list something is taken or the list ends (`reads_childrenRound`), and as
children are read behind a start tag, calls nest no deeper than the text is wide. With nothing open,
only the end of the text ends a list.

## Two ways to build

Building from events knows where a list of nodes ends from the event in front. Recursive descent
sees the same from the text in front, since what is there decides the event (`front`). A round of a
list is compared with one step of building, and a whole list with all of it; the stack of open
elements is what both hand down to the lists inside.

## Positions and texts

The comparison is made for texts: what a reader gives where `s` is left, and what is left then. That
no slice is out of range and that every loop ends is part of it, since a reader that breaks off
gives nothing.
-/

namespace HtmlTemplate.Markup

open Cursor
open Text (width)

/-- Why a list of nodes ends. -/
inductive Stop where
  /-- Nothing is left. -/
  | ended
  /-- The end tag of the innermost open element was taken. -/
  | closed
  /-- What is in front closes an open element, and is left to the lists around. -/
  | unwound
deriving DecidableEq

/-- The tags of the open elements, innermost first, and the nodes of the innermost list so far. -/
structure Level where
  openTags : List String
  nodes : List Node

namespace Cursor

variable (source : List Char) (bound : Nat)

/-- Reads the content of an element behind its start tag, and its children by `inner`. Gives the
tags that are open behind it, too. -/
def content (inner : List String → Cursor (Stop × Level)) (openTags : List String) (tag : String)
    (isClosed : Bool) : Cursor (List Node × List String) := do
  if isClosed || isVoidTag tag then return ([], openTags)
  else if isRawTextTag tag then
    let raw ← rawText source tag
    return (Node.textChildren (String.ofList raw), openTags)
  else
    let (_, level) ← inner (tag :: openTags)
    return (level.nodes, level.openTags.tail)

def element (inner : List String → Cursor (Stop × Level)) (openTags : List String) :
    Cursor (Element × List String) := do
  let _ ← consume source ['<']
  let tag := String.ofList (Text.lowerAscii (← readWhile source bound isTagChar))
  if tag.isEmpty then throw .unnamed
  else
    let attributes ← attributes source bound
    let isClosed ← tagEnd source
    let (children, openTags) ← content source inner openTags tag isClosed
    return (⟨tag, attributes, children⟩, openTags)

/-- What an end tag does: it ends the list if it closes an open element, else it is skipped. -/
def endTagRound (level : Level) : Cursor (Round Level (Stop × Level)) := do
  let tag ← peekName source 2
  match level.openTags.findIdx? (· == tag) with
  | some 0 =>
    skipBracket source
    return .done (.closed, level)
  | some (_ + 1) => return .done (.unwound, level)
  | none =>
    skipBracket source
    return .again level

/-- What a start tag does: it ends the list if it closes the innermost element, and otherwise begins
an element of the list. -/
def startTagRound (inner : List String → Cursor (Stop × Level)) (level : Level) :
    Cursor (Round Level (Stop × Level)) := do
  let tag ← peekName source 1
  if level.openTags.head?.any (closesImplicitly · tag) then return .done (.unwound, level)
  else
    let (e, openTags) ← element source bound inner level.openTags
    return .again ⟨openTags, level.nodes ++ [.element e]⟩

def nodeRound (inner : List String → Cursor (Stop × Level)) (level : Level) :
    Cursor (Round Level (Stop × Level)) := do
  if ← startsWith source ['<', '!', '-', '-'] then
    let content ← comment source
    return .again ⟨level.openTags, level.nodes ++ [.comment content]⟩
  else if ← startsWith source ['<', '!'] then
    skipBracket source
    return .again level
  else if ← facesMarkup source then startTagRound source bound inner level
  else
    let s ← text source bound
    return .again (if s.isEmpty then level else ⟨level.openTags, appendText level.nodes s⟩)

def childrenRound (inner : List String → Cursor (Stop × Level)) (level : Level) :
    Cursor (Round Level (Stop × Level)) := do
  if ← isAtEnd source then return .done (.ended, level)
  else if ← facesEndTag source then endTagRound source level
  else nodeRound source bound inner level

/-- Reads a list of nodes inside open elements; calls nest so deep at most. -/
def children : Nat → List String → Cursor (Stop × Level)
  | 0, _ => throw .rounds
  | depth + 1, openTags => loop (childrenRound source bound (children depth)) bound ⟨openTags, []⟩

end Cursor

/-- Reads the document of a markup text in one pass. -/
def parseByDescent (source : String) : Except Fault Node := do
  let bound := width source.toList + 1
  let ((_, level), _) ← (Cursor.children source.toList bound bound []).run 0
  return .fragment level.nodes

/-! ## What is in front

The first characters of a text decide which event it begins with: the end, an end tag, a comment, a
declaration, a start tag or a text. -/

inductive Front : List Char → Prop where
  | nil : Front []
  | endTag (d : Char) (t : List Char) (hd : d.isAlpha = true) : Front ('<' :: '/' :: d :: t)
  | comment (t : List Char) : Front ('<' :: '!' :: '-' :: '-' :: t)
  | declaration (t : List Char) (ht : ¬['-', '-'] <+: t) : Front ('<' :: '!' :: t)
  | startTag (d : Char) (t : List Char) (hd : d.isAlpha = true) : Front ('<' :: d :: t)
  | text (c : Char) (t : List Char) (hat : isAtMarkup (c :: t) = false) : Front (c :: t)

theorem front (s : List Char) : Front s := by
  rcases s with _ | ⟨c, s⟩
  · exact .nil
  by_cases hat : isAtMarkup (c :: s) = true
  · obtain rfl : c = '<' := by
      unfold isAtMarkup at hat
      split at hat
      · rename_i heq
        exact (List.cons.inj heq).1
      · rename_i heq
        exact (List.cons.inj heq).1
      · exact absurd hat Bool.false_ne_true
    by_cases hend : ∃ t, s = '/' :: t
    · obtain ⟨t, rfl⟩ := hend
      rcases t with _ | ⟨d, t⟩
      · exact absurd hat (by decide)
      · exact .endTag d t hat
    by_cases hmark : ∃ t, s = '!' :: t
    · obtain ⟨t, rfl⟩ := hmark
      by_cases ht : ['-', '-'] <+: t
      · obtain ⟨u, rfl⟩ := ht
        exact .comment u
      · exact .declaration t ht
    · obtain ⟨d, t, rfl, hd⟩ := exists_cons_of_isAtMarkup hat (fun t ht ↦ hend ⟨t, ht⟩)
        fun t ht ↦ hmark ⟨t, ht⟩
      exact .startTag d t hd
  · exact .text c s (Bool.eq_false_iff.mpr hat)

theorem ne_of_isAlpha {c d : Char} (h : c.isAlpha = true) (hd : d.isAlpha = false) : c ≠ d := by
  rintro rfl
  rw [h] at hd
  exact absurd hd (by decide)

theorem isAtMarkup_startTag_of_isAlpha {d : Char} (t : List Char) (hd : d.isAlpha = true) :
    isAtMarkup ('<' :: d :: t) = true := by
  rw [isAtMarkup, hd, Bool.true_or]
  rintro e u h -
  exact ne_of_isAlpha hd (by decide) h

/-! ### Its event -/

theorem events_endTag_front {d : Char} (t : List Char) (hd : d.isAlpha = true) :
    events ('<' :: '/' :: d :: t) =
      .endTag (tagName (d :: t)) :: events (afterBracket ('<' :: '/' :: d :: t)) := by
  have hat : isAtMarkup ('<' :: '/' :: d :: t) = true := hd
  rw [events_cons, Event.next, if_pos hat]
  rfl

theorem events_comment_front (t : List Char) :
    events ('<' :: '!' :: '-' :: '-' :: t) = (readComment t).1 :: events (readComment t).2 := by
  have hat : isAtMarkup ('<' :: '!' :: '-' :: '-' :: t) = true := rfl
  rw [events_cons, Event.next, if_pos hat]

theorem events_declaration_front {t : List Char} (ht : ¬['-', '-'] <+: t) :
    events ('<' :: '!' :: t) = .declaration :: events (afterBracket ('<' :: '!' :: t)) := by
  have hnext : Event.next '<' ('!' :: t) = (.declaration, afterBracket t) := by
    have hat : isAtMarkup ('<' :: '!' :: t) = true := rfl
    unfold Event.next
    rw [if_pos hat]
    split
    · rename_i heq
      exact absurd (List.cons.inj heq).1 (by decide)
    · rename_i u heq
      obtain ⟨-, rfl⟩ := List.cons.inj heq
      exact absurd ⟨u, rfl⟩ ht
    · rename_i heq
      obtain ⟨-, rfl⟩ := List.cons.inj heq
      rfl
    · rename_i h
      exact absurd rfl (h t)
  rw [events_cons, hnext]
  rfl

theorem events_startTag_front {d : Char} (t : List Char) (hd : d.isAlpha = true) :
    events ('<' :: d :: t) = (readStartTag (d :: t)).1 :: events (readStartTag (d :: t)).2 := by
  have hnext : Event.next '<' (d :: t) = readStartTag (d :: t) := by
    unfold Event.next
    rw [if_pos (isAtMarkup_startTag_of_isAlpha t hd)]
    split
    · rename_i heq
      exact absurd (List.cons.inj heq).1 (ne_of_isAlpha hd (by decide))
    · rename_i heq
      exact absurd (List.cons.inj heq).1 (ne_of_isAlpha hd (by decide))
    · rename_i heq
      exact absurd (List.cons.inj heq).1 (ne_of_isAlpha hd (by decide))
    · rfl
  rw [events_cons, hnext]

theorem events_text_front {c : Char} {t : List Char} (hat : isAtMarkup (c :: t) = false) :
    events (c :: t) =
      .text (String.ofList (Entity.decode (c :: (textRun t).1))) :: events (textRun t).2 := by
  have hnext : Event.next c t =
      (.text (String.ofList (Entity.decode (c :: (textRun t).1))), (textRun t).2) := by
    unfold Event.next
    rw [if_neg (Bool.eq_false_iff.mp hat)]
  rw [events_cons, hnext]

/-! ## Building in steps

A step takes an event off the front and puts what it builds into the list. What is built from the
events behind it stays to be built. -/

section Leads

variable {openTags : List String} {ns ns' : List Node} {es es' : List Event}

/-- The nodes `ns` and the events behind them come to the same, inside the open elements, as the
nodes `ns'` and the events `es'`. -/
structure Leads (openTags : List String) (ns : List Node) (es : List Event) (ns' : List Node)
    (es' : List Event) : Prop where
  nodes : joinNodes ns (build openTags es).nodes = joinNodes ns' (build openTags es').nodes
  rest : (build openTags es).rest = (build openTags es').rest

theorem leads_text (s : String) : Leads openTags ns (.text s :: es) (appendText ns s) es := by
  obtain ⟨hnodes, hrest⟩ := nodes_build_text openTags es s
  exact ⟨by rw [hnodes, joinNodes_consText], hrest⟩

theorem leads_comment (s : String) :
    Leads openTags ns (.comment s :: es) (ns ++ [.comment s]) es := by
  obtain ⟨hnodes, hrest⟩ := nodes_build_comment openTags es s
  exact ⟨by rw [hnodes, joinNodes_cons ns _ rfl], hrest⟩

theorem leads_declaration : Leads openTags ns (.declaration :: es) ns es := by
  refine ⟨?_, ?_⟩ <;> rw [build]

theorem leads_endTag {tag : String} (h : tag ∉ openTags) :
    Leads openTags ns (.endTag tag :: es) ns es := by
  have hhead : ¬openTags.head? = some tag := fun hhead ↦ h (List.mem_of_head? hhead)
  refine ⟨?_, ?_⟩ <;> rw [build, if_neg hhead, if_neg h]

variable {tag : String} (as : List Attribute)

theorem leads_empty (h : openTags.head?.any (closesImplicitly · tag) = false) :
    Leads openTags ns (.startTag tag as .empty :: es) (ns ++ [.element ⟨tag, as, []⟩]) es := by
  obtain ⟨hnodes, hrest⟩ := nodes_build_empty openTags es as h
  exact ⟨by rw [hnodes, joinNodes_cons ns _ rfl], hrest⟩

theorem leads_raw (content : String) (h : openTags.head?.any (closesImplicitly · tag) = false) :
    Leads openTags ns (.startTag tag as (.raw content) :: es)
      (ns ++ [.element ⟨tag, as, Node.textChildren content⟩]) es := by
  obtain ⟨hnodes, hrest⟩ := nodes_build_raw openTags es as content h
  exact ⟨by rw [hnodes, joinNodes_cons ns _ rfl], hrest⟩

theorem leads_opens (h : openTags.head?.any (closesImplicitly · tag) = false) :
    Leads openTags ns (.startTag tag as .opens :: es)
      (ns ++ [.element ⟨tag, as, (build (tag :: openTags) es).nodes⟩])
      (build (tag :: openTags) es).rest := by
  obtain ⟨hnodes, hrest⟩ := nodes_build_opens openTags es as h
  exact ⟨by rw [hnodes, joinNodes_cons ns _ rfl], hrest⟩

theorem build_startTag_of_closes (form : TagForm)
    (h : openTags.head?.any (closesImplicitly · tag) = true) :
    (build openTags (.startTag tag as form :: es)).nodes = [] ∧
      (build openTags (.startTag tag as form :: es)).rest = .startTag tag as form :: es := by
  rw [build.eq_def]
  dsimp only
  rw [if_pos h]
  exact ⟨rfl, rfl⟩

end Leads

/-! ## Reading a list -/

/-- What reading a list inside open elements comes to, from `s` to `t`, with the nodes `ns` in
front: the nodes are those that are built from the events, and the events behind them are left. -/
structure Lists (openTags : List String) (ns : List Node) (s : List Char) (r : Stop × Level)
    (t : List Char) : Prop where
  tags : r.2.openTags = openTags
  nodes : r.2.nodes = joinNodes ns (build openTags (events s)).nodes
  rest : events t = (build openTags (events s)).rest
  /-- Only the end of the text ends a list that no element is open around. -/
  stop : r.1 = .ended ∧ t = [] ∨ openTags ≠ []

/-- Where a round ends a list: at the end of the text, behind an end tag or where nothing was taken,
and in the last two cases there is an open element to close. -/
def Stop.Takes (openTags : List String) (s t : List Char) : Stop → Prop
  | .ended => s = [] ∧ t = []
  | .closed => openTags ≠ [] ∧ width t < width s
  | .unwound => openTags ≠ [] ∧ t = s

theorem width_afterBracket_lt (c : Char) (t : List Char) :
    width (afterBracket (c :: t)) < width (c :: t) := by
  have hpos := c.utf8Size_pos
  have hle := Text.width_dropWhile_le (· != '>') (c :: t)
  rw [afterBracket]
  rcases hdrop : (c :: t).dropWhile (· != '>') with _ | ⟨d, u⟩
  · rw [Text.width_cons, List.drop_nil, Text.width_nil]
    omega
  · have := d.utf8Size_pos
    rw [hdrop, Text.width_cons] at hle
    rw [List.drop_succ_cons, List.drop_zero]
    omega

theorem findIdx?_tag (openTags : List String) (tag : String) :
    match openTags.findIdx? (· == tag) with
    | none => tag ∉ openTags
    | some 0 => openTags.head? = some tag
    | some (_ + 1) => ¬openTags.head? = some tag ∧ tag ∈ openTags := by
  rcases openTags with _ | ⟨current, around⟩
  · exact List.not_mem_nil
  rw [List.findIdx?_cons]
  by_cases hcurrent : current = tag
  · rw [if_pos (beq_iff_eq.mpr hcurrent)]
    exact congrArg some hcurrent
  · have hhead : ¬(current :: around).head? = some tag := fun h ↦ hcurrent (Option.some.inj h)
    rw [if_neg (mt beq_iff_eq.mp hcurrent)]
    rcases hfind : around.findIdx? (· == tag) with _ | k
    · have haround := List.findIdx?_eq_none_iff.mp hfind
      refine fun hmem ↦ ?_
      rcases List.mem_cons.mp hmem with rfl | hmem
      · exact hcurrent rfl
      · exact absurd (haround tag hmem) (by simp)
    · obtain ⟨hk, htag, -⟩ := List.findIdx?_eq_some_iff_getElem.mp hfind
      refine ⟨hhead, List.mem_cons_of_mem current ?_⟩
      rw [← beq_iff_eq.mp htag]
      exact List.getElem_mem hk

section Reads

variable {source s t : List Char} {bound : Nat} {openTags : List String} {ns : List Node}
  {inner : List String → Cursor (Stop × Level)}

/-- What a round of a list comes to. It ends the list as it is, where building ends it, or takes
something and goes on as building does. -/
inductive RoundReads (source : List Char) (x : Cursor (Round Level (Stop × Level)))
    (openTags : List String) (ns : List Node) (s : List Char) : Prop where
  | done (stop : Stop) (t : List Char)
    (reads : Reads source x s (.done (stop, ⟨openTags, ns⟩)) t) (takes : stop.Takes openTags s t)
    (nodes : (build openTags (events s)).nodes = [])
    (rest : events t = (build openTags (events s)).rest)
  | again (ns' : List Node) (t : List Char) (reads : Reads source x s (.again ⟨openTags, ns'⟩) t)
    (lt : width t < width s) (leads : Leads openTags ns (events s) ns' (events t))

theorem RoundReads.imp {x y : Cursor (Round Level (Stop × Level))}
    (h : RoundReads source x openTags ns s)
    (hxy : ∀ r t, Reads source x s r t → Reads source y s r t) :
    RoundReads source y openTags ns s := by
  rcases h with ⟨stop, t, reads, takes, nodes, rest⟩ | ⟨ns', t, reads, lt, leads⟩
  · exact .done stop t (hxy _ _ reads) takes nodes rest
  · exact .again ns' t (hxy _ _ reads) lt leads

theorem reads_endTagRound {d : Char} (source : List Char) (openTags : List String)
    (ns : List Node) (t : List Char) (hd : d.isAlpha = true) :
    RoundReads source (endTagRound source ⟨openTags, ns⟩) openTags ns ('<' :: '/' :: d :: t) := by
  have hname := reads_peekName source ['<', '/'] (d :: t)
  have hskip := reads_skipBracket source ('<' :: '/' :: d :: t)
  have hlt := width_afterBracket_lt '<' ('/' :: d :: t)
  have hevents := events_endTag_front t hd
  have hfound := findIdx?_tag openTags (tagName (d :: t))
  rcases hfind : openTags.findIdx? (· == tagName (d :: t)) with _ | _ | k
  · rw [hfind] at hfound
    refine .again ns _ (hname.bind ?_) hlt (hevents ▸ leads_endTag hfound)
    simp only [hfind]
    exact hskip.bind (reads_pure _ _)
  · rw [hfind] at hfound
    refine .done .closed _ (hname.bind ?_) ⟨?_, hlt⟩ ?_ ?_
    · simp only [hfind]
      exact hskip.bind (reads_pure _ _)
    · rintro rfl
      cases hfound
    · rw [hevents, build, if_pos hfound]
    · rw [hevents, build, if_pos hfound]
  · rw [hfind] at hfound
    obtain ⟨hhead, hmem⟩ := hfound
    refine .done .unwound _ (hname.bind ?_) ⟨List.ne_nil_of_mem hmem, rfl⟩ ?_ ?_
    · simp only [hfind]
      exact reads_pure _ _
    · rw [hevents, build, if_neg hhead, if_pos hmem]
    · rw [hevents, build, if_neg hhead, if_pos hmem]

/-- What is asked of the reader of children: it reads lists inside one more element, of texts that
are shorter than `s`. -/
def ReadsInside (source s : List Char) (openTags : List String)
    (inner : List String → Cursor (Stop × Level)) : Prop :=
  ∀ tag u, width u < width s →
    ∃ r t, Reads source (inner (tag :: openTags)) u r t ∧ Lists (tag :: openTags) [] u r t

def startEvent (tag : String) (as : List Attribute) (isClosed : Bool) (s : List Char) :
    Event × List Char :=
  if isClosed || isVoidTag tag then (.startTag tag as .empty, s)
  else if isRawTextTag tag then
    (.startTag tag as (.raw (String.ofList (rawContent tag.toList s).1)),
      afterBracket (rawContent tag.toList s).2)
  else (.startTag tag as .opens, s)

theorem readStartTag_eq_startEvent (s : List Char) :
    readStartTag s =
      let read := readAttributes (s.dropWhile isTagChar)
      let ended := readTagEnd read.2
      startEvent (tagName s) (Attribute.firstOfEach read.1) ended.1 ended.2 := rfl

private theorem exists_startEvent (tag : String) (as : List Attribute) (isClosed : Bool)
    (s : List Char) :
    ∃ form, (startEvent tag as isClosed s).1 = .startTag tag as form := by
  rw [startEvent]
  split_ifs
  · exact ⟨.empty, rfl⟩
  · exact ⟨.raw _, rfl⟩
  · exact ⟨.opens, rfl⟩

theorem reads_content {tag : String} (ns : List Node) (as : List Attribute) (isClosed : Bool)
    (htag : IsPlainTag tag) (hadmits : openTags.head?.any (closesImplicitly · tag) = false)
    (hinner : ∃ r u, Reads source (inner (tag :: openTags)) s r u ∧
      Lists (tag :: openTags) [] s r u) :
    ∃ cs t, Reads source (content source inner openTags tag isClosed) s (cs, openTags) t ∧
      Leads openTags ns
      ((startEvent tag as isClosed s).1 :: events (startEvent tag as isClosed s).2)
        (ns ++ [.element ⟨tag, as, cs⟩]) (events t) := by
  rw [content, startEvent]
  by_cases hempty : (isClosed || isVoidTag tag) = true
  · rw [if_pos hempty, if_pos hempty]
    exact ⟨[], s, reads_pure _ s, leads_empty as hadmits⟩
  rw [if_neg hempty, if_neg hempty]
  by_cases hraw : isRawTextTag tag = true
  · rw [if_pos hraw, if_pos hraw]
    exact ⟨_, _, (reads_rawText source s htag).bind (reads_pure _ _), leads_raw as _ hadmits⟩
  · rw [if_neg hraw, if_neg hraw]
    obtain ⟨⟨stop, tags, cs⟩, u, hread, htags, hnodes, hrest, -⟩ := hinner
    obtain rfl : tags = tag :: openTags := htags
    obtain rfl : cs = (build (tag :: openTags) (events s)).nodes := by
      rw [nil_joinNodes] at hnodes
      exact hnodes
    refine ⟨_, u, hread.bind (reads_pure _ u), ?_⟩
    rw [hrest]
    exact leads_opens as hadmits

/-- An element has a name, and is added as building adds it. -/
theorem reads_element {d : Char} (ns : List Node) (t : List Char) (hd : d.isAlpha = true)
    (hadmits : openTags.head?.any (closesImplicitly · (tagName (d :: t))) = false)
    (hinner : ReadsInside source ('<' :: d :: t) openTags inner)
    (h : width ('<' :: d :: t) < bound) :
    ∃ e u, Reads source (element source bound inner openTags) ('<' :: d :: t) (e, openTags) u ∧
      width u < width ('<' :: d :: t) ∧
      Leads openTags ns (events ('<' :: d :: t)) (ns ++ [.element e]) (events u) := by
  have hlt : width (d :: t) < width ('<' :: d :: t) :=
    Nat.lt_add_of_pos_left (Char.utf8Size_pos '<')
  have hplain := isPlainTag_tagName t hd
  have hname : Reads source (readWhile source bound isTagChar) (d :: t)
    ((d :: t).takeWhile isTagChar) ((d :: t).dropWhile isTagChar) := reads_readWhile _ (by omega)
  have hattributes : Reads source (attributes source bound) ((d :: t).dropWhile isTagChar) _ _ :=
    reads_attributes (Nat.lt_of_le_of_lt hname.width_le (Nat.lt_trans hlt h))
  have hend := reads_tagEnd source (readAttributes ((d :: t).dropWhile isTagChar)).2
  have hle := Nat.le_trans hend.width_le (Nat.le_trans hattributes.width_le hname.width_le)
  have hlt := Nat.lt_of_le_of_lt hle hlt
  rw [events_startTag_front t hd, readStartTag_eq_startEvent]
  obtain ⟨cs, u, hcontent, hleads⟩ := reads_content ns
    (Attribute.firstOfEach (readAttributes ((d :: t).dropWhile isTagChar)).1)
    (readTagEnd (readAttributes ((d :: t).dropWhile isTagChar)).2).1 hplain hadmits (hinner _ _ hlt)
  refine ⟨_, u, ?_, Nat.lt_of_le_of_lt hcontent.width_le hlt, hleads⟩
  refine (reads_consume source ['<'] (d :: t)).bind (hname.bind ?_)
  have hnamed : ¬(tagName (d :: t)).isEmpty = true := by
    obtain ⟨c, s, hs, -⟩ := hplain
    rw [String.isEmpty_iff, ← String.toList_eq_nil_iff, hs]
    exact List.cons_ne_nil c s
  rw [tagName] at hnamed
  simp only [if_neg hnamed]
  exact hattributes.bind (hend.bind (hcontent.bind (reads_pure _ u)))

private theorem reads_startTagRound {d : Char} (ns : List Node) (t : List Char)
    (hd : d.isAlpha = true) (hinner : ReadsInside source ('<' :: d :: t) openTags inner)
    (h : width ('<' :: d :: t) < bound) :
    RoundReads source (startTagRound source bound inner ⟨openTags, ns⟩) openTags ns
      ('<' :: d :: t) := by
  have hname := reads_peekName source ['<'] (d :: t)
  by_cases hadmits : openTags.head?.any (closesImplicitly · (tagName (d :: t))) = true
  · have hopen : openTags ≠ [] := by
      rintro rfl
      exact absurd hadmits Bool.false_ne_true
    have hevents := events_startTag_front t hd
    rw [readStartTag_eq_startEvent] at hevents
    obtain ⟨form, hform⟩ := exists_startEvent (tagName (d :: t)) _ _ _
    rw [hform] at hevents
    obtain ⟨hnodes, hrest⟩ := build_startTag_of_closes _ form hadmits
    refine .done .unwound _ (hname.bind ?_) ⟨hopen, rfl⟩ (hevents ▸ hnodes) (hevents ▸ hrest.symm)
    rw [if_pos hadmits]
    exact reads_pure _ _
  · obtain ⟨e, u, hread, hlt, hleads⟩ :=
      reads_element ns t hd (Bool.eq_false_iff.mpr hadmits) hinner h
    refine .again _ u (hname.bind ?_) hlt hleads
    rw [if_neg hadmits]
    exact hread.bind (reads_pure _ u)

theorem reads_nodeRound_comment (inner : List String → Cursor (Stop × Level))
    (openTags : List String) (ns : List Node) (t : List Char) :
    RoundReads source (nodeRound source bound inner ⟨openTags, ns⟩) openTags ns
      ('<' :: '!' :: '-' :: '-' :: t) := by
  obtain ⟨content, hevent, hread⟩ := reads_comment source t
  have hlt : width (readComment t).2 < width ('<' :: '!' :: '-' :: '-' :: t) := by
    have hle := width_readComment_le t
    have hpos := Char.utf8Size_pos '<'
    simp only [Text.width_cons]
    omega
  have hmark : Reads source (startsWith source ['<', '!', '-', '-']) ('<' :: '!' :: '-' :: '-' :: t)
    true _ := reads_startsWith source _ _
  refine .again _ _ (hmark.ite_of_true (hread.bind (reads_pure _ _))) hlt ?_
  rw [events_comment_front, hevent]
  exact leads_comment content

private theorem reads_nodeRound_declaration (inner : List String → Cursor (Stop × Level))
    (openTags : List String) (ns : List Node) {t : List Char} (ht : ¬['-', '-'] <+: t) :
    RoundReads source (nodeRound source bound inner ⟨openTags, ns⟩) openTags ns
      ('<' :: '!' :: t) := by
  have hcomment : ¬['<', '!', '-', '-'] <+: '<' :: '!' :: t := by
    simpa [List.cons_prefix_cons] using ht
  have hmark : Reads source (startsWith source ['<', '!']) ('<' :: '!' :: t) true _ :=
    reads_startsWith source _ _
  have hread : Reads source (nodeRound source bound inner ⟨openTags, ns⟩) ('<' :: '!' :: t)
      (.again ⟨openTags, ns⟩) (afterBracket ('<' :: '!' :: t)) :=
    (reads_startsWith_false source hcomment).ite_of_false
      (hmark.ite_of_true ((reads_skipBracket source _).bind (reads_pure _ _)))
  refine .again _ _ hread (width_afterBracket_lt '<' ('!' :: t)) ?_
  rw [events_declaration_front ht]
  exact leads_declaration

private theorem reads_nodeRound_startTag {d : Char} (ns : List Node) (t : List Char)
    (hd : d.isAlpha = true) (hinner : ReadsInside source ('<' :: d :: t) openTags inner)
    (h : width ('<' :: d :: t) < bound) :
    RoundReads source (nodeRound source bound inner ⟨openTags, ns⟩) openTags ns
      ('<' :: d :: t) := by
  have hne : '!' ≠ d := (ne_of_isAlpha hd (by decide)).symm
  have hcomment : ¬['<', '!', '-', '-'] <+: '<' :: d :: t := by
    simp [List.cons_prefix_cons, hne]
  have hdeclaration : ¬['<', '!'] <+: '<' :: d :: t := by
    simp [List.cons_prefix_cons, hne]
  have hmarkup := reads_facesMarkup source ('<' :: d :: t)
  rw [isAtMarkup_startTag_of_isAlpha t hd] at hmarkup
  exact (reads_startTagRound ns t hd hinner h).imp fun r u hr ↦
    (reads_startsWith_false source hcomment).ite_of_false
      ((reads_startsWith_false source hdeclaration).ite_of_false (hmarkup.ite_of_true hr))

private theorem reads_nodeRound_text {c : Char} (inner : List String → Cursor (Stop × Level))
    (openTags : List String) (ns : List Node) {t : List Char} (hat : isAtMarkup (c :: t) = false)
    (h : width (c :: t) < bound) :
    RoundReads source (nodeRound source bound inner ⟨openTags, ns⟩) openTags ns (c :: t) := by
  have hdeclaration : ¬['<', '!'] <+: c :: t := by
    rintro ⟨u, hu⟩
    have hmarkup : isAtMarkup (['<', '!'] ++ u) = true := rfl
    rw [← hu, hmarkup] at hat
    exact absurd hat.symm Bool.false_ne_true
  have hcomment : ¬['<', '!', '-', '-'] <+: c :: t := fun hp ↦
    hdeclaration ((List.prefix_append ['<', '!'] ['-', '-']).trans hp)
  have hmarkup := reads_facesMarkup source (c :: t)
  rw [hat] at hmarkup
  have hlt : width (textRun t).2 < width (c :: t) := by
    have happend := Text.width_append (textRun t).1 (textRun t).2
    have hpos := c.utf8Size_pos
    rw [append_textRun] at happend
    rw [Text.width_cons]
    omega
  have hnonempty : ¬(String.ofList (Entity.decode (c :: (textRun t).1))).isEmpty = true := by
    rw [String.isEmpty_iff, ← String.toList_eq_nil_iff, String.toList_ofList]
    exact Entity.decode_ne_nil (List.cons_ne_nil c _)
  have hread : Reads source (nodeRound source bound inner ⟨openTags, ns⟩) (c :: t)
      (.again (if (String.ofList (Entity.decode (c :: (textRun t).1))).isEmpty then ⟨openTags, ns⟩
        else ⟨openTags, appendText ns (String.ofList (Entity.decode (c :: (textRun t).1)))⟩))
      (textRun t).2 :=
    (reads_startsWith_false source hcomment).ite_of_false
      ((reads_startsWith_false source hdeclaration).ite_of_false
        (hmarkup.ite_of_false ((reads_text c t h).bind (reads_pure _ _))))
  rw [if_neg hnonempty] at hread
  refine .again _ _ hread hlt ?_
  rw [events_text_front hat]
  exact leads_text _

/-- **A round of a list takes something, or ends the list.** When it ends the list before the end of
the text, there is an open element to close. -/
theorem reads_childrenRound (ns : List Node) (hinner : ReadsInside source s openTags inner)
    (h : width s < bound) :
    RoundReads source (childrenRound source bound inner ⟨openTags, ns⟩) openTags ns s := by
  have hnode (hs : s.isEmpty = false) (hend : (['<', '/'].isPrefixOf s && isAtMarkup s) = false)
      (hread : RoundReads source (nodeRound source bound inner ⟨openTags, ns⟩) openTags ns s) :
      RoundReads source (childrenRound source bound inner ⟨openTags, ns⟩) openTags ns s := by
    have hfinished := reads_isAtEnd source s
    have hfaces := reads_facesEndTag source s
    rw [hs] at hfinished
    rw [hend] at hfaces
    exact hread.imp fun r t hr ↦ hfinished.ite_of_false (hfaces.ite_of_false hr)
  rcases front s with _ | ⟨d, t, hd⟩ | ⟨t⟩ | ⟨t, ht⟩ | ⟨d, t, hd⟩ | ⟨c, t, hat⟩
  · refine .done .ended [] ((reads_isAtEnd source []).ite_of_true (reads_pure _ []))
      ⟨rfl, rfl⟩ ?_ ?_
    · rw [events, build]
    · rw [events, build]
  · have hfaces := reads_facesEndTag source ('<' :: '/' :: d :: t)
    have hfront : (['<', '/'].isPrefixOf ('<' :: '/' :: d :: t) &&
        isAtMarkup ('<' :: '/' :: d :: t)) = true := hd
    rw [hfront] at hfaces
    exact (reads_endTagRound source openTags ns t hd).imp fun r u hr ↦
      (reads_isAtEnd source _).ite_of_false (hfaces.ite_of_true hr)
  · exact hnode rfl rfl (reads_nodeRound_comment inner openTags ns t)
  · exact hnode rfl rfl (reads_nodeRound_declaration inner openTags ns ht)
  · refine hnode rfl ?_ (reads_nodeRound_startTag ns t hd hinner h)
    have hne : '/' ≠ d := fun hdash ↦ ne_of_isAlpha hd (by decide) hdash.symm
    simp [hne]
  · exact hnode rfl (by rw [hat, Bool.and_false]) (reads_nodeRound_text inner openTags ns hat h)

/-! ## Reading lists inside one another -/

theorem Lists.of_done {stop : Stop} (htakes : stop.Takes openTags s t)
    (hnodes : (build openTags (events s)).nodes = [])
    (hrest : events t = (build openTags (events s)).rest) :
    Lists openTags ns s (stop, ⟨openTags, ns⟩) t := by
  refine ⟨rfl, by rw [hnodes, joinNodes_nil], hrest, ?_⟩
  rcases stop with _ | _ | _
  · exact Or.inl ⟨rfl, htakes.2⟩
  · exact Or.inr htakes.1
  · exact Or.inr htakes.1

theorem Lists.of_again {ns' : List Node} {u : List Char} {r : Stop × Level}
    (hleads : Leads openTags ns (events s) ns' (events u)) (h : Lists openTags ns' u r t) :
    Lists openTags ns s r t :=
  ⟨h.tags, h.nodes.trans hleads.nodes.symm, h.rest.trans hleads.rest.symm, h.stop⟩

/-- **A list of nodes is read as it is built from the events.** Calls nest no deeper than the text
is wide. -/
theorem reads_children (source : List Char) (openTags : List String) {depth : Nat}
    (hdepth : width s < depth) (h : width s < bound) :
    ∃ r t, Reads source (children source bound depth openTags) s r t ∧ Lists openTags [] s r t := by
  induction depth generalizing openTags s with
  | zero => exact absurd hdepth (Nat.not_lt_zero _)
  | succ depth ih =>
    have hround : ∀ (level : Level) u, level.openTags = openTags ∧ width u ≤ width s →
        (∃ r t, Reads source (childrenRound source bound (children source bound depth) level) u
          (.done r) t ∧ Lists openTags level.nodes u r t) ∨
        ∃ level' u', Reads source (childrenRound source bound (children source bound depth) level) u
          (.again level') u' ∧ width u' < width u ∧
          (level'.openTags = openTags ∧ width u' ≤ width s) ∧
          ∀ r t, Lists openTags level'.nodes u' r t → Lists openTags level.nodes u r t := by
      rintro ⟨tags, ns⟩ u ⟨rfl, hu⟩
      have hinner : ReadsInside source u tags (children source bound depth) :=
        fun tag v hv ↦ ih (tag :: tags) (by omega) (by omega)
      rcases reads_childrenRound ns hinner (Nat.lt_of_le_of_lt hu h) with
        ⟨stop, t, hread, htakes, hnodes, hrest⟩ | ⟨ns', t, hread, hlt, hleads⟩
      · exact Or.inl ⟨_, t, hread, .of_done htakes hnodes hrest⟩
      · exact Or.inr ⟨⟨tags, ns'⟩, t, hread, hlt, ⟨rfl, by omega⟩, fun r v ↦ .of_again hleads⟩
    have hfirst : (⟨openTags, []⟩ : Level).openTags = openTags ∧ width s ≤ width s :=
      ⟨rfl, Nat.le_refl _⟩
    exact exists_reads_loop hround hfirst h

end Reads

/-! ## The open tags

That an element leaves the open tags as they are does not depend on what is read, so it is shown for
any text and any reader of children that does the same. -/

section Gives

variable {source : List Char} {bound : Nat} {inner : List String → Cursor (Stop × Level)}

/-- Behind an element the same elements are open as before, wherever it is read. -/
theorem gives_element (hinner : ∀ tags, Gives (inner tags) fun r ↦ r.2.openTags = tags)
    (openTags : List String) :
    Gives (element source bound inner openTags) fun r ↦ r.2 = openTags := by
  have hcontent (tag : String) (isClosed : Bool) :
      Gives (content source inner openTags tag isClosed) fun r ↦ r.2 = openTags := by
    refine gives_ite (gives_pure rfl) (gives_ite (gives_bind fun raw ↦ gives_pure rfl) ?_)
    refine (hinner (tag :: openTags)).bind fun ⟨stop, level⟩ htags ↦ gives_pure ?_
    have htags : level.openTags = tag :: openTags := htags
    rw [htags, List.tail_cons]
  refine gives_bind fun _ ↦ gives_bind fun name ↦ gives_ite (gives_throw _) ?_
  refine gives_bind fun as ↦ gives_bind fun isClosed ↦ ?_
  exact (hcontent _ isClosed).bind fun r hr ↦ gives_pure hr

def Round.Keeps (openTags : List String) : Round Level (Stop × Level) → Prop :=
  Round.All (fun level ↦ level.openTags = openTags) fun r ↦ r.2.openTags = openTags

private theorem gives_childrenRound
    (hinner : ∀ tags, Gives (inner tags) fun r ↦ r.2.openTags = tags) (level : Level) :
    Gives (childrenRound source bound inner level) (Round.Keeps level.openTags) := by
  have hend : Gives (endTagRound source level) (Round.Keeps level.openTags) := by
    refine gives_bind fun tag ↦ ?_
    split
    · exact gives_bind fun _ ↦ gives_pure rfl
    · exact gives_pure rfl
    · exact gives_bind fun _ ↦ gives_pure rfl
  have hstart : Gives (startTagRound source bound inner level) (Round.Keeps level.openTags) := by
    refine gives_bind fun tag ↦ gives_ite (gives_pure rfl) ?_
    exact (gives_element hinner level.openTags).bind fun r hr ↦ gives_pure hr
  have hnode : Gives (nodeRound source bound inner level) (Round.Keeps level.openTags) := by
    refine gives_bind fun _ ↦ gives_ite (gives_bind fun _ ↦ gives_pure rfl) ?_
    refine gives_bind fun _ ↦ gives_ite (gives_bind fun _ ↦ gives_pure rfl) ?_
    refine gives_bind fun _ ↦ gives_ite hstart (gives_bind fun s ↦ gives_pure ?_)
    by_cases hs : s.isEmpty = true
    · rw [if_pos hs]
      exact rfl
    · rw [if_neg hs]
      exact rfl
  refine gives_bind fun _ ↦ gives_ite (gives_pure rfl) ?_
  exact gives_bind fun _ ↦ gives_ite hend hnode

/-- Where a list ends, the same elements are open as where it begins. -/
theorem gives_children (source : List Char) (bound depth : Nat) (openTags : List String) :
    Gives (children source bound depth openTags) fun r ↦ r.2.openTags = openTags := by
  induction depth generalizing openTags with
  | zero => exact gives_throw _
  | succ depth ih =>
    have hround (level : Level) (hlevel : level.openTags = openTags) :
        Gives (childrenRound source bound (children source bound depth) level)
          (Round.Keeps openTags) := hlevel ▸ gives_childrenRound ih level
    exact gives_loop hround bound rfl

end Gives

/-! ## Reading the whole text -/

theorem run_children (s : List Char) {bound depth : Nat} (h : width s < bound)
    (hdepth : width s < depth) :
    (Cursor.children s bound depth []).run 0 = .ok ((.ended, ⟨[], parseNodes s⟩), width s) := by
  obtain ⟨⟨stop, tags, ns⟩, t, hread, htags, hnodes, hrest, hstop⟩ :=
    reads_children s [] hdepth h
  obtain ⟨rfl, rfl⟩ := hstop.resolve_right fun hne ↦ hne rfl
  obtain ⟨q, hrun, hq⟩ := hread.run 0 (.zero s)
  obtain rfl : tags = [] := htags
  rw [nil_joinNodes] at hnodes
  obtain rfl : ns = parseNodes s := hnodes
  rw [hrun, hq.eq_width]

/-- **Recursive descent does what the stack of open elements does.** Reading in one pass, with lists
that end for the lists around them, gives the tree that the events lead to over the stack. -/
theorem parseByDescent_eq_treeOf (source : String) :
    parseByDescent source = .ok (parse source) ∧
      parse source = treeOf (events source.toList) := by
  constructor
  · have hrun := run_children source.toList (Nat.lt_succ_self _) (Nat.lt_succ_self _)
    rw [parseByDescent, hrun]
    rfl
  · exact parse_eq_treeOf source

/-! ## What every round takes -/

section Rounds

variable {source : List Char} {bound p : Nat} {s : List Char}

/-- What a round of a list does between two positions: it moves on, or ends the list. When it ends
the list before the end of the source, there is an open element, which the reader of the element
closes. -/
def Advances (source : List Char) (level : Level) (p q : Nat) : Round Level (Stop × Level) → Prop
  | .again level' => level'.openTags = level.openTags ∧ p < q
  | .done (.ended, level') => level' = level ∧ q = width source
  | .done (.closed, level') => level' = level ∧ level.openTags ≠ [] ∧ p < q
  | .done (.unwound, level') => level' = level ∧ level.openTags ≠ [] ∧ q = p

private theorem run_childrenRound {depth : Nat} (level : Level) (hs : Stands source p s)
    (hdepth : width s ≤ depth) (h : width s < bound) :
    ∃ r q, (childrenRound source bound (children source bound depth) level).run p = .ok (r, q) ∧
      Advances source level p q r := by
  have hinner : ReadsInside source s level.openTags (children source bound depth) :=
    fun tag u hu ↦ reads_children source (tag :: level.openTags) (by omega) (by omega)
  rcases reads_childrenRound level.nodes hinner h with
    ⟨stop, t, hread, htakes, -, -⟩ | ⟨ns', t, hread, hlt, -⟩
  · obtain ⟨q, hrun, ht⟩ := hread.run p hs
    refine ⟨_, q, hrun, ?_⟩
    rcases stop with _ | _ | _
    · obtain ⟨-, rfl⟩ := htakes
      exact ⟨rfl, ht.eq_width⟩
    · exact ⟨rfl, htakes.1, hs.lt_of_width_lt ht htakes.2⟩
    · obtain ⟨hopen, rfl⟩ := htakes
      have hp := hs.width_add
      have hq := ht.width_add
      exact ⟨rfl, hopen, by omega⟩
  · obtain ⟨q, hrun, ht⟩ := hread.run p hs
    exact ⟨_, q, hrun, rfl, hs.lt_of_width_lt ht hlt⟩

private theorem run_attributeRound (as : List Attribute) (hs : Stands source p s)
    (h : width s < bound) :
    ∃ r q, (attributeRound source bound as).run p = .ok (r, q) ∧ ∀ as', r = .again as' → p < q := by
  rcases reads_attributeRound source as h with hread | ⟨as', t, hread, hlt, -, -⟩
  · obtain ⟨q, hrun, -⟩ := hread.run p hs
    exact ⟨_, q, hrun, nofun⟩
  · obtain ⟨q, hrun, ht⟩ := hread.run p hs
    exact ⟨_, q, hrun, fun _ _ ↦ hs.lt_of_width_lt ht hlt⟩

private theorem run_advanceRound {goesOn : List Char → Bool} (hgo : goesOn [] = false)
    (hs : Stands source p s) :
    ∃ r q, (advanceRound source goesOn ()).run p = .ok (r, q) ∧ (r = .again () → p < q) := by
  by_cases hnext : goesOn s = true
  · rcases s with _ | ⟨c, t⟩
    · exact absurd hnext (Bool.eq_false_iff.mp hgo)
    · obtain ⟨q, hrun, ht⟩ := (reads_advanceRound source c t hnext).run p hs
      have hlt : width t < width (c :: t) := Nat.lt_add_of_pos_left c.utf8Size_pos
      exact ⟨_, q, hrun, fun _ ↦ hs.lt_of_width_lt ht hlt⟩
  · obtain ⟨q, hrun, -⟩ :=
      (reads_advanceRound_of_stop source (Bool.eq_false_iff.mpr hnext)).run p hs
    exact ⟨_, q, hrun, nofun⟩

end Rounds

/-- **Reading by recursive descent comes to the end of the text.** With nothing open, the list of
nodes ends nowhere else, and no slice, loop, call or missing name breaks the reading off on the way.
An element leaves the open tags as they are, and every round of a loop moves on, or ends a list with
an open element for the reader around to close. -/
theorem descent_reaches_end (source : List Char) {bound depth : Nat} (hbound : width source < bound)
    (hdepth : width source < depth) :
    (children source bound depth []).run 0 =
        .ok ((.ended, ⟨[], parseNodes source⟩), width source) ∧
      (∀ n openTags, Gives (element source bound (children source bound n) openTags) fun r ↦
        r.2 = openTags) ∧
      (∀ n level p s, Stands source p s → width s ≤ n →
        ∃ r q, (childrenRound source bound (children source bound n) level).run p = .ok (r, q) ∧
          Advances source level p q r) ∧
      (∀ as p s, Stands source p s →
        ∃ r q, (attributeRound source bound as).run p = .ok (r, q) ∧
          ∀ as', r = .again as' → p < q) ∧
      ∀ goesOn : List Char → Bool, goesOn [] = false → ∀ p s, Stands source p s →
        ∃ r q, (advanceRound source goesOn ()).run p = .ok (r, q) ∧ (r = .again () → p < q) := by
  have hwidth {p : Nat} {s : List Char} (hs : Stands source p s) : width s < bound := by
    have := hs.width_add
    omega
  refine ⟨run_children source hbound hdepth, fun n openTags ↦ ?_, fun n level p s hs hn ↦ ?_,
    fun as p s hs ↦ ?_, fun goesOn hgo p s hs ↦ ?_⟩
  · exact gives_element (gives_children source bound n) openTags
  · exact run_childrenRound level hs hn (hwidth hs)
  · exact run_attributeRound as hs (hwidth hs)
  · exact run_advanceRound hgo hs

/-- Stray and mismatched tags do not keep the reader from the end. -/
theorem descent_reaches_end_of_mismatched :
    width "</i><b>x<p>y</b><".toList < 20 ∧
      (children "</i><b>x<p>y</b><".toList 20 20 []).run 0 =
        .ok ((.ended, ⟨[], parseNodes "</i><b>x<p>y</b><".toList⟩),
          width "</i><b>x<p>y</b><".toList) :=
  ⟨by decide, (descent_reaches_end _ (by decide) (by decide)).1⟩

end HtmlTemplate.Markup
