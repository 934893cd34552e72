import HtmlTemplate.Proofs.Markup.Cursor
import HtmlTemplate.Proofs.Markup.Escaping
import HtmlTemplate.Proofs.Markup.ReadBack
import HtmlTemplate.Proofs.Markup.Shape
import HtmlTemplate.Proofs.Text.Bytes

/-!
# The parts of markup, read by a cursor

The names, attributes, raw contents, comments and texts of a markup text are read here in the way of
a program that moves over the text: loops over characters, searches that give an offset, and slices.
Each reader gives what the function on lists of characters gives, and stops where that stops, so
that it takes no slice that it may not take and ends every loop (`reads_attributes`,
`reads_rawText`).

## One lemma for each reader

A reader of the cursor has the name of what it reads, and its lemma says that it `Reads` just what
the function on lists of characters gives. Most of them only put readers behind one another. Three
search or loop: for the end tag of raw content, over attributes, and over references; there it has
to be seen that a search by bytes finds what a search by characters finds, and that a round takes
something.
-/

namespace HtmlTemplate.Markup

open Cursor
open Text (width)

namespace Cursor

/-! ## Character references -/

/-- Reads the reference at an ampersand, or the ampersand alone. -/
def referenceRound (raw out : List Char) : Cursor (Round (List Char) (List Char)) := do
  let s ← rest raw
  match Text.cutAtChar (· == ';') s with
  | none =>
    modify (· + 1)
    return .again (out ++ ['&'])
  | some (inside, _) =>
    match Entity.charOf? (← cut 1 (width inside) s) with
    | none =>
      modify (· + 1)
      return .again (out ++ ['&'])
    | some c =>
      modify (· + (width inside + 1))
      return .again (out ++ [c])

/-- Reads up to the next ampersand, and what stands there. -/
def decodeRound (raw out : List Char) : Cursor (Round (List Char) (List Char)) := do
  let s ← rest raw
  match Text.cutAtChar (· == '&') s with
  | none => return .done (out ++ s)
  | some (before, _) =>
    let front ← cut 0 (width before) s
    modify (· + width before)
    referenceRound raw (out ++ front)

variable (source : List Char) (bound : Nat)

def decode (raw : List Char) : Cursor (List Char) := do
  let (s, _) ← ((loop (decodeRound raw) bound []).run 0 : Except Fault _)
  return s

/-! ## Names and brackets -/

def nameOf (s : List Char) : Cursor String := do
  let stop := match Text.cutAtChar (fun c ↦ !isTagChar c) s with
    | some (name, _) => width name
    | none => width s
  return String.ofList (Text.lowerAscii (← cut 0 stop s))

/-- The name of the tag in front, behind a mark of so many bytes. -/
def peekName (mark : Nat) : Cursor String := do
  let s ← rest source
  nameOf (← cut mark (width s) s)

def facesMarkup : Cursor Bool := do return Markup.isAtMarkup (← rest source)

def facesEndTag : Cursor Bool := do
  if ← startsWith source ['<', '/'] then facesMarkup source else return false

def skipBracket : Cursor Unit := do
  let _ ← readUntil source ['>']
  let _ ← consume source ['>']

/-! ## Attributes -/

/-- Is the end of a start tag in front, or the end of the source? -/
def facesTagEnd : Cursor Bool := do
  if ← isAtEnd source then return true
  else if ← startsWith source ['>'] then return true
  else startsWith source ['/', '>']

def attributeValue : Cursor (List Char) := do
  match (← rest source).head? with
  | some c =>
    if c = '"' ∨ c = '\x27' then
      advance source
      let raw ← readUntil source [c]
      advance source
      decode bound raw
    else decode bound (← readWhile source bound fun c ↦ !Text.isBlank c && c != '>')
  | none => decode bound (← readWhile source bound fun c ↦ !Text.isBlank c && c != '>')

/-- Reads an equals sign and the value behind it, if the sign is there. -/
def assignment : Cursor (List Char) := do
  if ← consume source ['='] then
    skipBlanks source bound
    attributeValue source bound
  else return []

/-- Adds an attribute, if there is none of its name. -/
def addAttribute (as : List Attribute) (a : Attribute) : List Attribute :=
  if as.any fun b ↦ b.name == a.name then as else as ++ [a]

/-- Reads one attribute, or skips a character that begins none. -/
def oneAttribute (as : List Attribute) : Cursor (List Attribute) := do
  let name := Text.lowerAscii (← readWhile source bound isAttributeChar)
  if name.isEmpty then
    advance source
    return as
  else
    skipBlanks source bound
    let value ← assignment source bound
    return addAttribute as ⟨String.ofList name, String.ofList value⟩

/-- Reads one attribute where the tag does not end. -/
def attributeRound (as : List Attribute) : Cursor (Round (List Attribute) (List Attribute)) := do
  skipBlanks source bound
  if ← facesTagEnd source then return .done as
  else return .again (← oneAttribute source bound as)

def attributes : Cursor (List Attribute) := loop (attributeRound source bound) bound []

def tagEnd : Cursor Bool := do
  if ← consume source ['/', '>'] then return true
  else
    let _ ← consume source ['>']
    return false

/-! ## Content -/

/-- Moves to the end tag of an element with raw content, or else to the end. -/
def moveToRawEnd (tag : String) : Cursor Unit := do
  match Text.findBytes? (Text.utf8 (rawEnd tag)) (Text.utf8 (← rest source)) with
  | some (some offset) => modify (· + offset)
  | some none => set (width source)
  | none => throw .slice

/-- Reads the content of an element with raw content, and its end tag if it is there. -/
def rawText (tag : String) : Cursor (List Char) := do
  let content ← passed source (moveToRawEnd source tag)
  if ← isAtEnd source then return content
  else
    skipBracket source
    return content

def comment : Cursor String := do
  let _ ← consume source ['<', '!', '-', '-']
  let content ← readUntil source ['-', '-', '>']
  let _ ← consume source ['-', '-', '>']
  return String.ofList content

def text : Cursor String := do
  let raw ← passed source do
    advance source
    advanceWhile source bound fun s ↦ !s.isEmpty && !Markup.isAtMarkup s
  return String.ofList (← decode bound raw)

end Cursor

section Reads

variable {source s t : List Char} {bound : Nat}

/-! ## Reading references -/

theorem decode_of_reference? (h : Entity.reference? t = none) :
    Entity.decode ('&' :: t) = '&' :: Entity.decode t := by
  rw [Entity.decode, if_pos rfl, h]

private theorem not_mem_takeWhile (s : List Char) : '&' ∉ s.takeWhile fun c ↦ !(c == '&') := by
  intro hmem
  have := List.mem_takeWhile_imp hmem
  exact absurd this (by decide)

private theorem reads_referenceRound (raw out t : List Char) :
    ∃ c u, Entity.decode ('&' :: t) = c :: Entity.decode u ∧ width u < width ('&' :: t) ∧
      Reads raw (referenceRound raw out) ('&' :: t) (.again (out ++ [c])) u := by
  have hlt : width t < width ('&' :: t) := by
    rw [Text.width_cons]
    exact Nat.lt_add_of_pos_left (Char.utf8Size_pos '&')
  have halone : Reads raw (do
      modify (· + 1)
      return .again (out ++ ['&']) : Cursor (Round (List Char) (List Char)))
      ('&' :: t) (.again (out ++ ['&'])) t := (reads_modify raw ['&'] t).bind (reads_pure _ t)
  rcases hcut : Text.cutAtChar (· == ';') t with _ | ⟨name, u⟩
  · refine ⟨'&', t, decode_of_reference? ?_, hlt, (reads_rest raw _).bind ?_⟩
    · rw [Entity.reference?, hcut]
      rfl
    · rw [Text.cutAtChar, if_neg (by decide), hcut]
      exact halone
  · -- the name stands behind the ampersand, before the semicolon
    obtain ⟨-, d, hd, rfl⟩ := Text.takeWhile_of_cutAtChar hcut
    obtain rfl : d = ';' := by simpa using hd
    have hname : Reads raw (cut 1 (width ('&' :: name)) ('&' :: (name ++ ';' :: u)))
        ('&' :: (name ++ ';' :: u)) name ('&' :: (name ++ ';' :: u)) :=
      reads_cut raw ['&'] name (';' :: u) _
    rcases hchar : Entity.charOf? name with _ | c
    · refine ⟨'&', _, decode_of_reference? ?_, hlt, (reads_rest raw _).bind ?_⟩
      · rw [Entity.reference?, hcut]
        simp [hchar]
      · rw [Text.cutAtChar, if_neg (by decide), hcut]
        refine hname.bind ?_
        rw [hchar]
        exact halone
    · refine ⟨c, u, Entity.decode_ampersand ?_, ?_, (reads_rest raw _).bind ?_⟩
      · rw [Entity.reference?, hcut]
        simp [hchar]
      · have := Char.utf8Size_pos '&'
        simp only [Text.width_cons, Text.width_append]
        omega
      · rw [Text.cutAtChar, if_neg (by decide), hcut]
        refine hname.bind ?_
        rw [hchar]
        have hmove := reads_modify raw ('&' :: name ++ [';']) u
        rw [Text.width_append, List.append_assoc, List.singleton_append] at hmove
        exact hmove.bind (reads_pure _ u)

/-- Reading references takes no slice that cuts through a character. -/
theorem reads_decode {raw : List Char} (source s : List Char) (h : width raw < bound) :
    Reads source (Cursor.decode bound raw) s (Entity.decode raw) s := by
  -- what is decoded so far, and then what is left, come to the text in every round
  have hround : ∀ out s, True →
      (∃ a t, Reads raw (decodeRound raw out) s (.done a) t ∧ a = out ++ Entity.decode s) ∨
      ∃ out' s', Reads raw (decodeRound raw out) s (.again out') s' ∧ width s' < width s ∧ True ∧
        ∀ a (_ : List Char), a = out' ++ Entity.decode s' → a = out ++ Entity.decode s := by
    intro out s _
    rcases hcut : Text.cutAtChar (· == '&') s with _ | ⟨before, t⟩
    · have hmem := not_mem_takeWhile s
      rw [Text.takeWhile_of_cutAtChar_eq_none hcut] at hmem
      have hs : Entity.decode s = s := by
        have := Entity.decode_append [] hmem
        rwa [List.append_nil, Entity.decode, List.append_nil] at this
      refine Or.inl ⟨out ++ s, s, (reads_rest raw s).bind ?_, by rw [hs]⟩
      rw [hcut]
      exact reads_pure _ s
    · obtain ⟨hbefore, d, hd, rfl⟩ := Text.takeWhile_of_cutAtChar hcut
      obtain rfl : d = '&' := by simpa using hd
      have hmem := not_mem_takeWhile (before ++ '&' :: t)
      rw [hbefore] at hmem
      obtain ⟨c, u, hdecode, hlt, hreference⟩ := reads_referenceRound raw (out ++ before) t
      refine Or.inr ⟨out ++ before ++ [c], u, (reads_rest raw _).bind ?_, ?_, trivial, ?_⟩
      · rw [hcut]
        have hfront := reads_cut raw [] before ('&' :: t) (before ++ '&' :: t)
        rw [Text.width_nil, Nat.zero_add, List.nil_append] at hfront
        exact hfront.bind ((reads_modify raw before ('&' :: t)).bind hreference)
      · rw [Text.width_append]
        omega
      · intro a _ ha
        rw [ha, Entity.decode_append _ hmem, hdecode]
        simp
  obtain ⟨a, t, hloop, rfl⟩ := exists_reads_loop hround trivial h
  obtain ⟨q, hq, -⟩ := hloop.run 0 (.zero raw)
  refine ⟨fun p hp ↦ ⟨p, ?_, hp⟩, Nat.le_refl _⟩
  rw [Cursor.decode, hq]
  rfl

/-! ## Reading names and brackets -/

private theorem reads_nameOf (s u : List Char) : Reads source (nameOf s) u (tagName s) u := by
  have hfront (name behind : List Char) (hs : s = name ++ behind)
      (hname : s.takeWhile isTagChar = name) :
      Reads source (do return String.ofList (Text.lowerAscii (← cut 0 (width name) s))) u
        (tagName s) u := by
    have hcut := reads_cut source [] name behind u
    rw [Text.width_nil, Nat.zero_add, List.nil_append, ← hs] at hcut
    rw [tagName, hname]
    exact hcut.bind (reads_pure _ u)
  have hrun : (fun c ↦ !!isTagChar c) = isTagChar := funext fun c ↦ Bool.not_not _
  rw [nameOf]
  rcases hstop : Text.cutAtChar (fun c ↦ !isTagChar c) s with _ | ⟨name, behind⟩
  · have htake := Text.takeWhile_of_cutAtChar_eq_none hstop
    rw [hrun] at htake
    exact hfront s [] (List.append_nil s).symm htake
  · obtain ⟨htake, c, -, hs⟩ := Text.takeWhile_of_cutAtChar hstop
    rw [hrun] at htake
    exact hfront name _ hs htake

theorem reads_peekName (source mark s : List Char) :
    Reads source (peekName source (width mark)) (mark ++ s) (tagName s) (mark ++ s) := by
  have hcut := reads_cut source mark s [] (mark ++ s)
  rw [List.append_nil, ← Text.width_append] at hcut
  exact (reads_rest source _).bind (hcut.bind (reads_nameOf s _))

theorem reads_facesMarkup (source s : List Char) :
    Reads source (facesMarkup source) s (isAtMarkup s) s :=
  (reads_rest source s).bind (reads_pure _ s)

theorem reads_facesEndTag (source s : List Char) :
    Reads source (facesEndTag source) s (['<', '/'].isPrefixOf s && isAtMarkup s) s := by
  refine (reads_startsWith source ['<', '/'] s).bind ?_
  by_cases hs : ['<', '/'].isPrefixOf s = true
  · rw [if_pos hs, hs, Bool.true_and]
    exact reads_facesMarkup source s
  · rw [if_neg hs, Bool.eq_false_iff.mpr hs, Bool.false_and]
    exact reads_pure false s

theorem reads_readUntil_char (source : List Char) (c : Char) (s : List Char) :
    Reads source (readUntil source [c]) s (s.takeWhile (· != c)) (s.dropWhile (· != c)) := by
  have happend := List.takeWhile_append_dropWhile (p := (· != c)) (l := s)
  rcases hcut : Text.cutAtChar (· == c) s with _ | ⟨before, behind⟩
  · have htake : s.takeWhile (· != c) = s := Text.takeWhile_of_cutAtChar_eq_none hcut
    rw [htake] at happend ⊢
    rw [List.append_right_eq_self.mp happend]
    exact reads_readUntil_of_none source (by rw [Text.cutAt_singleton, hcut])
  · obtain ⟨htake, d, hd, hs⟩ := Text.takeWhile_of_cutAtChar hcut
    have htake : s.takeWhile (· != c) = before := htake
    obtain rfl : d = c := by simpa using hd
    rw [htake] at happend ⊢
    rw [List.append_cancel_left (happend.trans hs)]
    exact reads_readUntil source (by rw [Text.cutAt_singleton, hcut])

/-- Moving behind a character that has been searched for. -/
theorem exists_reads_consume_char (source : List Char) (c : Char) (s : List Char) :
    ∃ b, Reads source (consume source [c]) (s.dropWhile (· != c)) b
      ((s.dropWhile (· != c)).drop 1) := by
  have hfront := List.head?_dropWhile_not (· != c) s
  rcases hs : s.dropWhile (· != c) with _ | ⟨d, t⟩
  · exact ⟨false, reads_consume_false source (by simp)⟩
  · rw [hs] at hfront
    obtain rfl : d = c := by simpa using hfront
    exact ⟨true, reads_consume source [d] t⟩

theorem reads_skipBracket (source s : List Char) :
    Reads source (skipBracket source) s () (afterBracket s) := by
  obtain ⟨b, hconsume⟩ := exists_reads_consume_char source '>' s
  exact (reads_readUntil_char source '>' s).bind (hconsume.bind (reads_pure () _))

/-! ## Reading attributes -/

private theorem reads_attributeValue (h : width s < bound) :
    Reads source (attributeValue source bound) s (Entity.decode (readValue s).1)
      (readValue s).2 := by
  refine (reads_rest source s).bind ?_
  rcases s with _ | ⟨c, t⟩
  · exact (reads_readWhile _ h).bind (reads_decode source [] h)
  · rw [List.head?_cons, readValue]
    by_cases hc : c = '"' ∨ c = '\x27'
    · have hraw : width (t.takeWhile (· != c)) < bound := by
        have := Text.width_takeWhile_le (· != c) t
        rw [Text.width_cons] at h
        omega
      simp only [if_pos hc]
      refine (reads_advance source (c :: t)).bind ?_
      refine (reads_readUntil_char source c t).bind ?_
      exact (reads_advance source _).bind (reads_decode source _ hraw)
    · have hraw : width ((c :: t).takeWhile fun d ↦ !Text.isBlank d && d != '>') < bound :=
        Nat.lt_of_le_of_lt (Text.width_takeWhile_le _ (c :: t)) h
      simp only [if_neg hc]
      exact (reads_readWhile _ h).bind (reads_decode source _ hraw)

theorem reads_assignment (h : width s < bound) :
    Reads source (assignment source bound) (Text.trimStart s) (readAssignment s).1
      (readAssignment s).2 := by
  have hwidth : width (Text.trimStart s) ≤ width s := Text.width_dropWhile_le Text.isBlank s
  rw [readAssignment]
  split
  · rename_i t ht
    rw [ht] at hwidth ⊢
    have ht : width t < bound := by
      have := (reads_consume source ['='] t).width_le
      exact Nat.lt_of_le_of_lt (Nat.le_trans this hwidth) h
    have hblanks : Reads source (skipBlanks source bound) t () (Text.trimStart t) :=
      reads_skipBlanks ht
    refine (reads_consume source ['='] t).bind (hblanks.bind ?_)
    exact reads_attributeValue (Nat.lt_of_le_of_lt hblanks.width_le ht)
  · rename_i hne
    refine (reads_consume_false source ?_).bind (reads_pure _ _)
    rintro ⟨t, ht⟩
    exact hne t ht.symm

def isAtTagEnd (s : List Char) : Bool :=
  s.isEmpty || ['>'].isPrefixOf s || ['/', '>'].isPrefixOf s

theorem isAtTagEnd_iff :
    isAtTagEnd s = true ↔ s = [] ∨ (∃ t, s = '>' :: t) ∨ ∃ t, s = '/' :: '>' :: t := by
  have hprefix (mark : List Char) : mark.isPrefixOf s = true ↔ ∃ t, s = mark ++ t := by
    rw [List.isPrefixOf_iff_prefix]
    exact exists_congr fun t ↦ eq_comm
  rw [isAtTagEnd, Bool.or_eq_true, Bool.or_eq_true, or_assoc, List.isEmpty_iff, hprefix, hprefix]
  rfl

theorem reads_facesTagEnd (source s : List Char) :
    Reads source (facesTagEnd source) s (isAtTagEnd s) s := by
  refine (reads_isAtEnd source s).bind ?_
  rw [isAtTagEnd]
  by_cases hs : s.isEmpty = true
  · rw [if_pos hs, hs]
    exact reads_pure true s
  rw [if_neg hs, Bool.eq_false_iff.mpr hs, Bool.false_or]
  refine (reads_startsWith source ['>'] s).bind ?_
  by_cases hc : ['>'].isPrefixOf s = true
  · rw [if_pos hc, hc]
    exact reads_pure true s
  · rw [if_neg hc, Bool.eq_false_iff.mpr hc, Bool.false_or]
    exact reads_startsWith source ['/', '>'] s

theorem readAttributes_of_isAtTagEnd (h : isAtTagEnd (Text.trimStart s) = true) :
    readAttributes s = ([], Text.trimStart s) := by
  rw [readAttributes]
  split
  · rename_i hs
    rw [hs]
  · rename_i hs
    rw [hs]
  · rename_i hs
    rw [hs]
  · rename_i c t hbracket hmark hs
    rw [hs] at h
    rcases isAtTagEnd_iff.mp h with h | ⟨u, h⟩ | ⟨u, h⟩
    · exact absurd h (List.cons_ne_nil c t)
    · exact absurd (List.cons.inj h).1 hbracket
    · exact absurd (List.cons.inj h).2 (hmark u (List.cons.inj h).1)

theorem readAttributes_of_skipped {c : Char} (hs : Text.trimStart s = c :: t)
    (hend : isAtTagEnd (c :: t) = false) (hc : isAttributeChar c = false) :
    readAttributes s = readAttributes t := by
  rw [readAttributes]
  split
  · rename_i h
    rw [hs] at h
    exact absurd h (List.cons_ne_nil c t)
  · rename_i h
    rw [hs] at h
    rw [h] at hend
    exact absurd hend.symm Bool.false_ne_true
  · rename_i h
    rw [hs] at h
    rw [h] at hend
    exact absurd hend.symm Bool.false_ne_true
  · rename_i h
    rw [hs] at h
    obtain ⟨rfl, rfl⟩ := List.cons.inj h
    rw [if_neg (Bool.eq_false_iff.mp hc)]

theorem foldl_addAttribute (acc as : List Attribute) :
    as.foldl addAttribute acc = acc ++ (Attribute.firstOfEach as).filter fun a ↦
      !acc.any fun b ↦ b.name == a.name := by
  induction as generalizing acc with
  | nil => rw [List.foldl_nil, Attribute.firstOfEach, List.filter_nil, List.append_nil]
  | cons a as ih =>
    rw [List.foldl_cons, ih, Attribute.firstOfEach, addAttribute]
    by_cases ha : (acc.any fun b ↦ b.name == a.name) = true
    · rw [if_pos ha, List.filter_cons_of_neg (by simp [ha]), List.filter_filter]
      congr 1
      refine List.filter_congr fun d _ ↦ ?_
      by_cases hd : d.name = a.name
      · simp [hd, ha]
      · simp [hd]
    · rw [if_neg ha, List.filter_cons_of_pos (by simpa using ha), List.filter_filter,
        List.append_assoc, List.singleton_append]
      congr 2
      refine List.filter_congr fun d _ ↦ ?_
      rw [List.any_append, Bool.not_or]
      simp [bne, Bool.beq_comm]

private theorem firstOfEach_eq_foldl (as : List Attribute) :
    Attribute.firstOfEach as = as.foldl addAttribute [] := by
  rw [foldl_addAttribute, List.nil_append]
  exact (List.filter_eq_self.mpr fun _ _ ↦ rfl).symm

/-- Where the tag does not end, something is taken, and one attribute is added at most. -/
theorem reads_oneAttribute {c : Char} (source : List Char) (as : List Attribute)
    (hs : Text.trimStart s = c :: t)
    (hend : isAtTagEnd (c :: t) = false) (h : width (c :: t) < bound) :
    ∃ as' s', Reads source (oneAttribute source bound as) (c :: t) as' s' ∧
      width s' < width (c :: t) ∧
      (readAttributes s).1.foldl addAttribute as = (readAttributes s').1.foldl addAttribute as' ∧
      (readAttributes s).2 = (readAttributes s').2 := by
  have hname : Reads source (readWhile source bound isAttributeChar) (c :: t)
      ((c :: t).takeWhile isAttributeChar) ((c :: t).dropWhile isAttributeChar) :=
    reads_readWhile _ h
  have hpos := c.utf8Size_pos
  rw [Text.width_cons] at h ⊢
  by_cases hc : isAttributeChar c = true
  · rw [List.takeWhile_cons_of_pos hc, List.dropWhile_cons_of_pos hc] at hname
    have hdrop := Text.width_dropWhile_le isAttributeChar t
    have hblanks : Reads source (skipBlanks source bound) (t.dropWhile isAttributeChar) ()
        (Text.trimStart (t.dropWhile isAttributeChar)) := reads_skipBlanks (by omega)
    have hvalue : Reads source (assignment source bound)
        (Text.trimStart (t.dropWhile isAttributeChar)) _ _ := reads_assignment (by omega)
    have hle := Nat.le_trans hvalue.width_le hblanks.width_le
    rw [readAttributes_of_name hs hc, List.takeWhile_cons_of_pos hc]
    exact ⟨_, _, hname.bind (hblanks.bind (hvalue.bind (reads_pure _ _))), by omega,
      List.foldl_cons .., rfl⟩
  · rw [List.takeWhile_cons_of_neg hc, List.dropWhile_cons_of_neg hc] at hname
    rw [readAttributes_of_skipped hs hend (Bool.eq_false_iff.mpr hc)]
    exact ⟨as, t, hname.bind ((reads_advance source (c :: t)).bind (reads_pure as t)), by omega,
      rfl, rfl⟩

/-- A round of reading attributes takes something, or ends where the tag does. -/
theorem reads_attributeRound (source : List Char) (as : List Attribute) (h : width s < bound) :
    Reads source (attributeRound source bound as) s
        (.done ((readAttributes s).1.foldl addAttribute as)) (readAttributes s).2 ∨
      ∃ as' s', Reads source (attributeRound source bound as) s (.again as') s' ∧
        width s' < width s ∧
        (readAttributes s).1.foldl addAttribute as = (readAttributes s').1.foldl addAttribute as' ∧
        (readAttributes s).2 = (readAttributes s').2 := by
  have hblanks : Reads source (skipBlanks source bound) s () (Text.trimStart s) :=
    reads_skipBlanks h
  have hfaces := reads_facesTagEnd source (Text.trimStart s)
  by_cases hend : isAtTagEnd (Text.trimStart s) = true
  · rw [readAttributes_of_isAtTagEnd hend]
    rw [hend] at hfaces
    exact Or.inl (hblanks.bind (hfaces.ite_of_true (reads_pure _ _)))
  · rcases hs : Text.trimStart s with _ | ⟨c, t⟩
    · exact absurd (isAtTagEnd_iff.mpr (Or.inl hs)) hend
    rw [Bool.not_eq_true] at hend
    rw [hend] at hfaces
    rw [hs] at hend hblanks hfaces
    obtain ⟨as', s', hread, hlt, hfold, hrest⟩ := reads_oneAttribute source as hs hend
      (Nat.lt_of_le_of_lt hblanks.width_le h)
    exact Or.inr ⟨as', s', hblanks.bind (hfaces.ite_of_false (hread.bind (reads_pure _ _))),
      Nat.lt_of_lt_of_le hlt hblanks.width_le, hfold, hrest⟩

/-- **Attributes are read as they are on a list of characters**, the first of each name. -/
theorem reads_attributes (h : width s < bound) :
    Reads source (attributes source bound) s (Attribute.firstOfEach (readAttributes s).1)
      (readAttributes s).2 := by
  have hround : ∀ as s, width s < bound →
      (∃ as' t, Reads source (attributeRound source bound as) s (.done as') t ∧
        (as' = (readAttributes s).1.foldl addAttribute as ∧ t = (readAttributes s).2)) ∨
      ∃ as' s', Reads source (attributeRound source bound as) s (.again as') s' ∧
        width s' < width s ∧ width s' < bound ∧ ∀ as'' t,
          (as'' = (readAttributes s').1.foldl addAttribute as' ∧ t = (readAttributes s').2) →
            as'' = (readAttributes s).1.foldl addAttribute as ∧ t = (readAttributes s).2 := by
    intro as s h
    rcases reads_attributeRound source as h with hread | ⟨as', s', hread, hlt, hfold, hrest⟩
    · exact Or.inl ⟨_, _, hread, rfl, rfl⟩
    · exact Or.inr ⟨as', s', hread, hlt, Nat.lt_trans hlt h, fun as'' t ⟨ha, ht⟩ ↦
        ⟨ha.trans hfold.symm, ht.trans hrest.symm⟩⟩
  obtain ⟨as, t, hloop, rfl, rfl⟩ := exists_reads_loop hround h h
  rw [firstOfEach_eq_foldl]
  exact hloop

theorem reads_tagEnd (source s : List Char) :
    Reads source (tagEnd source) s (readTagEnd s).1 (readTagEnd s).2 := by
  unfold readTagEnd
  split
  · rename_i t
    exact (reads_consume source ['/', '>'] t).bind (reads_pure true t)
  · rename_i t
    exact (reads_consume_false source (by simp)).bind
      ((reads_consume source ['>'] t).bind (reads_pure false t))
  · rename_i s hclosed hopen
    exact (reads_consume_false source fun ⟨t, ht⟩ ↦ hclosed t ht.symm).bind
      ((reads_consume_false source fun ⟨t, ht⟩ ↦ hopen t ht.symm).bind (reads_pure false _))

/-! ## Reading content

The end tag of raw content is looked for without regard to capitals, byte by byte. Lowering a byte
that is no letter of ASCII changes nothing, so what is found is where a character begins. -/

private theorem toNat_lt_of_isTagChar {c : Char} (h : isTagChar c = true) : c.toNat < 128 := by
  simp only [isTagChar, Bool.or_eq_true, decide_eq_true_eq] at h
  rcases h with ((((h | h) | rfl) | rfl) | rfl) | rfl
  · rcases Text.isAlpha_iff.mp h with h | h
    · have := Text.isUpper_iff.mp h
      omega
    · have := Text.isLower_iff.mp h
      omega
  · have := Text.isDigit_iff.mp h
    omega
  all_goals decide

theorem isLowerAscii_rawEnd {tag : String} (h : IsPlainTag tag) :
    Text.IsLowerAscii (rawEnd tag) := by
  intro c hc
  rw [rawEnd, List.mem_cons, List.mem_cons] at hc
  rcases hc with rfl | rfl | hc
  · exact ⟨by decide, by decide⟩
  · exact ⟨by decide, by decide⟩
  · exact ⟨toNat_lt_of_isTagChar (h.mem hc).1, (h.mem hc).2⟩

theorem append_rawContent (tag s : List Char) :
    (rawContent tag s).1 ++ (rawContent tag s).2 = s := by
  induction s with
  | nil => rfl
  | cons c s ih =>
    rw [rawContent]
    split_ifs
    · rfl
    · exact congrArg (c :: ·) ih

theorem rawContent_stop (tag s : List Char) :
    (rawContent tag s).2 = [] ∨ ('<' :: '/' :: tag) <+: Text.lowerAscii (rawContent tag s).2 := by
  induction s with
  | nil => exact Or.inl rfl
  | cons c s ih =>
    rw [rawContent]
    split_ifs with h
    · exact Or.inr (Text.beginsWithLowered_iff.mp h)
    · exact ih

theorem le_of_foundAt {tag s : List Char} {i : Nat} (h : Text.FoundAt ('<' :: '/' :: tag) s i) :
    width (rawContent tag s).1 ≤ i := by
  obtain ⟨before, behind, rfl, rfl, hp⟩ := h
  induction before with
  | nil =>
    rcases behind with _ | ⟨c, s⟩
    · exact absurd (List.prefix_nil.mp hp) (List.cons_ne_nil _ _)
    · rw [List.nil_append, rawContent, if_pos (Text.beginsWithLowered_iff.mpr hp)]
  | cons c before ih =>
    rw [List.cons_append, rawContent]
    split_ifs
    · exact Nat.zero_le _
    · exact Nat.add_le_add_left ih _

private theorem reads_moveToRawEnd {tag : String} (source s : List Char) (h : IsPlainTag tag) :
    Reads source (moveToRawEnd source tag) s () (rawContent tag.toList s).2 := by
  have happend := append_rawContent tag.toList s
  have hne : rawEnd tag ≠ [] := List.cons_ne_nil _ _
  have hlower := isLowerAscii_rawEnd h
  obtain ⟨found, hfind, hfound⟩ := Text.findBytes?_utf8 hne hlower s
  have hstop : (rawContent tag.toList s).2 = [] ∨
      Text.FoundAt (rawEnd tag) s (width (rawContent tag.toList s).1) :=
    (rawContent_stop tag.toList s).imp_right fun hp ↦ ⟨_, _, happend.symm, rfl, hp⟩
  refine (reads_rest source s).bind ?_
  rw [hfind]
  rcases found with _ | i
  · rw [hstop.resolve_right (hfound _)]
    exact ⟨fun p _ ↦ ⟨width source, rfl, .nil source⟩, Nat.zero_le _⟩
  · -- the first place that the search finds is where the content ends
    obtain ⟨hi, hfirst⟩ := hfound
    have hle : width (rawContent tag.toList s).1 ≤ i := le_of_foundAt hi
    have hbehind : (rawContent tag.toList s).2 ≠ [] := by
      intro hnil
      rw [hnil, List.append_nil] at happend
      have := hi.lt_width hne
      rw [happend] at hle
      omega
    obtain rfl : i = width (rawContent tag.toList s).1 :=
      Nat.le_antisymm (Nat.le_of_not_lt fun hlt ↦ hfirst _ hlt (hstop.resolve_left hbehind)) hle
    have hmove := reads_modify source (rawContent tag.toList s).1 (rawContent tag.toList s).2
    rw [happend] at hmove
    exact hmove

/-- **Raw content is read as it is on a list of characters**, although it is searched by bytes. -/
theorem reads_rawText {tag : String} (source s : List Char) (h : IsPlainTag tag) :
    Reads source (rawText source tag) s (rawContent tag.toList s).1
      (afterBracket (rawContent tag.toList s).2) := by
  have hcontent := (reads_moveToRawEnd source s h).passed (append_rawContent tag.toList s)
  refine hcontent.bind ((reads_isAtEnd source _).bind ?_)
  rcases hrest : (rawContent tag.toList s).2 with _ | ⟨c, t⟩
  · exact reads_pure _ []
  · exact (reads_skipBracket source (c :: t)).bind (reads_pure _ _)

theorem width_readComment_le (s : List Char) : width (readComment s).2 ≤ width s := by
  rw [readComment]
  rcases hcut : Text.cutAt ['-', '-', '>'] s with _ | ⟨content, rest⟩
  · exact Nat.zero_le _
  · obtain rfl := Text.append_of_cutAt hcut
    rw [Text.width_append, Text.width_append]
    exact Nat.le_trans (Nat.le_add_left _ _) (Nat.le_add_left _ _)

theorem reads_comment (source s : List Char) :
    ∃ content, (readComment s).1 = .comment content ∧
      Reads source (comment source) ('<' :: '!' :: '-' :: '-' :: s) content (readComment s).2 := by
  have hopen := reads_consume source ['<', '!', '-', '-'] s
  rw [readComment]
  rcases hcut : Text.cutAt ['-', '-', '>'] s with _ | ⟨content, rest⟩
  · refine ⟨String.ofList s, rfl, hopen.bind ((reads_readUntil_of_none source hcut).bind ?_)⟩
    exact (reads_consume_false source (by simp)).bind (reads_pure _ [])
  · refine ⟨String.ofList content, rfl, hopen.bind ((reads_readUntil source hcut).bind ?_)⟩
    exact (reads_consume source ['-', '-', '>'] rest).bind (reads_pure _ rest)

theorem append_textRun (s : List Char) : (textRun s).1 ++ (textRun s).2 = s := by
  induction s with
  | nil => rfl
  | cons c s ih =>
    rw [textRun]
    split_ifs
    · rfl
    · exact congrArg (c :: ·) ih

theorem reads_text (c : Char) (s : List Char) (h : width (c :: s) < bound) :
    Reads source (text source bound) (c :: s)
      (String.ofList (Entity.decode (c :: (textRun s).1))) (textRun s).2 := by
  have hpos := c.utf8Size_pos
  have hs : width s < bound := by
    rw [Text.width_cons] at h
    omega
  have hadvance : Reads source (advanceWhile source bound fun s ↦ !s.isEmpty && !isAtMarkup s) s ()
      (textRun s).2 := by
    refine reads_advanceWhile (f := fun s ↦ (textRun s).2) (fun s hstop ↦ ?_) (fun s hgo ↦ ?_) hs
    · rcases s with _ | ⟨d, t⟩
      · rfl
      · have hat : isAtMarkup (d :: t) = true := by simpa using hstop
        rw [textRun, if_pos hat]
    · rcases s with _ | ⟨d, t⟩
      · exact absurd hgo Bool.false_ne_true
      · have hat : ¬isAtMarkup (d :: t) = true := by simpa using hgo
        exact ⟨d, t, rfl, by rw [textRun, if_neg hat]⟩
  have happend : (c :: (textRun s).1) ++ (textRun s).2 = c :: s :=
    congrArg (c :: ·) (append_textRun s)
  have hwidth := Text.width_append (c :: (textRun s).1) (textRun s).2
  rw [happend] at hwidth
  have hraw := ((reads_advance source (c :: s)).bind hadvance).passed happend
  exact hraw.bind ((reads_decode source _ (by omega)).bind (reads_pure _ _))

end Reads

end HtmlTemplate.Markup
