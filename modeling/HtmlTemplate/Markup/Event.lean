import HtmlTemplate.Markup.Attribute
import HtmlTemplate.Markup.Entity
import HtmlTemplate.Text.Blank

/-!
# Events of a markup text

A markup text is cut into a flat list of events: runs of text, comments, declarations, start tags
and end tags. What is in front decides alone; which elements are open plays no part. Nothing is an
error: a mark that begins no markup is text. A start tag of an element with raw content takes that
content and its end tag with it.
-/

namespace HtmlTemplate.Markup

/-- How a start tag goes on. -/
inductive TagForm where
  /-- The element is open until an end tag or another reason closes it. -/
  | opens
  /-- The element has no content. -/
  | empty
  /-- The element's content is this text. -/
  | raw (content : String)
deriving DecidableEq

/-- An event of a markup text. -/
inductive Event where
  | text (content : String)
  | comment (content : String)
  /-- A declaration such as a document type, which is dropped. -/
  | declaration
  | startTag (tag : String) (attributes : List Attribute) (form : TagForm)
  | endTag (tag : String)
deriving DecidableEq

/-! ## Characters and names -/

/-- Can the character stand in the name of a tag? -/
def isTagChar (c : Char) : Bool :=
  c.isAlpha || c.isDigit || c = '-' || c = '_' || c = ':' || c = '.'

/-- Can the character stand in the name of an attribute? -/
def isAttributeChar (c : Char) : Bool :=
  !(Text.isBlank c || ['/', '>', '=', '"', '\x27', '<'].contains c)

/-- The name of a tag in front, in lower case. -/
def tagName (s : List Char) : String := String.ofList (Text.lowerAscii (s.takeWhile isTagChar))

/-- Does the text begin with markup? -/
def isAtMarkup : List Char → Bool
  | '<' :: '/' :: c :: _ => c.isAlpha
  | '<' :: c :: _ => c.isAlpha || c = '!'
  | _ => false

/-! ## Parts of a tag -/

/-- What follows the next closing bracket. -/
def afterBracket (s : List Char) : List Char := (s.dropWhile (· != '>')).drop 1

/-- Reads the value of an attribute: in quotes, or up to a blank or a closing bracket. -/
def readValue (s : List Char) : List Char × List Char :=
  match s with
  | [] => ([], [])
  | c :: t =>
    if c = '"' ∨ c = '\x27' then (t.takeWhile (· != c), (t.dropWhile (· != c)).drop 1)
    else
      let inside (c : Char) : Bool := !Text.isBlank c && c != '>'
      (s.takeWhile inside, s.dropWhile inside)

/-- Reads an equals sign and the value behind it, if the sign is there. -/
def readAssignment (s : List Char) : List Char × List Char :=
  match Text.trimStart s with
  | '=' :: t =>
    let (value, rest) := readValue (Text.trimStart t)
    (Entity.decode value, rest)
  | t => ([], t)

theorem length_trimStart (s : List Char) : (Text.trimStart s).length ≤ s.length :=
  (List.dropWhile_suffix Text.isBlank).length_le

private theorem length_readValue (s : List Char) : (readValue s).2.length ≤ s.length := by
  unfold readValue
  split
  · simp
  · rename_i c t
    split
    · have := (List.dropWhile_suffix (l := t) (· != c)).length_le
      simp only [List.length_drop, List.length_cons]
      omega
    · exact (List.dropWhile_suffix _).length_le

theorem length_readAssignment (s : List Char) : (readAssignment s).2.length ≤ s.length := by
  unfold readAssignment
  split
  · rename_i t ht
    have h1 := length_trimStart s
    have h2 := length_readValue (Text.trimStart t)
    have h3 := length_trimStart t
    rw [ht, List.length_cons] at h1
    dsimp only
    omega
  · exact length_trimStart s

/-- Reads the attributes of a start tag as they are written, up to its closing mark. A character
that begins no name is skipped. -/
def readAttributes (s : List Char) : List Attribute × List Char :=
  match _hs : Text.trimStart s with
  | [] => ([], [])
  | '>' :: t => ([], '>' :: t)
  | '/' :: '>' :: t => ([], '/' :: '>' :: t)
  | c :: t =>
    if isAttributeChar c then
      let name := Text.lowerAscii ((c :: t).takeWhile isAttributeChar)
      let assigned := readAssignment (t.dropWhile isAttributeChar)
      let more := readAttributes assigned.2
      (⟨String.ofList name, String.ofList assigned.1⟩ :: more.1, more.2)
    else readAttributes t
termination_by s.length
decreasing_by
  · have h1 := length_trimStart s
    have h2 := length_readAssignment (t.dropWhile isAttributeChar)
    have h3 := (List.dropWhile_suffix (l := t) isAttributeChar).length_le
    rw [_hs, List.length_cons] at h1
    omega
  · have h1 := length_trimStart s
    rw [_hs, List.length_cons] at h1
    omega

/-- Reads the closing mark of a start tag: does it close the element too? -/
def readTagEnd : List Char → Bool × List Char
  | '/' :: '>' :: s => (true, s)
  | '>' :: s => (false, s)
  | s => (false, s)

/-- Cuts before the end tag of an element with raw content. -/
def rawContent (tag : List Char) : List Char → List Char × List Char
  | [] => ([], [])
  | c :: s =>
    if Text.beginsWithLowered ('<' :: '/' :: tag) (c :: s) then ([], c :: s)
    else
      let (content, rest) := rawContent tag s
      (c :: content, rest)

/-- Reads a start tag behind its opening bracket. -/
def readStartTag (s : List Char) : Event × List Char :=
  let tag := tagName s
  let (attributes, s) := readAttributes (s.dropWhile isTagChar)
  let attributes := Attribute.firstOfEach attributes
  let (isClosed, s) := readTagEnd s
  if isClosed || isVoidTag tag then (.startTag tag attributes .empty, s)
  else if isRawTextTag tag then
    let (content, s) := rawContent tag.toList s
    (.startTag tag attributes (.raw (String.ofList content)), afterBracket s)
  else (.startTag tag attributes .opens, s)

/-- Reads a run of text, given its first character: it ends where markup begins. -/
def textRun : List Char → List Char × List Char
  | [] => ([], [])
  | c :: s =>
    if isAtMarkup (c :: s) then ([], c :: s)
    else
      let (text, rest) := textRun s
      (c :: text, rest)

/-- Reads a comment behind its opening mark. -/
def readComment (s : List Char) : Event × List Char :=
  match Text.cutAt ['-', '-', '>'] s with
  | some (content, rest) => (.comment (String.ofList content), rest)
  | none => (.comment (String.ofList s), [])

/-- Reads the event in front of a text that is not empty. -/
def Event.next (c : Char) (s : List Char) : Event × List Char :=
  if isAtMarkup (c :: s) then
    match s with
    | '/' :: t => (.endTag (tagName t), afterBracket t)
    | '!' :: '-' :: '-' :: t => readComment t
    | '!' :: t => (.declaration, afterBracket t)
    | _ => readStartTag s
  else
    let (more, rest) := textRun s
    (.text (String.ofList (Entity.decode (c :: more))), rest)

/-! ## Every event takes a character -/

theorem length_afterBracket (s : List Char) : (afterBracket s).length ≤ s.length := by
  have := (List.dropWhile_suffix (l := s) (· != '>')).length_le
  simp only [afterBracket, List.length_drop]
  omega

private theorem length_readAttributes (s : List Char) : (readAttributes s).2.length ≤ s.length := by
  fun_induction readAttributes s with
  | case1 => simp
  | case2 s t hs =>
    have := length_trimStart s
    rw [hs] at this
    exact this
  | case3 s t hs =>
    have := length_trimStart s
    rw [hs] at this
    exact this
  | case4 s c t _ _ hs _ name assigned more ih =>
    have h1 := length_trimStart s
    have h2 : assigned.2.length ≤ _ := length_readAssignment (t.dropWhile isAttributeChar)
    have h3 := (List.dropWhile_suffix (l := t) isAttributeChar).length_le
    rw [hs, List.length_cons] at h1
    exact Nat.le_trans ih (by omega)
  | case5 s c t _ _ hs _ ih =>
    have h1 := length_trimStart s
    rw [hs, List.length_cons] at h1
    omega

private theorem length_readTagEnd (s : List Char) : (readTagEnd s).2.length ≤ s.length := by
  unfold readTagEnd
  split <;> simp only [List.length_cons] <;> omega

private theorem length_rawContent (tag s : List Char) : (rawContent tag s).2.length ≤ s.length := by
  induction s with
  | nil => simp [rawContent]
  | cons c s ih =>
    rw [rawContent]
    split
    · simp
    · simp only [List.length_cons]
      omega

private theorem length_readStartTag (s : List Char) : (readStartTag s).2.length ≤ s.length := by
  have h1 := (List.dropWhile_suffix (l := s) isTagChar).length_le
  have h2 := length_readAttributes (s.dropWhile isTagChar)
  have h3 := length_readTagEnd (readAttributes (s.dropWhile isTagChar)).2
  have h4 := length_rawContent (tagName s).toList
    (readTagEnd (readAttributes (s.dropWhile isTagChar)).2).2
  have h5 := length_afterBracket (rawContent (tagName s).toList
    (readTagEnd (readAttributes (s.dropWhile isTagChar)).2).2).2
  simp only [readStartTag]
  split
  · dsimp only
    omega
  split
  · dsimp only
    omega
  · dsimp only
    omega

private theorem length_textRun (s : List Char) : (textRun s).2.length ≤ s.length := by
  induction s with
  | nil => simp [textRun]
  | cons c s ih =>
    rw [textRun]
    split
    · simp
    · simp only [List.length_cons]
      omega

private theorem length_readComment (s : List Char) : (readComment s).2.length ≤ s.length := by
  unfold readComment
  split
  · rename_i h
    have := Text.length_of_cutAt h
    simp only
    omega
  · simp

private theorem length_next (c : Char) (s : List Char) : (Event.next c s).2.length ≤ s.length := by
  unfold Event.next
  split
  · split
    · rename_i t _
      have := length_afterBracket t
      simp only [List.length_cons]
      omega
    · rename_i t _
      have := length_readComment t
      simp only [List.length_cons]
      omega
    · rename_i t _ _
      have := length_afterBracket t
      simp only [List.length_cons]
      omega
    · exact length_readStartTag _
  · exact length_textRun s

/-- The events of a markup text. -/
def events (s : List Char) : List Event :=
  match s with
  | [] => []
  | c :: t => (Event.next c t).1 :: events (Event.next c t).2
termination_by s.length
decreasing_by
  have := length_next c t
  simp only [List.length_cons]
  omega

end HtmlTemplate.Markup
