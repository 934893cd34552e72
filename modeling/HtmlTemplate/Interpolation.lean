import HtmlTemplate.Text.Blank
import HtmlTemplate.Text.Search
import HtmlTemplate.Text.Width

/-!
# Interpolated text

A text may hold expressions between double braces. A span begins at the first opening mark, has one
character of content at least, and ends at the first closing mark behind that character; an opening
mark that is never closed is plain text. `runs` cuts a text into its literal runs and the contents
of its spans, and `toExpression` turns it into the source of one expression.

Put together again, the runs are the text (`flatMap_source_runs`), whatever marks it holds.
-/

namespace HtmlTemplate.Interpolation

open Text (cutAt)

/-- The mark that opens a span. -/
def opening : List Char := ['{', '{']

/-- The mark that closes a span. -/
def closing : List Char := ['}', '}']

/-- The first span: what stands before it, its content, and what stands behind it. -/
def firstSpan? (s : List Char) : Option (List Char × List Char × List Char) :=
  match cutAt opening s with
  | none => none
  | some (_, []) => none
  | some (before, c :: t) =>
    match cutAt closing t with
    | none => none
    | some (content, behind) => some (before, c :: content, behind)

/-- A span and its surroundings are the whole text. -/
theorem append_of_firstSpan? {s a c b : List Char} (h : firstSpan? s = some (a, c, b)) :
    a ++ (opening ++ (c ++ (closing ++ b))) = s := by
  unfold firstSpan? at h
  split at h
  · simp at h
  · simp at h
  · rename_i before c₀ t ho
    split at h
    · simp at h
    · rename_i content behind hc
      simp only [Option.some.injEq, Prod.mk.injEq] at h
      obtain ⟨rfl, rfl, rfl⟩ := h
      rw [← Text.append_of_cutAt ho, ← Text.append_of_cutAt hc]
      simp

private theorem length_of_firstSpan? {s a c b : List Char} (h : firstSpan? s = some (a, c, b)) :
    b.length < s.length := by
  have := congrArg List.length (append_of_firstSpan? h)
  simp only [List.length_append, opening, closing, List.length_cons, List.length_nil] at this
  omega

/-- A part of an interpolated text. -/
inductive Run where
  | literal (text : List Char)
  /-- What stands between the marks of a span. -/
  | span (content : List Char)
deriving DecidableEq

/-- A literal run, unless it is empty. -/
def literalRun (s : List Char) : List Run := if s.isEmpty then [] else [.literal s]

/-- The literal runs and spans of a text, in order. -/
def runs (s : List Char) : List Run :=
  match _h : firstSpan? s with
  | none => literalRun s
  | some (before, content, behind) => literalRun before ++ .span content :: runs behind
termination_by s.length
decreasing_by exact length_of_firstSpan? _h

theorem runs_of_firstSpan? {s a c b : List Char}
    (h : firstSpan? s = some (a, c, b)) : runs s = literalRun a ++ .span c :: runs b := by
  rw [runs]
  split
  · rename_i hnone
    rw [h] at hnone
    cases hnone
  · rename_i hsome
    rw [h] at hsome
    cases hsome
    rfl

theorem runs_of_no_span {s : List Char} (h : firstSpan? s = none) : runs s = literalRun s := by
  rw [runs]
  split
  · rfl
  · rename_i hsome
    rw [h] at hsome
    cases hsome

/-- The text that a run was cut from. -/
def Run.source : Run → List Char
  | literal text => text
  | span content => opening ++ content ++ closing

private theorem flatMap_source_literalRun (s : List Char) :
    (literalRun s).flatMap Run.source = s := by
  cases s <;> simp [literalRun, Run.source]

/-- Put together again, the runs are the text. -/
theorem flatMap_source_runs (s : List Char) : (runs s).flatMap Run.source = s := by
  fun_induction runs s with
  | case1 => exact flatMap_source_literalRun _
  | case2 s a c b h ih =>
    rw [List.flatMap_append, flatMap_source_literalRun, List.flatMap_cons, ih]
    simpa [Run.source] using append_of_firstSpan? h

/-- Is the run a span? -/
def Run.isSpan : Run → Bool
  | literal _ => false
  | span _ => true

/-- Is there a span in the text? -/
def hasSpan (s : List Char) : Bool := (firstSpan? s).isSome

/-- A span's place, marks included, as byte offsets, and its content. -/
structure Place where
  start : Nat
  stop : Nat
  content : List Char

/-- The places of the spans among runs that begin at an offset. -/
def placesFrom (offset : Nat) : List Run → List Place
  | [] => []
  | r :: rs =>
    let stop := offset + Text.width r.source
    match r with
    | .literal _ => placesFrom stop rs
    | .span content => ⟨offset, stop, content⟩ :: placesFrom stop rs

/-- The places of the spans of a text. -/
def places (s : List Char) : List Place := placesFrom 0 (runs s)

/-! ## One expression for a text -/

/-- Lower-case hexadecimal digits of a number below 256, two of them. -/
def hexByte (n : Nat) : List Char := [Nat.digitChar (n / 16), Nat.digitChar (n % 16)]

/-- How a character is written inside a string literal. -/
def quoteChar (c : Char) : List Char :=
  if c = '"' then ['\\', '"']
  else if c = '\\' then ['\\', '\\']
  else if c = '\n' then ['\\', 'n']
  else if c = '\r' then ['\\', 'r']
  else if c = '\t' then ['\\', 't']
  else if c = '\x08' then ['\\', 'b']
  else if c = '\x0c' then ['\\', 'f']
  else if c.toNat < 0x20 then '\\' :: 'u' :: '0' :: '0' :: hexByte c.toNat
  else [c]

/-- The string literal of a text. -/
def quote (s : List Char) : List Char := '"' :: (s.flatMap quoteChar ++ ['"'])

/-- The source of a run: a literal in quotes, or the content of a span without outer blanks. -/
def Run.toSource : Run → List Char
  | literal text => quote text
  | span content => Text.trim content

/-- The source of one expression for a whole text: its runs, added up. -/
def toExpression (s : List Char) : List Char :=
  if hasSpan s then ['+'].intercalate ((runs s).map Run.toSource) else quote s

/-- The same for strings. -/
def expressionOf (text : String) : String := String.ofList (toExpression text.toList)

/-- Has the string a span? -/
def isInterpolated (text : String) : Bool := hasSpan text.toList

end HtmlTemplate.Interpolation
