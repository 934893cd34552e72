import HtmlTemplate.Text.Casing.Tables

/-!
# Upper and lower case

The full case mappings: a character may become several, and the lower case of a capital sigma is
the final form at the end of a word. A word ends at a sigma when a cased character stands before it
and none after it, case-ignorable characters being skipped on both sides.
-/

namespace HtmlTemplate.Text

/-- The shift of the first run that holds the character. -/
def shiftIn (runs : List CaseRun) (n : Nat) : Option Int :=
  (runs.find? fun r ↦ r.first ≤ n && n ≤ r.last && (n - r.first) % r.step == 0).map (·.shift)

/-- Maps one character outside ASCII by its expansion, else by its run, else to itself. -/
def mapCase (runs : List CaseRun) (expansions : List (Nat × List Nat)) (c : Char) : List Char :=
  match expansions.lookup c.toNat with
  | some cs => cs.map Char.ofNat
  | none =>
    match shiftIn runs c.toNat with
    | some d => [Char.ofNat (c.toNat + d).toNat]
    | none => [c]

/-- The upper case of one character. -/
def upperChar (c : Char) : List Char :=
  if c.toNat < 128 then [c.toUpper] else mapCase upperRuns upperExpansions c

/-- The lower case of one character, out of context. -/
def lowerChar (c : Char) : List Char :=
  if c.toNat < 128 then [c.toLower] else mapCase lowerRuns lowerExpansions c

/-- Is the character a letter with case? -/
def isCased (c : Char) : Bool :=
  c.isAlpha || (128 ≤ c.toNat && casedRanges.has c)

/-- Is the first character that is not case-ignorable a cased one? -/
def meetsCased (cs : List Char) : Bool :=
  match cs.dropWhile caseIgnorableRanges.has with
  | [] => false
  | c :: _ => isCased c

/-- Lower case, with the characters already passed given in reverse. -/
def lowerAfter (before : List Char) : List Char → List Char
  | [] => []
  | c :: cs =>
    (if c = 'Σ' then (if meetsCased before && !meetsCased cs then ['ς'] else ['σ'])
      else lowerChar c) ++ lowerAfter (c :: before) cs

def toUpper (s : String) : String := String.ofList (s.toList.flatMap upperChar)

def toLower (s : String) : String := String.ofList (lowerAfter [] s.toList)

end HtmlTemplate.Text
