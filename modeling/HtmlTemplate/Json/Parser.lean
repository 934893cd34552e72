import HtmlTemplate.Json.Basic
import HtmlTemplate.Number.Decimal
import HtmlTemplate.Text.Units

/-!
# Reading JSON

One document, blanks around its parts, and nothing else. Numbers become the nearest double and have
to be finite; escaped surrogates have to come in pairs; arrays and objects may be nested a limited
number of times. There is no account of why a text is no document.

A document that nobody asks for may be read by rules that only look at its form (`Rules.formOnly`).
-/

namespace HtmlTemplate.Json

open Number (Decimal isHexDigit ofDigits)

/-- How deep arrays and objects may be nested. -/
def depthLimit : Nat := 127

/-- What is demanded apart from the form. -/
structure Rules where
  /-- Have numbers to be finite? -/
  finite : Bool
  /-- Have surrogates to come in pairs? -/
  paired : Bool

/-- Numbers are finite, and surrogates come in pairs. -/
def Rules.strict : Rules := ⟨true, true⟩

/-- Nothing but the form counts. -/
def Rules.formOnly : Rules := ⟨false, false⟩

/-- Is the character a blank of JSON? -/
def isSpace (c : Char) : Bool := c = ' ' || c = '\t' || c = '\n' || c = '\r'

/-- Drops the blanks in front. -/
def dropSpace (s : List Char) : List Char := s.dropWhile isSpace

theorem length_dropSpace (s : List Char) : (dropSpace s).length ≤ s.length :=
  (List.dropWhile_suffix isSpace).length_le

/-- Something read, and what follows it, shorter than `bound`. -/
structure Read (α : Type) (bound : Nat) where
  value : α
  rest : List Char
  length_lt : rest.length < bound

/-- Keeps a result whose rest is shorter than the bound. -/
def Read.of? {α : Type} (bound : Nat) (p : α × List Char) : Option (Read α bound) :=
  if h : p.2.length < bound then some ⟨p.1, p.2, h⟩ else none

/-! ## Numbers -/

/-- Reads one digit or more. -/
def digits? (s : List Char) : Option (List Char × List Char) :=
  let (ds, rest) := Decimal.scanDigits s
  if ds.isEmpty then none else some (ds, rest)

/-- Reads the digits before the point: a zero alone or digits that begin with another. -/
def whole? (s : List Char) : Option (List Char × List Char) :=
  match s with
  | '0' :: rest => some (['0'], rest)
  | _ => digits? s

/-- Reads a point and digits, if a point is there. -/
def fraction? : List Char → Option (List Char × List Char)
  | '.' :: s => digits? s
  | s => some ([], s)

/-- Reads an exponent, if its letter is there. -/
def exponent? (s : List Char) : Option (Int × List Char) :=
  match s with
  | [] => some (0, [])
  | c :: r =>
    if c = 'e' ∨ c = 'E' then do
      let (negative, t) := Decimal.scanSign r
      let (ds, rest) ← digits? t
      let n : Int := ofDigits 10 ds
      some (if negative then -n else n, rest)
    else some (0, s)

/-- Reads a number without its sign. -/
def unsigned? (rules : Rules) (s : List Char) : Option (Float × List Char) := do
  let (whole, s) ← whole? s
  let (fraction, s) ← fraction? s
  let (exponent, s) ← exponent? s
  let d : Decimal := ⟨ofDigits 10 (whole ++ fraction), exponent - fraction.length⟩
  let x := d.toFloat
  if x.isFinite || !rules.finite then some (x, s) else none

/-- Reads a number. -/
def number? (rules : Rules) : List Char → Option (Float × List Char)
  | '-' :: s => (unsigned? rules s).map fun (x, rest) ↦ (-x, rest)
  | s => unsigned? rules s

/-! ## Strings -/

/-- Reads four hexadecimal digits. -/
def unit? : List Char → Option (Nat × List Char)
  | a :: b :: c :: d :: s =>
    if [a, b, c, d].all isHexDigit then some (ofDigits 16 [a, b, c, d], s) else none
  | _ => none

/-- Reads a surrogate that stands alone, if that is allowed: as a replacement character. -/
def lone? (rules : Rules) (s : List Char) : Option (Char × List Char) :=
  if rules.paired then none else some ('\ufffd', s)

/-- Reads the unit or the pair of units of a character behind its first `\u`. -/
def unitEscape? (rules : Rules) (s : List Char) : Option (Char × List Char) := do
  let (u, s) ← unit? s
  if Text.isHighSurrogate u then
    match s with
    | '\\' :: 'u' :: t => do
      let (v, t) ← unit? t
      if Text.isLowSurrogate v then some (Text.joinSurrogates u v, t) else lone? rules s
    | _ => lone? rules s
  else if Text.isLowSurrogate u then lone? rules s
  else some (Char.ofNat u, s)

/-- Reads what follows a backslash. -/
def escape? (rules : Rules) : List Char → Option (Char × List Char)
  | '"' :: s => some ('"', s)
  | '\\' :: s => some ('\\', s)
  | '/' :: s => some ('/', s)
  | 'b' :: s => some ('\x08', s)
  | 'f' :: s => some ('\x0c', s)
  | 'n' :: s => some ('\n', s)
  | 'r' :: s => some ('\r', s)
  | 't' :: s => some ('\t', s)
  | 'u' :: s => unitEscape? rules s
  | _ => none

/-- Reads the rest of a string behind its opening quote. -/
def stringBody? (rules : Rules) (s : List Char) : Option (Read (List Char) s.length) :=
  match s with
  | [] => none
  | c :: t =>
    if c = '"' then some ⟨[], t, by simp⟩
    else if c = '\\' then do
      let ⟨e, u, hu⟩ ← (escape? rules t).bind (Read.of? t.length)
      let ⟨cs, rest, h⟩ ← stringBody? rules u
      some ⟨e :: cs, rest, by simp only [List.length_cons]; omega⟩
    else if c.toNat < 0x20 then none
    else do
      let ⟨cs, rest, h⟩ ← stringBody? rules t
      some ⟨c :: cs, rest, by simp only [List.length_cons]; omega⟩
termination_by s.length

/-! ## Documents -/

/-- Reads a word. -/
def word? (word : String) (j : Json) (s : List Char) : Option (Json × List Char) :=
  if word.toList.isPrefixOf s then some (j, s.drop word.length) else none

/-- Reads a scalar. -/
def scalar? (rules : Rules) (s : List Char) : Option (Json × List Char) :=
  match s with
  | 'n' :: _ => word? "null" null s
  | 't' :: _ => word? "true" (bool true) s
  | 'f' :: _ => word? "false" (bool false) s
  | '"' :: t => (stringBody? rules t).map fun r ↦ (string (String.ofList r.value), r.rest)
  | _ => (number? rules s).map fun (x, rest) ↦ (number x, rest)

/-- Reads the name of a member and the colon behind it. -/
def memberName? (rules : Rules) (s : List Char) : Option (Read String s.length) :=
  match s with
  | '"' :: t => do
    let ⟨name, rest, h⟩ ← stringBody? rules t
    match _hr : dropSpace rest with
    | ':' :: u =>
      some ⟨String.ofList name, u, by
        have := length_dropSpace rest
        rw [_hr] at this
        simp only [List.length_cons] at this ⊢
        omega⟩
    | _ => none
  | _ => none

mutual

/-- Reads a document, blanks before it included. -/
def value? (rules : Rules) (depth : Nat) (s : List Char) : Option (Read Json s.length) :=
  match _hs : dropSpace s with
  | [] => none
  | c :: t =>
    have hlen : t.length < s.length := by
      have := length_dropSpace s
      rw [_hs] at this
      simp only [List.length_cons] at this
      omega
    match depth with
    | 0 => if c = '[' ∨ c = '{' then none else (scalar? rules (c :: t)).bind (Read.of? s.length)
    | depth + 1 =>
      if c = '[' then
        match dropSpace t with
        | ']' :: _ =>
          (Read.of? s.length (array [], (dropSpace t).drop 1))
        | _ => do
          let ⟨items, rest, h⟩ ← items? rules depth t
          some ⟨array items, rest, by omega⟩
      else if c = '{' then
        match dropSpace t with
        | '}' :: _ =>
          (Read.of? s.length (object [], (dropSpace t).drop 1))
        | _ => do
          let ⟨members, rest, h⟩ ← members? rules depth t
          some ⟨object members, rest, by omega⟩
      else (scalar? rules (c :: t)).bind (Read.of? s.length)
termination_by 2 * s.length

/-- Reads items up to the closing bracket; one at least. -/
def items? (rules : Rules) (depth : Nat) (s : List Char) : Option (Read (List Json) s.length) := do
  let ⟨item, t, ht⟩ ← value? rules depth s
  match _hr : dropSpace t with
  | ']' :: rest => Read.of? s.length ([item], rest)
  | ',' :: u =>
    have hu : u.length < s.length := by
      have := length_dropSpace t
      rw [_hr] at this
      simp only [List.length_cons] at this
      omega
    let ⟨items, rest, h⟩ ← items? rules depth u
    some ⟨item :: items, rest, by omega⟩
  | _ => none
termination_by 2 * s.length + 1

/-- Reads members up to the closing brace; one at least. -/
def members? (rules : Rules) (depth : Nat) (s : List Char) :
    Option (Read (List (String × Json)) s.length) := do
  let ⟨name, t, ht⟩ ← memberName? rules (dropSpace s)
  have hs := length_dropSpace s
  let ⟨item, u, hu⟩ ← value? rules depth t
  match _hr : dropSpace u with
  | '}' :: rest => Read.of? s.length ([(name, item)], rest)
  | ',' :: v =>
    have hv : v.length < s.length := by
      have := length_dropSpace u
      rw [_hr] at this
      simp only [List.length_cons] at this
      omega
    let ⟨members, rest, h⟩ ← members? rules depth v
    some ⟨(name, item) :: members, rest, by omega⟩
  | _ => none
termination_by 2 * s.length + 1

end

/-- Reads a text as one document, with at most `depth` arrays and objects around each other. -/
def parseWithin (depth : Nat) (text : String) : Option Json :=
  match value? .strict depth text.toList with
  | some r => if (dropSpace r.rest).isEmpty then some r.value else none
  | none => none

/-- Reads a text as one document. -/
def parse? (text : String) : Option Json := parseWithin depthLimit text

end HtmlTemplate.Json
