import HtmlTemplate.Number.Decimal
import HtmlTemplate.Text.Scalar
import HtmlTemplate.Text.Search

/-!
# Character references

A reference is an ampersand, a name or a number, and a semicolon. Reading is lenient: an ampersand
that begins no known reference stands for itself. Writing escapes what would be read as something
else, and the no-break space, which cannot be seen.
-/

namespace HtmlTemplate.Entity

open Number (isDigitOf ofDigits)

/-- The characters that have a name. -/
def named : List (String × Char) := [
  ("amp", '&'), ("lt", '<'), ("gt", '>'), ("quot", '"'), ("apos", '\x27'), ("nbsp", '\u00a0'),
  ("copy", '\u00a9'), ("reg", '\u00ae'), ("hellip", '\u2026'), ("mdash", '\u2014'),
  ("ndash", '\u2013')]

/-- The number of digits that may follow one plus. -/
def numberOf? (base : Nat) (s : List Char) : Option Nat :=
  let digits :=
    match s with
    | '+' :: t => t
    | _ => s
  if digits.isEmpty || !digits.all (isDigitOf base) then none else some (ofDigits base digits)

/-- The character of a reference, given what stands between its marks. -/
def charOf? (name : List Char) : Option Char :=
  match name with
  | '#' :: 'x' :: s | '#' :: 'X' :: s => (numberOf? 16 s).bind Text.charOf?
  | '#' :: s => (numberOf? 10 s).bind Text.charOf?
  | _ => named.lookup (String.ofList name)

/-- The reference behind an ampersand: its character, and what follows it. -/
def reference? (s : List Char) : Option (Char × List Char) := do
  let (name, rest) ← Text.cutAtChar (· == ';') s
  let c ← charOf? name
  some (c, rest)

private theorem length_of_reference? {s rest : List Char} {c : Char}
    (h : reference? s = some (c, rest)) : rest.length < s.length := by
  simp only [reference?, Option.bind_eq_bind, Option.bind_eq_some_iff] at h
  obtain ⟨⟨name, r⟩, hcut, c', _, he⟩ := h
  simp only [Option.some.injEq, Prod.mk.injEq] at he
  have := Text.length_of_cutAtChar hcut
  rw [← he.2]
  omega

/-- The text that references stand for. -/
def decode (s : List Char) : List Char :=
  match s with
  | [] => []
  | c :: t =>
    match _h : if c = '&' then reference? t else none with
    | some (d, rest) => d :: decode rest
    | none => c :: decode t
termination_by s.length
decreasing_by
  · split at _h
    · have := length_of_reference? _h
      simp only [List.length_cons]
      omega
    · simp at _h
  · simp

/-- A named reference. -/
def reference (name : String) : List Char := '&' :: (name.toList ++ [';'])

/-- How a character is written in text. -/
def escapeTextChar (c : Char) : List Char :=
  if c = '&' then reference "amp"
  else if c = '<' then reference "lt"
  else if c = '>' then reference "gt"
  else if c = '\u00a0' then reference "nbsp"
  else [c]

/-- How a character is written in the value of an attribute, between double quotes. -/
def escapeAttributeChar (c : Char) : List Char :=
  if c = '&' then reference "amp"
  else if c = '"' then reference "quot"
  else if c = '\u00a0' then reference "nbsp"
  else [c]

/-- The written form of a text. -/
def escapeText (s : List Char) : List Char := s.flatMap escapeTextChar

/-- The written form of an attribute value. -/
def escapeAttribute (s : List Char) : List Char := s.flatMap escapeAttributeChar

end HtmlTemplate.Entity
