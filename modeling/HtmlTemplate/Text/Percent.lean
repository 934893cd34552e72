import HtmlTemplate.Number.Radix
import HtmlTemplate.Text.Units

/-!
# Percent coding

Two codings of a text in ASCII. The first writes the UTF-8 bytes of a character as `%XX`; a set of
characters is kept as it is, and decoding can leave the escapes of a set alone. The second writes
UTF-16 units as `%XX` or `%uXXXX`, and decoding takes everything else for itself.
-/

namespace HtmlTemplate.Text

open Number (digitValue isHexDigit ofDigits)

/-- The upper-case hexadecimal digit of a value below 16. -/
def hexDigit (n : Nat) : Char := (Number.digitChar n).toUpper

/-- Two hexadecimal digits. -/
def hexPair (n : Nat) : List Char := [hexDigit (n / 16), hexDigit (n % 16)]

/-- Is the character an ASCII letter or digit? -/
def isAsciiAlphanumeric (c : Char) : Bool := c.isAlpha || c.isDigit

/-! ## Bytes -/

/-- Marks that are never escaped. -/
def unreservedMarks : List Char := ['-', '_', '.', '!', '~', '*', '\x27', '(', ')']

/-- Characters that have a meaning in a URI. -/
def uriReserved : List Char := [';', ',', '/', '?', ':', '@', '&', '=', '+', '$', '#']

/-- Is the character written as it is, given a further set to keep? -/
def isUriSafe (keep : List Char) (c : Char) : Bool :=
  isAsciiAlphanumeric c || unreservedMarks.contains c || keep.contains c

/-- Escapes the bytes of every character that is not kept. -/
def encodeUri (keep : List Char) (s : List Char) : List Char :=
  s.flatMap fun c ↦
    if isUriSafe keep c then [c]
    else (String.utf8EncodeChar c).flatMap fun b ↦ '%' :: hexPair b.toNat

/-- The value of the two characters behind a percent sign. A plus may stand for the first digit. -/
def pairValue? (a b : Char) : Option Nat :=
  if (a = '+' || isHexDigit a) && isHexDigit b then
    some (if a = '+' then digitValue b else digitValue a * 16 + digitValue b)
  else none

/-- The bytes of a text with escapes, if all are well formed; the escapes of the characters in
`keep` stay. -/
def unescapedBytes (keep : List Char) : List Char → Option (List UInt8)
  | [] => some []
  | c :: s =>
    if c = '%' then
      match s with
      | a :: b :: r => do
        let n ← pairValue? a b
        let bytes ← unescapedBytes keep r
        if n < 128 && keep.contains (Char.ofNat n) then
          some ([c, a, b].flatMap String.utf8EncodeChar ++ bytes)
        else some (UInt8.ofNat n :: bytes)
      | _ => none
    else do
      let bytes ← unescapedBytes keep s
      some (String.utf8EncodeChar c ++ bytes)

/-- The text that a list of bytes is in UTF-8. -/
def ofUtf8? (bytes : List UInt8) : Option String := String.fromUTF8? ⟨bytes.toArray⟩

/-- Undoes the escapes, apart from those of the characters in `keep`. -/
def decodeUri? (keep : List Char) (s : List Char) : Option String :=
  (unescapedBytes keep s).bind ofUtf8?

/-! ## Units -/

/-- Marks that the coding by units keeps. -/
def escapeMarks : List Char := ['@', '*', '_', '+', '-', '.', '/']

/-- The form of one unit. -/
def escapeUnit (u : Nat) : List Char :=
  if u < 128 && (isAsciiAlphanumeric (Char.ofNat u) || escapeMarks.contains (Char.ofNat u)) then
    [Char.ofNat u]
  else if u < 256 then '%' :: hexPair u
  else '%' :: 'u' :: (hexPair (u / 256) ++ hexPair (u % 256))

/-- Escapes the units of a text. -/
def escape (s : List Char) : List Char := (units s).flatMap escapeUnit

/-- Reads an escape behind its percent sign: the unit, and what follows. -/
def unitInFront? : List Char → Option (Nat × List Char)
  | 'u' :: a :: b :: c :: d :: s =>
    if [a, b, c, d].all isHexDigit then some (ofDigits 16 [a, b, c, d], s) else none
  | a :: b :: s => if isHexDigit a && isHexDigit b then some (ofDigits 16 [a, b], s) else none
  | _ => none

private theorem length_of_unitInFront? {s r : List Char} {u : Nat}
    (h : unitInFront? s = some (u, r)) :
    r.length < s.length := by
  unfold unitInFront? at h
  split at h
  · split at h
    · simp only [Option.some.injEq, Prod.mk.injEq] at h
      rw [← h.2]
      simp only [List.length_cons]
      omega
    · simp at h
  · split at h
    · simp only [Option.some.injEq, Prod.mk.injEq] at h
      rw [← h.2]
      simp only [List.length_cons]
      omega
    · simp at h
  · simp at h

/-- The units of a text with escapes; what is no escape stands for itself. -/
def unescapedUnits (s : List Char) : List Nat :=
  match s with
  | [] => []
  | c :: t =>
    match _h : if c = '%' then unitInFront? t else none with
    | some (u, r) => u :: unescapedUnits r
    | none => unitsOf c ++ unescapedUnits t
termination_by s.length
decreasing_by
  · split at _h
    · have := length_of_unitInFront? _h
      simp only [List.length_cons]
      omega
    · simp at _h
  · simp

/-- Undoes the escapes of units. -/
def unescape (s : List Char) : List Char := ofUnits (unescapedUnits s)

end HtmlTemplate.Text
