import HtmlTemplate.Expr.Token
import HtmlTemplate.Number.Reading
import HtmlTemplate.Outcome
import HtmlTemplate.Text.Alphabetic
import HtmlTemplate.Text.Scalar
import HtmlTemplate.Text.Width

/-!
# From characters to tokens

Scanners read one lexeme in front of a text and give what follows it; they know nothing of
positions. `tokensFrom` runs them over a text and puts the byte offsets on. A scanner that stops
gives its reason and the text it had not read, so the span of an error is what had been read of the
lexeme.

## How a number ends

A number that runs into a name is refused where the name begins, and a point that no digit follows
is a mark of its own. Apart from that, each scanner takes as much as it can.
-/

namespace HtmlTemplate.Expr

open Number (Decimal)

/-- Why a scanner stopped, and what it had not read. -/
structure ScanStop where
  fault : SyntaxFault
  rest : List Char

/-! ## Names -/

def isNameStart (c : Char) : Bool := Text.isAlphabetic c || c = '_' || c = '$'

def isNamePart (c : Char) : Bool := isNameStart c || c.isDigit

/-! ## Numbers -/

/-- The part of `s` before `rest`, for an end `rest` of `s`. -/
def consumed (s rest : List Char) : List Char := s.take (s.length - rest.length)

/-- Refuses a number that runs into a name. -/
def endNumber (source : List Char) (value : Float) (rest : List Char) :
    Except ScanStop (Float × List Char) :=
  match rest with
  | [] => .ok (value, [])
  | c :: _ =>
    if isNameStart c then
      let rest := rest.dropWhile isNamePart
      .error ⟨.invalidNumber (String.ofList (consumed source rest)), rest⟩
    else .ok (value, rest)

/-- Scans a number: hexadecimal after `0x`, otherwise a decimal. -/
def scanNumber (s : List Char) : Except ScanStop (Float × List Char) :=
  match Number.dropHexMark s with
  | some hex =>
    let digits := hex.takeWhile Number.isHexDigit
    let rest := hex.dropWhile Number.isHexDigit
    let n := Number.ofDigits 16 digits
    if digits.isEmpty || Number.hexBound ≤ n then
      .error ⟨.invalidNumber (String.ofList (consumed s rest)), rest⟩
    else endNumber s (Number.ofNat n) rest
  | none =>
    match Decimal.scan s with
    | some (d, rest) => endNumber s d.toFloat rest
    | none => .error ⟨.invalidNumber "", s⟩

/-! ## Strings -/

/-- Scans exactly `count` hexadecimal digits as the number of a character. -/
def scanHexEscape (count : Nat) (s : List Char) : Except ScanStop (Char × List Char) :=
  let digits := (s.take count).takeWhile Number.isHexDigit
  let rest := s.drop digits.length
  match if digits.length = count then Text.charOf? (Number.ofDigits 16 digits) else none with
  | some c => .ok (c, rest)
  | none => .error ⟨.badEscape, rest⟩

/-- Scans what follows `\u`: four digits, or any number of digits in braces. -/
def scanUnicodeEscape (s : List Char) : Except ScanStop (Char × List Char) :=
  match s with
  | '{' :: t =>
    let digits := t.takeWhile Number.isHexDigit
    match t.dropWhile Number.isHexDigit with
    | [] => .error ⟨.badEscape, []⟩
    | c :: rest =>
      match if c = '}' ∧ digits ≠ [] then Text.charOf? (Number.ofDigits 16 digits) else none with
      | some value => .ok (value, rest)
      | none => .error ⟨.badEscape, rest⟩
  | _ => scanHexEscape 4 s

/-- The character that a one-letter escape stands for. -/
def shortEscape? : Char → Option Char
  | 'n' => some '\n'
  | 't' => some '\t'
  | 'r' => some '\r'
  | 'b' => some '\x08'
  | 'f' => some '\x0c'
  | 'v' => some '\x0b'
  | '0' => some '\x00'
  | _ => none

/-- Scans what follows a backslash. A line break stands for nothing, and a character without a
meaning of its own for itself. -/
def scanEscape : List Char → Except ScanStop (List Char × List Char)
  | [] => .error ⟨.unterminatedString, []⟩
  | c :: s =>
    match shortEscape? c with
    | some e => .ok ([e], s)
    | none =>
      if c = 'x' then (scanHexEscape 2 s).map fun (e, rest) ↦ ([e], rest)
      else if c = 'u' then (scanUnicodeEscape s).map fun (e, rest) ↦ ([e], rest)
      else if c = '\n' then .ok ([], s)
      else if c = '\r' then
        match s with
        | '\n' :: rest => .ok ([], rest)
        | _ => .ok ([], s)
      else .ok ([c], s)

theorem length_of_scanHexEscape {n : Nat} {s rest : List Char} {c : Char}
    (h : scanHexEscape n s = .ok (c, rest)) : rest.length ≤ s.length := by
  simp only [scanHexEscape] at h
  split at h
  · simp only [Except.ok.injEq, Prod.mk.injEq] at h
    rw [← h.2]
    simp
  · simp at h

theorem length_of_scanUnicodeEscape {s rest : List Char} {c : Char}
    (h : scanUnicodeEscape s = .ok (c, rest)) : rest.length ≤ s.length := by
  unfold scanUnicodeEscape at h
  split at h
  · rename_i t
    dsimp only at h
    split at h
    · simp at h
    · rename_i d u hu
      split at h
      · simp only [Except.ok.injEq, Prod.mk.injEq] at h
        have := (List.dropWhile_suffix (l := t) Number.isHexDigit).length_le
        rw [hu] at this
        rw [← h.2]
        simp only [List.length_cons] at this ⊢
        omega
      · simp at h
  · exact length_of_scanHexEscape h

theorem length_of_scanEscape {s cs rest : List Char} (h : scanEscape s = .ok (cs, rest)) :
    rest.length ≤ s.length := by
  cases s with
  | nil => simp [scanEscape] at h
  | cons c s =>
    rw [List.length_cons]
    simp only [scanEscape] at h
    split at h
    · simp only [Except.ok.injEq, Prod.mk.injEq] at h
      rw [← h.2]
      omega
    split at h
    · obtain ⟨p, hp, he⟩ := map_eq_ok_iff.mp h
      have := length_of_scanHexEscape hp
      simp only [Prod.mk.injEq] at he
      rw [← he.2]
      omega
    split at h
    · obtain ⟨p, hp, he⟩ := map_eq_ok_iff.mp h
      have := length_of_scanUnicodeEscape hp
      simp only [Prod.mk.injEq] at he
      rw [← he.2]
      omega
    split at h
    · simp only [Except.ok.injEq, Prod.mk.injEq] at h
      rw [← h.2]
      omega
    split at h
    · split at h <;> simp only [Except.ok.injEq, Prod.mk.injEq] at h <;> rw [← h.2]
      · simp only [List.length_cons]
        omega
      · omega
    · simp only [Except.ok.injEq, Prod.mk.injEq] at h
      rw [← h.2]
      omega

/-- Scans the rest of a string behind its opening quote: the value, and what follows the closing
quote. A raw line break ends the string too early. -/
def scanString (quote : Char) (s : List Char) : Except ScanStop (List Char × List Char) :=
  match s with
  | [] => .error ⟨.unterminatedString, []⟩
  | c :: t =>
    if c = quote then .ok ([], t)
    else if c = '\n' ∨ c = '\r' then .error ⟨.unterminatedString, t⟩
    else if c = '\\' then
      match _h : scanEscape t with
      | .error stop => .error stop
      | .ok (cs, u) => (scanString quote u).map fun (value, rest) ↦ (cs ++ value, rest)
    else (scanString quote t).map fun (value, rest) ↦ (c :: value, rest)
termination_by s.length
decreasing_by
  · have := length_of_scanEscape _h
    simp only [List.length_cons]
    omega
  · simp

/-! ## Tokens -/

/-- Scans the token that begins with `c`. -/
def scanToken (c : Char) (s : List Char) : Except ScanStop (Token.Kind × List Char) :=
  if c.isDigit || (c = '.' && (s.head?.any Char.isDigit)) then
    (scanNumber (c :: s)).map fun (value, rest) ↦ (.number value, rest)
  else if c = '"' ∨ c = '\x27' then
    (scanString c s).map fun (value, rest) ↦ (.string (String.ofList value), rest)
  else if isNameStart c then
    .ok (.name (String.ofList (c :: s.takeWhile isNamePart)), s.dropWhile isNamePart)
  else
    match Punct.inFront? (c :: s) with
    | some p => .ok (.punct p, s.drop (p.text.length - 1))
    | none => .error ⟨.invalidCharacter c, s⟩

theorem rest_of_endNumber {s t rest : List Char} {x y : Float}
    (h : endNumber s x t = .ok (y, rest)) : rest = t := by
  unfold endNumber at h
  split at h
  · simp at h
    simp [h.2]
  · split at h
    · simp at h
    · simp only [Except.ok.injEq, Prod.mk.injEq] at h
      exact h.2.symm

theorem length_of_dropHexMark {s t : List Char} (h : Number.dropHexMark s = some t) :
    t.length + 2 = s.length := by
  unfold Number.dropHexMark at h
  split at h <;> simp_all

theorem length_of_scanNumber {s rest : List Char} {x : Float}
    (h : scanNumber s = .ok (x, rest)) : rest.length < s.length := by
  unfold scanNumber at h
  split at h
  · rename_i hex hh
    dsimp only at h
    split at h
    · simp at h
    · rw [rest_of_endNumber h]
      have := length_of_dropHexMark hh
      have := (List.dropWhile_suffix (l := hex) Number.isHexDigit).length_le
      omega
  · split at h
    · rename_i d t hd
      rw [rest_of_endNumber h]
      exact Decimal.length_of_scan hd
    · simp at h

theorem length_of_scanString {q : Char} {s value rest : List Char}
    (h : scanString q s = .ok (value, rest)) : rest.length ≤ s.length := by
  fun_induction scanString q s generalizing value with
  | case1 => simp at h
  | case2 t =>
    simp only [Except.ok.injEq, Prod.mk.injEq] at h
    simp [← h.2]
  | case3 => simp at h
  | case4 => simp at h
  | case5 t cs u he _ _ ih =>
    obtain ⟨p, hp, hv⟩ := map_eq_ok_iff.mp h
    simp only [Prod.mk.injEq] at hv
    have := length_of_scanEscape he
    have := ih (hp.trans (by rw [← hv.2]))
    simp only [List.length_cons]
    omega
  | case6 c t _ _ _ ih =>
    obtain ⟨p, hp, hv⟩ := map_eq_ok_iff.mp h
    simp only [Prod.mk.injEq] at hv
    have := ih (hp.trans (by rw [← hv.2]))
    simp only [List.length_cons]
    omega

theorem length_of_scanToken {c : Char} {s rest : List Char} {kind : Token.Kind}
    (h : scanToken c s = .ok (kind, rest)) : rest.length ≤ s.length := by
  unfold scanToken at h
  split at h
  · obtain ⟨p, hp, hv⟩ := map_eq_ok_iff.mp h
    simp only [Prod.mk.injEq] at hv
    have := length_of_scanNumber hp
    simp only [List.length_cons] at this
    rw [← hv.2]
    omega
  split at h
  · obtain ⟨p, hp, hv⟩ := map_eq_ok_iff.mp h
    simp only [Prod.mk.injEq] at hv
    rw [← hv.2]
    exact length_of_scanString hp
  split at h
  · simp only [Except.ok.injEq, Prod.mk.injEq] at h
    rw [← h.2]
    exact (List.dropWhile_suffix _).length_le
  split at h
  · simp only [Except.ok.injEq, Prod.mk.injEq] at h
    rw [← h.2]
    simp
  · simp at h

/-- A list of tokens and the offset behind the source. -/
structure Lexed where
  tokens : List Token
  stop : Nat

/-- The tokens of a text that begins at the given offset. -/
def tokensFrom (offset : Nat) (s : List Char) : Except SyntaxError Lexed :=
  let start := offset + Text.width (s.takeWhile Text.isBlank)
  match _hs : s.dropWhile Text.isBlank with
  | [] => .ok ⟨[], start⟩
  | c :: t =>
    match _h : scanToken c t with
    | .error stop =>
      .error ⟨stop.fault, start, start + Text.width (consumed (c :: t) stop.rest)⟩
    | .ok (kind, rest) =>
      let stop := start + Text.width (consumed (c :: t) rest)
      (tokensFrom stop rest).map fun lexed ↦
        { lexed with tokens := ⟨kind, start, stop⟩ :: lexed.tokens }
termination_by s.length
decreasing_by
  have := length_of_scanToken _h
  have := (List.dropWhile_suffix (l := s) Text.isBlank).length_le
  rw [_hs] at this
  simp only [List.length_cons] at this
  omega

/-- The tokens of a source. -/
def tokenize (source : String) : Except SyntaxError Lexed := tokensFrom 0 source.toList

end HtmlTemplate.Expr
