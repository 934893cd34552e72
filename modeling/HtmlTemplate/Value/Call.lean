import HtmlTemplate.Number.Fixed
import HtmlTemplate.Text.Casing
import HtmlTemplate.Text.Percent
import HtmlTemplate.Text.Search
import HtmlTemplate.Value.Equality
import HtmlTemplate.Value.Error

/-!
# Calls

What the built-in functions and methods compute. A missing argument is undefined; positions are cut
toward zero and kept inside the text or the array, so no call can reach outside it. A method that
its receiver does not have itself gives the receiver's text.
-/

namespace HtmlTemplate

open Text (cutAt occursIn positionOf pieces replaceFirst)

/-- An argument, undefined if it is missing. -/
def argument (arguments : List Value) (i : Nat) : Value := arguments[i]?.getD .undefined

/-! ## Positions -/

/-- A position argument in a sequence of the given length: negative ones count from the end. -/
def resolvePosition (length default : Nat) (v : Value) : Nat :=
  match v with
  | .undefined => default
  | v =>
    let n := Number.clampTrunc (-length) length v.toNumber
    if n < 0 then (length + n).toNat else n.toNat

/-- The part of a sequence between two position arguments. -/
def sliceBetween {α : Type} (xs : List α) (start stop : Value) : List α :=
  let a := resolvePosition xs.length 0 start
  let b := resolvePosition xs.length xs.length stop
  (xs.drop a).take (b - a)

/-- The position of the first occurrence of `needle` at or behind a position argument. -/
def indexOfText (s needle : List Char) (start : Value) : Float :=
  let a := (Number.clampTrunc 0 s.length start.toNumber).toNat
  match positionOf needle (s.drop a) with
  | some i => Number.ofNat (a + i)
  | none => -1

/-- The pieces of a text between the occurrences of a separator; an empty one cuts everywhere. -/
def splitText (s separator : List Char) : List (List Char) :=
  if h : separator ≠ [] then pieces separator h s else s.map fun c ↦ [c]

/-- A text cut at a separator, with at most as many pieces as asked for. -/
def splitValue (s : String) (separator limit : Value) : Value :=
  let parts : List Value :=
    match separator with
    | .undefined => [.string s]
    | sep =>
      (splitText s.toList sep.toText.toList).map fun part ↦ .string (String.ofList part)
  match limit with
  | .undefined => .array parts
  | limit => .array (parts.take (Number.clampTrunc 0 parts.length limit.toNumber).toNat)

/-! ## Numbers as text -/

theorem two_le_toNat {base : Int} (h : 2 ≤ base ∧ base ≤ 36) : 2 ≤ base.toNat := by omega

/-- The text of a number in a base; bases other than ten are for integers up to `2 ^ 53`. -/
def radixText (x : Float) (base : Int) : Except EvalError String :=
  if h : 2 ≤ base ∧ base ≤ 36 then
    match Number.exact x with
    | .finite negative m e =>
      if base = 10 then .ok (Number.text x)
      else if Number.isIntegral m e && Number.integerPart m e ≤ Number.twoPow 53 then
        let n := Number.integerPart m e
        let digits := Number.radixDigits base.toNat n (two_le_toNat h)
        .ok (String.ofList (Number.signText (negative && n != 0) ++ digits))
      else .error .radixOfUnsafeInteger
    | _ => .ok (Number.text x)
  else .error .radixOutOfRange

/-- The base that an argument asks for, or a number out of range. -/
def radixArgument : Value → Int
  | .undefined => 10
  | v => Number.clampTrunc 0 37 v.toNumber

/-- The text of a number with as many fraction digits as an argument asks for. -/
def fixedValue (x : Float) (digits : Value) : Except EvalError Value :=
  let d := Number.clampTrunc (-1) 101 digits.toNumber
  if 0 ≤ d ∧ d ≤ 100 then .ok (.string (Number.fixedText x d.toNat))
  else .error .fixedDigitsOutOfRange

/-! ## Methods -/

namespace Method

/-- A method of a string, replacement by a function apart. -/
def ofString (m : Method) (s : String) (arguments : List Value) : Value :=
  let text (i : Nat) : List Char := (argument arguments i).toText.toList
  let cs := s.toList
  match m with
  | split => splitValue s (argument arguments 0) (argument arguments 1)
  | toUpperCase => .string (Text.toUpper s)
  | toLowerCase => .string (Text.toLower s)
  | trim => .string (Text.trimmed s)
  | indexOf => .number (indexOfText cs (text 0) (argument arguments 1))
  | includes => .bool (occursIn (text 0) cs)
  | slice =>
    .string (String.ofList (sliceBetween cs (argument arguments 0) (argument arguments 1)))
  | concat => .string (arguments.foldl (fun t v ↦ t ++ v.toText) s)
  | charAt =>
    let i := Number.clampTrunc (-1) cs.length (argument arguments 0).toNumber
    .string (String.ofList (if i < 0 then [] else cs[i.toNat]?.toList))
  | startsWith => .bool ((text 0).isPrefixOf cs)
  | endsWith => .bool ((text 0).isSuffixOf cs)
  | replace => .string (String.ofList (replaceFirst (text 0) (text 1) cs))
  | toString => .string s
  | join | toFixed => .undefined

/-- A method of an array. -/
def ofArray (m : Method) (items arguments : List Value) : Value :=
  match m with
  | join =>
    .string (Value.joinItems
      (match argument arguments 0 with
        | .undefined => ","
        | v => v.toText) items)
  | indexOf =>
    match items.findIdx? (·.strictEq (argument arguments 0)) with
    | some i => .number (Number.ofNat i)
    | none => .number (-1)
  | includes => .bool (items.any (·.sameValueZero (argument arguments 0)))
  | slice => .array (sliceBetween items (argument arguments 0) (argument arguments 1))
  | concat =>
    .array (items ++ arguments.flatMap fun v ↦
      match v with
      | .array more => more
      | v => [v])
  | _ => .string (Value.joinItems "," items)

/-- A method of a number. -/
def ofNumber (m : Method) (x : Float) (arguments : List Value) : Except EvalError Value :=
  match m with
  | toFixed => fixedValue x (argument arguments 0)
  | _ => (radixText x (radixArgument (argument arguments 0))).map .string

/-- A method of a value, replacement by a function apart. -/
def callPlain (m : Method) (receiver : Value) (arguments : List Value) : Except EvalError Value :=
  match receiver with
  | .string s => .ok (m.ofString s arguments)
  | .array items => .ok (m.ofArray items arguments)
  | .number x => m.ofNumber x arguments
  | other => .ok (.string other.toText)

end Method

/-! ## Functions -/

/-- A built-in function. -/
def Builtin.call (f : Builtin) (arguments : List Value) : Except EvalError Value :=
  let first := argument arguments 0
  let text := first.toText
  let decoded (keep : List Char) : Except EvalError Value :=
    match Text.decodeUri? keep text.toList with
    | some s => .ok (.string s)
    | none => .error .malformedURI
  match f with
  | string => .ok (.string (if arguments.isEmpty then "" else text))
  | number => .ok (.number (if arguments.isEmpty then 0 else first.toNumber))
  | parseInt =>
    let base :=
      match argument arguments 1 with
      | .undefined => 0
      | v => Number.clampTrunc (-1) 37 v.toNumber
    .ok (.number (Number.integerInFront text base))
  | parseFloat => .ok (.number (Number.floatInFront text))
  | isNaN => .ok (.bool first.toNumber.isNaN)
  | isFinite => .ok (.bool first.toNumber.isFinite)
  | encodeURI => .ok (.string (String.ofList (Text.encodeUri Text.uriReserved text.toList)))
  | encodeURIComponent => .ok (.string (String.ofList (Text.encodeUri [] text.toList)))
  | decodeURI => decoded Text.uriReserved
  | decodeURIComponent => decoded []
  | escape => .ok (.string (String.ofList (Text.escape text.toList)))
  | unescape => .ok (.string (String.ofList (Text.unescape text.toList)))
  | eval => .error .evalUnavailable

/-- Calls a function. A replacement that is a function is called with the text to replace, and as
that call has one argument only, it cannot replace by a function again. -/
def Callable.call (f : Callable) (arguments : List Value) : Except EvalError Value :=
  match f with
  | .builtin b => b.call arguments
  | .method (.string s) .replace =>
    match arguments with
    | needle :: .function g :: _ => do
      let replacement ← g.call [.string needle.toText]
      .ok (.string (String.ofList
        (replaceFirst needle.toText.toList replacement.toText.toList s.toList)))
    | arguments => Method.replace.callPlain (.string s) arguments
  | .method receiver m => m.callPlain receiver arguments
termination_by arguments.length

end HtmlTemplate
