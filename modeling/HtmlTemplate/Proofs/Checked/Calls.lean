import HtmlTemplate.Proofs.Checked.Escapes
import HtmlTemplate.Proofs.Checked.Values

/-!
# Calls with checked access

Every built-in function and every method, written with checked access throughout. A method may be
called on any value; on one that does not have it itself, the call gives the text of the value. The
call of a replacement that is a function is a call with one argument, which is no function, so it
makes no further call.

Each of them is the function that it is without the checks (`call_eq_ok`). So no check ever fails,
and the outcome is a value or an error that the expression can report.

## Layout

A function here has the name and the cases of the one without checks, and is proved equal to it
before anything calls it: first the methods of each kind of receiver, then the functions, then the
call that chooses between them. The equations of `HtmlTemplate.Proofs.Checked.Values`,
`HtmlTemplate.Proofs.Checked.Numbers` and `HtmlTemplate.Proofs.Checked.Escapes` do the work in each
case, so a method that is added needs one more case here and nothing else.
-/

namespace HtmlTemplate.Checked

open Text (occursIn replaceFirst)

/-! ## Methods -/

/-- The base that an argument asks for. -/
def radixArgument : Value → Checked Int
  | .undefined => pure 10
  | v => do return Number.clampTrunc 0 37 (← toNumber v)

/-- The text of a number with as many fraction digits as an argument asks for. -/
def fixedValue (x : Float) (digits : Value) : Checked (Except EvalError Value) := do
  let d := Number.clampTrunc (-1) 101 (← toNumber digits)
  if 0 ≤ d ∧ d ≤ 100 then return .ok (.string (String.ofList (← fixedChars x d.toNat)))
  else return .error .fixedDigitsOutOfRange

def callString (m : Method) (s : String) (arguments : List Value) : Checked Value :=
  let text (i : Nat) : Checked (List Char) := do return (← toText (argument arguments i)).toList
  let cs := s.toList
  match m with
  | .split => splitValue s (argument arguments 0) (argument arguments 1)
  | .toUpperCase => pure (.string (Text.toUpper s))
  | .toLowerCase => pure (.string (Text.toLower s))
  | .trim => pure (.string (Text.trimmed s))
  | .indexOf => do return .number (← indexOfText cs (← text 0) (argument arguments 1))
  | .includes => do return .bool (occursIn (← text 0) cs)
  | .slice => do
    return .string (String.ofList (← slice cs (argument arguments 0) (argument arguments 1)))
  | .concat => do return .string (← arguments.foldlM (fun t v ↦ do return t ++ (← toText v)) s)
  | .charAt => do
    let i := Number.clampTrunc (-1) cs.length (← toNumber (argument arguments 0))
    return .string (String.ofList (if i < 0 then [] else cs[i.toNat]?.toList))
  | .startsWith => do return .bool ((← text 0).isPrefixOf cs)
  | .endsWith => do return .bool ((← text 0).isSuffixOf cs)
  | .replace => do return .string (String.ofList (replaceFirst (← text 0) (← text 1) cs))
  | .toString => pure (.string s)
  | .join | .toFixed => pure .undefined

def callArray (m : Method) (items arguments : List Value) : Checked Value :=
  match m with
  | .join => do
    let separator ←
      match argument arguments 0 with
      | .undefined => pure ","
      | v => toText v
    return .string (← joinItems separator items)
  | .indexOf =>
    match items.findIdx? (·.strictEq (argument arguments 0)) with
    | some i => pure (.number (Number.ofNat i))
    | none => pure (.number (-1))
  | .includes => pure (.bool (items.any (·.sameValueZero (argument arguments 0))))
  | .slice => do return .array (← slice items (argument arguments 0) (argument arguments 1))
  | .concat =>
    pure (.array (items ++ arguments.flatMap fun v ↦
      match v with
      | .array more => more
      | v => [v]))
  | _ => do return .string (← joinItems "," items)

def callNumber (m : Method) (x : Float) (arguments : List Value) :
    Checked (Except EvalError Value) :=
  match m with
  | .toFixed => fixedValue x (argument arguments 0)
  | _ => do
    let base ← radixArgument (argument arguments 0)
    return (← radixText x base).map .string

def callPlain (m : Method) (receiver : Value) (arguments : List Value) :
    Checked (Except EvalError Value) :=
  match receiver with
  | .string s => do return .ok (← callString m s arguments)
  | .array items => do return .ok (← callArray m items arguments)
  | .number x => callNumber m x arguments
  | other => do return .ok (.string (← toText other))

private theorem foldlM_toText (s : String) (vs : List Value) :
    vs.foldlM (fun t v ↦ do return t ++ (← toText v)) s =
      (pure (vs.foldl (fun t v ↦ t ++ v.toText) s) : Checked String) := by
  simp only [toText_eq, pure_bind]
  exact List.foldlM_pure

private theorem callString_eq (m : Method) (s : String) (arguments : List Value) :
    callString m s arguments = pure (m.ofString s arguments) := by
  cases m with
  | concat =>
    rw [callString, foldlM_toText]
    rfl
  | _ =>
    simp only [callString, toText_eq, toNumber_eq, splitValue_eq, indexOfText_eq, slice_eq,
      pure_bind, Method.ofString]

private theorem callArray_eq (m : Method) (items arguments : List Value) :
    callArray m items arguments = pure (m.ofArray items arguments) := by
  cases m with
  | join =>
    rw [callArray, Method.ofArray]
    cases argument arguments 0 <;> simp only [toText_eq, joinItems_eq, pure_bind]
  | indexOf =>
    rw [callArray, Method.ofArray]
    cases items.findIdx? _ <;> rfl
  | includes | concat => rfl
  | _ => simp only [callArray, slice_eq, joinItems_eq, pure_bind, Method.ofArray]

private theorem callNumber_eq (m : Method) (x : Float) (arguments : List Value) :
    callNumber m x arguments = pure (m.ofNumber x arguments) := by
  have hbase : radixArgument (argument arguments 0) =
      pure (HtmlTemplate.radixArgument (argument arguments 0)) := by
    cases argument arguments 0 <;>
      simp only [radixArgument, toNumber_eq, pure_bind, HtmlTemplate.radixArgument]
  cases m with
  | toFixed =>
    simp only [callNumber, fixedValue, toNumber_eq, fixedChars_eq, pure_bind, Method.ofNumber,
      HtmlTemplate.fixedValue]
    split <;> rfl
  | _ => simp only [callNumber, hbase, radixText_eq, pure_bind, Method.ofNumber]

theorem callPlain_eq (m : Method) (receiver : Value) (arguments : List Value) :
    callPlain m receiver arguments = pure (m.callPlain receiver arguments) := by
  cases receiver <;>
    simp only [callPlain, callString_eq, callArray_eq, callNumber_eq, toText_eq, pure_bind,
      Method.callPlain]

/-! ## Functions -/

def decoded (keep : List Char) (text : String) : Checked (Except EvalError Value) := do
  match ← decodeUri? keep text.toList with
  | some s => return .ok (.string s)
  | none => return .error .malformedURI

/-- The base of an integer that an argument asks for; 0 stands for a base that the text chooses. -/
def integerBase : Value → Checked Int
  | .undefined => pure 0
  | v => do return Number.clampTrunc (-1) 37 (← toNumber v)

def callBuiltin (f : Builtin) (arguments : List Value) : Checked (Except EvalError Value) :=
  let first := argument arguments 0
  match f with
  | .string => do return .ok (.string (← if arguments.isEmpty then pure "" else toText first))
  | .number => do return .ok (.number (← if arguments.isEmpty then pure 0 else toNumber first))
  | .parseInt => do
    let text ← toText first
    let base ← integerBase (argument arguments 1)
    return .ok (.number (← integerInFront text.toList base))
  | .parseFloat => do return .ok (.number (← floatInFront (← toText first).toList))
  | .isNaN => do return .ok (.bool (← toNumber first).isNaN)
  | .isFinite => do return .ok (.bool (← toNumber first).isFinite)
  | .encodeURI => do
    return .ok (.string (String.ofList (← encodeUri Text.uriReserved (← toText first).toList)))
  | .encodeURIComponent => do
    return .ok (.string (String.ofList (← encodeUri [] (← toText first).toList)))
  | .decodeURI => do decoded Text.uriReserved (← toText first)
  | .decodeURIComponent => do decoded [] (← toText first)
  | .escape => do return .ok (.string (String.ofList (Text.escape (← toText first).toList)))
  | .unescape => do
    let units ← unescapedUnits (← toText first).toList 0 []
    return .ok (.string (String.ofList (Text.ofUnits units)))
  | .eval => pure (.error .evalUnavailable)

/-- Calls a function. A replacement that is a function is called with the text to replace. -/
def call (f : Callable) (arguments : List Value) : Checked (Except EvalError Value) :=
  match f with
  | .builtin b => callBuiltin b arguments
  | .method (.string s) .replace =>
    match arguments with
    | needle :: .function g :: _ => do
      let pattern ← toText needle
      match ← call g [.string pattern] with
      | .error e => return .error e
      | .ok v =>
        return .ok (.string (String.ofList
          (replaceFirst pattern.toList (← toText v).toList s.toList)))
    | arguments => callPlain .replace (.string s) arguments
  | .method receiver m => callPlain m receiver arguments
termination_by arguments.length

private theorem decoded_eq (keep : List Char) (text : String) :
    decoded keep text = pure (Builtin.decoded keep text) := by
  rw [decoded, decodeUri?_eq, pure_bind, Builtin.decoded]
  cases Text.decodeUri? keep text.toList <;> rfl

private theorem callBuiltin_eq (f : Builtin) (arguments : List Value) :
    callBuiltin f arguments = pure (f.call arguments) := by
  cases f with
  | parseInt =>
    have hbase : integerBase (argument arguments 1) = pure (match argument arguments 1 with
        | .undefined => 0
        | v => Number.clampTrunc (-1) 37 v.toNumber) := by
      cases argument arguments 1 <;> simp only [integerBase, toNumber_eq, pure_bind]
    simp only [callBuiltin, toText_eq, hbase, integerInFront_eq, pure_bind]
    rfl
  | string | number =>
    simp only [callBuiltin, toText_eq, toNumber_eq, pure_bind, Builtin.call]
    split_ifs <;> rfl
  | decodeURI | decodeURIComponent =>
    simp only [callBuiltin, toText_eq, decoded_eq, pure_bind]
    rfl
  | unescape =>
    simp only [callBuiltin, toText_eq, unescapedUnits_eq, List.nil_append, List.drop_zero,
      pure_bind]
    rfl
  | eval => rfl
  | _ =>
    simp only [callBuiltin, toText_eq, toNumber_eq, floatInFront_eq, encodeUri_eq, pure_bind,
      Builtin.call]

/-- **No call breaks off.** Every item, slice, count, base and buffer on the way of a call is a good
one, whatever the function, its receiver and its arguments are, and the outcome is a value or an
error of the call. -/
theorem call_eq_ok (f : Callable) (arguments : List Value) :
    call f arguments = .ok (f.call arguments) := by
  fun_induction Callable.call f arguments with
  | case1 arguments b =>
    rw [call]
    exact callBuiltin_eq b arguments
  | case2 s needle g rest ih =>
    rw [call, toText_eq, pure_bind, ih]
    cases g.call [.string needle.toText] with
    | error e => rfl
    | ok v =>
      show toText v >>= _ = _
      rw [toText_eq]
      rfl
  | case3 s arguments hplain =>
    rw [call]
    · exact callPlain_eq .replace (.string s) arguments
    · exact hplain
  | case4 arguments receiver m hplain =>
    rw [call]
    · exact callPlain_eq m receiver arguments
    · exact hplain

end HtmlTemplate.Checked
