import HtmlTemplate.Expr.FreeNames
import HtmlTemplate.Expr.Parser
import HtmlTemplate.Value.Call
import HtmlTemplate.Value.Operators
import HtmlTemplate.Value.Property

/-!
# Evaluation

An evaluator is a source that was read once, with its tree and its free names. A call looks each
free name up in the data and evaluates the tree in the scope that results; a name that is not bound
there has its built-in meaning.

Evaluation ends with the first error, from left to right. The source comes along in the scope, since
a message about a callee quotes it; no value depends on it.
-/

namespace HtmlTemplate.Expr

/-- What names denote, and the source that messages quote. -/
structure Scope where
  source : List Char
  bindings : Record Value

/-- The value of a name that is never data. -/
def builtinValue (name : String) : Value :=
  if name = "NaN" then .number Number.nan
  else if name = "Infinity" then .number Number.infinity
  else
    match Builtin.ofName? name with
    | some f => .function (.builtin f)
    | none => .undefined

/-- The value of a name. -/
def Scope.resolve (scope : Scope) (name : String) : Value :=
  match scope.bindings.get? name with
  | some value => value
  | none => builtinValue name

def Literal.toValue : Literal → Value
  | number value => .number value
  | string value => .string value
  | bool value => .bool value
  | null => .null
  | undefined => .undefined

def UnaryOp.apply (op : UnaryOp) (v : Value) : Value :=
  match op with
  | not => .bool !v.isTruthy
  | negate => .number (-v.toNumber)
  | plus => .number v.toNumber
  | typeof => .string v.typeName

def BinaryOp.apply (op : BinaryOp) (a b : Value) : Except EvalError Value :=
  let onNumbers (f : Float → Float → Float) : Except EvalError Value :=
    .ok (.number (f a.toNumber b.toNumber))
  let onOrder (p : Ordering → Bool) : Except EvalError Value := .ok (.bool ((a.compare? b).any p))
  match op with
  | add => .ok (a.add b)
  | sub => onNumbers (· - ·)
  | mul => onNumbers (· * ·)
  | div => onNumbers (· / ·)
  | rem => onNumbers Number.remainder
  | less => onOrder Ordering.isLT
  | greater => onOrder Ordering.isGT
  | lessEq => onOrder Ordering.isLE
  | greaterEq => onOrder Ordering.isGE
  | equal => .ok (.bool (a.looseEq b))
  | notEqual => .ok (.bool !a.looseEq b)
  | identical => .ok (.bool (a.strictEq b))
  | notIdentical => .ok (.bool !a.strictEq b)
  | isIn => (b.hasProperty a.toText).map .bool

/-- Is the left operand the result, so that the right one is not read? -/
def LogicalOp.isDecided (op : LogicalOp) (left : Value) : Bool :=
  match op with
  | and => !left.isTruthy
  | or => left.isTruthy
  | nullish => !left.isNullish

/-- How a message calls a callee: by its name, or by its text in the source. -/
def calleeText (source : List Char) (callee : Expr) (span : Span) : String :=
  match callee with
  | name text _ => text
  | _ => String.ofList (Text.slice span.start span.stop source)

mutual

/-- The value of an expression in a scope. -/
def eval (scope : Scope) : Expr → Except EvalError Value
  | literal value => .ok value.toValue
  | name text _ => .ok (scope.resolve text)
  | array items => (evalAll scope items).map .array
  | object members => (evalMembers scope [] members).map .object
  | member target property => do
    let v ← eval scope target
    v.getProperty property
  | index target key => do
    let v ← eval scope target
    let k ← eval scope key
    v.getProperty k.toText
  | call callee arguments span => do
    let f ← eval scope callee
    let values ← evalAll scope arguments
    match f with
    | .function f => f.call values
    | _ => .error (.notAFunction (calleeText scope.source callee span))
  | unary op operand => do
    let v ← eval scope operand
    .ok (op.apply v)
  | binary op left right => do
    let a ← eval scope left
    let b ← eval scope right
    op.apply a b
  | logical op left right => do
    let a ← eval scope left
    if op.isDecided a then .ok a else eval scope right
  | conditional test consequent alternate => do
    let v ← eval scope test
    if v.isTruthy then eval scope consequent else eval scope alternate

def evalAll (scope : Scope) : List Expr → Except EvalError (List Value)
  | [] => .ok []
  | e :: es => do
    let v ← eval scope e
    let vs ← evalAll scope es
    .ok (v :: vs)

/-- Puts the values of members into a record, from left to right. -/
def evalMembers (scope : Scope) (record : Record Value) :
    List ObjectMember → Except EvalError (Record Value)
  | [] => .ok record
  | .pair key value :: ms => do
    let v ← eval scope value
    evalMembers scope (record.insert key v) ms
  | .shorthand text _ :: ms =>
    evalMembers scope (record.insert text (scope.resolve text)) ms

end

end HtmlTemplate.Expr

namespace HtmlTemplate

/-- An expression that was read once and can be evaluated against any data. -/
structure Evaluator where
  source : String
  expr : Expr
  /-- The names that are read from the data. -/
  names : List String

namespace Evaluator

/-- The evaluator of a source. -/
def ofSource (source : String) : Except Expr.SyntaxError Evaluator :=
  (Expr.parse source).map fun e ↦ ⟨source, e, e.freeNames⟩

/-- The scope in which each free name has its value from the data. -/
def scope (evaluator : Evaluator) (data : Data) : Expr.Scope where
  source := evaluator.source.toList
  bindings := evaluator.names.map fun name ↦ (name, data.lookup name)

/-- The value of the expression on the data. -/
def call (evaluator : Evaluator) (data : Data) : Except EvalError Value :=
  evaluator.expr.eval (evaluator.scope data)

end Evaluator

end HtmlTemplate
