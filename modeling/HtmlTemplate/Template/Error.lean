import HtmlTemplate.Expr.Token
import HtmlTemplate.Template.Directive
import HtmlTemplate.Text.Width
import HtmlTemplate.Value.Error

/-!
# Compile errors

The first directive whose expression cannot be read or evaluated ends a compilation. A diagnostic
shows the error against the expression, with a label on the part that is at fault.
-/

namespace HtmlTemplate

/-- What is wrong with an expression. -/
inductive ExpressionFault where
  | invalid (e : Expr.SyntaxError)
  | failed (e : EvalError)

/-- A directive whose expression is at fault. -/
structure CompileError where
  directive : Directive
  expression : String
  fault : ExpressionFault

/-- A labelled range of bytes in an expression. -/
structure Label where
  text : String
  offset : Nat
  length : Nat
deriving DecidableEq

namespace CompileError

/-- The code of the fault. -/
def code (e : CompileError) : String :=
  match e.fault with
  | .invalid s => s.fault.code.text
  | .failed f => f.code.text

/-- The name of the directive between backquotes. -/
def directiveText (e : CompileError) : String := Expr.backquoted e.directive.name ++ " directive"

/-- The wording of an error. -/
def message (e : CompileError) : String :=
  match e.fault with
  | .invalid s => "invalid expression for " ++ e.directiveText ++ ": " ++ s.fault.message
  | .failed f => "failed to evaluate " ++ e.directiveText ++ ": " ++ f.display

/-- The code under which the program reports an error. -/
def diagnosticCode (e : CompileError) : String := "weave::" ++ e.code

/-- The label of a diagnostic: the span of a syntax error as far as it lies in the expression, or
the whole expression. -/
def label (e : CompileError) : Label :=
  let length := Text.width e.expression.toList
  match e.fault with
  | .invalid s =>
    let start := min s.span.start length
    ⟨"here", start, min s.span.stop length - start⟩
  | .failed _ => ⟨"while evaluating this", 0, length⟩

end CompileError

end HtmlTemplate
