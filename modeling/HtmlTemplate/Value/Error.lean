/-!
# Evaluation errors

The causes for which an expression that is well formed has no value, and the wording of each.
-/

namespace HtmlTemplate

/-- Why an expression has no value. -/
inductive EvalError where
  /-- A property of undefined or null, given by its text, was asked for. -/
  | propertyOfNullish (target key : String)
  | notAFunction (callee : String)
  | inWithoutMembers (key target : String)
  | fixedDigitsOutOfRange
  | radixOutOfRange
  | radixOfUnsafeInteger
  | malformedURI
  | evalUnavailable
deriving DecidableEq

namespace EvalError

/-- The kinds of evaluation errors that are told apart. -/
inductive Code where
  | typeError | uriError | unsupported
deriving DecidableEq

/-- How a code is written. -/
def Code.text : Code → String
  | typeError => "type-error"
  | uriError => "uri-error"
  | unsupported => "unsupported"

def code : EvalError → Code
  | propertyOfNullish .. | notAFunction _ | inWithoutMembers .. => .typeError
  | fixedDigitsOutOfRange | radixOutOfRange => .typeError
  | radixOfUnsafeInteger | evalUnavailable => .unsupported
  | malformedURI => .uriError

/-- The text between apostrophes. -/
def inApostrophes (s : String) : String := "\x27" ++ s ++ "\x27"

def message : EvalError → String
  | propertyOfNullish target key =>
    "Cannot read properties of " ++ target ++ " (reading " ++ inApostrophes key ++ ")"
  | notAFunction callee => callee ++ " is not a function"
  | inWithoutMembers key target =>
    "Cannot use " ++ inApostrophes "in" ++ " operator to search for " ++ inApostrophes key ++
      " in " ++ target
  | fixedDigitsOutOfRange => "toFixed() digits argument must be between 0 and 100"
  | radixOutOfRange => "toString() radix must be between 2 and 36"
  | radixOfUnsafeInteger => "toString() with a radix is only supported for safe integers"
  | malformedURI => "URI malformed"
  | evalUnavailable => "eval is not available in template expressions"

/-- The code and the wording. -/
def display (e : EvalError) : String := e.code.text ++ ": " ++ e.message

end EvalError

end HtmlTemplate
