import HtmlTemplate.Expr.Token

/-!
# Expressions

The tree of an expression. A name and the callee of a call keep their place in the source, because
messages quote it; nothing else does.

Operators are sorted by how they read their operands: before one operand, with the values of both,
or with a right operand that may be left unread.
-/

namespace HtmlTemplate

namespace Expr

/-- A value written out in the source. -/
inductive Literal where
  | number (value : Float)
  | string (value : String)
  | bool (value : Bool)
  | null
  | undefined
deriving DecidableEq

/-- Operators before one operand. -/
inductive UnaryOp where
  | not | negate | plus | typeof
deriving DecidableEq

/-- Operators that need the values of both operands. -/
inductive BinaryOp where
  | add | sub | mul | div | rem
  | less | greater | lessEq | greaterEq
  | equal | notEqual | identical | notIdentical
  | isIn
deriving DecidableEq

/-- Operators that may leave their right operand unread. -/
inductive LogicalOp where
  | and | or | nullish
deriving DecidableEq

def UnaryOp.text : UnaryOp → String
  | not => "!"
  | negate => "-"
  | plus => "+"
  | typeof => "typeof"

def BinaryOp.text : BinaryOp → String
  | add => "+"
  | sub => "-"
  | mul => "*"
  | div => "/"
  | rem => "%"
  | less => "<"
  | greater => ">"
  | lessEq => "<="
  | greaterEq => ">="
  | equal => "=="
  | notEqual => "!="
  | identical => "==="
  | notIdentical => "!=="
  | isIn => "in"

def LogicalOp.text : LogicalOp → String
  | and => "&&"
  | or => "||"
  | nullish => "??"

end Expr

open HtmlTemplate.Expr in
mutual

/-- An expression. -/
inductive Expr where
  | literal (value : Literal)
  /-- A free name. -/
  | name (text : String) (span : Span)
  | array (items : List Expr)
  | object (members : List ObjectMember)
  /-- A property given by its name. -/
  | member (object : Expr) (property : String)
  /-- A property given by an expression. -/
  | index (object key : Expr)
  /-- A call, with the span of the callee. -/
  | call (callee : Expr) (arguments : List Expr) (span : Span)
  | unary (op : UnaryOp) (operand : Expr)
  | binary (op : BinaryOp) (left right : Expr)
  | logical (op : LogicalOp) (left right : Expr)
  | conditional (test consequent alternate : Expr)

/-- A member of an object literal: a key with a value, or a name that stands for both. -/
inductive ObjectMember where
  | pair (key : String) (value : Expr)
  | shorthand (name : String) (span : Span)

end

end HtmlTemplate
