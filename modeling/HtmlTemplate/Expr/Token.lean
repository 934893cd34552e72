import HtmlTemplate.Number.Layout
import HtmlTemplate.Text.Quoted

/-!
# Tokens and syntax errors

An expression is a list of tokens. Each has a span, a half-open range of byte offsets into the
source. A syntax error is a cause with a span; `SyntaxFault.message` is the only place that has the
wording.
-/

namespace HtmlTemplate.Expr

/-- A half-open range of byte offsets. -/
structure Span where
  start : Nat
  stop : Nat
deriving DecidableEq, Inhabited

/-- The smallest span that covers both. -/
def Span.cover (a b : Span) : Span := ⟨min a.start b.start, max a.stop b.stop⟩

theorem Span.cover_self (a : Span) : a.cover a = a := by rw [cover, Nat.min_self, Nat.max_self]

/-- Punctuators and operators. -/
inductive Punct where
  | leftParen | rightParen | leftBracket | rightBracket | leftBrace | rightBrace
  | comma | dot | colon | question | nullish
  | plus | minus | star | slash | percent | bang
  | less | greater | lessEq | greaterEq | equal | notEqual | identical | notIdentical
  | andAnd | orOr
deriving DecidableEq

namespace Punct

/-- How a punctuator is written. -/
def text : Punct → String
  | leftParen => "("
  | rightParen => ")"
  | leftBracket => "["
  | rightBracket => "]"
  | leftBrace => "\x7b"
  | rightBrace => "\x7d"
  | comma => ","
  | dot => "."
  | colon => ":"
  | question => "?"
  | nullish => "??"
  | plus => "+"
  | minus => "-"
  | star => "*"
  | slash => "/"
  | percent => "%"
  | bang => "!"
  | less => "<"
  | greater => ">"
  | lessEq => "<="
  | greaterEq => ">="
  | equal => "=="
  | notEqual => "!="
  | identical => "==="
  | notIdentical => "!=="
  | andAnd => "&&"
  | orOr => "||"

/-- All punctuators; one that begins with another stands before it. -/
def all : List Punct := [
  identical, notIdentical, equal, notEqual, lessEq, greaterEq, andAnd, orOr, nullish,
  leftParen, rightParen, leftBracket, rightBracket, leftBrace, rightBrace,
  comma, dot, colon, question, plus, minus, star, slash, percent, bang, less, greater]

/-- The longest punctuator in front. -/
def inFront? (s : List Char) : Option Punct := all.find? fun p ↦ p.text.toList.isPrefixOf s

end Punct

/-- What a token is. -/
inductive Token.Kind where
  | number (value : Float)
  | string (value : String)
  | name (text : String)
  | punct (p : Punct)

/-- A token and where it stands. -/
structure Token where
  kind : Token.Kind
  span : Span

/-- The word between backquotes. -/
def backquoted (s : String) : String := "\x60" ++ s ++ "\x60"

/-- How messages call a token. -/
def Token.Kind.description : Token.Kind → String
  | number value => "number " ++ backquoted (Number.plainText value)
  | string _ => "string literal"
  | name text => backquoted text
  | punct p => backquoted p.text

/-- How messages call the end of the input. -/
def endDescription : String := "end of expression"

/-- How messages call a token, or the end of the input where there is none. -/
def describe (found : Option Token.Kind) : String :=
  match found with
  | some kind => kind.description
  | none => endDescription

/-! ## Errors -/

/-- What could have stood where the parser stopped. -/
inductive Expected where
  | expression
  | propertyName
  | punct (p : Punct)
  | endOfInput

/-- How messages call it. -/
def Expected.description : Expected → String
  | expression => "expression"
  | propertyName => "property name"
  | punct p => backquoted p.text
  | endOfInput => endDescription

/-- What is wrong with a source. -/
inductive SyntaxFault where
  | unexpected (expected : Expected) (found : Option Token.Kind)
  | badEscape
  | unterminatedString
  | invalidNumber (text : String)
  | invalidCharacter (c : Char)

/-- The kinds of syntax errors that are told apart. -/
inductive SyntaxCode where
  | unexpectedToken | unexpectedEnd | unterminatedString | invalidNumber | invalidCharacter
deriving DecidableEq

/-- How a code is written. -/
def SyntaxCode.text : SyntaxCode → String
  | unexpectedToken => "unexpected-token"
  | unexpectedEnd => "unexpected-end"
  | unterminatedString => "unterminated-string"
  | invalidNumber => "invalid-number"
  | invalidCharacter => "invalid-character"

namespace SyntaxFault

def code : SyntaxFault → SyntaxCode
  | unexpected _ (some _) => .unexpectedToken
  | unexpected _ none => .unexpectedEnd
  | badEscape => .unexpectedToken
  | unterminatedString => .unterminatedString
  | invalidNumber _ => .invalidNumber
  | invalidCharacter _ => .invalidCharacter

def message : SyntaxFault → String
  | unexpected expected found =>
    "Expected " ++ expected.description ++ ", found " ++ describe found
  | badEscape => "Invalid escape sequence"
  | unterminatedString => "Unterminated string literal"
  | invalidNumber text => "Invalid number: " ++ text
  | invalidCharacter c => "Invalid character: " ++ Text.quotedChar c

end SyntaxFault

/-- A fault and where it is. -/
structure SyntaxError where
  fault : SyntaxFault
  span : Span

end HtmlTemplate.Expr
