import HtmlTemplate.Expr.Parser

/-!
# Offsets of 32 bits

A span keeps each of its offsets in 32 bits, so in a source of `2 ^ 32` bytes or more the offsets
wrap around. The lexer counts without end. What is kept of its spans is put on top of it here, in
the one place where spans are made, and the parser is given the narrow tokens. It reads their kinds,
and copies or covers their spans as they are.

## Where the width matters

Nothing but a span is affected, and a span is used to quote from the source, to place the label of a
syntax error, and to say where a name stands. In a source that is shorter than `2 ^ 32` bytes narrow
spans are the spans, and there `tokenizeNarrow` and `parseNarrow` are `tokenize` and `parse`.
-/

namespace HtmlTemplate.Expr

/-- What 32 bits keep of each offset. -/
def Span.narrow (span : Span) : Span := ⟨span.start % UInt32.size, span.stop % UInt32.size⟩

def Token.narrow (t : Token) : Token := ⟨t.kind, t.span.narrow⟩

def Lexed.narrow (l : Lexed) : Lexed := ⟨l.tokens.map Token.narrow, l.stop % UInt32.size⟩

def SyntaxError.narrow (err : SyntaxError) : SyntaxError := ⟨err.fault, err.span.narrow⟩

/-- The tokens of a source with narrow spans. -/
def tokenizeNarrow (source : String) : Except SyntaxError Lexed :=
  match tokenize source with
  | .ok lexed => .ok lexed.narrow
  | .error err => .error err.narrow

/-- Reads a source as one whole expression with narrow spans. -/
def parseNarrow (source : String) : Except SyntaxError Expr := tokenizeNarrow source >>= ofTokens

end HtmlTemplate.Expr
