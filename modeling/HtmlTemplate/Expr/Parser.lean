import HtmlTemplate.Expr.Basic
import HtmlTemplate.Expr.Lexer

/-!
# From tokens to expressions

A recursive-descent parser over the list of tokens that are left. From loosest to tightest:

* the conditional `a ? b : c`, which associates to the right;
* six levels of infix operators, which associate to the left (`Level`);
* the prefix operators `!`, `-`, `+`, `typeof`;
* the postfix forms `a.b`, `a[b]` and `a(b)`;
* literals, names, parentheses, arrays and objects.

Lists may end with a comma. Every function gives back the tokens that it left, with a proof that
they are fewer than it was given; that is why the parser ends.
-/

namespace HtmlTemplate.Expr

/-! ## Infix operators -/

/-- An infix operator. -/
inductive Operator where
  | binary (op : BinaryOp)
  | logical (op : LogicalOp)
deriving DecidableEq

/-- An operator with its operands. -/
def Operator.apply : Operator → Expr → Expr → Expr
  | binary op => .binary op
  | logical op => .logical op

/-- The levels of infix operators, loosest first. -/
inductive Level where
  | or | and | equality | relational | additive | multiplicative
deriving DecidableEq

namespace Level

/-- The next tighter level. -/
def tighter : Level → Option Level
  | or => some and
  | and => some equality
  | equality => some relational
  | relational => some additive
  | additive => some multiplicative
  | multiplicative => none

/-- How many levels are at least as tight. -/
def height : Level → Nat
  | or => 6
  | and => 5
  | equality => 4
  | relational => 3
  | additive => 2
  | multiplicative => 1

theorem height_of_tighter {l m : Level} (h : l.tighter = some m) : m.height + 1 = l.height := by
  cases l <;> simp [tighter] at h <;> subst h <;> rfl

theorem height_le (l : Level) : l.height ≤ 6 := by cases l <;> decide

theorem height_pos (l : Level) : 0 < l.height := by cases l <;> decide

/-- The operator of a level that a token stands for. -/
def operator? : Level → Token.Kind → Option Operator
  | or, .punct .orOr => some (.logical .or)
  | or, .punct .nullish => some (.logical .nullish)
  | and, .punct .andAnd => some (.logical .and)
  | equality, .punct .equal => some (.binary .equal)
  | equality, .punct .notEqual => some (.binary .notEqual)
  | equality, .punct .identical => some (.binary .identical)
  | equality, .punct .notIdentical => some (.binary .notIdentical)
  | relational, .punct .less => some (.binary .less)
  | relational, .punct .greater => some (.binary .greater)
  | relational, .punct .lessEq => some (.binary .lessEq)
  | relational, .punct .greaterEq => some (.binary .greaterEq)
  | relational, .name text => if text = "in" then some (.binary .isIn) else none
  | additive, .punct .plus => some (.binary .add)
  | additive, .punct .minus => some (.binary .sub)
  | multiplicative, .punct .star => some (.binary .mul)
  | multiplicative, .punct .slash => some (.binary .div)
  | multiplicative, .punct .percent => some (.binary .rem)
  | _, _ => none

end Level

/-- The prefix operator that a token stands for. -/
def prefixOperator? : Token.Kind → Option UnaryOp
  | .punct .bang => some .not
  | .punct .minus => some .negate
  | .punct .plus => some .plus
  | .name text => if text = "typeof" then some .typeof else none
  | _ => none

/-- The expression that a name stands for; the words that are operators stand for none. -/
def ofName (text : String) (span : Span) : Option Expr :=
  if text = "true" then some (.literal (.bool true))
  else if text = "false" then some (.literal (.bool false))
  else if text = "null" then some (.literal .null)
  else if text = "undefined" then some (.literal .undefined)
  else if text = "in" ∨ text = "typeof" then none
  else some (.name text span)

/-! ## Steps over the tokens -/

/-- Something read, and the tokens behind it, fewer than `bound`. -/
structure Parsed (α : Type) (bound : Nat) where
  value : α
  rest : List Token
  length_lt : rest.length < bound

/-- The error at the first token, or at the end of the input where none is left. -/
def unexpected (stop : Nat) (expected : Expected) : List Token → SyntaxError
  | [] => ⟨.unexpected expected none, stop, stop⟩
  | t :: _ => ⟨.unexpected expected (some t.kind), t.span⟩

/-- The tokens behind a punctuator, if it is in front; its span with them. -/
def eat (p : Punct) : (ts : List Token) → Option (Parsed Span ts.length)
  | [] => none
  | t :: ts =>
    match t.kind with
    | .punct q => if q = p then some ⟨t.span, ts, by simp⟩ else none
    | _ => none

/-- Demands a punctuator. -/
def expect (stop : Nat) (p : Punct) (ts : List Token) :
    Except SyntaxError (Parsed Span ts.length) :=
  match eat p ts with
  | some parsed => .ok parsed
  | none => .error (unexpected stop (.punct p) ts)

/-- The key that a token can be in an object, and whether it can stand alone. -/
def objectKey? : Token.Kind → Option (String × Bool)
  | .name text => some (text, true)
  | .string value => some (value, false)
  | .number value => some (Number.text value, false)
  | .punct _ => none

/-! ## The parser -/

mutual

def parseConditional (stop : Nat) (ts : List Token) :
    Except SyntaxError (Parsed Expr ts.length) := do
  let ⟨test, r, hr⟩ ← parseLevel stop .or ts
  match eat .question r with
  | none => .ok ⟨test, r, hr⟩
  | some ⟨_, r₁, h₁⟩ =>
    let ⟨consequent, r₂, h₂⟩ ← parseConditional stop r₁
    let ⟨_, r₃, h₃⟩ ← expect stop .colon r₂
    let ⟨alternate, r₄, h₄⟩ ← parseConditional stop r₃
    .ok ⟨.conditional test consequent alternate, r₄, by omega⟩
termination_by 32 * ts.length + 15
decreasing_by
  all_goals
    have : Level.or.height = 6 := rfl
    omega

/-- Reads operands and operators of a level. -/
def parseLevel (stop : Nat) (level : Level) (ts : List Token) :
    Except SyntaxError (Parsed Expr ts.length) := do
  let ⟨left, r, hr⟩ ← parseOperand stop level ts
  let ⟨e, r', hr'⟩ ← parseOperators stop level left r
  .ok ⟨e, r', by omega⟩
termination_by 32 * ts.length + 2 + 2 * level.height

/-- Reads an operand of a level: something of the next tighter one. -/
def parseOperand (stop : Nat) (level : Level) (ts : List Token) :
    Except SyntaxError (Parsed Expr ts.length) :=
  match _h : level.tighter with
  | some tighter => parseLevel stop tighter ts
  | none => parseUnary stop ts
termination_by 32 * ts.length + 1 + 2 * level.height
decreasing_by
  · have := Level.height_of_tighter _h
    omega
  · have := level.height_pos
    omega

/-- Goes on from a left operand. -/
def parseOperators (stop : Nat) (level : Level) (left : Expr) (ts : List Token) :
    Except SyntaxError (Parsed Expr (ts.length + 1)) :=
  match ts with
  | [] => .ok ⟨left, [], by simp⟩
  | t :: r =>
    match level.operator? t.kind with
    | none => .ok ⟨left, t :: r, by simp⟩
    | some op => do
      let ⟨right, r₁, h₁⟩ ← parseOperand stop level r
      let ⟨e, r₂, h₂⟩ ← parseOperators stop level (op.apply left right) r₁
      .ok ⟨e, r₂, by simp only [List.length_cons]; omega⟩
termination_by 32 * ts.length
decreasing_by
  all_goals
    have := level.height_le
    simp only [List.length_cons]
    omega

def parseUnary (stop : Nat) (ts : List Token) : Except SyntaxError (Parsed Expr ts.length) :=
  match ts with
  | [] => parsePostfix stop []
  | t :: r =>
    match prefixOperator? t.kind with
    | none => parsePostfix stop (t :: r)
    | some op => do
      let ⟨operand, r₁, h₁⟩ ← parseUnary stop r
      .ok ⟨.unary op operand, r₁, by simp only [List.length_cons]; omega⟩
termination_by 32 * ts.length + 2

def parsePostfix (stop : Nat) (ts : List Token) : Except SyntaxError (Parsed Expr ts.length) := do
  let ⟨(e, last), r, hr⟩ ← parsePrimary stop ts
  let ⟨e', r', hr'⟩ ← parseApplied stop (ts.head?.elim ⟨stop, stop⟩ (·.span)) e last r
  .ok ⟨e', r', by omega⟩
termination_by 32 * ts.length + 1

/-- Goes on from an expression whose outer tokens have the spans `first` and `last`. -/
def parseApplied (stop : Nat) (first : Span) (e : Expr) (last : Span) (ts : List Token) :
    Except SyntaxError (Parsed Expr (ts.length + 1)) :=
  match ts with
  | [] => .ok ⟨e, [], by simp⟩
  | t :: r =>
    match t.kind with
    | .punct .dot =>
      match r with
      | ⟨.name property, span⟩ :: r₁ => do
        let ⟨e', r₂, h₂⟩ ← parseApplied stop first (.member e property) span r₁
        .ok ⟨e', r₂, by simp only [List.length_cons]; omega⟩
      | _ => .error (unexpected stop .propertyName r)
    | .punct .leftBracket => do
      let ⟨key, r₁, h₁⟩ ← parseConditional stop r
      let ⟨close, r₂, h₂⟩ ← expect stop .rightBracket r₁
      let ⟨e', r₃, h₃⟩ ← parseApplied stop first (.index e key) close r₂
      .ok ⟨e', r₃, by simp only [List.length_cons]; omega⟩
    | .punct .leftParen => do
      let ⟨(arguments, close), r₁, h₁⟩ ← parseItems stop .rightParen r
      let ⟨e', r₂, h₂⟩ ← parseApplied stop first (.call e arguments (first.cover last)) close r₁
      .ok ⟨e', r₂, by simp only [List.length_cons]; omega⟩
    | _ => .ok ⟨e, t :: r, by simp⟩
termination_by 32 * ts.length

/-- Reads expressions between commas and the closing mark, and gives the span of that mark. -/
def parseItems (stop : Nat) (close : Punct) (ts : List Token) :
    Except SyntaxError (Parsed (List Expr × Span) ts.length) :=
  match eat close ts with
  | some ⟨span, r, hr⟩ => .ok ⟨([], span), r, hr⟩
  | none => do
    let ⟨item, r, hr⟩ ← parseConditional stop ts
    match eat .comma r with
    | some ⟨_, r₁, h₁⟩ =>
      let ⟨(items, last), r₂, h₂⟩ ← parseItems stop close r₁
      .ok ⟨(item :: items, last), r₂, by omega⟩
    | none =>
      let ⟨span, r₁, h₁⟩ ← expect stop close r
      .ok ⟨([item], span), r₁, by omega⟩
termination_by 32 * ts.length + 16

/-- Reads the members of an object and its closing brace. -/
def parseMembers (stop : Nat) (ts : List Token) :
    Except SyntaxError (Parsed (List ObjectMember × Span) ts.length) :=
  match eat .rightBrace ts with
  | some ⟨span, r, hr⟩ => .ok ⟨([], span), r, hr⟩
  | none => do
    let ⟨first, r, hr⟩ ← parseMember stop ts
    match eat .comma r with
    | some ⟨_, r₁, h₁⟩ =>
      let ⟨(members, last), r₂, h₂⟩ ← parseMembers stop r₁
      .ok ⟨(first :: members, last), r₂, by omega⟩
    | none =>
      let ⟨span, r₁, h₁⟩ ← expect stop .rightBrace r
      .ok ⟨([first], span), r₁, by omega⟩
termination_by 32 * ts.length + 17

/-- Reads a key with its value, or a name alone. -/
def parseMember (stop : Nat) (ts : List Token) :
    Except SyntaxError (Parsed ObjectMember ts.length) :=
  match ts with
  | [] => .error (unexpected stop .propertyName [])
  | t :: r =>
    match objectKey? t.kind with
    | none => .error (unexpected stop .propertyName (t :: r))
    | some (key, isName) =>
      match eat .colon r with
      | some ⟨_, r₁, h₁⟩ => do
        let ⟨value, r₂, h₂⟩ ← parseConditional stop r₁
        .ok ⟨.pair key value, r₂, by simp only [List.length_cons]; omega⟩
      | none =>
        if isName then .ok ⟨.shorthand key t.span, r, by simp⟩
        else .error (unexpected stop (.punct .colon) r)
termination_by 32 * ts.length + 16

/-- Reads a primary expression, and gives the span of its last token. -/
def parsePrimary (stop : Nat) (ts : List Token) :
    Except SyntaxError (Parsed (Expr × Span) ts.length) :=
  match ts with
  | [] => .error (unexpected stop .expression [])
  | t :: r =>
    match t.kind with
    | .number value => .ok ⟨(.literal (.number value), t.span), r, by simp⟩
    | .string value => .ok ⟨(.literal (.string value), t.span), r, by simp⟩
    | .name text =>
      match ofName text t.span with
      | some e => .ok ⟨(e, t.span), r, by simp⟩
      | none => .error (unexpected stop .expression (t :: r))
    | .punct .leftParen => do
      let ⟨e, r₁, h₁⟩ ← parseConditional stop r
      let ⟨close, r₂, h₂⟩ ← expect stop .rightParen r₁
      .ok ⟨(e, close), r₂, by simp only [List.length_cons]; omega⟩
    | .punct .leftBracket => do
      let ⟨(items, last), r₁, h₁⟩ ← parseItems stop .rightBracket r
      .ok ⟨(.array items, last), r₁, by simp only [List.length_cons]; omega⟩
    | .punct .leftBrace => do
      let ⟨(members, last), r₁, h₁⟩ ← parseMembers stop r
      .ok ⟨(.object members, last), r₁, by simp only [List.length_cons]; omega⟩
    | .punct _ => .error (unexpected stop .expression (t :: r))
termination_by 32 * ts.length

end

/-- Reads tokens as one whole expression. -/
def ofTokens (lexed : Lexed) : Except SyntaxError Expr := do
  let ⟨e, rest, _⟩ ← parseConditional lexed.stop lexed.tokens
  match rest with
  | [] => .ok e
  | _ :: _ => .error (unexpected lexed.stop .endOfInput rest)

/-- Reads a source as one whole expression. -/
def parse (source : String) : Except SyntaxError Expr := tokenize source >>= ofTokens

end HtmlTemplate.Expr
