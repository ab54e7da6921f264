import VisualBlocks.Number.Reading
import VisualBlocks.Script.Lexer
import VisualBlocks.Script.Program

/-!
# From tokens to programs

A parser by recursive descent.  Every function takes the tokens that remain and returns what it
read with the tokens it left.  None of them takes the token that ends the input, so a list closed
by one is never read past its end.

Binding, from loose to tight: the conditional, which nests to the right; the operators between
operands by `BinaryOp.precedence`, all nesting to the left; the operators before an operand; calls,
groups, names and literals.

The functions call each other, and `fuel` bounds the depth of the calls.  Within four calls a token
is taken, so four for each token and a few more are always enough; `parseProgram` and
`parseExpression` start with that many.
-/

set_option autoImplicit false

namespace VisualBlocks
namespace Script

/-- A token that the grammar asks for and that is not there. -/
inductive Missing where
  | variableName
  | blockEnd
  | headOpening (word : String)
  | conditionEnd (word : String)
  | initEnd
  | loopConditionEnd
  | loopHeaderEnd
  | statementEnd
  | conditionalColon
  | argumentsEnd
  | groupEnd
deriving Repr, DecidableEq

/-- What was asked for, in words. -/
def Missing.message : Missing → String
  | .variableName => "Expected variable name."
  | .blockEnd => "Expected '\x7d' to close block."
  | .headOpening word => "Expected '(' after '" ++ word ++ "'."
  | .conditionEnd word => "Expected ')' after " ++ word ++ " condition."
  | .initEnd => "Expected ';' after loop initializer."
  | .loopConditionEnd => "Expected ';' after loop condition."
  | .loopHeaderEnd => "Expected ')' after loop header."
  | .statementEnd => "Expected ';' after statement."
  | .conditionalColon => "Expected ':' in conditional expression."
  | .argumentsEnd => "Expected ')' after call arguments."
  | .groupEnd => "Expected ')' after expression."

/-- What can be wrong with a script. -/
inductive ParseFault where
  | lexical (fault : LexFault)
  | missing (what : Missing)
  | invalidNumber (text : String)
  | unexpectedKeyword (text : String)
  | unexpectedToken (text : String)
  | unexpectedEnd
  /-- The bound on the depth of calls was reached. -/
  | exhausted
deriving Repr, DecidableEq

/-- The wording of a fault. -/
def ParseFault.message : ParseFault → String
  | .lexical fault => fault.message
  | .missing what => what.message
  | .invalidNumber text => "Invalid number literal '" ++ text ++ "'."
  | .unexpectedKeyword text => "Unexpected keyword '" ++ text ++ "' in expression."
  | .unexpectedToken text => "Unexpected '" ++ text ++ "' in expression."
  | .unexpectedEnd => "Unexpected end of input, expected expression."
  | .exhausted => "Nesting is too deep."

/-- A fault and where it was found. -/
structure ParseError where
  fault : ParseFault
  pos : Position
deriving Repr, DecidableEq

/-- The wording of an error with its place. -/
def ParseError.text (e : ParseError) : String := e.pos.locate e.fault.message

/-! ## The tokens that remain -/

/-- The kind of the next token. -/
def nextKind : List Token → TokenKind
  | t :: _ => t.kind
  | [] => .endOfInput

/-- The place of the next token. -/
def nextPos : List Token → Position
  | t :: _ => t.pos
  | [] => Position.start

/-- Fails at the next token. -/
def failAt {α : Type} (ts : List Token) (fault : ParseFault) : Except ParseError α :=
  .error ⟨fault, nextPos ts⟩

/-- Is the next token this keyword? -/
def isKeyword (word : String) : List Token → Bool
  | t :: _ => t.kind = .keyword && t.text = word
  | [] => false

/-- Is the next token this operator? -/
def isOperator (symbol : String) : List Token → Bool
  | t :: _ => t.kind = .operator && t.text = symbol
  | [] => false

/-- Takes a token of the kind, or fails. -/
def expect (kind : TokenKind) (what : Missing) : List Token → Except ParseError (List Token)
  | [] => failAt [] (.missing what)
  | t :: ts => if t.kind = kind then .ok ts else failAt (t :: ts) (.missing what)

/-- The operator before an operand that the token is. -/
def unaryOp? (t : Token) : Option UnaryOp :=
  if t.kind = .operator then
    if t.text = "!" then some .not
    else if t.text = "-" then some .negate
    else if t.text = "+" then some .plus
    else none
  else none

/-- The operator between operands that the token is. -/
def binaryOp? (t : Token) : Option BinaryOp :=
  if t.kind = .operator then BinaryOp.ofSymbol? t.text else none

/-- The assignment that an operator after a name makes, and whether it stands for a step of one. -/
def assignOp? (t : Token) : Option (AssignOp × Bool) :=
  if t.kind = .operator then
    if t.text = "=" then some (.set, false)
    else if t.text = "+=" then some (.add, false)
    else if t.text = "++" then some (.add, true)
    else if t.text = "-=" then some (.sub, false)
    else if t.text = "--" then some (.sub, true)
    else none
  else none

/-- The literal that a keyword is. -/
def keywordLiteral? (t : Token) : Option Expr :=
  if t.text = "true" then some (.bool t.pos true)
  else if t.text = "false" then some (.bool t.pos false)
  else if t.text = "null" || t.text = "undefined" then some (.null t.pos)
  else none

/-! ## Expressions -/

mutual

/-- Reads an expression. -/
def expression : Nat → List Token → Except ParseError (Expr × List Token)
  | 0, ts => failAt ts .exhausted
  | fuel + 1, ts => do
    let (test, ts) ← binary fuel 1 ts
    match ts with
    | ⟨.question, _, pos⟩ :: ts =>
      let (yes, ts) ← expression fuel ts
      let ts ← expect .colon .conditionalColon ts
      let (no, ts) ← expression fuel ts
      return (.conditional pos test yes no, ts)
    | ts => return (test, ts)

/-- Reads operands and the operators between them that bind at least as tightly as `least`. -/
def binary : Nat → Nat → List Token → Except ParseError (Expr × List Token)
  | 0, _, ts => failAt ts .exhausted
  | fuel + 1, least, ts => do
    let (left, ts) ← unary fuel ts
    operators fuel least left ts

/-- Reads further operators and operands to the right of `left`. -/
def operators : Nat → Nat → Expr → List Token → Except ParseError (Expr × List Token)
  | 0, _, _, ts => failAt ts .exhausted
  | fuel + 1, least, left, ts =>
    match ts with
    | [] => .ok (left, [])
    | t :: rest =>
      match binaryOp? t with
      | none => .ok (left, t :: rest)
      | some op =>
        if op.precedence < least then .ok (left, t :: rest)
        else do
          let (right, rest) ← binary fuel (op.precedence + 1) rest
          operators fuel least (.binary t.pos op left right) rest

/-- Reads an operand with the operators before it. -/
def unary : Nat → List Token → Except ParseError (Expr × List Token)
  | 0, ts => failAt ts .exhausted
  | fuel + 1, ts =>
    match ts with
    | [] => primary fuel []
    | t :: rest =>
      match unaryOp? t with
      | none => primary fuel (t :: rest)
      | some op => do
        let (operand, rest) ← unary fuel rest
        return (.unary t.pos op operand, rest)

/-- Reads a literal, a name, a call or a group. -/
def primary : Nat → List Token → Except ParseError (Expr × List Token)
  | 0, ts => failAt ts .exhausted
  | fuel + 1, ts =>
    match ts with
    | [] => failAt [] .unexpectedEnd
    | t :: rest =>
      match t.kind with
      | .number =>
        match Number.float? t.text with
        | some x => .ok (.number t.pos x, rest)
        | none => .error ⟨.invalidNumber t.text, t.pos⟩
      | .string => .ok (.string t.pos t.text, rest)
      | .keyword =>
        match keywordLiteral? t with
        | some e => .ok (e, rest)
        | none => failAt ts (.unexpectedKeyword t.text)
      | .name =>
        match rest with
        | ⟨.leftParen, _, _⟩ :: rest => do
          let (args, rest) ← arguments fuel rest
          return (.call t.pos t.text args, rest)
        | rest => .ok (.var t.pos t.text, rest)
      | .leftParen => do
        let (e, rest) ← expression fuel rest
        let rest ← expect .rightParen .groupEnd rest
        return (e, rest)
      | .endOfInput => failAt ts .unexpectedEnd
      | _ => failAt ts (.unexpectedToken t.text)

/-- Reads the arguments of a call after its opening parenthesis, and the closing one. -/
def arguments : Nat → List Token → Except ParseError (List Expr × List Token)
  | 0, ts => failAt ts .exhausted
  | fuel + 1, ts =>
    if nextKind ts = .rightParen then .ok ([], ts.tail)
    else moreArguments fuel ts

/-- Reads at least one argument. -/
def moreArguments : Nat → List Token → Except ParseError (List Expr × List Token)
  | 0, ts => failAt ts .exhausted
  | fuel + 1, ts => do
    let (arg, ts) ← expression fuel ts
    if nextKind ts = .comma then
      let (args, ts) ← moreArguments fuel ts.tail
      return (arg :: args, ts)
    else
      let ts ← expect .rightParen .argumentsEnd ts
      return ([arg], ts)

end

/-! ## Statements -/

/-- Reads a condition in parentheses after the word it belongs to. -/
def condition (fuel : Nat) (word : String) (ts : List Token) :
    Except ParseError (Expr × List Token) := do
  let ts ← expect .leftParen (.headOpening word) ts
  let (e, ts) ← expression fuel ts
  let ts ← expect .rightParen (.conditionEnd word) ts
  return (e, ts)

/-- Reads the variables of a declaration. -/
def declarators : Nat → List Token → Except ParseError (List (String × Option Expr) × List Token)
  | 0, ts => failAt ts .exhausted
  | fuel + 1, ts => do
    let name := (ts.head?.map Token.text).getD ""
    let ts ← expect .name .variableName ts
    let (init, ts) ←
      if isOperator "=" ts then (expression fuel ts.tail).map fun r => (some r.1, r.2)
      else .ok (none, ts)
    if nextKind ts = .comma then
      let (others, ts) ← declarators fuel ts.tail
      return ((name, init) :: others, ts)
    else return ([(name, init)], ts)

/-- Reads an assignment, a step by one or a bare expression. -/
def simpleStatement (fuel : Nat) (ts : List Token) : Except ParseError (Statement × List Token) :=
  let bare : Except ParseError (Statement × List Token) := do
    let (e, rest) ← expression fuel ts
    return (.expr (nextPos ts) e, rest)
  match ts with
  | t :: o :: rest =>
    if t.kind = .name then
      match assignOp? o with
      | some (op, true) => .ok (.assign t.pos t.text op (.number o.pos 1), rest)
      | some (op, false) => do
        let (value, rest) ← expression fuel rest
        return (.assign t.pos t.text op value, rest)
      | none => bare
    else bare
  | _ => bare

/-- Takes the semicolon after a statement, which may be left out before a closing brace and at the
end of the input. -/
def endStatement (ts : List Token) : Except ParseError (List Token) :=
  match nextKind ts with
  | .semicolon => .ok ts.tail
  | .rightBrace => .ok ts
  | .endOfInput => .ok ts
  | _ => failAt ts (.missing .statementEnd)

/-- Reads what initialises a loop.  Constants cannot. -/
def loopInit (fuel : Nat) (ts : List Token) : Except ParseError (Option Statement × List Token) :=
  if nextKind ts = .semicolon then .ok (none, ts)
  else if isKeyword "var" ts || isKeyword "let" ts then do
    let (names, rest) ← declarators fuel ts.tail
    return (some (.declare (nextPos ts) names), rest)
  else (simpleStatement fuel ts).map fun r => (some r.1, r.2)

mutual

/-- Reads a statement.  A lone semicolon is no statement, and the statements of a block stand in
place of the block. -/
def statement : Nat → List Token → Except ParseError (List Statement × List Token)
  | 0, ts => failAt ts .exhausted
  | fuel + 1, ts =>
    let pos := nextPos ts
    if nextKind ts = .semicolon then .ok ([], ts.tail)
    else if nextKind ts = .leftBrace then blockBody fuel ts.tail
    else if isKeyword "var" ts || isKeyword "let" ts || isKeyword "const" ts then do
      let (names, ts) ← declarators fuel ts.tail
      let ts ← endStatement ts
      return ([.declare pos names], ts)
    else if isKeyword "if" ts then do
      let (test, ts) ← condition fuel "if" ts.tail
      let (body, ts) ← block fuel ts
      let (branches, otherwise, ts) ← furtherBranches fuel ts
      return ([.ifElse pos ((test, body) :: branches) otherwise], ts)
    else if isKeyword "while" ts then do
      let (test, ts) ← condition fuel "while" ts.tail
      let (body, ts) ← block fuel ts
      return ([.whileLoop pos test body], ts)
    else if isKeyword "for" ts then do
      let ts ← expect .leftParen (.headOpening "for") ts.tail
      let (init, ts) ← loopInit fuel ts
      let ts ← expect .semicolon .initEnd ts
      let (test, ts) ←
        if nextKind ts = .semicolon then .ok (none, ts)
        else (expression fuel ts).map fun r => (some r.1, r.2)
      let ts ← expect .semicolon .loopConditionEnd ts
      let (update, ts) ←
        if nextKind ts = .rightParen then .ok (none, ts)
        else (simpleStatement fuel ts).map fun r => (some r.1, r.2)
      let ts ← expect .rightParen .loopHeaderEnd ts
      let (body, ts) ← block fuel ts
      return ([.forLoop pos init test update body], ts)
    else do
      let (s, ts) ← simpleStatement fuel ts
      let ts ← endStatement ts
      return ([s], ts)

/-- Reads a body: a block in braces or a single statement. -/
def block : Nat → List Token → Except ParseError (List Statement × List Token)
  | 0, ts => failAt ts .exhausted
  | fuel + 1, ts =>
    if nextKind ts = .leftBrace then blockBody fuel ts.tail else statement fuel ts

/-- Reads statements up to and with the brace that closes them. -/
def blockBody : Nat → List Token → Except ParseError (List Statement × List Token)
  | 0, ts => failAt ts .exhausted
  | fuel + 1, ts =>
    if nextKind ts = .rightBrace then .ok ([], ts.tail)
    else if nextKind ts = .endOfInput then failAt ts (.missing .blockEnd)
    else do
      let (first, ts) ← statement fuel ts
      let (others, ts) ← blockBody fuel ts
      return (first ++ others, ts)

/-- Reads the branches after the first one, and the last part that has no condition. -/
def furtherBranches : Nat → List Token →
    Except ParseError (List (Expr × List Statement) × List Statement × List Token)
  | 0, ts => failAt ts .exhausted
  | fuel + 1, ts =>
    if isKeyword "else" ts then
      if isKeyword "if" ts.tail then do
        let (test, ts) ← condition fuel "else if" ts.tail.tail
        let (body, ts) ← block fuel ts
        let (branches, otherwise, ts) ← furtherBranches fuel ts
        return ((test, body) :: branches, otherwise, ts)
      else do
        let (otherwise, ts) ← block fuel ts.tail
        return ([], otherwise, ts)
    else .ok ([], [], ts)

end

/-- Reads statements up to the end of the input. -/
def statements : Nat → List Token → Except ParseError (List Statement × List Token)
  | 0, ts => failAt ts .exhausted
  | fuel + 1, ts =>
    if nextKind ts = .endOfInput then .ok ([], ts)
    else do
      let (first, ts) ← statement fuel ts
      let (others, ts) ← statements fuel ts
      return (first ++ others, ts)

/-! ## Whole scripts -/

/-- The tokens closed by the end of the input, if they are not.  It then stands where the last
token does. -/
def closed (ts : List Token) : List Token :=
  match ts.getLast? with
  | none => [Token.closing Position.start]
  | some t => if t.kind = .endOfInput then ts else ts ++ [Token.closing t.pos]

/-- Enough fuel for a list of tokens. -/
def fuelFor (ts : List Token) : Nat := 4 * ts.length + 8

/-- Reads a program off a list of tokens. -/
def parseTokens (ts : List Token) : Except ParseError Program :=
  (statements (fuelFor (closed ts)) (closed ts)).map fun r => ⟨r.1⟩

/-- Reads the expression at the front of a list of tokens. -/
def parseExpression (ts : List Token) : Except ParseError (Expr × List Token) :=
  expression (fuelFor (closed ts)) (closed ts)

/-- Reads a script. -/
def parseProgram (source : String) : Except ParseError Program :=
  match tokenize source with
  | .ok ts => parseTokens ts
  | .error e => .error ⟨.lexical e.fault, e.pos⟩

end Script
end VisualBlocks
