import MinangScript.Program.Basic
import MinangScript.Reader
import MinangScript.Token.Lexer
import MinangScript.Token.Stream

/-! # From tokens to programs

Statements are read by recursive descent and operators by binding power. Statements, expressions,
operands of unary operators and the conditionals after `kalauLain` may be nested `maxNesting` deep
in all. The parsers for these four form a level; a level is built from the one for everything
nested inside it, so the recursion of the whole parser is the recursion on how much nesting is
left. Within a level only loops remain, each of which reads a token in every round.
-/

namespace MinangScript

/-- What is wrong with a token in its place. -/
inductive SyntaxProblem where
  | expected (kind : TokenKind)
  | nestingTooDeep
  | expectedIdentifier
  | constantWithoutValue
  | invalidAssignmentTarget
  | expectedPropertyName
  | expectedPropertyKey
  | unexpectedToken
  deriving Repr

def SyntaxProblem.text : SyntaxProblem → String
  | expected kind => "expected " ++ kind.name
  | nestingTooDeep => "nesting too deep"
  | expectedIdentifier => "expected identifier"
  | constantWithoutValue => "constant must be initialized"
  | invalidAssignmentTarget => "invalid assignment target"
  | expectedPropertyName => "expected property name"
  | expectedPropertyKey => "expected property key"
  | unexpectedToken => "unexpected token in expression"

/-- Why tokens do not form a program: a problem and the token that has it. -/
structure SyntaxError where
  problem : SyntaxProblem
  token : Token
  deriving Repr

def SyntaxError.message (e : SyntaxError) : String :=
  e.problem.text ++ ", found " ++ e.token.kind.name ++ " at " ++ e.token.position.phrase

/-- How deep statements and expressions may nest. -/
def maxNesting : Nat := 128

/-- A reader of tokens that may fail. -/
abbrev Parser := Reader TokenStream SyntaxError

namespace Parser

open Reader (iterate)

def current : Parser Token := do
  return (← get).current

def kind : Parser TokenKind := do
  return (← get).current.kind

def advance : Parser Unit :=
  modify TokenStream.advance

/-- Fails at the next token. -/
def fail {α : Type} (problem : SyntaxProblem) : Parser α :=
  fun s => .error ⟨problem, s.current⟩

def isAt (k : TokenKind) : Parser Bool := do
  return (← kind) == k

def expect (k : TokenKind) : Parser Unit := do
  if ← isAt k then advance else fail (.expected k)

def isNewline : TokenKind → Bool
  | .newline => true
  | _ => false

/-- Whether a token separates statements. -/
def isSeparator : TokenKind → Bool
  | .newline => true
  | .symbol .semicolon => true
  | _ => false

def skipNewlines : Parser Unit :=
  modify (TokenStream.dropWhile isNewline)

/-- Skips line feeds and semicolons. -/
def skipSeparators : Parser Unit :=
  modify (TokenStream.dropWhile isSeparator)

/-- The parsers of one nesting level. -/
structure Level where
  statement : Parser Stmt
  expression : Parser Expr
  /-- The operand of a unary operator. -/
  operand : Parser Expr
  /-- A conditional that begins with `kalauLain`. -/
  elseIf : Parser Stmt

/-- The level at which nothing may be nested any more. -/
def Level.exhausted : Level where
  statement := fail .nestingTooDeep
  expression := fail .nestingTooDeep
  operand := fail .nestingTooDeep
  elseIf := fail .nestingTooDeep

/-- A name, or the given problem. -/
def identOr (problem : SyntaxProblem) : Parser Ident := do
  let t ← current
  match t.kind with
  | .identifier name =>
    advance
    return ⟨name, t.position⟩
  | _ => fail problem

/-- A name that is declared. -/
def ident : Parser Ident :=
  identOr .expectedIdentifier

def propertyName : Parser Ident :=
  identOr .expectedPropertyName

/-- The binary operator that a token is, with its binding powers to the left and to the right. The
right one is the greater, so operators of equal power group to the left. -/
def binaryOp? : TokenKind → Option (BinaryOp × Nat × Nat)
  | .symbol s =>
    match s with
    | .or => some (.or, 1, 2)
    | .and => some (.and, 3, 4)
    | .equal => some (.eq, 5, 6)
    | .notEqual => some (.ne, 5, 6)
    | .less => some (.lt, 7, 8)
    | .atMost => some (.le, 7, 8)
    | .greater => some (.gt, 7, 8)
    | .atLeast => some (.ge, 7, 8)
    | .plus => some (.add, 10, 11)
    | .minus => some (.sub, 10, 11)
    | .star => some (.mul, 20, 21)
    | .slash => some (.div, 20, 21)
    | .percent => some (.mod, 20, 21)
    | _ => none
  | _ => none

/-- A power greater than that of every binary operator, with which unary operators bind. -/
def unaryPower : Nat := 100

/-- How often binary operators can nest to the right of each other with growing power. -/
def powerSteps : Nat := 7

/-- The assignment that a token is: plain, or combined with an operator. -/
def assignment? : TokenKind → Option (Option BinaryOp)
  | .symbol s =>
    match s with
    | .assign => some none
    | .plusAssign => some (some .add)
    | .minusAssign => some (some .sub)
    | .starAssign => some (some .mul)
    | .slashAssign => some (some .div)
    | _ => none
  | _ => none

/-- The operator of an increment or a decrement. -/
def stepOp? : TokenKind → Option BinaryOp
  | .symbol .increment => some .add
  | .symbol .decrement => some .sub
  | _ => none

/-- Stepping a variable by one is an assignment. -/
def stepped (target : Ident) (op : BinaryOp) : Expr :=
  .assign target (.binary (.ident target) op (.literal (.number 1)))

/-- The parts of a template literal joined from left to right. The join starts with a text, so that
it never adds numbers. -/
def joined (parts : List Expr) : Expr :=
  let add (left right : Expr) : Expr := .binary left .add right
  match parts with
  | .literal (.string first) :: rest => rest.foldl add (.literal (.string first))
  | parts => parts.foldl add (.literal (.string ""))

/-- Whether a comma promises another item. Line feeds around it do not count. -/
def comma : Parser Bool := do
  skipNewlines
  if ← isAt (.symbol .comma) then
    advance
    skipNewlines
    return true
  else return false

section Expressions

variable (rounds : Nat) (inner : Level)

/-- The next argument of a call, in front of those already read. -/
def nextArg (args : List Expr) : Parser (List Expr × Bool) := do
  let arg ← inner.expression
  return (arg :: args, ← comma)

def callArgs : Parser (List Expr) := do
  expect (.symbol .leftParen)
  skipNewlines
  let args ← if ← isAt (.symbol .rightParen) then pure [] else iterate (nextArg inner) rounds []
  expect (.symbol .rightParen)
  return args.reverse

/-- The next item of an array literal, if there is one. -/
def nextItem (items : List Expr) : Parser (List Expr × Bool) := do
  if ← isAt (.symbol .rightBracket) then return (items, false)
  else
    let item ← inner.expression
    return (item :: items, ← comma)

/-- An array literal. A comma may stand after the last item. -/
def arrayLiteral : Parser Expr := do
  expect (.symbol .leftBracket)
  skipNewlines
  let items ← iterate (nextItem inner) rounds []
  expect (.symbol .rightBracket)
  return .array items.reverse

/-- The key of a property: a name, a string or a number. -/
def propertyKey : Parser String := do
  match ← kind with
  | .identifier name => advance; return name
  | .string text => advance; return text
  | .number value => advance; return Number.text value
  | _ => fail .expectedPropertyKey

/-- The next property of an object literal, if there is one. -/
def nextProperty (properties : List (String × Expr)) :
    Parser (List (String × Expr) × Bool) := do
  if ← isAt (.symbol .rightBrace) then return (properties, false)
  else
    let key ← propertyKey
    expect (.symbol .colon)
    let value ← inner.expression
    return ((key, value) :: properties, ← comma)

/-- An object literal. A comma may stand after the last property. -/
def objectLiteral : Parser Expr := do
  expect (.symbol .leftBrace)
  skipNewlines
  let properties ← iterate (nextProperty inner) rounds []
  expect (.symbol .rightBrace)
  return .object properties.reverse

/-- An interpolation of a template literal after its opening marker; a blank one has no value. -/
def interpolation : Parser (Option Expr) := do
  if ← isAt .interpolationEnd then
    advance
    return none
  else
    let value ← inner.expression
    expect .interpolationEnd
    return some value

/-- The next part of a template literal, if there is one. -/
def nextPart (parts : List Expr) : Parser (List Expr × Bool) := do
  match ← kind with
  | .templateText text =>
    advance
    return (.literal (.string text) :: parts, ← isAt .interpolationStart)
  | .interpolationStart =>
    advance
    let value ← interpolation inner
    let parts := value.toList ++ parts
    match ← kind with
    | .templateText _ | .interpolationStart => return (parts, true)
    | _ => return (parts, false)
  | _ => return (parts, false)

def templateLiteral : Parser Expr := do
  let parts ← iterate (nextPart inner) rounds []
  return joined parts.reverse

def parenthesized : Parser Expr := do
  expect (.symbol .leftParen)
  let value ← inner.expression
  expect (.symbol .rightParen)
  return value

/-- An expression that no operator splits. -/
def primary : Parser Expr := do
  let t ← current
  let literal (value : Literal) : Parser Expr := do
    advance
    return .literal value
  match t.kind with
  | .number value => literal (.number value)
  | .string text => literal (.string text)
  | .regex pattern flags => literal (.regex pattern flags)
  | .identifier name =>
    advance
    return .ident ⟨name, t.position⟩
  | .keyword .trueWord => literal (.bool true)
  | .keyword .falseWord => literal (.bool false)
  | .keyword .nullWord => literal .null
  | .keyword .printWord =>
    advance
    return .ident ⟨Keyword.printWord.spelling, t.position⟩
  | .templateText _ | .interpolationStart => templateLiteral rounds inner
  | .symbol .leftParen => parenthesized inner
  | .symbol .leftBracket => arrayLiteral rounds inner
  | .symbol .leftBrace => objectLiteral rounds inner
  | _ => fail .unexpectedToken

/-- What stands behind an expression and binds to it: a call, a property or a step. -/
def nextSuffix (value : Expr) : Parser (Expr × Bool) := do
  match ← kind with
  | .symbol .leftParen => return (.call value (← callArgs rounds inner), true)
  | .symbol .dot =>
    advance
    return (.member value (← propertyName), true)
  | k =>
    match stepOp? k with
    | none => return (value, false)
    | some op =>
      match value with
      | .ident target =>
        advance
        return (stepped target op, false)
      | _ => fail .invalidAssignmentTarget

/-- A primary expression with the calls, properties and steps behind it. -/
def postfixed : Parser Expr := do
  let first ← primary rounds inner
  iterate (nextSuffix rounds inner) rounds first

/-- A postfixed expression with the operator before it, if any. -/
def prefixed : Parser Expr := do
  match ← kind with
  | .symbol .not =>
    advance
    return .unary .not (← inner.operand)
  | .symbol .minus =>
    advance
    return .unary .neg (← inner.operand)
  | k =>
    match stepOp? k with
    | none => postfixed rounds inner
    | some op =>
      advance
      match ← postfixed rounds inner with
      | .ident target => return stepped target op
      | _ => fail .invalidAssignmentTarget

/-- Joins a left operand with a right one, if a binary operator of at least the given power stands
between them. `right` reads operands, from a given power on. -/
def joinRight (right : Nat → Parser Expr) (power : Nat) (left : Expr) : Parser (Expr × Bool) := do
  match binaryOp? (← kind) with
  | none => return (left, false)
  | some (op, leftPower, rightPower) =>
    if leftPower < power then return (left, false)
    else
      advance
      return (.binary left op (← right rightPower), true)

/-- Operands joined by binary operators of at least the given power. `steps` bounds how often the
power can still grow. -/
def binary : Nat → Nat → Parser Expr
  | 0, _ => prefixed rounds inner
  | steps + 1, power => do
    let first ← prefixed rounds inner
    iterate (joinRight (binary steps) power) rounds first

/-- An expression, assignments included; these group to the right. -/
def expressionBody : Parser Expr := do
  let left ← binary rounds inner powerSteps 0
  match assignment? (← kind) with
  | none => return left
  | some op =>
    match left with
    | .ident target =>
      advance
      let right ← inner.expression
      return .assign target (match op with
        | none => right
        | some op => .binary (.ident target) op right)
    | _ => fail .invalidAssignmentTarget

end Expressions

section Statements

variable (rounds : Nat) (inner : Level)

/-- The next statement between two braces, if there is one. -/
def nextInBlock (body : List Stmt) : Parser (List Stmt × Bool) := do
  skipSeparators
  match ← kind with
  | .symbol .rightBrace => return (body, false)
  | .endOfText => fail (.expected (.symbol .rightBrace))
  | _ => return ((← inner.statement) :: body, true)

/-- The statements between two braces. -/
def block : Parser (List Stmt) := do
  expect (.symbol .leftBrace)
  let body ← iterate (nextInBlock inner) rounds []
  expect (.symbol .rightBrace)
  return body.reverse

/-- A declaration, after its keyword. -/
def declaration (declKind : DeclKind) : Parser Stmt := do
  advance
  let name ← ident
  if ← isAt (.symbol .assign) then
    advance
    return .declare declKind name (some (← inner.expression))
  else if declKind = .constDecl then fail .constantWithoutValue
  else return .declare declKind name none

/-- The next parameter of a function, in front of those already read. -/
def nextParam (params : List Ident) : Parser (List Ident × Bool) := do
  let param ← ident
  if ← isAt (.symbol .comma) then
    advance
    return (param :: params, true)
  else return (param :: params, false)

def parameters : Parser (List Ident) := do
  expect (.symbol .leftParen)
  let params ← if ← isAt (.symbol .rightParen) then pure [] else iterate nextParam rounds []
  expect (.symbol .rightParen)
  return params.reverse

def functionDeclaration : Parser Stmt := do
  advance
  let name ← ident
  let params ← parameters rounds
  return .function name params (← block rounds inner)

/-- What follows the body of a conditional: another conditional, a block or nothing. Line feeds in
front belong to it only if there is something. -/
def otherBranch : Parser (Option Stmt) := do
  let before ← get
  skipNewlines
  match ← kind with
  | .keyword .elseWord =>
    advance
    if ← isAt (.keyword .ifWord) then return some (← inner.statement)
    else return some (.block (← block rounds inner))
  | .keyword .elseIfWord => return some (← inner.elseIf)
  | _ =>
    set before
    return none

/-- A conditional, whichever keyword begins it. -/
def conditional : Parser Stmt := do
  advance
  let cond ← inner.expression
  let body ← block rounds inner
  return .conditional cond body (← otherBranch rounds inner)

def whileLoop : Parser Stmt := do
  advance
  let cond ← inner.expression
  return .whileLoop cond (← block rounds inner)

/-- What stands before the token `close`, which may be nothing. -/
def clause {α : Type} (close : Symbol) (parser : Parser α) : Parser (Option α) := do
  let value ← if ← isAt (.symbol close) then pure none else some <$> parser
  expect (.symbol close)
  return value

/-- A for loop; each part of its header may be missing. -/
def forLoop : Parser Stmt := do
  advance
  expect (.symbol .leftParen)
  let init ← clause .semicolon inner.statement
  let cond ← clause .semicolon inner.expression
  let update ← clause .rightParen inner.expression
  return .forLoop init cond update (← block rounds inner)

/-- The end of a function with its result, which may be missing. -/
def resultStatement : Parser Stmt := do
  advance
  match ← kind with
  | .newline | .symbol .semicolon | .symbol .rightBrace | .endOfText => return .result none
  | _ => return .result (some (← inner.expression))

/-- A print statement, or a call of one of the methods of printing. -/
def printStatement : Parser Stmt := do
  let t ← current
  advance
  if ← isAt (.symbol .dot) then
    advance
    let method ← propertyName
    let arg ← inner.expression
    return .expr (.call (.member (.ident ⟨Keyword.printWord.spelling, t.position⟩) method) [arg])
  else return .print (← inner.expression)

def statementBody : Parser Stmt := do
  match ← kind with
  | .keyword .varWord => declaration inner .varDecl
  | .keyword .letWord => declaration inner .letDecl
  | .keyword .constWord => declaration inner .constDecl
  | .keyword .functionWord => functionDeclaration rounds inner
  | .keyword .ifWord => conditional rounds inner
  | .keyword .whileWord => whileLoop rounds inner
  | .keyword .forWord => forLoop rounds inner
  | .keyword .returnWord => resultStatement inner
  | .keyword .breakWord => advance; return .breakLoop
  | .keyword .continueWord => advance; return .continueLoop
  | .keyword .printWord => printStatement inner
  | .symbol .leftBrace => return .block (← block rounds inner)
  | _ => return .expr (← inner.expression)

end Statements

/-- The level around a given one. -/
def Level.around (rounds : Nat) (inner : Level) : Level where
  statement := statementBody rounds inner
  expression := expressionBody rounds inner
  operand := binary rounds inner powerSteps unaryPower
  elseIf := conditional rounds inner

/-- The level at which `depth` more levels may be nested. -/
def level (rounds : Nat) : Nat → Level
  | 0 => .exhausted
  | depth + 1 => .around rounds (level rounds depth)

/-- The next statement before the end of the text, if there is one. -/
def nextInProgram (outermost : Level) (body : List Stmt) : Parser (List Stmt × Bool) := do
  skipSeparators
  match ← kind with
  | .endOfText => return (body, false)
  | _ => return ((← outermost.statement) :: body, true)

/-- All statements up to the end of the text. -/
def program (rounds : Nat) (outermost : Level) : Parser Program := do
  let body ← iterate (nextInProgram outermost) rounds []
  return ⟨body.reverse⟩

end Parser

/-- The program that tokens form. Every loop of the parser reads a token a round, so one round more
than there are tokens is enough for each. -/
def parseTokens (tokens : List Token) : Except SyntaxError Program := do
  let rounds := tokens.length + 1
  let (program, _) ←
    (Parser.program rounds (Parser.level rounds maxNesting)).run (.ofTokens tokens)
  return program

/-- Why a source text is no program. -/
inductive ParseError where
  | lex (error : LexError)
  | parse (error : SyntaxError)
  deriving Repr

def ParseError.message : ParseError → String
  | lex e => e.message
  | parse e => e.message

/-- The program that a source text denotes. -/
def parse (source : String) : Except ParseError Program :=
  match tokenize source with
  | .error e => .error (.lex e)
  | .ok tokens => (parseTokens tokens).mapError .parse

end MinangScript
