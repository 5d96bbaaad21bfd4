import MinangScript.Proofs.Parser.Script
import MinangScript.Proofs.Parser.Within

/-! # The scripts of all parsers

Every parser of the language as a script, with the calls between them and the four places where a
level of nesting is counted: around a statement, an expression, the operand of a unary operator and
a conditional after `kalauLain`. Nothing in the scripts says how much may be nested: `recursion`
and `steps` only bound how far they are written out, and beyond the limit that the parser itself
sets to nesting, and the powers that operators have, they make no difference.
-/

namespace MinangScript

namespace Script

/-- The scripts of one nesting level. -/
structure Level where
  statement : Script Stmt
  expression : Script Expr
  operand : Script Expr
  elseIf : Script Stmt

def ident : Script Ident := calling .name do
  let t ← current
  match t.kind with
  | .identifier name =>
    move
    return ⟨name, t.position⟩
  | _ => fail .expectedIdentifier

def propertyName : Script Ident := calling .propertyName do
  match ← kind with
  | .identifier _ => ident
  | _ => fail .expectedPropertyName

def comma : Script Bool := do
  skipNewlines
  if ← isAt (.symbol .comma) then
    move
    skipNewlines
    return true
  else return false

section Expressions

variable (rounds : Nat) (inner : Level)

def nextArg (args : List Expr) : Script (List Expr × Bool) := do
  let arg ← inner.expression
  return (arg :: args, ← comma)

def callArgs : Script (List Expr) := calling .arguments do
  expect (.symbol .leftParen)
  skipNewlines
  let args ← if ← isAt (.symbol .rightParen) then pure [] else iterate (nextArg inner) rounds []
  expect (.symbol .rightParen)
  return args.reverse

def nextItem (items : List Expr) : Script (List Expr × Bool) := do
  if ← isAt (.symbol .rightBracket) then return (items, false)
  else
    let item ← inner.expression
    return (item :: items, ← comma)

def arrayLiteral : Script Expr := calling .array do
  expect (.symbol .leftBracket)
  skipNewlines
  let items ← iterate (nextItem inner) rounds []
  expect (.symbol .rightBracket)
  return .array items.reverse

def propertyKey : Script String := do
  match ← kind with
  | .identifier name => move; return name
  | .string text => move; return text
  | .number value => move; return Number.text value
  | _ => fail .expectedPropertyKey

def nextProperty (properties : List (String × Expr)) :
    Script (List (String × Expr) × Bool) := do
  if ← isAt (.symbol .rightBrace) then return (properties, false)
  else
    let key ← propertyKey
    expect (.symbol .colon)
    let value ← inner.expression
    return ((key, value) :: properties, ← comma)

def objectLiteral : Script Expr := calling .object do
  expect (.symbol .leftBrace)
  skipNewlines
  let properties ← iterate (nextProperty inner) rounds []
  expect (.symbol .rightBrace)
  return .object properties.reverse

def interpolation : Script (Option Expr) := do
  if ← isAt .interpolationEnd then
    move
    return none
  else
    let value ← inner.expression
    expect .interpolationEnd
    return some value

def nextPart (parts : List Expr) : Script (List Expr × Bool) := do
  match ← kind with
  | .templateText text =>
    move
    return (.literal (.string text) :: parts, ← isAt .interpolationStart)
  | .interpolationStart =>
    move
    let value ← interpolation inner
    let parts := value.toList ++ parts
    match ← kind with
    | .templateText _ | .interpolationStart => return (parts, true)
    | _ => return (parts, false)
  | _ => return (parts, false)

def templateLiteral : Script Expr := calling .template do
  let parts ← iterate (nextPart inner) rounds []
  return Parser.joined parts.reverse

def parenthesized : Script Expr := do
  expect (.symbol .leftParen)
  let value ← inner.expression
  expect (.symbol .rightParen)
  return value

def primary : Script Expr := calling .primary do
  let t ← current
  let literal (value : Literal) : Script Expr := do
    move
    return .literal value
  match t.kind with
  | .number value => literal (.number value)
  | .string text => literal (.string text)
  | .regex pattern flags => literal (.regex pattern flags)
  | .identifier _ => return .ident (← ident)
  | .keyword .trueWord => literal (.bool true)
  | .keyword .falseWord => literal (.bool false)
  | .keyword .nullWord => literal .null
  | .keyword .printWord =>
    move
    return .ident ⟨Keyword.printWord.spelling, t.position⟩
  | .templateText _ | .interpolationStart => templateLiteral rounds inner
  | .symbol .leftParen => parenthesized inner
  | .symbol .leftBracket => arrayLiteral rounds inner
  | .symbol .leftBrace => objectLiteral rounds inner
  | _ => fail .unexpectedToken

def nextSuffix (value : Expr) : Script (Expr × Bool) := do
  match ← kind with
  | .symbol .leftParen => return (.call value (← callArgs rounds inner), true)
  | .symbol .dot =>
    move
    return (.member value (← propertyName), true)
  | k =>
    match Parser.stepOp? k with
    | none => return (value, false)
    | some op =>
      match value with
      | .ident target =>
        move
        return (Parser.stepped target op, false)
      | _ => fail .invalidAssignmentTarget

def postfixed : Script Expr := calling .postfixed do
  let first ← primary rounds inner
  iterate (nextSuffix rounds inner) rounds first

def prefixed : Script Expr := calling .prefixed do
  match ← kind with
  | .symbol .not =>
    move
    return .unary .not (← inner.operand)
  | .symbol .minus =>
    move
    return .unary .neg (← inner.operand)
  | k =>
    match Parser.stepOp? k with
    | none => postfixed rounds inner
    | some op =>
      move
      match ← postfixed rounds inner with
      | .ident target => return Parser.stepped target op
      | _ => fail .invalidAssignmentTarget

def joinRight (right : Nat → Script Expr) (power : Nat) (left : Expr) : Script (Expr × Bool) := do
  match Parser.binaryOp? (← kind) with
  | none => return (left, false)
  | some (op, leftPower, rightPower) =>
    if leftPower < power then return (left, false)
    else
      move
      return (.binary left op (← right rightPower), true)

/-- Operands joined by binary operators of at least the given power, each right operand in a call of
    its own. -/
def operands : Nat → Nat → Script Expr
  | 0, _ => calling .operands (prefixed rounds inner)
  | steps + 1, power => calling .operands do
    let first ← prefixed rounds inner
    iterate (joinRight (operands steps) power) rounds first

def expressionBody (steps : Nat) : Script Expr := calling .assignment do
  let left ← operands rounds inner steps 0
  match Parser.assignment? (← kind) with
  | none => return left
  | some op =>
    match left with
    | .ident target =>
      move
      let right ← inner.expression
      return .assign target (match op with
        | none => right
        | some op => .binary (.ident target) op right)
    | _ => fail .invalidAssignmentTarget

end Expressions

section Statements

variable (rounds : Nat) (inner : Level)

def nextInBlock (body : List Stmt) : Script (List Stmt × Bool) := do
  skipSeparators
  match ← kind with
  | .symbol .rightBrace => return (body, false)
  | .endOfText => fail (.expected (.symbol .rightBrace))
  | _ => return ((← inner.statement) :: body, true)

def block : Script (List Stmt) := calling .block do
  expect (.symbol .leftBrace)
  let body ← iterate (nextInBlock inner) rounds []
  expect (.symbol .rightBrace)
  return body.reverse

def declaration (declKind : DeclKind) : Script Stmt := calling .declaration do
  move
  let name ← ident
  if ← isAt (.symbol .assign) then
    move
    return .declare declKind name (some (← inner.expression))
  else if declKind = .constDecl then fail .constantWithoutValue
  else return .declare declKind name none

def nextParam (params : List Ident) : Script (List Ident × Bool) := do
  let param ← ident
  if ← isAt (.symbol .comma) then
    move
    return (param :: params, true)
  else return (param :: params, false)

def parameters : Script (List Ident) := do
  expect (.symbol .leftParen)
  let params ← if ← isAt (.symbol .rightParen) then pure [] else iterate nextParam rounds []
  expect (.symbol .rightParen)
  return params.reverse

def functionDeclaration : Script Stmt := calling .function do
  move
  let name ← ident
  let params ← parameters rounds
  return .function name params (← block rounds inner)

/-- What follows the body of a conditional. Whether anything does is seen before a line feed is
    taken. -/
def otherBranch : Script (Option Stmt) := do
  match ← kindPast with
  | .keyword .elseWord =>
    skipNewlines
    move
    if ← isAt (.keyword .ifWord) then return some (← inner.statement)
    else return some (.block (← block rounds inner))
  | .keyword .elseIfWord =>
    skipNewlines
    return some (← inner.elseIf)
  | _ => return none

def conditional : Script Stmt := calling .conditional do
  move
  let cond ← inner.expression
  let body ← block rounds inner
  return .conditional cond body (← otherBranch rounds inner)

def whileLoop : Script Stmt := calling .whileLoop do
  move
  let cond ← inner.expression
  return .whileLoop cond (← block rounds inner)

def clause {α : Type} (close : Symbol) (script : Script α) : Script (Option α) := do
  let value ← if ← isAt (.symbol close) then pure none else some <$> script
  expect (.symbol close)
  return value

def forLoop : Script Stmt := calling .forLoop do
  move
  expect (.symbol .leftParen)
  let init ← clause .semicolon inner.statement
  let cond ← clause .semicolon inner.expression
  let update ← clause .rightParen inner.expression
  return .forLoop init cond update (← block rounds inner)

def resultStatement : Script Stmt := calling .result do
  move
  match ← kind with
  | .newline | .symbol .semicolon | .symbol .rightBrace | .endOfText => return .result none
  | _ => return .result (some (← inner.expression))

def printStatement : Script Stmt := calling .print do
  let t ← current
  move
  if ← isAt (.symbol .dot) then
    move
    let method ← propertyName
    let arg ← inner.expression
    return .expr (.call (.member (.ident ⟨Keyword.printWord.spelling, t.position⟩) method) [arg])
  else return .print (← inner.expression)

def statementBody : Script Stmt := calling .statementBody do
  match ← kind with
  | .keyword .varWord => declaration inner .varDecl
  | .keyword .letWord => declaration inner .letDecl
  | .keyword .constWord => declaration inner .constDecl
  | .keyword .functionWord => functionDeclaration rounds inner
  | .keyword .ifWord => conditional rounds inner
  | .keyword .whileWord => whileLoop rounds inner
  | .keyword .forWord => forLoop rounds inner
  | .keyword .returnWord => resultStatement inner
  | .keyword .breakWord => move; return .breakLoop
  | .keyword .continueWord => move; return .continueLoop
  | .keyword .printWord => printStatement inner
  | .symbol .leftBrace => return .block (← block rounds inner)
  | _ => return .expr (← inner.expression)

end Statements

/-- The level around a given one. All that it has in common with the level inside is that it counts
    one more. -/
def Level.around (rounds steps : Nat) (inner : Level) : Level where
  statement := calling .statement (nested (statementBody rounds inner))
  expression := calling .expression (nested (expressionBody rounds inner steps))
  operand := nested (operands rounds inner steps Parser.unaryPower)
  elseIf := calling .elseIf (nested (conditional rounds inner))

/-- Where the scripts are no longer written out. -/
def Level.unwritten : Level where
  statement := fail .nestingTooDeep
  expression := fail .nestingTooDeep
  operand := fail .nestingTooDeep
  elseIf := fail .nestingTooDeep

def level (rounds steps : Nat) : Nat → Level
  | 0 => .unwritten
  | recursion + 1 => .around rounds steps (level rounds steps recursion)

def nextInProgram (outermost : Level) (body : List Stmt) : Script (List Stmt × Bool) := do
  skipSeparators
  match ← kind with
  | .endOfText => return (body, false)
  | _ => return ((← outermost.statement) :: body, true)

def program (rounds : Nat) (outermost : Level) : Script Program := calling .program do
  let body ← iterate (nextInProgram outermost) rounds []
  return ⟨body.reverse⟩

/-- The parse of a text after its tokens were read, with the two calls around the program. -/
def whole (rounds steps recursion : Nat) : Script Program :=
  calling .text (calling .tokens (program rounds (level rounds steps recursion)))

/-! ## The parsers that follow the scripts -/

variable {depth : Nat}

@[simp] theorem parser_ident : ident.parser depth = Parser.ident := by
  simp only [ident, Parser.ident, Parser.identOr, parser_calling, parser_bind, parser_current]
  refine bind_congr fun t => ?_
  cases t.kind with
  | identifier name => simp
  | _ => rfl

@[simp] theorem parser_propertyName : propertyName.parser depth = Parser.propertyName := by
  funext s
  simp only [propertyName, Parser.propertyName, Parser.identOr, parser_calling, parser_bind,
    parser_kind, Parser.kind_bind, Parser.current_bind]
  cases here : s.current.kind with
  | identifier name =>
      simp only [parser_ident, Parser.ident, Parser.identOr, Parser.current_bind, here]
  | _ => rfl

@[simp] theorem parser_comma : comma.parser depth = Parser.comma := by
  simp [comma, Parser.comma]

@[simp] theorem parser_propertyKey : propertyKey.parser depth = Parser.propertyKey := by
  simp only [propertyKey, Parser.propertyKey, parser_bind, parser_kind]
  refine bind_congr fun k => ?_
  split <;> simp

@[simp] theorem parser_nextParam (params : List Ident) :
    (nextParam params).parser depth = Parser.nextParam params := by
  simp [nextParam, Parser.nextParam]

@[simp] theorem parser_parameters (rounds : Nat) :
    (parameters rounds).parser depth = Parser.parameters rounds := by
  simp [parameters, Parser.parameters]

@[simp] theorem parser_clause {α : Type} (close : Symbol) (script : Script α) :
    (clause close script).parser depth = Parser.clause close (script.parser depth) := by
  simp [clause, Parser.clause]

/-- At the given depth the scripts of a level are followed by parsers of a level. -/
structure Level.Realizes (depth : Nat) (inner : Level) (plain : Parser.Level) : Prop where
  statement : inner.statement.parser depth = plain.statement
  expression : inner.expression.parser depth = plain.expression
  operand : inner.operand.parser depth = plain.operand
  elseIf : inner.elseIf.parser depth = plain.elseIf

namespace Level.Realizes

variable {rounds : Nat} {inner : Level} {plain : Parser.Level}

/-! ### Expressions -/

theorem nextArg (same : inner.Realizes depth plain) (args : List Expr) :
    (nextArg inner args).parser depth = Parser.nextArg plain args := by
  simp [Script.nextArg, Parser.nextArg, same.expression]

theorem callArgs (same : inner.Realizes depth plain) :
    (callArgs rounds inner).parser depth = Parser.callArgs rounds plain := by
  simp [Script.callArgs, Parser.callArgs, same.nextArg]

theorem nextItem (same : inner.Realizes depth plain) (items : List Expr) :
    (nextItem inner items).parser depth = Parser.nextItem plain items := by
  simp [Script.nextItem, Parser.nextItem, same.expression]

theorem arrayLiteral (same : inner.Realizes depth plain) :
    (arrayLiteral rounds inner).parser depth = Parser.arrayLiteral rounds plain := by
  simp [Script.arrayLiteral, Parser.arrayLiteral, same.nextItem]

theorem nextProperty (same : inner.Realizes depth plain) (properties : List (String × Expr)) :
    (nextProperty inner properties).parser depth = Parser.nextProperty plain properties := by
  simp [Script.nextProperty, Parser.nextProperty, same.expression]

theorem objectLiteral (same : inner.Realizes depth plain) :
    (objectLiteral rounds inner).parser depth = Parser.objectLiteral rounds plain := by
  simp [Script.objectLiteral, Parser.objectLiteral, same.nextProperty]

theorem interpolation (same : inner.Realizes depth plain) :
    (interpolation inner).parser depth = Parser.interpolation plain := by
  simp [Script.interpolation, Parser.interpolation, same.expression]

theorem nextPart (same : inner.Realizes depth plain) (parts : List Expr) :
    (nextPart inner parts).parser depth = Parser.nextPart plain parts := by
  simp only [Script.nextPart, Parser.nextPart, parser_bind, parser_kind]
  refine bind_congr fun k => ?_
  split
  · simp
  · simp only [parser_bind, parser_move, same.interpolation, parser_kind]
    refine bind_congr fun _ => bind_congr fun value => bind_congr fun k => ?_
    split <;> simp
  · simp

theorem templateLiteral (same : inner.Realizes depth plain) :
    (templateLiteral rounds inner).parser depth = Parser.templateLiteral rounds plain := by
  simp [Script.templateLiteral, Parser.templateLiteral, same.nextPart]

theorem parenthesized (same : inner.Realizes depth plain) :
    (parenthesized inner).parser depth = Parser.parenthesized plain := by
  simp [Script.parenthesized, Parser.parenthesized, same.expression]

theorem primary (same : inner.Realizes depth plain) :
    (primary rounds inner).parser depth = Parser.primary rounds plain := by
  funext s
  simp only [Script.primary, Parser.primary, parser_calling, parser_bind, parser_current,
    Parser.current_bind]
  generalize here : s.current.kind = k
  split
  · simp
  · simp
  · simp
  -- the name is looked at once more by the parser that is called for it
  · simp only [parser_bind, parser_ident, Parser.ident, Parser.identOr, bind_assoc,
      Parser.current_bind, here]
    rfl
  iterate 4
    · simp
  · exact congrFun same.templateLiteral s
  · exact congrFun same.templateLiteral s
  · exact congrFun same.parenthesized s
  · exact congrFun same.arrayLiteral s
  · exact congrFun same.objectLiteral s
  · simp

theorem nextSuffix (same : inner.Realizes depth plain) (value : Expr) :
    (nextSuffix rounds inner value).parser depth = Parser.nextSuffix rounds plain value := by
  simp only [Script.nextSuffix, Parser.nextSuffix, parser_bind, parser_kind]
  refine bind_congr fun k => ?_
  split
  · simp [same.callArgs]
  · simp
  · split
    · simp [*]
    · split <;> simp [*]

theorem postfixed (same : inner.Realizes depth plain) :
    (postfixed rounds inner).parser depth = Parser.postfixed rounds plain := by
  simp [Script.postfixed, Parser.postfixed, same.primary, same.nextSuffix]

theorem prefixed (same : inner.Realizes depth plain) :
    (prefixed rounds inner).parser depth = Parser.prefixed rounds plain := by
  simp only [Script.prefixed, Parser.prefixed, parser_calling, parser_bind, parser_kind]
  refine bind_congr fun k => ?_
  split
  · simp [same.operand]
  · simp [same.operand]
  · split
    · simp [*, same.postfixed]
    · simp only [*, parser_bind, parser_move, same.postfixed]
      refine bind_congr fun _ => bind_congr fun value => ?_
      split <;> simp

theorem joinRight {right : Nat → Script Expr} {right' : Nat → Parser Expr}
    (same : ∀ power, (right power).parser depth = right' power) (power : Nat) (left : Expr) :
    (joinRight right power left).parser depth = Parser.joinRight right' power left := by
  simp only [Script.joinRight, Parser.joinRight, parser_bind, parser_kind]
  refine bind_congr fun k => ?_
  cases Parser.binaryOp? k with
  | none => simp
  | some found => simp [same]

theorem operands (same : inner.Realizes depth plain) (steps power : Nat) :
    (operands rounds inner steps power).parser depth = Parser.binary rounds plain steps power := by
  induction steps generalizing power with
  | zero => simp [Script.operands, Parser.binary, same.prefixed]
  | succ steps ih => simp [Script.operands, Parser.binary, same.prefixed, joinRight ih]

theorem expressionBody (same : inner.Realizes depth plain) (positive : 0 < rounds) {steps : Nat}
    (enough : Parser.powerSteps ≤ steps) :
    (expressionBody rounds inner steps).parser depth = Parser.expressionBody rounds plain := by
  simp only [Script.expressionBody, Parser.expressionBody, parser_calling, parser_bind, parser_kind,
    same.operands, Parser.binary_of_powerSteps_le positive _ enough]
  refine bind_congr fun left => bind_congr fun k => ?_
  cases Parser.assignment? k with
  | none => simp
  | some op =>
      cases left with
      | ident target => cases op <;> simp [same.expression]
      | _ => simp

/-! ### Statements -/

theorem nextInBlock (same : inner.Realizes depth plain) (body : List Stmt) :
    (nextInBlock inner body).parser depth = Parser.nextInBlock plain body := by
  simp only [Script.nextInBlock, Parser.nextInBlock, parser_bind, parser_kind,
    parser_skipSeparators]
  refine bind_congr fun _ => bind_congr fun k => ?_
  split <;> simp [same.statement]

theorem block (same : inner.Realizes depth plain) :
    (block rounds inner).parser depth = Parser.block rounds plain := by
  simp [Script.block, Parser.block, same.nextInBlock]

theorem declaration (same : inner.Realizes depth plain) (declKind : DeclKind) :
    (declaration inner declKind).parser depth = Parser.declaration plain declKind := by
  simp [Script.declaration, Parser.declaration, same.expression]

theorem functionDeclaration (same : inner.Realizes depth plain) :
    (functionDeclaration rounds inner).parser depth = Parser.functionDeclaration rounds plain := by
  simp [Script.functionDeclaration, Parser.functionDeclaration, same.block]

/-- Looking past the line feeds and taking them afterwards is as good as taking them and going
    back. -/
theorem otherBranch (same : inner.Realizes depth plain) :
    (otherBranch rounds inner).parser depth = Parser.otherBranch rounds plain := by
  funext s
  simp only [Script.otherBranch, Parser.otherBranch, parser_bind, Parser.get_bind,
    parser_kindPast_bind, Parser.skipNewlines_bind, Parser.kind_bind]
  generalize (s.dropWhile Parser.isNewline).current.kind = k
  split
  · simp [same.statement, same.block]
  · simp [same.elseIf]
  · simp only [parser_pure, Parser.pure_apply]
    rfl

theorem conditional (same : inner.Realizes depth plain) :
    (conditional rounds inner).parser depth = Parser.conditional rounds plain := by
  simp [Script.conditional, Parser.conditional, same.expression, same.block, same.otherBranch]

theorem whileLoop (same : inner.Realizes depth plain) :
    (whileLoop rounds inner).parser depth = Parser.whileLoop rounds plain := by
  simp [Script.whileLoop, Parser.whileLoop, same.expression, same.block]

theorem forLoop (same : inner.Realizes depth plain) :
    (forLoop rounds inner).parser depth = Parser.forLoop rounds plain := by
  simp [Script.forLoop, Parser.forLoop, same.statement, same.expression, same.block]

theorem resultStatement (same : inner.Realizes depth plain) :
    (resultStatement inner).parser depth = Parser.resultStatement plain := by
  simp only [Script.resultStatement, Parser.resultStatement, parser_calling, parser_bind,
    parser_move, parser_kind]
  refine bind_congr fun _ => bind_congr fun k => ?_
  split <;> simp [same.expression]

theorem printStatement (same : inner.Realizes depth plain) :
    (printStatement inner).parser depth = Parser.printStatement plain := by
  simp [Script.printStatement, Parser.printStatement, same.expression]

theorem statementBody (same : inner.Realizes depth plain) :
    (statementBody rounds inner).parser depth = Parser.statementBody rounds plain := by
  simp only [Script.statementBody, Parser.statementBody, parser_calling, parser_bind, parser_kind]
  refine bind_congr fun k => ?_
  split
  · exact same.declaration _
  · exact same.declaration _
  · exact same.declaration _
  · exact same.functionDeclaration
  · exact same.conditional
  · exact same.whileLoop
  · exact same.forLoop
  · exact same.resultStatement
  · simp
  · simp
  · exact same.printStatement
  · simp [same.block]
  · simp [same.expression]

end Level.Realizes

/-- However far the scripts are written out, beyond the limit of nesting they are followed by the
    parsers of a level at which as much may be nested as is left. -/
theorem realizes_level {rounds steps : Nat} (positive : 0 < rounds)
    (enough : Parser.powerSteps ≤ steps) {recursion depth : Nat} (within : depth ≤ maxNesting)
    (beyond : maxNesting < recursion + depth) :
    (level rounds steps recursion).Realizes depth (Parser.level rounds (maxNesting - depth)) := by
  induction recursion generalizing depth with
  | zero => omega
  | succ recursion ih =>
      rcases Nat.lt_or_eq_of_le within with left | rfl
      · have same := ih left (by omega)
        have next : maxNesting - depth = maxNesting - (depth + 1) + 1 := by omega
        rw [next]
        exact
          { statement := by
              simp only [level, Level.around, parser_calling, parser_nested, deeper_of_lt left]
              exact same.statementBody
            expression := by
              simp only [level, Level.around, parser_calling, parser_nested, deeper_of_lt left]
              exact same.expressionBody positive enough
            operand := by
              simp only [level, Level.around, parser_nested, deeper_of_lt left]
              exact (same.operands ..).trans (Parser.binary_of_powerSteps_le positive _ enough)
            elseIf := by
              simp only [level, Level.around, parser_calling, parser_nested, deeper_of_lt left]
              exact same.conditional }
      · rw [Nat.sub_self]
        constructor <;>
        · simp only [level, Level.around, parser_calling, parser_nested, deeper_maxNesting]
          rfl

theorem parser_nextInProgram {outermost : Level} {plain : Parser.Level}
    (same : outermost.Realizes depth plain) (body : List Stmt) :
    (nextInProgram outermost body).parser depth = Parser.nextInProgram plain body := by
  simp only [nextInProgram, Parser.nextInProgram, parser_bind, parser_kind, parser_skipSeparators]
  refine bind_congr fun _ => bind_congr fun k => ?_
  split <;> simp [same.statement]

/-- The scripts of all parsers together are followed by the parser of programs. -/
theorem parser_whole {rounds steps recursion : Nat} (positive : 0 < rounds)
    (enough : Parser.powerSteps ≤ steps) (beyond : maxNesting < recursion) :
    (whole rounds steps recursion).parser 0 =
      Parser.program rounds (Parser.level rounds maxNesting) := by
  have same := realizes_level positive enough (Nat.zero_le maxNesting) (by omega)
  simp [whole, program, Parser.program, parser_nextInProgram same]

end Script

end MinangScript
