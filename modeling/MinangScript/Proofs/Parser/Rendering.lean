import MinangScript.Program.Basic
import MinangScript.Token.Basic

/-! # Programs as tokens

Every program has one canonical rendering: operators and assignments stand in parentheses, as does
every expression that is a statement, and a semicolon closes every statement of a list. Beside the
rendering stand what a reader of it cannot know, which are the positions of names, and what it
has to cope with, which is how deep the rendering nests.
-/

namespace MinangScript

def UnaryOp.symbol : UnaryOp → Symbol
  | not => .not
  | neg => .minus

def BinaryOp.symbol : BinaryOp → Symbol
  | or => .or
  | and => .and
  | eq => .equal
  | ne => .notEqual
  | lt => .less
  | le => .atMost
  | gt => .greater
  | ge => .atLeast
  | add => .plus
  | sub => .minus
  | mul => .star
  | div => .slash
  | mod => .percent

def DeclKind.keyword : DeclKind → Keyword
  | varDecl => .varWord
  | letDecl => .letWord
  | constDecl => .constWord

def Literal.token : Literal → TokenKind
  | number value => .number value
  | string text => .string text
  | bool true => .keyword .trueWord
  | bool false => .keyword .falseWord
  | null => .keyword .nullWord
  | regex pattern flags => .regex pattern flags

/-! ## Rendering -/

/-- Tokens between two delimiters. -/
def between (opening closing : Symbol) (tokens : List TokenKind) : List TokenKind :=
  .symbol opening :: tokens ++ [.symbol closing]

/-- Pieces with a comma between each two of them. -/
def commaSeparated : List (List TokenKind) → List TokenKind
  | [] => []
  | [piece] => piece
  | piece :: next :: rest => piece ++ .symbol .comma :: commaSeparated (next :: rest)

namespace Expr

/-- The token of a variable. The word that prints is a variable as well. -/
def variableToken (name : String) : TokenKind :=
  if name = Keyword.printWord.spelling then .keyword .printWord else .identifier name

mutual

/-- The tokens of an expression. -/
def render : Expr → List TokenKind
  | assign target value =>
    between .leftParen .rightParen (.identifier target.name :: .symbol .assign :: value.render)
  | binary left op right =>
    between .leftParen .rightParen (left.render ++ .symbol op.symbol :: right.render)
  | unary op operand => between .leftParen .rightParen (.symbol op.symbol :: operand.render)
  | call callee args =>
    callee.render ++ between .leftParen .rightParen (commaSeparated (renderEach args))
  | member base property => base.render ++ [.symbol .dot, .identifier property.name]
  | ident id => [variableToken id.name]
  | literal value => [value.token]
  | array items => between .leftBracket .rightBracket (commaSeparated (renderEach items))
  | object properties =>
    between .leftBrace .rightBrace (commaSeparated (renderProperties properties))

def renderEach : List Expr → List (List TokenKind)
  | [] => []
  | e :: rest => e.render :: renderEach rest

def renderProperties : List (String × Expr) → List (List TokenKind)
  | [] => []
  | (key, value) :: rest =>
    (.string key :: .symbol .colon :: value.render) :: renderProperties rest

end

end Expr

namespace Stmt

mutual

/-- The tokens of a statement. -/
def render : Stmt → List TokenKind
  | declare kind name init =>
    .keyword kind.keyword :: .identifier name.name ::
      init.elim [] fun value => .symbol .assign :: value.render
  | function name params body =>
    .keyword .functionWord :: .identifier name.name ::
      between .leftParen .rightParen (commaSeparated (params.map fun id => [.identifier id.name])) ++
      between .leftBrace .rightBrace (renderBody body)
  | conditional cond body other =>
    .keyword .ifWord :: cond.render ++ between .leftBrace .rightBrace (renderBody body) ++
      renderElse other
  | whileLoop cond body =>
    .keyword .whileWord :: cond.render ++ between .leftBrace .rightBrace (renderBody body)
  | forLoop init cond update body =>
    .keyword .forWord ::
      between .leftParen .rightParen (renderInit init ++ .symbol .semicolon ::
        cond.elim [] Expr.render ++ .symbol .semicolon :: update.elim [] Expr.render) ++
      between .leftBrace .rightBrace (renderBody body)
  | result value => .keyword .returnWord :: value.elim [] Expr.render
  | breakLoop => [.keyword .breakWord]
  | continueLoop => [.keyword .continueWord]
  | print arg => .keyword .printWord :: arg.render
  | block body => between .leftBrace .rightBrace (renderBody body)
  | expr value => between .leftParen .rightParen value.render

/-- The tokens of a list of statements, each with a semicolon behind it. -/
def renderBody : List Stmt → List TokenKind
  | [] => []
  | s :: rest => s.render ++ .symbol .semicolon :: renderBody rest

def renderElse : Option Stmt → List TokenKind
  | none => []
  | some other => .keyword .elseWord :: other.render

def renderInit : Option Stmt → List TokenKind
  | none => []
  | some init => init.render

end

end Stmt

def Program.render (p : Program) : List TokenKind :=
  Stmt.renderBody p.body ++ [.endOfText]

/-! ## How deep a rendering nests -/

/-- How many constructs are open at the deepest place of several constructs side by side, given how
    many are open at the deepest place within each. -/
def deepest : List Nat → Nat
  | [] => 0
  | inside :: rest => max (inside + 1) (deepest rest)

theorem deepest_map_le_iff {α : Type} {inside : α → Nat} {xs : List α} {depth : Nat} :
    deepest (xs.map inside) ≤ depth ↔ ∀ x ∈ xs, inside x < depth := by
  induction xs with
  | nil => simp [deepest]
  | cons x rest ih =>
      simp only [List.map_cons, deepest, Nat.max_le, ih, List.forall_mem_cons]
      exact Iff.rfl

namespace Expr

mutual

/-- How many expressions and operands of unary operators are open at the deepest place within an
    expression. The expression itself does not count, but each of these does: what stands in
    parentheses, a value that is assigned, an operand of a unary operator, an argument, an item and
    the value of a property. -/
def nesting : Expr → Nat
  | assign _ value => value.nesting + 2
  | binary left _ right => max left.nesting right.nesting + 1
  | unary _ operand => operand.nesting + 2
  | call callee args => max callee.nesting (deepest (nestingEach args))
  | member base _ => base.nesting
  | ident _ => 0
  | literal _ => 0
  | array items => deepest (nestingEach items)
  | object properties => deepest (nestingProperties properties)

def nestingEach : List Expr → List Nat
  | [] => []
  | e :: rest => e.nesting :: nestingEach rest

def nestingProperties : List (String × Expr) → List Nat
  | [] => []
  | (_, value) :: rest => value.nesting :: nestingProperties rest

end

/-- The nesting of a place where an expression may stand, that expression included. -/
def optionalNesting : Option Expr → Nat
  | none => 0
  | some e => e.nesting + 1

end Expr

namespace Stmt

mutual

/-- How many statements, expressions and operands of unary operators are open at the deepest place
    within a statement. The statement itself does not count, nor does a block behind `lain`, which
    opens no statement of its own. -/
def nesting : Stmt → Nat
  | declare _ _ init => Expr.optionalNesting init
  | function _ _ body => deepest (nestingEach body)
  | conditional cond body other =>
    max (cond.nesting + 1) (max (deepest (nestingEach body)) (nestingElse other))
  | whileLoop cond body => max (cond.nesting + 1) (deepest (nestingEach body))
  | forLoop init cond update body =>
    max (nestingInit init) (max (Expr.optionalNesting cond)
      (max (Expr.optionalNesting update) (deepest (nestingEach body))))
  | result value => Expr.optionalNesting value
  | breakLoop => 0
  | continueLoop => 0
  | print arg => arg.nesting + 1
  | block body => deepest (nestingEach body)
  | expr value => value.nesting + 2

def nestingEach : List Stmt → List Nat
  | [] => []
  | s :: rest => s.nesting :: nestingEach rest

def nestingElse : Option Stmt → Nat
  | none => 0
  | some other =>
    match other with
    | block body => deepest (nestingEach body)
    | other => other.nesting + 1

/-- The nesting of what a loop does first, that statement included. -/
def nestingInit : Option Stmt → Nat
  | none => 0
  | some init => init.nesting + 1

end

end Stmt

/-- How many statements, expressions and operands of unary operators are open at the deepest place
    of a program. -/
def Program.nesting (p : Program) : Nat :=
  deepest (Stmt.nestingEach p.body)

/-! ## Programs without positions -/

/-- The name, wherever it stands. -/
@[simp] def Ident.forgetPosition (id : Ident) : Ident :=
  ⟨id.name, .origin⟩

namespace Expr

mutual

/-- The expression, wherever its names stand. -/
@[simp] def forgetPositions : Expr → Expr
  | assign target value => .assign target.forgetPosition value.forgetPositions
  | binary left op right => .binary left.forgetPositions op right.forgetPositions
  | unary op operand => .unary op operand.forgetPositions
  | call callee args => .call callee.forgetPositions (forgetEach args)
  | member base property => .member base.forgetPositions property.forgetPosition
  | ident id => .ident id.forgetPosition
  | literal value => .literal value
  | array items => .array (forgetEach items)
  | object properties => .object (forgetProperties properties)

def forgetEach : List Expr → List Expr
  | [] => []
  | e :: rest => e.forgetPositions :: forgetEach rest

def forgetProperties : List (String × Expr) → List (String × Expr)
  | [] => []
  | (key, value) :: rest => (key, value.forgetPositions) :: forgetProperties rest

end

end Expr

namespace Stmt

mutual

/-- The statement, wherever its names stand. -/
@[simp] def forgetPositions : Stmt → Stmt
  | declare kind name init => .declare kind name.forgetPosition (init.map Expr.forgetPositions)
  | function name params body =>
    .function name.forgetPosition (params.map Ident.forgetPosition) (forgetEach body)
  | conditional cond body other =>
    .conditional cond.forgetPositions (forgetEach body) (forgetOptional other)
  | whileLoop cond body => .whileLoop cond.forgetPositions (forgetEach body)
  | forLoop init cond update body =>
    .forLoop (forgetOptional init) (cond.map Expr.forgetPositions)
      (update.map Expr.forgetPositions) (forgetEach body)
  | result value => .result (value.map Expr.forgetPositions)
  | breakLoop => .breakLoop
  | continueLoop => .continueLoop
  | print arg => .print arg.forgetPositions
  | block body => .block (forgetEach body)
  | expr value => .expr value.forgetPositions

def forgetEach : List Stmt → List Stmt
  | [] => []
  | s :: rest => s.forgetPositions :: forgetEach rest

@[simp] def forgetOptional : Option Stmt → Option Stmt
  | none => none
  | some s => some s.forgetPositions

end

end Stmt

def Program.forgetPositions (p : Program) : Program :=
  ⟨Stmt.forgetEach p.body⟩

/-! ## Well-formed programs -/

namespace Stmt

/-- Whether the statement can stand behind `lain`. -/
def isBranch : Stmt → Bool
  | conditional _ _ _ => true
  | block _ => true
  | _ => false

mutual

/-- Whether every constant has a value and every other branch is a conditional or a block. -/
def wellFormed : Stmt → Bool
  | declare kind _ init => kind != .constDecl || init.isSome
  | function _ _ body => wellFormedEach body
  | conditional _ body other => wellFormedEach body && wellFormedElse other
  | whileLoop _ body => wellFormedEach body
  | forLoop init _ _ body => wellFormedInit init && wellFormedEach body
  | result _ => true
  | breakLoop => true
  | continueLoop => true
  | print _ => true
  | block body => wellFormedEach body
  | expr _ => true

def wellFormedEach : List Stmt → Bool
  | [] => true
  | s :: rest => s.wellFormed && wellFormedEach rest

def wellFormedElse : Option Stmt → Bool
  | none => true
  | some other => other.isBranch && other.wellFormed

def wellFormedInit : Option Stmt → Bool
  | none => true
  | some init => init.wellFormed

end

end Stmt

def Program.wellFormed (p : Program) : Bool :=
  Stmt.wellFormedEach p.body

/-! ## Lists of expressions and of statements -/

namespace Expr

theorem renderEach_eq_map (es : List Expr) : renderEach es = es.map render := by
  induction es with
  | nil => rfl
  | cons e rest ih => simp only [renderEach, ih, List.map_cons]

theorem renderProperties_eq_map (properties : List (String × Expr)) :
    renderProperties properties =
      properties.map fun p => .string p.1 :: .symbol .colon :: p.2.render := by
  induction properties with
  | nil => rfl
  | cons property rest ih => simp only [renderProperties, ih, List.map_cons]

theorem nestingEach_eq_map (es : List Expr) : nestingEach es = es.map nesting := by
  induction es with
  | nil => rfl
  | cons e rest ih => simp only [nestingEach, ih, List.map_cons]

theorem nestingProperties_eq_map (properties : List (String × Expr)) :
    nestingProperties properties = properties.map fun p => p.2.nesting := by
  induction properties with
  | nil => rfl
  | cons property rest ih => simp only [nestingProperties, ih, List.map_cons]

theorem forgetEach_eq_map (es : List Expr) : forgetEach es = es.map forgetPositions := by
  induction es with
  | nil => rfl
  | cons e rest ih => simp only [forgetEach, ih, List.map_cons]

theorem forgetProperties_eq_map (properties : List (String × Expr)) :
    forgetProperties properties = properties.map fun p => (p.1, p.2.forgetPositions) := by
  induction properties with
  | nil => rfl
  | cons property rest ih => simp only [forgetProperties, ih, List.map_cons]

/-- Induction on an expression, with the hypothesis for every argument, item and property. -/
theorem inductionOn {motive : Expr → Prop} (e : Expr)
    (assign : ∀ target value, motive value → motive (.assign target value))
    (binary : ∀ left op right, motive left → motive right → motive (.binary left op right))
    (unary : ∀ op operand, motive operand → motive (.unary op operand))
    (call : ∀ callee args, motive callee → (∀ a ∈ args, motive a) → motive (.call callee args))
    (member : ∀ base property, motive base → motive (.member base property))
    (ident : ∀ id, motive (.ident id))
    (literal : ∀ value, motive (.literal value))
    (array : ∀ items, (∀ e ∈ items, motive e) → motive (.array items))
    (object : ∀ properties : List (String × Expr), (∀ p ∈ properties, motive p.2) →
      motive (.object properties)) : motive e :=
  @Expr.rec motive (fun es => ∀ e ∈ es, motive e) (fun ps => ∀ p ∈ ps, motive p.2)
    (fun p => motive p.2) assign binary unary call member ident literal array object
    (List.forall_mem_nil _) (fun _ _ head tail => List.forall_mem_cons.mpr ⟨head, tail⟩)
    (List.forall_mem_nil _) (fun _ _ head tail => List.forall_mem_cons.mpr ⟨head, tail⟩)
    (fun _ _ value => value) e

end Expr

namespace Stmt

theorem nestingEach_eq_map (body : List Stmt) : nestingEach body = body.map nesting := by
  induction body with
  | nil => rfl
  | cons s rest ih => simp only [nestingEach, ih, List.map_cons]

theorem forgetEach_eq_map (body : List Stmt) : forgetEach body = body.map forgetPositions := by
  induction body with
  | nil => rfl
  | cons s rest ih => simp only [forgetEach, ih, List.map_cons]

theorem wellFormedEach_iff {body : List Stmt} :
    wellFormedEach body = true ↔ ∀ s ∈ body, s.wellFormed = true := by
  induction body with
  | nil => simp [wellFormedEach]
  | cons s rest ih => simp [wellFormedEach, ih]

/-- Induction on a statement, with the hypothesis for every statement of a body. -/
theorem inductionOn {motive : Stmt → Prop} (s : Stmt)
    (declare : ∀ kind name init, motive (.declare kind name init))
    (function : ∀ name params body, (∀ s ∈ body, motive s) → motive (.function name params body))
    (conditional : ∀ cond body other, (∀ s ∈ body, motive s) → (∀ s ∈ other, motive s) →
      motive (.conditional cond body other))
    (whileLoop : ∀ cond body, (∀ s ∈ body, motive s) → motive (.whileLoop cond body))
    (forLoop : ∀ init cond update body, (∀ s ∈ init, motive s) → (∀ s ∈ body, motive s) →
      motive (.forLoop init cond update body))
    (result : ∀ value, motive (.result value))
    (breakLoop : motive .breakLoop)
    (continueLoop : motive .continueLoop)
    (print : ∀ arg, motive (.print arg))
    (block : ∀ body, (∀ s ∈ body, motive s) → motive (.block body))
    (expr : ∀ value, motive (.expr value)) : motive s :=
  @Stmt.rec motive (fun body => ∀ s ∈ body, motive s) (fun other => ∀ s ∈ other, motive s)
    declare function conditional whileLoop forLoop result breakLoop continueLoop print block expr
    (List.forall_mem_nil _) (fun _ _ head tail => List.forall_mem_cons.mpr ⟨head, tail⟩)
    (fun _ h => nomatch h) (fun s present other h => by cases h; exact present) s

end Stmt

end MinangScript
