import MinangScript.Position

/-! # Programs

The tree that a source text denotes. Names keep the position where they stand, since messages
about them point there; nothing else remembers where it came from.
-/

namespace MinangScript

/-- A name together with where it stands. -/
structure Ident where
  name : String
  position : Position
  deriving Repr, DecidableEq, Inhabited

/-- The three ways to declare a variable. They differ only in what JavaScript makes of them, and in
that a constant must have a value. -/
inductive DeclKind where
  | varDecl
  | letDecl
  | constDecl
  deriving Repr, DecidableEq, Inhabited

/-- An operator before its operand. -/
inductive UnaryOp where
  | not
  | neg
  deriving Repr, DecidableEq, Inhabited

/-- An operator between its operands. -/
inductive BinaryOp where
  | or | and
  | eq | ne
  | lt | le | gt | ge
  | add | sub | mul | div | mod
  deriving Repr, DecidableEq, Inhabited

/-- A value written down in the source. -/
inductive Literal where
  | number (value : Float)
  | string (text : String)
  | bool (value : Bool)
  | null
  | regex (pattern flags : String)
  deriving Repr, Inhabited

inductive Expr where
  /-- Writes a variable; its value is the value written. -/
  | assign (target : Ident) (value : Expr)
  | binary (left : Expr) (op : BinaryOp) (right : Expr)
  | unary (op : UnaryOp) (operand : Expr)
  | call (callee : Expr) (args : List Expr)
  | member (object : Expr) (property : Ident)
  | ident (id : Ident)
  | literal (value : Literal)
  | array (items : List Expr)
  /-- An object with its properties in source order; a key may occur more than once. -/
  | object (properties : List (String × Expr))
  deriving Repr, Inhabited

inductive Stmt where
  | declare (kind : DeclKind) (name : Ident) (init : Option Expr)
  | function (name : Ident) (params : List Ident) (body : List Stmt)
  /-- The other branch is another conditional or a block. -/
  | conditional (cond : Expr) (body : List Stmt) (other : Option Stmt)
  | whileLoop (cond : Expr) (body : List Stmt)
  | forLoop (init : Option Stmt) (cond : Option Expr) (update : Option Expr) (body : List Stmt)
  | result (value : Option Expr)
  | breakLoop
  | continueLoop
  | print (arg : Expr)
  | block (body : List Stmt)
  | expr (value : Expr)
  deriving Repr, Inhabited

structure Program where
  body : List Stmt
  deriving Repr, Inhabited

namespace UnaryOp

def spelling : UnaryOp → String
  | not => "!"
  | neg => "-"

end UnaryOp

namespace BinaryOp

def spelling : BinaryOp → String
  | or => "||"
  | and => "&&"
  | eq => "=="
  | ne => "!="
  | lt => "<"
  | le => "<="
  | gt => ">"
  | ge => ">="
  | add => "+"
  | sub => "-"
  | mul => "*"
  | div => "/"
  | mod => "%"

end BinaryOp

/-- What messages call an expression. -/
def Expr.typeName : Expr → String
  | assign _ _ => "AssignmentExpression"
  | binary _ _ _ => "BinaryExpression"
  | unary _ _ => "UnaryExpression"
  | call _ _ => "CallExpression"
  | member _ _ => "MemberExpression"
  | ident _ => "Identifier"
  | literal _ => "Literal"
  | array _ => "ArrayExpression"
  | object _ => "ObjectExpression"

/-- What messages call a statement. -/
def Stmt.typeName : Stmt → String
  | declare _ _ _ => "VariableDeclaration"
  | function _ _ _ => "FunctionDeclaration"
  | conditional _ _ _ => "IfStatement"
  | whileLoop _ _ => "WhileStatement"
  | forLoop _ _ _ _ => "ForStatement"
  | result _ => "ReturnStatement"
  | breakLoop => "BreakStatement"
  | continueLoop => "ContinueStatement"
  | print _ => "PrintStatement"
  | block _ => "BlockStatement"
  | expr _ => "ExpressionStatement"

end MinangScript
