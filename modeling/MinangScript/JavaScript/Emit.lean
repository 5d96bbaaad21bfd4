import MinangScript.JavaScript.Quote
import MinangScript.Number
import MinangScript.Program.Basic
import MinangScript.Text.Lines

/-! # Programs as JavaScript

Every operation is put in parentheses, so no precedence has to be known. An assignment goes
without them where it is a statement of its own, an initial value, the update of a loop, or the
value of another assignment. Only one thing has no JavaScript form: a for loop whose initializer
is neither a declaration nor an expression nor a print.
-/

namespace MinangScript

namespace JavaScript

def declKeyword : DeclKind → String
  | .varDecl => "var"
  | .letDecl => "let"
  | .constDecl => "const"

/-- A binary operator; equality is strict. -/
def operator : BinaryOp → String
  | .eq => "==="
  | .ne => "!=="
  | op => op.spelling

def literal : Literal → String
  | .number value => Number.text value
  | .string text => quote text
  | .bool value => if value then "true" else "false"
  | .null => "null"
  | .regex pattern flags => "/" ++ pattern ++ "/" ++ flags

/-- Texts with a comma between them. -/
def commaList (parts : List String) : String :=
  String.intercalate ", " parts

/-- Puts a text in parentheses if asked for. -/
def parens (wanted : Bool) (text : String) : String :=
  if wanted then "(" ++ text ++ ")" else text

mutual

/-- An expression. The flag says whether an assignment needs parentheses where it stands. -/
def exprIn (wrapped : Bool) : Expr → String
  | .assign target value => parens wrapped (target.name ++ " = " ++ exprIn false value)
  | .binary left op right =>
    "(" ++ exprIn true left ++ " " ++ operator op ++ " " ++ exprIn true right ++ ")"
  | .unary op operand => "(" ++ op.spelling ++ exprIn true operand ++ ")"
  | .call callee args => exprIn true callee ++ "(" ++ commaList (exprs args) ++ ")"
  | .member base property => exprIn true base ++ "." ++ property.name
  | .ident id => id.name
  | .literal value => literal value
  | .array items => "[" ++ commaList (exprs items) ++ "]"
  | .object properties => "\x7b" ++ commaList (fields properties) ++ "\x7d"

def exprs : List Expr → List String
  | [] => []
  | e :: rest => exprIn true e :: exprs rest

/-- The properties of an object literal, with quoted keys. -/
def fields : List (String × Expr) → List String
  | [] => []
  | (key, value) :: rest => (quote key ++ ": " ++ exprIn true value) :: fields rest

end

/-- An expression inside another one. -/
def expr (e : Expr) : String :=
  exprIn true e

/-- An expression where an assignment needs no parentheses. -/
def bare (e : Expr) : String :=
  exprIn false e

/-- A node that has no JavaScript form where it stands: the initializer of a for loop. -/
structure UnsupportedNode where
  node : String
  deriving Repr, DecidableEq

namespace UnsupportedNode

/-- The place where the node has no form. -/
def context : String := "for initializer"

def message (e : UnsupportedNode) : String :=
  "cannot emit " ++ e.node ++ " as " ++ context

end UnsupportedNode

/-- A statement of a single clause, without the semicolon that ends it. -/
def clause? : Stmt → Option String
  | .declare kind name (some init) =>
    some (declKeyword kind ++ " " ++ name.name ++ " = " ++ bare init)
  | .declare kind name none => some (declKeyword kind ++ " " ++ name.name)
  | .print arg => some ("console.log(" ++ expr arg ++ ")")
  | .expr (.object properties) => some ("(" ++ expr (.object properties) ++ ")")
  | .expr value => some (bare value)
  | _ => none

def initializer : Option Stmt → Except UnsupportedNode String
  | none => .ok ""
  | some s =>
    match clause? s with
    | some text => .ok text
    | none => .error ⟨s.typeName⟩

/-- A statement inside a block: each of its lines indented by two spaces. -/
def indented (statement : String) : String :=
  String.join ((lines statement).map fun line => "  " ++ line ++ "\n")

mutual

def stmt : Stmt → Except UnsupportedNode String
  | .declare kind name init =>
    .ok ((clause? (.declare kind name init)).getD "" ++ ";")
  | .print arg => .ok ((clause? (.print arg)).getD "" ++ ";")
  | .expr value => .ok ((clause? (.expr value)).getD "" ++ ";")
  | .function name params body => do
    let body ← block body
    return "function " ++ name.name ++ "(" ++ commaList (params.map (·.name)) ++ ") " ++ body
  | .conditional cond body other => do
    let body ← block body
    let other ← otherBranch other
    return "if (" ++ expr cond ++ ") " ++ body ++ other
  | .whileLoop cond body => do
    let body ← block body
    return "while (" ++ expr cond ++ ") " ++ body
  | .forLoop init cond update body => do
    let init ← initializer init
    let body ← block body
    let cond := (cond.map expr).getD ""
    let update := (update.map bare).getD ""
    return "for (" ++ init ++ "; " ++ cond ++ "; " ++ update ++ ") " ++ body
  | .result (some value) => .ok ("return " ++ expr value ++ ";")
  | .result none => .ok "return;"
  | .breakLoop => .ok "break;"
  | .continueLoop => .ok "continue;"
  | .block body => block body

/-- A block: its statements, indented, between braces. -/
def block (body : List Stmt) : Except UnsupportedNode String := do
  let statements ← stmts body
  return "\x7b\n" ++ String.join (statements.map indented) ++ "\x7d"

def stmts : List Stmt → Except UnsupportedNode (List String)
  | [] => .ok []
  | s :: rest => do
    let first ← stmt s
    let others ← stmts rest
    return first :: others

def otherBranch : Option Stmt → Except UnsupportedNode String
  | none => .ok ""
  | some s => do
    let text ← stmt s
    return " else " ++ text

end

/-- A program, one statement after the other. -/
def program (p : Program) : Except UnsupportedNode String := do
  let statements ← p.body.mapM stmt
  return String.intercalate "\n" statements

end JavaScript

end MinangScript
