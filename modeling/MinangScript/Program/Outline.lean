import MinangScript.Json.Basic
import MinangScript.Outline
import MinangScript.Program.Basic

/-! # Outlines of programs

How a program is laid out as labelled nodes, and an outline as a JSON document.
-/

namespace MinangScript

namespace Outline

mutual

/-- An outline as a JSON document: a bare label is a string, a label around something is an object
of one property. -/
def toJson : Outline → Json
  | number value => .float value
  | natural value => .integer value
  | text value => .string value
  | truth value => .bool value
  | absent => .null
  | present part => part.toJson
  | list items => .array (itemsToJson items)
  | label name => .string name
  | wrapped name part => .object [(name, part.toJson)]
  | record _ fields => .object (fieldsToJson fields)
  | variant name fields => .object [(name, .object (fieldsToJson fields))]

/-- The items of a list as documents. -/
def itemsToJson : List Outline → List Json
  | [] => []
  | item :: rest => item.toJson :: itemsToJson rest

/-- Named parts as properties. -/
def fieldsToJson : List (String × Outline) → List (String × Json)
  | [] => []
  | (name, part) :: rest => (name, part.toJson) :: fieldsToJson rest

end

end Outline

def Position.outline (p : Position) : Outline :=
  .record "Pos" [("line", .natural p.line), ("column", .natural p.column)]

def Ident.outline (id : Ident) : Outline :=
  .record "Ident" [("name", .text id.name), ("pos", id.position.outline)]

def DeclKind.label : DeclKind → String
  | varDecl => "Var"
  | letDecl => "Let"
  | constDecl => "Const"

def UnaryOp.label : UnaryOp → String
  | not => "Not"
  | neg => "Neg"

def BinaryOp.label : BinaryOp → String
  | or => "Or"
  | and => "And"
  | eq => "Eq"
  | ne => "Ne"
  | lt => "Lt"
  | le => "Le"
  | gt => "Gt"
  | ge => "Ge"
  | add => "Add"
  | sub => "Sub"
  | mul => "Mul"
  | div => "Div"
  | mod => "Mod"

def Literal.outline : Literal → Outline
  | number value => .wrapped "Number" (.number value)
  | string text => .wrapped "Str" (.text text)
  | bool value => .wrapped "Bool" (.truth value)
  | null => .label "Null"
  | regex pattern flags => .variant "Regex" [("pattern", .text pattern), ("flags", .text flags)]

namespace Expr

mutual

def outline : Expr → Outline
  | assign target value => .variant "Assign" [("target", target.outline), ("value", value.outline)]
  | binary left op right =>
    .variant "Binary" [("lhs", left.outline), ("op", .label op.label), ("rhs", right.outline)]
  | unary op operand => .variant "Unary" [("op", .label op.label), ("expr", operand.outline)]
  | call callee args =>
    .variant "Call" [("callee", callee.outline), ("args", .list (outlines args))]
  | member base property =>
    .variant "Member" [("object", base.outline), ("property", property.outline)]
  | ident id => .wrapped "Ident" id.outline
  | literal value => .wrapped "Lit" value.outline
  | array items => .wrapped "Array" (.list (outlines items))
  | object properties => .wrapped "Object" (.list (propertyOutlines properties))

def outlines : List Expr → List Outline
  | [] => []
  | e :: rest => e.outline :: outlines rest

/-- The outlines of the properties of an object. -/
def propertyOutlines : List (String × Expr) → List Outline
  | [] => []
  | (key, value) :: rest =>
    .record "Property" [("key", .text key), ("value", value.outline)] :: propertyOutlines rest

end

def optionOutline : Option Expr → Outline
  | none => .absent
  | some e => .present e.outline

end Expr

namespace Stmt

/-- The outline of a block, given the outlines of its statements. -/
def blockOutline (body : List Outline) : Outline :=
  .record "Block" [("body", .list body)]

mutual

def outline : Stmt → Outline
  | declare kind name init =>
    .variant "VariableDeclaration"
      [("kind", .label kind.label), ("name", name.outline), ("init", Expr.optionOutline init)]
  | function name params body =>
    .variant "FunctionDeclaration"
      [("name", name.outline), ("params", .list (params.map Ident.outline)),
       ("body", blockOutline (outlines body))]
  | conditional cond body other =>
    .variant "If"
      [("cond", cond.outline), ("then_", blockOutline (outlines body)),
       ("else_", optionOutline other)]
  | whileLoop cond body =>
    .variant "While" [("cond", cond.outline), ("body", blockOutline (outlines body))]
  | forLoop init cond update body =>
    .variant "For"
      [("init", optionOutline init), ("cond", Expr.optionOutline cond),
       ("update", Expr.optionOutline update), ("body", blockOutline (outlines body))]
  | result value => .variant "Return" [("value", Expr.optionOutline value)]
  | breakLoop => .label "Break"
  | continueLoop => .label "Continue"
  | print arg => .variant "Print" [("arg", arg.outline)]
  | block body => .wrapped "Block" (blockOutline (outlines body))
  | expr value => .wrapped "Expr" value.outline

def outlines : List Stmt → List Outline
  | [] => []
  | s :: rest => s.outline :: outlines rest

def optionOutline : Option Stmt → Outline
  | none => .absent
  | some s => .present s.outline

end

end Stmt

def Program.outline (p : Program) : Outline :=
  .record "Program" [("body", .list (Stmt.outlines p.body))]

end MinangScript
