import MinangScript.Program.Basic

/-! # The nodes of a program

All expressions and statements of a program in one list, those inside of others included and
wherever they stand: in the body of a function, in a branch that may never be taken, in an argument.
What is asked of every node of a program is asked of all its code.
-/

namespace MinangScript

/-- An expression or a statement somewhere in a program. -/
inductive Node where
  | expr (e : Expr)
  | stmt (s : Stmt)

namespace Expr

mutual

/-- The nodes of an expression, itself first. -/
def nodes : Expr → List Node
  | assign target value => .expr (assign target value) :: value.nodes
  | binary left op right => .expr (binary left op right) :: (left.nodes ++ right.nodes)
  | unary op operand => .expr (unary op operand) :: operand.nodes
  | call callee args => .expr (call callee args) :: (callee.nodes ++ nodesEach args)
  | member base property => .expr (member base property) :: base.nodes
  | ident id => [.expr (ident id)]
  | literal value => [.expr (literal value)]
  | array items => .expr (array items) :: nodesEach items
  | object properties => .expr (object properties) :: nodesProperties properties

def nodesEach : List Expr → List Node
  | [] => []
  | e :: rest => e.nodes ++ nodesEach rest

def nodesProperties : List (String × Expr) → List Node
  | [] => []
  | (_, value) :: rest => value.nodes ++ nodesProperties rest

end

def nodesOptional (e : Option Expr) : List Node :=
  e.elim [] nodes

theorem mem_nodes_self (e : Expr) : .expr e ∈ e.nodes := by
  cases e <;> simp [nodes]

end Expr

namespace Stmt

mutual

/-- The nodes of a statement, itself first. -/
def nodes : Stmt → List Node
  | declare kind name init => .stmt (declare kind name init) :: Expr.nodesOptional init
  | function name params body => .stmt (function name params body) :: nodesEach body
  | conditional cond body other =>
    .stmt (conditional cond body other) :: (cond.nodes ++ nodesEach body ++ nodesOptional other)
  | whileLoop cond body => .stmt (whileLoop cond body) :: (cond.nodes ++ nodesEach body)
  | forLoop init cond update body =>
    .stmt (forLoop init cond update body) :: (nodesOptional init ++ Expr.nodesOptional cond ++
      Expr.nodesOptional update ++ nodesEach body)
  | result value => .stmt (result value) :: Expr.nodesOptional value
  | breakLoop => [.stmt breakLoop]
  | continueLoop => [.stmt continueLoop]
  | print arg => .stmt (print arg) :: arg.nodes
  | block body => .stmt (block body) :: nodesEach body
  | expr value => .stmt (expr value) :: value.nodes

def nodesEach : List Stmt → List Node
  | [] => []
  | s :: rest => s.nodes ++ nodesEach rest

def nodesOptional : Option Stmt → List Node
  | none => []
  | some s => s.nodes

end

theorem mem_nodes_self (s : Stmt) : .stmt s ∈ s.nodes := by
  cases s <;> simp [nodes]

end Stmt

/-- The nodes of a program. -/
def Program.nodes (p : Program) : List Node :=
  Stmt.nodesEach p.body

end MinangScript
