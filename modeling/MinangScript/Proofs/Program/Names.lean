import MinangScript.Proofs.Parser.Rendering

/-! # The names in a program

Which names a piece of code may look up or write when it runs, and which functions it can declare.
A function that is declared inside another one speaks for itself: its names are not names of the
code around it. What stands before a dot is only a part of the name of a function.
-/

namespace MinangScript

namespace Expr

/-- The name of a plain callee. Any other callee is not evaluated. -/
def calleeNames : Expr → List String
  | ident id => [id.name]
  | _ => []

mutual

/-- The names that an expression looks up or writes. -/
def mentions : Expr → List String
  | assign target value => target.name :: value.mentions
  | binary left _ right => left.mentions ++ right.mentions
  | unary _ operand => operand.mentions
  | call callee args => callee.calleeNames ++ mentionsEach args
  | member _ _ => []
  | ident id => [id.name]
  | literal _ => []
  | array items => mentionsEach items
  | object properties => mentionsProperties properties

def mentionsEach : List Expr → List String
  | [] => []
  | e :: rest => e.mentions ++ mentionsEach rest

def mentionsProperties : List (String × Expr) → List String
  | [] => []
  | (_, value) :: rest => value.mentions ++ mentionsProperties rest

end

def mentionsOptional (e : Option Expr) : List String :=
  e.elim [] mentions

end Expr

/-- A declared function without its name: the names of its parameters and its body. -/
abbrev Declaration := List String × List Stmt

namespace Stmt

mutual

/-- The names that a statement looks up or writes, outside of the functions it declares. -/
def mentions : Stmt → List String
  | declare _ name init => name.name :: Expr.mentionsOptional init
  | function _ _ _ => []
  | conditional cond body other => cond.mentions ++ mentionsEach body ++ mentionsOptional other
  | whileLoop cond body => cond.mentions ++ mentionsEach body
  | forLoop init cond update body =>
    mentionsOptional init ++ Expr.mentionsOptional cond ++ Expr.mentionsOptional update ++
      mentionsEach body
  | result value => Expr.mentionsOptional value
  | breakLoop => []
  | continueLoop => []
  | print arg => arg.mentions
  | block body => mentionsEach body
  | expr value => value.mentions

def mentionsEach : List Stmt → List String
  | [] => []
  | s :: rest => s.mentions ++ mentionsEach rest

def mentionsOptional : Option Stmt → List String
  | none => []
  | some s => s.mentions

end

mutual

/-- The functions that are declared in a statement, at any depth. -/
def declarations : Stmt → List Declaration
  | function _ params body => (params.map (·.name), body) :: declarationsEach body
  | conditional _ body other => declarationsEach body ++ declarationsOptional other
  | whileLoop _ body => declarationsEach body
  | forLoop init _ _ body => declarationsOptional init ++ declarationsEach body
  | block body => declarationsEach body
  | declare _ _ _ | result _ | breakLoop | continueLoop | print _ | expr _ => []

def declarationsEach : List Stmt → List Declaration
  | [] => []
  | s :: rest => s.declarations ++ declarationsEach rest

def declarationsOptional : Option Stmt → List Declaration
  | none => []
  | some s => s.declarations

end

theorem mem_declarationsEach {d : Declaration} {body : List Stmt} :
    d ∈ declarationsEach body ↔ ∃ s ∈ body, d ∈ s.declarations := by
  induction body with
  | nil => simp [declarationsEach]
  | cons s rest ih => simp [declarationsEach, ih]

theorem mem_declarationsOptional {d : Declaration} {other : Option Stmt} :
    d ∈ declarationsOptional other ↔ ∃ s ∈ other, d ∈ s.declarations := by
  cases other <;> simp [declarationsOptional]

theorem declarationsEach_subset {inner d : Declaration} {body : List Stmt}
    (each : ∀ s ∈ body, d ∈ s.declarations → inner ∈ s.declarations)
    (outside : d ∈ declarationsEach body) : inner ∈ declarationsEach body := by
  rw [mem_declarationsEach] at outside ⊢
  obtain ⟨s, member, declared⟩ := outside
  exact ⟨s, member, each s member declared⟩

theorem declarationsOptional_subset {inner d : Declaration} {other : Option Stmt}
    (each : ∀ s ∈ other, d ∈ s.declarations → inner ∈ s.declarations)
    (outside : d ∈ declarationsOptional other) : inner ∈ declarationsOptional other := by
  rw [mem_declarationsOptional] at outside ⊢
  obtain ⟨s, member, declared⟩ := outside
  exact ⟨s, member, each s member declared⟩

/-- What a declared function declares is declared. -/
theorem declarations_trans {inner d : Declaration} (inside : inner ∈ declarationsEach d.2)
    (s : Stmt) : d ∈ s.declarations → inner ∈ s.declarations := by
  induction s using Stmt.inductionOn with
  | function name params body ih =>
      intro outside
      simp only [declarations, List.mem_cons] at outside ⊢
      obtain rfl | deeper := outside
      · exact .inr inside
      · exact .inr (declarationsEach_subset ih deeper)
  | conditional cond body other ihBody ihOther =>
      intro outside
      simp only [declarations, List.mem_append] at outside ⊢
      exact outside.imp (declarationsEach_subset ihBody) (declarationsOptional_subset ihOther)
  | forLoop init cond update body ihInit ihBody =>
      intro outside
      simp only [declarations, List.mem_append] at outside ⊢
      exact outside.imp (declarationsOptional_subset ihInit) (declarationsEach_subset ihBody)
  | whileLoop cond body ih | block body ih =>
      intro outside
      simp only [declarations] at outside ⊢
      exact declarationsEach_subset ih outside
  | declare | result | breakLoop | continueLoop | print | expr =>
      intro outside
      simp [declarations] at outside

theorem declarationsEach_trans {inner d : Declaration} {body : List Stmt}
    (inside : inner ∈ declarationsEach d.2) (outside : d ∈ declarationsEach body) :
    inner ∈ declarationsEach body :=
  declarationsEach_subset (fun s _ => declarations_trans inside s) outside

end Stmt

end MinangScript
