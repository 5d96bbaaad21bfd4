import MinangScript.JavaScript.Wrapped
import MinangScript.Proofs.Parser.Rendering
import MinangScript.Proofs.Program.Nodes

/-! # Programs that cannot be written

A program has a form in JavaScript unless a for loop somewhere in it begins with a statement of more
than one clause. Writing goes through the statements in the order of the source and stops at the first
such loop, so the error names what that loop begins with. Wherever the loop stands, the parts around it
hand the error on as it is and raise none of their own.
-/

namespace MinangScript

/-- Whether the statement has one clause: it is a declaration, an expression or a print. -/
def Stmt.isClause : Stmt → Bool
  | declare _ _ _ => true
  | expr _ => true
  | print _ => true
  | _ => false

/-- What a for loop begins with, if that has more than one clause. -/
def Node.stray? : Node → Option Stmt
  | .stmt (.forLoop (some init) _ _ _) => if init.isClause then none else some init
  | _ => none

/-- The node is a for loop that begins with the given statement. -/
def Node.LoopsFrom (n : Node) (init : Stmt) : Prop :=
  ∃ cond update body, n = .stmt (.forLoop (some init) cond update body)

theorem Node.stray?_eq_some_iff {n : Node} {init : Stmt} :
    n.stray? = some init ↔ n.LoopsFrom init ∧ init.isClause = false := by
  constructor
  · intro found
    unfold stray? at found
    split at found
    · split at found
      · cases found
      · rename_i begun
        cases found
        exact ⟨⟨_, _, _, rfl⟩, Bool.of_not_eq_true begun⟩
    · cases found
  · rintro ⟨⟨cond, update, body, rfl⟩, notClause⟩
    simp [stray?, notClause]

theorem Node.stray?_eq_none_iff {n : Node} :
    n.stray? = none ↔ ∀ init, n.LoopsFrom init → init.isClause = true := by
  rw [Option.eq_none_iff_forall_ne_some]
  refine forall_congr' fun init => ?_
  rw [ne_eq, stray?_eq_some_iff, not_and, Bool.not_eq_false]

/-- The first of these statements among the nodes. -/
def firstStray? (nodes : List Node) : Option Stmt :=
  nodes.findSome? Node.stray?

section Order

@[simp] theorem firstStray?_nil : firstStray? [] = none := rfl

@[simp] theorem firstStray?_cons (n : Node) (nodes : List Node) :
    firstStray? (n :: nodes) = n.stray?.or (firstStray? nodes) := by
  rw [firstStray?, List.findSome?_cons]
  cases n.stray? <;> rfl

@[simp] theorem firstStray?_append (first second : List Node) :
    firstStray? (first ++ second) = (firstStray? first).or (firstStray? second) :=
  List.findSome?_append

/-- No loop stands inside of an expression. -/
@[simp] theorem firstStray?_expr (e : Expr) : firstStray? e.nodes = none := by
  have each : ∀ es : List Expr, (∀ e ∈ es, firstStray? e.nodes = none) →
      firstStray? (Expr.nodesEach es) = none := by
    intro es noStray
    induction es with
    | nil => rfl
    | cons e rest ih =>
        obtain ⟨here, later⟩ := List.forall_mem_cons.mp noStray
        simp [Expr.nodesEach, here, ih later]
  have properties : ∀ ps : List (String × Expr), (∀ p ∈ ps, firstStray? p.2.nodes = none) →
      firstStray? (Expr.nodesProperties ps) = none := by
    intro ps noStray
    induction ps with
    | nil => rfl
    | cons p rest ih =>
        obtain ⟨here, later⟩ := List.forall_mem_cons.mp noStray
        simp [Expr.nodesProperties, here, ih later]
  induction e using Expr.inductionOn with
  | assign target value ih | unary op value ih | member value property ih =>
      simp [Expr.nodes, Node.stray?, ih]
  | binary left op right ihLeft ihRight => simp [Expr.nodes, Node.stray?, ihLeft, ihRight]
  | call callee args ih ihArgs => simp [Expr.nodes, Node.stray?, ih, each args ihArgs]
  | ident | literal => rfl
  | array items ih => simp [Expr.nodes, Node.stray?, each items ih]
  | object ps ih => simp [Expr.nodes, Node.stray?, properties ps ih]

@[simp] theorem firstStray?_optionalExpr (e : Option Expr) :
    firstStray? (Expr.nodesOptional e) = none := by
  cases e with
  | none => rfl
  | some e => exact firstStray?_expr e

theorem firstStray?_of_isClause {s : Stmt} (clause : s.isClause = true) :
    firstStray? s.nodes = none := by
  cases s with
  | declare | expr | print => simp [Stmt.nodes, Node.stray?]
  | _ => cases clause

end Order

namespace JavaScript

/-- The writing is refused for the given statement, or it gives something if there is none. -/
def RefusedFor {α : Type} (found : Option Stmt) (written : Except UnsupportedNode α) : Prop :=
  match found with
  | some s => written = .error ⟨s.typeName⟩
  | none => ∃ a, written = .ok a

namespace RefusedFor

variable {α β : Type} {found found' : Option Stmt} {written : Except UnsupportedNode α}

theorem ok (a : α) : RefusedFor none (.ok a) :=
  ⟨a, rfl⟩

/-- What is written first is refused first. -/
theorem bind {next : α → Except UnsupportedNode β} (first : RefusedFor found written)
    (later : ∀ a, RefusedFor found' (next a)) : RefusedFor (found.or found') (written >>= next) := by
  cases found with
  | some s =>
      obtain rfl : written = .error ⟨s.typeName⟩ := first
      rfl
  | none =>
      obtain ⟨a, rfl⟩ := first
      exact later a

theorem map {next : α → β} (first : RefusedFor found written) :
    RefusedFor found (do return next (← written)) := by
  have all := first.bind fun a => ok (next a)
  rwa [Option.or_none] at all

theorem error_iff (refused : RefusedFor found written) {e : UnsupportedNode} :
    written = .error e ↔ ∃ s, found = some s ∧ e = ⟨s.typeName⟩ := by
  cases found with
  | some s =>
      obtain rfl : written = .error ⟨s.typeName⟩ := refused
      simp [eq_comm]
  | none =>
      obtain ⟨a, rfl⟩ := refused
      simp

end RefusedFor

/-! ## Statements -/

theorem clause?_eq_none_iff (s : Stmt) : clause? s = none ↔ s.isClause = false := by
  cases s with
  | declare kind name init => cases init <;> simp [clause?, Stmt.isClause]
  | expr value => cases value <;> simp [clause?, Stmt.isClause]
  | _ => simp [clause?, Stmt.isClause]

/-- A loop is refused for what it begins with, and otherwise nothing there is. -/
theorem initializer_refused (init : Option Stmt) (cond update : Option Expr) (body : List Stmt) :
    RefusedFor ((Node.stmt (.forLoop init cond update body)).stray?.or
      (firstStray? (Stmt.nodesOptional init))) (initializer init) := by
  cases init with
  | none => exact .ok ""
  | some s =>
      have form := clause?_eq_none_iff s
      cases clause : s.isClause with
      | true =>
          obtain ⟨text, written⟩ := Option.ne_none_iff_exists'.mp (mt form.mp (by simp [clause]))
          simp only [Node.stray?, clause, Stmt.nodesOptional, firstStray?_of_isClause clause,
            initializer, written]
          exact .ok text
      | false =>
          simp only [Node.stray?, clause, initializer, form.mpr clause]
          rfl

theorem stmts_refused {body : List Stmt}
    (each : ∀ s ∈ body, RefusedFor (firstStray? s.nodes) (stmt s)) :
    RefusedFor (firstStray? (Stmt.nodesEach body)) (stmts body) := by
  induction body with
  | nil =>
      rw [stmts]
      exact .ok []
  | cons s rest ih =>
      obtain ⟨here, later⟩ := List.forall_mem_cons.mp each
      rw [Stmt.nodesEach, firstStray?_append, stmts]
      exact here.bind fun text => (ih later).map

theorem block_refused {body : List Stmt}
    (each : ∀ s ∈ body, RefusedFor (firstStray? s.nodes) (stmt s)) :
    RefusedFor (firstStray? (Stmt.nodesEach body)) (block body) := by
  rw [block]
  exact (stmts_refused each).map

theorem otherBranch_refused {other : Option Stmt}
    (each : ∀ s ∈ other, RefusedFor (firstStray? s.nodes) (stmt s)) :
    RefusedFor (firstStray? (Stmt.nodesOptional other)) (otherBranch other) := by
  cases other with
  | none =>
      rw [otherBranch]
      exact .ok ""
  | some s =>
      rw [Stmt.nodesOptional, otherBranch]
      exact (each s rfl).map

/-- A statement is refused for the first loop in it that has no form. -/
theorem stmt_refused (s : Stmt) : RefusedFor (firstStray? s.nodes) (stmt s) := by
  induction s using Stmt.inductionOn with
  | declare | print | expr | breakLoop | continueLoop =>
      simp [Stmt.nodes, Node.stray?, stmt, RefusedFor]
  | result value => cases value <;> simp [Stmt.nodes, Node.stray?, stmt, RefusedFor]
  | function name params body ih =>
      rw [Stmt.nodes, firstStray?_cons, stmt]
      exact (block_refused ih).map
  | conditional cond body other ih ihOther =>
      rw [Stmt.nodes, firstStray?_cons, firstStray?_append, firstStray?_append, firstStray?_expr,
        stmt]
      exact (block_refused ih).bind fun text => (otherBranch_refused ihOther).map
  | whileLoop cond body ih =>
      rw [Stmt.nodes, firstStray?_cons, firstStray?_append, firstStray?_expr, stmt]
      exact (block_refused ih).map
  | forLoop init cond update body _ ih =>
      rw [Stmt.nodes, firstStray?_cons, firstStray?_append, firstStray?_append, firstStray?_append,
        firstStray?_optionalExpr, firstStray?_optionalExpr, Option.or_none, Option.or_none,
        ← Option.or_assoc, stmt]
      exact (initializer_refused init cond update body).bind fun text => (block_refused ih).map
  | block body ih =>
      rw [Stmt.nodes, firstStray?_cons, stmt]
      exact block_refused ih

theorem stmts_eq_mapM (body : List Stmt) : stmts body = body.mapM stmt := by
  induction body with
  | nil =>
      rw [stmts, List.mapM_nil]
      rfl
  | cons s rest ih => rw [stmts, ih, List.mapM_cons]

/-! ## Programs -/

theorem message_eq (e : UnsupportedNode) :
    e.message = "cannot emit " ++ e.node ++ " as for initializer" := by
  rw [UnsupportedNode.message, UnsupportedNode.context, String.append_assoc]
  rfl

theorem program_refused (p : Program) : RefusedFor (firstStray? p.nodes) (program p) := by
  rw [program, ← stmts_eq_mapM]
  exact (stmts_refused fun s _ => stmt_refused s).map

theorem strictModule_refused (p : Program) (name : String) :
    RefusedFor (firstStray? p.nodes) (strictModule p name) :=
  (program_refused p).map

theorem withHelpers_refused (p : Program) :
    RefusedFor (firstStray? p.nodes) (withHelpers p) :=
  (program_refused p).map

/-- A program cannot be written exactly if some for loop in it, wherever it stands, begins with
    something other than a declaration, an expression or a print. The error names what the first such loop
    begins with, where a loop comes before everything in it, and a program is refused for the same reason
    when it is written as a module or behind the library. -/
theorem program_error_iff (p : Program) :
    ((∃ e, program p = .error e) ↔
      ∃ n ∈ p.nodes, ∃ init, n.LoopsFrom init ∧ init.isClause = false) ∧
    (∀ e, program p = .error e ↔ ∃ before n after init,
      p.nodes = before ++ n :: after ∧ n.LoopsFrom init ∧ init.isClause = false ∧
      (∀ n' ∈ before, ∀ init', n'.LoopsFrom init' → init'.isClause = true) ∧
      e.node = init.typeName ∧
      e.message = "cannot emit " ++ init.typeName ++ " as for initializer") ∧
    (∀ name e, strictModule p name = .error e ↔ program p = .error e) ∧
    ∀ e, withHelpers p = .error e ↔ program p = .error e := by
  have refused := program_refused p
  refine ⟨?_, fun e => ?_, fun name e => ?_, fun e => ?_⟩
  · simp only [refused.error_iff]
    constructor
    · rintro ⟨_, init, found, -⟩
      obtain ⟨n, member, stray⟩ := List.exists_of_findSome?_eq_some found
      exact ⟨n, member, init, Node.stray?_eq_some_iff.mp stray⟩
    · rintro ⟨n, member, init, loops⟩
      have stray := Node.stray?_eq_some_iff.mpr loops
      cases found : firstStray? p.nodes with
      | none =>
          have noStray := List.findSome?_eq_none_iff.mp found n member
          cases noStray.symm.trans stray
      | some first => exact ⟨_, first, rfl, rfl⟩
  · rw [refused.error_iff]
    constructor
    · rintro ⟨init, found, rfl⟩
      obtain ⟨before, n, after, split, stray, noStray⟩ := List.findSome?_eq_some_iff.mp found
      obtain ⟨loops, notClause⟩ := Node.stray?_eq_some_iff.mp stray
      exact ⟨before, n, after, init, split, loops, notClause,
        fun n' member => Node.stray?_eq_none_iff.mp (noStray n' member), rfl, message_eq _⟩
    · rintro ⟨before, n, after, init, split, loops, notClause, clauses, named, -⟩
      have stray := Node.stray?_eq_some_iff.mpr ⟨loops, notClause⟩
      have noStray := fun n' member => Node.stray?_eq_none_iff.mpr (clauses n' member)
      refine ⟨init, List.findSome?_eq_some_iff.mpr ⟨before, n, after, split, stray, noStray⟩, ?_⟩
      cases e
      exact congrArg UnsupportedNode.mk named
  · rw [(strictModule_refused p name).error_iff, refused.error_iff]
  · rw [(withHelpers_refused p).error_iff, refused.error_iff]

/-- The loop inside of the other statement is the first. -/
example : program ⟨[.whileLoop (.literal .null) [.forLoop (some (.block [])) none none []],
    .forLoop (some .breakLoop) none none []]⟩ = .error ⟨(Stmt.block []).typeName⟩ := by cbv

end JavaScript

end MinangScript
