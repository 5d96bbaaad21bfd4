import MinangScript.Proofs.JavaScript.Unbroken
import MinangScript.Proofs.Text.Lines

/-! # Indentation is layout

A block is written by taking the text of each statement in it apart into its lines and putting two spaces
in front of each, once more for every block around it. `stmtLines` says which lines a statement has
without ever joining or splitting a text. It is the same, because each of these lines is one line of
any text that they are joined to: it ends with a brace or a semicolon and has no line feed in it.
-/

namespace MinangScript

/-- The node can be written, and what is written of it as it is has no line feed. -/
structure Node.HasLines (n : Node) : Prop extends n.Unbroken where
  clause : n.stray? = none

namespace JavaScript

/-- A line of code: its own text and the number of blocks around it. -/
structure CodeLine where
  depth : Nat
  text : String
  deriving Repr, DecidableEq

/-- The spaces in front of a line in a number of blocks. -/
def margin (depth : Nat) : String :=
  String.ofList (List.replicate (2 * depth) ' ')

namespace CodeLine

/-- The line with its spaces. -/
def written (l : CodeLine) : String :=
  margin l.depth ++ l.text

/-- The line in more blocks. -/
def within (depth : Nat) (l : CodeLine) : CodeLine :=
  { l with depth := l.depth + depth }

end CodeLine

/-- Lines of which the first one stands behind a text. -/
def behind (front : String) : List CodeLine → List CodeLine
  | [] => []
  | l :: rest => { l with text := front ++ l.text } :: rest

/-- A line that opens a block, and what stands in the block. -/
def opened (front : String) (inner : List CodeLine) : List CodeLine :=
  ⟨0, front ++ "\x7b"⟩ :: inner.map (CodeLine.within 1)

/-- The line that closes a block. -/
def closing : CodeLine :=
  ⟨0, "\x7d"⟩

mutual

/-- The lines of a statement outside of all blocks. -/
def stmtLines : Stmt → List CodeLine
  | .declare kind name init => [⟨0, (clause? (.declare kind name init)).getD "" ++ ";"⟩]
  | .print arg => [⟨0, (clause? (.print arg)).getD "" ++ ";"⟩]
  | .expr value => [⟨0, (clause? (.expr value)).getD "" ++ ";"⟩]
  | .function name params body =>
    opened ("function " ++ name.name ++ "(" ++ commaList (params.map (·.name)) ++ ") ")
      (bodyLines body) ++ [closing]
  | .conditional cond body other =>
    opened ("if (" ++ expr cond ++ ") ") (bodyLines body) ++ otherLines other
  | .whileLoop cond body => opened ("while (" ++ expr cond ++ ") ") (bodyLines body) ++ [closing]
  | .forLoop init cond update body =>
    opened ("for (" ++ (init.bind clause?).getD "" ++ "; " ++ (cond.map expr).getD "" ++ "; " ++
      (update.map bare).getD "" ++ ") ") (bodyLines body) ++ [closing]
  | .result (some value) => [⟨0, "return " ++ expr value ++ ";"⟩]
  | .result none => [⟨0, "return;"⟩]
  | .breakLoop => [⟨0, "break;"⟩]
  | .continueLoop => [⟨0, "continue;"⟩]
  | .block body => opened "" (bodyLines body) ++ [closing]

/-- The lines of several statements, one after the other. -/
def bodyLines : List Stmt → List CodeLine
  | [] => []
  | s :: rest => stmtLines s ++ bodyLines rest

/-- The lines from the end of the first branch on. The other branch begins on the line that closes it. -/
def otherLines : Option Stmt → List CodeLine
  | none => [closing]
  | some s => behind (closing.text ++ " else ") (stmtLines s)

end

/-- The lines of a program. -/
def programLines (p : Program) : List CodeLine :=
  bodyLines p.body

/-- Lines of code as one text. -/
def laidOut (rows : List CodeLine) : String :=
  "\n".intercalate (rows.map CodeLine.written)

/-! ## Lines -/

theorem bodyLines_eq_flatMap (body : List Stmt) : bodyLines body = body.flatMap stmtLines := by
  induction body with
  | nil => rw [bodyLines, List.flatMap_nil]
  | cons s rest ih => rw [bodyLines, ih, List.flatMap_cons]

/-- A statement begins with a line that no block of its own stands around. -/
theorem stmtLines_begins (s : Stmt) : ∃ text rest, stmtLines s = ⟨0, text⟩ :: rest := by
  cases s with
  | result value => cases value <;> exact ⟨_, _, by rw [stmtLines]⟩
  | declare | print | expr | breakLoop | continueLoop => exact ⟨_, _, by rw [stmtLines]⟩
  | _ => exact ⟨_, _, by rw [stmtLines]; rfl⟩

theorem margin_unbroken (depth : Nat) : '\n' ∉ (margin depth).toList := by
  simp [margin]

theorem margin_add (first second : Nat) : margin (first + second) = margin first ++ margin second := by
  rw [margin, mul_add, ← List.replicate_append_replicate, String.ofList_append]
  rfl

theorem written_within (depth : Nat) (l : CodeLine) :
    (l.within depth).written = margin depth ++ l.written := by
  rw [CodeLine.written, CodeLine.within, add_comm, margin_add, String.append_assoc]
  rfl

theorem isLine_written {l : CodeLine} (line : IsLine l.text) : IsLine l.written :=
  line.append (margin_unbroken l.depth)

/-! ## Texts of lines -/

section LaidOut

variable {rows others : List CodeLine}

theorem laidOut_append (nonempty : rows ≠ []) (nonempty' : others ≠ []) :
    laidOut (rows ++ others) = laidOut rows ++ "\n" ++ laidOut others := by
  rw [laidOut, List.map_append,
    String.intercalate_append_of_ne_nil (by simpa using nonempty) (by simpa using nonempty')]
  rfl

theorem laidOut_front (front text : String) (rest : List CodeLine) :
    laidOut (⟨0, front ++ text⟩ :: rest) = front ++ laidOut (⟨0, text⟩ :: rest) := by
  have noMargin : margin 0 = "" := rfl
  simp [laidOut, CodeLine.written, noMargin]

/-- The lines of a text that was made of lines, each in one more block. -/
theorem indented_laidOut (each : ∀ l ∈ rows, IsLine l.text) :
    indented (laidOut rows) =
      String.join ((rows.map fun l => (l.within 1).written).map (· ++ "\n")) := by
  have found : lines (laidOut rows) = rows.map CodeLine.written :=
    lines_intercalate (List.forall_mem_map.mpr fun l member => isLine_written (each l member))
  rw [indented, found, List.map_map, List.map_map]
  refine congrArg String.join (List.map_congr_left fun l _ => ?_)
  rw [Function.comp_apply, Function.comp_apply, written_within]
  rfl

end LaidOut

/-! ## Lines of statements -/

theorem isLine_semicolon : IsLine ";" := ⟨by decide, by decide, by decide⟩

theorem isLine_opening : IsLine "\x7b" := ⟨by decide, by decide, by decide⟩

theorem isLine_closing : ∀ l ∈ [closing], IsLine l.text :=
  List.forall_mem_singleton.mpr ⟨by decide, by decide, by decide⟩

theorem getD_unbroken {text : Option String} (each : ∀ t ∈ text, '\n' ∉ t.toList) :
    '\n' ∉ (text.getD "").toList := by
  cases text with
  | none => exact List.not_mem_nil
  | some t => exact each t rfl

theorem isLine_opened {front : String} {inner rest : List CodeLine} (unbroken : '\n' ∉ front.toList)
    (each : ∀ l ∈ inner, IsLine l.text) (later : ∀ l ∈ rest, IsLine l.text) :
    ∀ l ∈ opened front inner ++ rest, IsLine l.text := by
  refine List.forall_mem_append.mpr ⟨List.forall_mem_cons.mpr ⟨?_, ?_⟩, later⟩
  · exact isLine_opening.append unbroken
  · exact List.forall_mem_map.mpr each

theorem isLine_bodyLines {body : List Stmt} (each : ∀ s ∈ body, (∀ n ∈ s.nodes, n.Unbroken) →
    ∀ l ∈ stmtLines s, IsLine l.text) (unbroken : ∀ n ∈ Stmt.nodesEach body, n.Unbroken) :
    ∀ l ∈ bodyLines body, IsLine l.text := by
  rw [bodyLines_eq_flatMap]
  intro l member
  obtain ⟨s, inside, line⟩ := List.mem_flatMap.mp member
  exact each s inside (fun n within => unbroken n (Stmt.mem_nodesEach_iff.mpr ⟨s, inside, within⟩)) l line

theorem optional_unbroken {e : Option Expr} (unbroken : ∀ n ∈ Expr.nodesOptional e, n.Unbroken)
    (wrapped : Bool) : '\n' ∉ ((e.map (exprIn wrapped)).getD "").toList := by
  cases e with
  | none => exact List.not_mem_nil
  | some e => exact exprIn_unbroken unbroken wrapped

theorem isLine_stmtLines {s : Stmt} (unbroken : ∀ n ∈ s.nodes, n.Unbroken) :
    ∀ l ∈ stmtLines s, IsLine l.text := by
  induction s using Stmt.inductionOn with
  | declare | print | expr =>
      rw [stmtLines]
      refine List.forall_mem_singleton.mpr (isLine_semicolon.append (getD_unbroken ?_))
      exact fun text is => clause_unbroken unbroken is
  | function name params body ih =>
      obtain ⟨here, inside⟩ := List.forall_mem_cons.mp unbroken
      obtain ⟨named, each⟩ := List.forall_mem_cons.mp here.names
      have list := commaList_unbroken (List.forall_mem_map.mpr each)
      rw [stmtLines]
      exact isLine_opened (by simp [named, list]) (isLine_bodyLines ih inside) isLine_closing
  | conditional cond body other ih ihOther =>
      obtain ⟨-, inside⟩ := List.forall_mem_cons.mp unbroken
      obtain ⟨inside, inOther⟩ := List.forall_mem_append.mp inside
      obtain ⟨inCond, inBody⟩ := List.forall_mem_append.mp inside
      have shown := exprIn_unbroken inCond true
      rw [stmtLines]
      refine isLine_opened (by simp [expr, shown]) (isLine_bodyLines ih inBody) ?_
      cases other with
      | none =>
          rw [otherLines]
          exact isLine_closing
      | some s =>
          obtain ⟨text, rest, begins⟩ := stmtLines_begins s
          have lines := ihOther s rfl inOther
          rw [begins] at lines
          obtain ⟨first, later⟩ := List.forall_mem_cons.mp lines
          rw [otherLines, begins]
          exact List.forall_mem_cons.mpr ⟨first.append (by decide), later⟩
  | whileLoop cond body ih =>
      obtain ⟨-, inside⟩ := List.forall_mem_cons.mp unbroken
      obtain ⟨inCond, inBody⟩ := List.forall_mem_append.mp inside
      have shown := exprIn_unbroken inCond true
      rw [stmtLines]
      exact isLine_opened (by simp [expr, shown]) (isLine_bodyLines ih inBody) isLine_closing
  | forLoop init cond update body _ ih =>
      obtain ⟨-, inside⟩ := List.forall_mem_cons.mp unbroken
      obtain ⟨inside, inBody⟩ := List.forall_mem_append.mp inside
      obtain ⟨inside, inUpdate⟩ := List.forall_mem_append.mp inside
      obtain ⟨inInit, inCond⟩ := List.forall_mem_append.mp inside
      have first : '\n' ∉ ((init.bind clause?).getD "").toList := by
        refine getD_unbroken fun text is => ?_
        obtain ⟨s, rfl, is⟩ := Option.bind_eq_some_iff.mp is
        exact clause_unbroken inInit is
      have second : '\n' ∉ ((cond.map expr).getD "").toList := optional_unbroken inCond true
      have third : '\n' ∉ ((update.map bare).getD "").toList := optional_unbroken inUpdate false
      rw [stmtLines]
      exact isLine_opened (by simp [first, second, third]) (isLine_bodyLines ih inBody) isLine_closing
  | result value =>
      obtain ⟨-, inside⟩ := List.forall_mem_cons.mp unbroken
      cases value with
      | none => exact List.forall_mem_singleton.mpr ⟨by decide, by decide, by decide⟩
      | some e =>
          have shown := exprIn_unbroken inside true
          exact List.forall_mem_singleton.mpr (isLine_semicolon.append (by simp [expr, shown]))
  | breakLoop | continueLoop => exact List.forall_mem_singleton.mpr ⟨by decide, by decide, by decide⟩
  | block body ih =>
      obtain ⟨-, inside⟩ := List.forall_mem_cons.mp unbroken
      rw [stmtLines]
      exact isLine_opened (by decide) (isLine_bodyLines ih inside) isLine_closing

/-! ## Texts of statements -/

theorem laidOut_singleton (text : String) : laidOut [⟨0, text⟩] = text := by
  rw [laidOut, List.map_singleton, String.intercalate_singleton]
  exact String.empty_append

theorem laidOut_opened (front : String) (inner rest : List CodeLine) :
    laidOut (opened front inner ++ rest) = front ++ laidOut (opened "" inner ++ rest) :=
  laidOut_front front "\x7b" (inner.map (CodeLine.within 1) ++ rest)

theorem laidOut_opened_append (front : String) (inner : List CodeLine) (l : CodeLine)
    (rest : List CodeLine) :
    laidOut (opened front inner ++ l :: rest) = laidOut (opened front inner) ++ "\n" ++ laidOut (l :: rest) :=
  laidOut_append (List.cons_ne_nil _ _) (List.cons_ne_nil _ _)

/-- The line that opens a block and those in the block are ended each. -/
theorem laidOut_opened_ended (inner : List CodeLine) :
    laidOut (opened "" inner) ++ "\n" =
      "\x7b\n" ++ String.join ((inner.map fun l => (l.within 1).written).map (· ++ "\n")) := by
  have rows : (opened "" inner).map CodeLine.written =
      "\x7b" :: inner.map fun l => (l.within 1).written := by
    rw [opened, List.map_cons, List.map_map]
    rfl
  rw [laidOut, rows, intercalate_ended, List.map_cons, String.join_cons]
  rfl

section Texts

variable {body : List Stmt}

theorem stmts_eq (each : ∀ s ∈ body, (∀ n ∈ s.nodes, n.HasLines) → stmt s = .ok (laidOut (stmtLines s)))
    (inside : ∀ n ∈ Stmt.nodesEach body, n.HasLines) :
    stmts body = .ok (body.map fun s => laidOut (stmtLines s)) := by
  induction body with
  | nil => rw [stmts, List.map_nil]
  | cons s rest ih =>
      obtain ⟨here, later⟩ := List.forall_mem_cons.mp each
      obtain ⟨inHere, inRest⟩ := List.forall_mem_append.mp inside
      rw [stmts, here inHere, ih later inRest]
      rfl

/-- The statements of a body, each taken apart and indented by itself, are its lines. -/
theorem join_indented (inside : ∀ n ∈ Stmt.nodesEach body, n.Unbroken) :
    String.join ((body.map fun s => laidOut (stmtLines s)).map indented) =
      String.join (((bodyLines body).map fun l => (l.within 1).written).map (· ++ "\n")) := by
  induction body with
  | nil => rfl
  | cons s rest ih =>
      obtain ⟨inHere, inRest⟩ := List.forall_mem_append.mp inside
      rw [bodyLines, List.map_append, List.map_append, String.join_append, ← ih inRest,
        ← indented_laidOut (isLine_stmtLines inHere), List.map_cons, List.map_cons, String.join_cons]

/-- What a block is written as, with anything in front, is its lines and those of its braces. -/
theorem block_eq (each : ∀ s ∈ body, (∀ n ∈ s.nodes, n.HasLines) → stmt s = .ok (laidOut (stmtLines s)))
    (inside : ∀ n ∈ Stmt.nodesEach body, n.HasLines) :
    ∃ text, block body = .ok text ∧
      ∀ front, front ++ text = laidOut (opened front (bodyLines body) ++ [closing]) := by
  refine ⟨_, by rw [block, stmts_eq each inside]; rfl, fun front => ?_⟩
  have joined := join_indented fun n member => (inside n member).toUnbroken
  rw [laidOut_opened, laidOut_opened_append, laidOut_opened_ended, closing, laidOut_singleton, joined]

/-- The other branch goes on where the block in front of it is closed. -/
theorem otherBranch_eq {other : Option Stmt} (each : ∀ s ∈ other, (∀ n ∈ s.nodes, n.HasLines) →
      stmt s = .ok (laidOut (stmtLines s)))
    (inside : ∀ n ∈ Stmt.nodesOptional other, n.HasLines) :
    ∃ text, otherBranch other = .ok text ∧ ∀ front inner,
      laidOut (opened front inner ++ [closing]) ++ text =
        laidOut (opened front inner ++ otherLines other) := by
  cases other with
  | none => exact ⟨"", by rw [otherBranch], by simp [otherLines]⟩
  | some s =>
      obtain ⟨first, rest, begins⟩ := stmtLines_begins s
      refine ⟨_, by rw [otherBranch, each s rfl inside]; rfl, fun front inner => ?_⟩
      rw [otherLines, begins, behind, laidOut_opened_append, laidOut_opened_append, laidOut_front, closing,
        laidOut_singleton]
      simp only [String.append_assoc]

end Texts

theorem exists_clause {s : Stmt} (clause : s.isClause = true) : ∃ text, clause? s = some text := by
  rw [← Option.ne_none_iff_exists', ne_eq, clause?_eq_none_iff, clause]
  decide

theorem initializer_eq {init : Option Stmt} {cond update : Option Expr} {body : List Stmt}
    (clause : (Node.stmt (.forLoop init cond update body)).stray? = none) :
    initializer init = .ok ((init.bind clause?).getD "") := by
  cases init with
  | none => rfl
  | some s =>
      obtain ⟨text, is⟩ := exists_clause (Node.stray?_eq_none_iff.mp clause s ⟨_, _, _, rfl⟩)
      simp [initializer, is]

/-- A statement is written as its lines. -/
theorem stmt_eq {s : Stmt} (inside : ∀ n ∈ s.nodes, n.HasLines) :
    stmt s = .ok (laidOut (stmtLines s)) := by
  induction s using Stmt.inductionOn with
  | declare | print | expr | breakLoop | continueLoop => rw [stmt, stmtLines, laidOut_singleton]
  | function name params body ih =>
      obtain ⟨-, inside⟩ := List.forall_mem_cons.mp inside
      obtain ⟨text, written, joined⟩ := block_eq ih inside
      rw [stmt, stmtLines, written, ← joined]
      rfl
  | conditional cond body other ih ihOther =>
      obtain ⟨-, inside⟩ := List.forall_mem_cons.mp inside
      obtain ⟨inside, inOther⟩ := List.forall_mem_append.mp inside
      obtain ⟨-, inBody⟩ := List.forall_mem_append.mp inside
      obtain ⟨text, written, joined⟩ := block_eq ih inBody
      obtain ⟨otherText, writtenOther, continued⟩ := otherBranch_eq ihOther inOther
      rw [stmt, stmtLines, written, writtenOther, ← continued, ← joined]
      rfl
  | whileLoop cond body ih =>
      obtain ⟨-, inside⟩ := List.forall_mem_cons.mp inside
      obtain ⟨-, inBody⟩ := List.forall_mem_append.mp inside
      obtain ⟨text, written, joined⟩ := block_eq ih inBody
      rw [stmt, stmtLines, written, ← joined]
      rfl
  | forLoop init cond update body _ ih =>
      obtain ⟨here, inside⟩ := List.forall_mem_cons.mp inside
      obtain ⟨-, inBody⟩ := List.forall_mem_append.mp inside
      obtain ⟨text, written, joined⟩ := block_eq ih inBody
      rw [stmt, stmtLines, initializer_eq here.clause, written, ← joined]
      rfl
  | result value => cases value <;> rw [stmt, stmtLines, laidOut_singleton]
  | block body ih =>
      obtain ⟨-, inside⟩ := List.forall_mem_cons.mp inside
      obtain ⟨text, written, joined⟩ := block_eq ih inside
      rw [stmt, stmtLines, written, ← joined, String.empty_append]

/-! ## Programs -/

section Programs

variable {p : Program}

theorem intercalate_laidOut (body : List Stmt) :
    "\n".intercalate (body.map fun s => laidOut (stmtLines s)) = laidOut (bodyLines body) := by
  induction body with
  | nil => rw [bodyLines, List.map_nil]; rfl
  | cons s rest ih =>
      obtain ⟨text, others, begins⟩ := stmtLines_begins s
      cases rest with
      | nil => rw [bodyLines, bodyLines, List.append_nil, List.map_singleton, String.intercalate_singleton]
      | cons next rest =>
          obtain ⟨text', others', begins'⟩ := stmtLines_begins next
          have nonempty : stmtLines s ≠ [] := by simp [begins]
          have nonempty' : bodyLines (next :: rest) ≠ [] := by simp [bodyLines, begins']
          rw [bodyLines, laidOut_append nonempty nonempty', ← ih]
          exact String.intercalate_cons_cons

theorem program_eq (inside : ∀ n ∈ p.nodes, n.HasLines) : program p = .ok (laidOut (programLines p)) := by
  have written := stmts_eq (fun s _ => stmt_eq) inside
  rw [program, ← stmts_eq_mapM, written, programLines, ← intercalate_laidOut]
  rfl

theorem isLine_programLines (unbroken : ∀ n ∈ p.nodes, n.Unbroken) :
    ∀ l ∈ programLines p, IsLine l.text :=
  isLine_bodyLines (fun _ _ => isLine_stmtLines) unbroken

theorem strictModule_eq (inside : ∀ n ∈ p.nodes, n.HasLines) (name : String) :
    strictModule p name = .ok ("// Generated from MinangScript\n// Module: " ++ name ++
      "\n\n(function() \x7b\n    'use strict';\n\n" ++
      String.join ((programLines p).map fun l => "    " ++ l.written ++ "\n") ++ "\n\x7d)();\n") := by
  have each := isLine_programLines fun n member => (inside n member).toUnbroken
  have found : lines (laidOut (programLines p)) = (programLines p).map CodeLine.written :=
    lines_intercalate (List.forall_mem_map.mpr fun l member => isLine_written (each l member))
  have rows : ((programLines p).map CodeLine.written).map moduleLine =
      (programLines p).map fun l => "    " ++ l.written ++ "\n" := by
    rw [List.map_map]
    refine List.map_congr_left fun l member => ?_
    have nonempty := (isLine_written (each l member)).nonempty
    rw [Function.comp_apply, moduleLine, if_neg (mt String.isEmpty_iff.mp nonempty)]
  rw [strictModule, program_eq inside, ← rows, ← found]
  rfl

end Programs

/-! ## Statements in blocks -/

/-- The statements stand between braces of the statement: its own or those of its other branch. -/
inductive HasBody (body : List Stmt) : Stmt → Prop where
  | function (name : Ident) (params : List Ident) : HasBody body (.function name params body)
  | branch (cond : Expr) (other : Option Stmt) : HasBody body (.conditional cond body other)
  | other (cond : Expr) (first : List Stmt) {s : Stmt} (has : HasBody body s) :
      HasBody body (.conditional cond first (some s))
  | whileLoop (cond : Expr) : HasBody body (.whileLoop cond body)
  | forLoop (init : Option Stmt) (cond update : Option Expr) :
      HasBody body (.forLoop init cond update body)
  | block : HasBody body (.block body)

/-- The statement is nested in a number of blocks among the statements. -/
inductive Nested (s : Stmt) : Nat → List Stmt → Prop where
  | here {body : List Stmt} (member : s ∈ body) : Nested s 0 body
  | inside {depth : Nat} {body inner : List Stmt} {whole : Stmt} (member : whole ∈ body)
      (has : HasBody inner whole) (nested : Nested s depth inner) : Nested s (depth + 1) body

theorem infix_stmtLines {body : List Stmt} {s : Stmt} (has : HasBody body s) :
    (bodyLines body).map (CodeLine.within 1) <:+: (stmtLines s).tail := by
  induction has with
  | other cond first has ih =>
      rename_i s
      obtain ⟨text, rest, begins⟩ := stmtLines_begins s
      rw [begins] at ih
      rw [stmtLines, otherLines, begins]
      exact ih.trans ((List.suffix_cons _ _).trans (List.suffix_append _ _)).isInfix
  | _ =>
      rw [stmtLines]
      exact (List.prefix_append _ _).isInfix

/-- The lines of a nested statement are its own, in as many blocks as it is nested in. -/
theorem infix_bodyLines {s : Stmt} {depth : Nat} {body : List Stmt} (nested : Nested s depth body) :
    (stmtLines s).map (CodeLine.within depth) <:+: bodyLines body := by
  have whole : ∀ {s : Stmt} {body : List Stmt}, s ∈ body → stmtLines s <:+: bodyLines body := by
    intro s body member
    obtain ⟨before, after, rfl⟩ := List.append_of_mem member
    exact ⟨bodyLines before, bodyLines after, by simp [bodyLines_eq_flatMap]⟩
  induction nested with
  | here member =>
      have same : ((stmtLines s).map (CodeLine.within 0)) = stmtLines s := List.map_id _
      rw [same]
      exact whole member
  | inside member has nested ih =>
      have inner := (ih.map (CodeLine.within 1)).trans (infix_stmtLines has)
      rw [List.map_map] at inner
      exact (inner.trans (List.tail_suffix _).isInfix).trans (whole member)

theorem mem_nodes_of_hasBody {n : Node} {body : List Stmt} {s : Stmt} (has : HasBody body s)
    (member : n ∈ Stmt.nodesEach body) : n ∈ s.nodes := by
  induction has with
  | other cond first has ih => simp [Stmt.nodes, Stmt.nodesOptional, ih]
  | _ => simp [Stmt.nodes, member]

theorem mem_nodesEach_of_nested {n : Node} {s : Stmt} {depth : Nat} {body : List Stmt}
    (nested : Nested s depth body) (member : n ∈ s.nodes) : n ∈ Stmt.nodesEach body := by
  induction nested with
  | here inside => exact Stmt.mem_nodesEach_iff.mpr ⟨_, inside, member⟩
  | inside inside has nested ih =>
      exact Stmt.mem_nodesEach_iff.mpr ⟨_, inside, mem_nodes_of_hasBody has ih⟩

/-! ## Expressions in lines -/

/-- The text of an expression stands in one of the lines. -/
def StandsAmong (e : Expr) (rows : List CodeLine) : Prop :=
  ∃ l ∈ rows, Stands e l.text

section StandsAmong

variable {e : Expr} {text front : String} {inner rest : List CodeLine}

theorem Stands.behind (stands : Stands e text) (front : String) : Stands e (front ++ text) :=
  stands.trans ⟨front.toList, [], by simp⟩

theorem Stands.before (stands : Stands e text) (back : String) : Stands e (text ++ back) :=
  stands.trans ⟨[], back.toList, by simp⟩

theorem standsAmong_single (stands : Stands e text) : StandsAmong e [⟨0, text⟩] :=
  ⟨_, List.mem_singleton_self _, stands⟩

theorem standsAmong_front (stands : Stands e front) : StandsAmong e (opened front inner ++ rest) :=
  ⟨_, List.mem_append_left _ List.mem_cons_self, stands.before _⟩

theorem standsAmong_inner (among : StandsAmong e inner) : StandsAmong e (opened front inner ++ rest) := by
  obtain ⟨l, member, stands⟩ := among
  exact ⟨l.within 1, List.mem_append_left _ (List.mem_cons_of_mem _ (List.mem_map_of_mem member)), stands⟩

theorem standsAmong_rest (among : StandsAmong e rest) : StandsAmong e (opened front inner ++ rest) := by
  obtain ⟨l, member, stands⟩ := among
  exact ⟨l, List.mem_append_right _ member, stands⟩

theorem standsAmong_behind (among : StandsAmong e rest) (front : String) :
    StandsAmong e (behind front rest) := by
  obtain ⟨l, member, stands⟩ := among
  cases rest with
  | nil => cases member
  | cons first rest =>
      obtain rfl | later := List.mem_cons.mp member
      · exact ⟨_, List.mem_cons_self, stands.behind front⟩
      · exact ⟨l, List.mem_cons_of_mem _ later, stands⟩

end StandsAmong

theorem standsAmong_bodyLines {e : Expr} {body : List Stmt} (each : ∀ s ∈ body,
      (∀ n ∈ s.nodes, n.stray? = none) → .expr e ∈ s.nodes → StandsAmong e (stmtLines s))
    (clauses : ∀ n ∈ Stmt.nodesEach body, n.stray? = none) (inside : .expr e ∈ Stmt.nodesEach body) :
    StandsAmong e (bodyLines body) := by
  obtain ⟨s, member, inside⟩ := Stmt.mem_nodesEach_iff.mp inside
  have all := fun n within => clauses n (Stmt.mem_nodesEach_iff.mpr ⟨s, member, within⟩)
  obtain ⟨l, among, stands⟩ := each s member all inside
  rw [bodyLines_eq_flatMap]
  exact ⟨l, List.mem_flatMap.mpr ⟨s, member, among⟩, stands⟩

theorem stands_getD_clause {e : Expr} {s : Stmt} (clause : s.isClause = true) (inside : .expr e ∈ s.nodes) :
    Stands e ((clause? s).getD "") := by
  obtain ⟨text, is⟩ := exists_clause clause
  rw [is]
  exact stands_clause inside is

theorem stands_optional {e : Expr} {whole : Option Expr} (inside : .expr e ∈ Expr.nodesOptional whole)
    (wrapped : Bool) : Stands e ((whole.map (exprIn wrapped)).getD "") := by
  cases whole with
  | none => cases inside
  | some whole => exact stands_exprIn inside wrapped

/-- An expression is written on one line of the statement that it is in. -/
theorem standsAmong_stmtLines {e : Expr} {s : Stmt} (clauses : ∀ n ∈ s.nodes, n.stray? = none)
    (inside : .expr e ∈ s.nodes) : StandsAmong e (stmtLines s) := by
  induction s using Stmt.inductionOn with
  | declare | print | expr =>
      rw [stmtLines]
      exact standsAmong_single ((stands_getD_clause rfl inside).before ";")
  | function name params body ih =>
      obtain ⟨-, clauses⟩ := List.forall_mem_cons.mp clauses
      have inside := (List.mem_cons.mp inside).resolve_left nofun
      rw [stmtLines]
      exact standsAmong_inner (standsAmong_bodyLines ih clauses inside)
  | conditional cond body other ih ihOther =>
      obtain ⟨-, clauses⟩ := List.forall_mem_cons.mp clauses
      obtain ⟨clauses, inOther⟩ := List.forall_mem_append.mp clauses
      obtain ⟨-, inBody⟩ := List.forall_mem_append.mp clauses
      have inside := (List.mem_cons.mp inside).resolve_left nofun
      rw [stmtLines]
      obtain inFront | last := List.mem_append.mp inside
      · obtain first | second := List.mem_append.mp inFront
        · exact standsAmong_front (((stands_exprIn first true).behind "if (").before ") ")
        · exact standsAmong_inner (standsAmong_bodyLines ih inBody second)
      · cases other with
        | none => cases last
        | some s =>
            rw [otherLines]
            exact standsAmong_rest (standsAmong_behind (ihOther s rfl inOther last) _)
  | whileLoop cond body ih =>
      obtain ⟨-, clauses⟩ := List.forall_mem_cons.mp clauses
      have inside := (List.mem_cons.mp inside).resolve_left nofun
      rw [stmtLines]
      obtain inCond | inBody := List.mem_append.mp inside
      · exact standsAmong_front (((stands_exprIn inCond true).behind "while (").before ") ")
      · exact standsAmong_inner (standsAmong_bodyLines ih (List.forall_mem_append.mp clauses).2 inBody)
  | forLoop init cond update body _ ih =>
      obtain ⟨here, clauses⟩ := List.forall_mem_cons.mp clauses
      obtain ⟨-, inBody⟩ := List.forall_mem_append.mp clauses
      have inside := (List.mem_cons.mp inside).resolve_left nofun
      rw [stmtLines]
      obtain inHead | last := List.mem_append.mp inside
      · refine standsAmong_front (Stands.before ?_ ") ")
        obtain inFront | third := List.mem_append.mp inHead
        · refine Stands.before (Stands.before ?_ "; ") _
          obtain first | second := List.mem_append.mp inFront
          · refine Stands.before (Stands.before (Stands.behind ?_ "for (") "; ") _
            cases init with
            | none => cases first
            | some s =>
                exact stands_getD_clause (Node.stray?_eq_none_iff.mp here s ⟨_, _, _, rfl⟩) first
          · exact (stands_optional second true).behind _
        · exact (stands_optional third false).behind _
      · exact standsAmong_inner (standsAmong_bodyLines ih inBody last)
  | result value =>
      have inside := (List.mem_cons.mp inside).resolve_left nofun
      cases value with
      | none => cases inside
      | some whole =>
          rw [stmtLines]
          exact standsAmong_single (((stands_exprIn inside true).behind "return ").before ";")
  | breakLoop | continueLoop => exact absurd inside (by simp [Stmt.nodes])
  | block body ih =>
      obtain ⟨-, clauses⟩ := List.forall_mem_cons.mp clauses
      have inside := (List.mem_cons.mp inside).resolve_left nofun
      rw [stmtLines]
      exact standsAmong_inner (standsAmong_bodyLines ih clauses inside)

/-! ## The whole program -/

/-- The literals of an expression itself: a string or the keys of an object, quoted, or a regular
    expression. -/
def literalTexts : Expr → List String
  | .literal (.string text) => [quote text]
  | .literal (.regex pattern flags) => ["/" ++ pattern ++ "/" ++ flags]
  | .object properties => properties.map fun p => quote p.1
  | _ => []

theorem infix_of_mem_literalTexts {e : Expr} {text : String} (member : text ∈ literalTexts e)
    (wrapped : Bool) : text.toList <:+: (exprIn wrapped e).toList := by
  cases e with
  | literal value =>
      cases value with
      | string | regex =>
          obtain rfl := List.mem_singleton.mp member
          rw [exprIn, literal]
      | _ => cases member
  | object ps =>
      obtain ⟨p, inside, rfl⟩ := List.mem_map.mp member
      have field : quote p.1 ++ ": " ++ expr p.2 ∈ fields ps := by
        rw [fields_eq_map]
        exact List.mem_map_of_mem inside
      have front : (quote p.1).toList <:+: (quote p.1 ++ ": " ++ expr p.2).toList :=
        ⟨[], ": ".toList ++ (expr p.2).toList, by simp⟩
      exact (front.trans (infix_commaList field)).trans ⟨['\x7b'], ['\x7d'], by simp [exprIn]⟩
  | _ => cases member

/-- If no name and no regular expression in a program has a line feed, whatever stands in its strings and
    keys, its code is its lines joined by line feeds, each behind two spaces for every block around it. The
    lines of a nested statement are the lines that it has by itself, further in by two spaces for every
    block; each literal stands in one piece on a line; and a module has the same lines behind four more
    spaces. Only a program with a loop that cannot be written has no code. -/
theorem indentation_is_layout {p : Program} (unbroken : ∀ n ∈ p.nodes, n.Unbroken) :
    ((∃ e, program p = .error e) ∧
      ∃ n ∈ p.nodes, ∃ init, n.LoopsFrom init ∧ init.isClause = false) ∨
    (program p =
        .ok ("\n".intercalate ((programLines p).map fun l => margin l.depth ++ l.text)) ∧
      (∀ l ∈ programLines p, '\n' ∉ l.text.toList) ∧
      (∀ s depth, Nested s depth p.body →
        stmt s = .ok ("\n".intercalate ((stmtLines s).map CodeLine.written)) ∧
        ((stmtLines s).map fun l => margin depth ++ l.written) <:+:
          (programLines p).map CodeLine.written) ∧
      (∀ e, .expr e ∈ p.nodes → ∀ text ∈ literalTexts e,
        ∃ l ∈ programLines p, text.toList <:+: l.text.toList) ∧
      ∀ name, strictModule p name = .ok ("// Generated from MinangScript\n// Module: " ++ name ++
        "\n\n(function() \x7b\n    'use strict';\n\n" ++
        String.join ((programLines p).map fun l => "    " ++ (margin l.depth ++ l.text) ++ "\n") ++
        "\n\x7d)();\n")) := by
  have refused := program_refused p
  cases found : firstStray? p.nodes with
  | some init =>
      rw [found] at refused
      obtain ⟨n, member, stray⟩ := List.exists_of_findSome?_eq_some found
      exact .inl ⟨⟨_, refused⟩, n, member, init, Node.stray?_eq_some_iff.mp stray⟩
  | none =>
      have clauses := List.findSome?_eq_none_iff.mp found
      have inside : ∀ n ∈ p.nodes, n.HasLines := fun n member => ⟨unbroken n member, clauses n member⟩
      refine .inr ⟨program_eq inside, fun l member => (isLine_programLines unbroken l member).unbroken,
        fun s depth nested => ⟨?_, ?_⟩, fun e member text literal => ?_, strictModule_eq inside⟩
      · exact stmt_eq fun n member => inside n (mem_nodesEach_of_nested nested member)
      · have rows := (infix_bodyLines nested).map CodeLine.written
        rw [List.map_map] at rows
        simp only [Function.comp_def, written_within] at rows
        exact rows
      · obtain ⟨l, line, own, stands⟩ := standsAmong_bodyLines (fun _ _ => standsAmong_stmtLines) clauses member
        exact ⟨l, line, (infix_of_mem_literalTexts literal own).trans stands⟩

/-- A string with a line feed in the last branch of a conditional. -/
theorem indentation_is_layout_last_branch :
    let s : Stmt := .expr (.literal (.string "x\n  y"))
    let p : Program := ⟨[.conditional (.ident ⟨"a", ⟨1, 1⟩⟩) [] (some (.conditional
      (.ident ⟨"b", ⟨1, 1⟩⟩) [] (some (.block [.block [s]]))))]⟩
    (∀ n ∈ p.nodes, n.Unbroken) ∧ Nested s 2 p.body ∧
      program p = .ok ("if (a) \x7b\n\x7d else if (b) \x7b\n\x7d else \x7b\n  \x7b\n    " ++
        "\"x\\n  y\";\n  \x7d\n\x7d") := by
  intro s p
  have unbroken : ∀ n ∈ p.nodes, n.Unbroken := by
    intro n member
    simp only [p, s, Program.nodes, Stmt.nodesEach, Stmt.nodes, Stmt.nodesOptional, Expr.nodes,
      List.append_nil, List.cons_append, List.nil_append, List.mem_cons, List.not_mem_nil, or_false]
      at member
    rcases member with rfl | rfl | rfl | rfl | rfl | rfl | rfl | rfl <;>
      exact ⟨by simp [Node.idents], by simp⟩
  refine ⟨unbroken, ?_, ?_⟩
  · refine .inside (List.mem_singleton_self _) (.other _ _ (.other _ _ .block)) ?_
    exact .inside (List.mem_singleton_self _) .block (.here (List.mem_singleton_self _))
  · obtain ⟨-, n, member, init, ⟨cond, update, body, rfl⟩, -⟩ | ⟨code, -⟩ :=
      indentation_is_layout unbroken
    · simp [p, s, Program.nodes, Stmt.nodesEach, Stmt.nodes, Stmt.nodesOptional, Expr.nodes] at member
    · rw [code]
      exact congrArg Except.ok (by decide +kernel)

end JavaScript

end MinangScript
