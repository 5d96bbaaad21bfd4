import MinangScript.JavaScript.Emit
import MinangScript.Proofs.Decimal.DigitsOnly
import MinangScript.Proofs.Parser.Rendering
import MinangScript.Proofs.Program.Origins

/-! # Where a written statement and a written member begin

A JavaScript statement must not begin with a brace, which opens a block there, and a point behind digits
belongs to the number. An expression statement is put in parentheses if it is an object literal itself,
but not if it only begins with one; and what a member is taken of is never put in parentheses. So a
statement begins with a brace exactly when an object literal is called, or a member of one is taken, at its
beginning, and digits stand before a point exactly when a member is taken of a whole number that is
written out in full.
-/

namespace MinangScript

/-! ## Nodes inside of nodes -/

/-- The nodes of a node, itself first. -/
def Node.nodes : Node → List Node
  | .expr e => e.nodes
  | .stmt s => s.nodes

section Inside

variable {m n : Node}

theorem mem_append_of_imp {first second : List Node} (here : n ∈ first → m ∈ first)
    (there : n ∈ second → m ∈ second) (outside : n ∈ first ++ second) : m ∈ first ++ second :=
  List.mem_append.mpr ((List.mem_append.mp outside).imp here there)

/-- It is enough to look at the nodes behind the first, which is the whole. -/
theorem mem_cons_of_imp {whole : Node} {others : List Node} (is : whole.nodes = whole :: others)
    (inside : m ∈ n.nodes) (deeper : n ∈ others → m ∈ others) (outside : n ∈ whole :: others) :
    m ∈ whole :: others := by
  obtain rfl | later := List.mem_cons.mp outside
  · rwa [is] at inside
  · exact List.mem_cons_of_mem _ (deeper later)

namespace Expr

theorem nodesEach_trans {es : List Expr} (each : ∀ e ∈ es, n ∈ e.nodes → m ∈ e.nodes) :
    n ∈ nodesEach es → m ∈ nodesEach es := by
  induction es with
  | nil => exact nofun
  | cons e rest ih =>
      obtain ⟨here, later⟩ := List.forall_mem_cons.mp each
      exact mem_append_of_imp here (ih later)

theorem nodesProperties_trans {ps : List (String × Expr)}
    (each : ∀ p ∈ ps, n ∈ p.2.nodes → m ∈ p.2.nodes) :
    n ∈ nodesProperties ps → m ∈ nodesProperties ps := by
  induction ps with
  | nil => exact nofun
  | cons p rest ih =>
      obtain ⟨here, later⟩ := List.forall_mem_cons.mp each
      exact mem_append_of_imp here (ih later)

/-- What is inside of a node of an expression is inside of the expression. -/
theorem nodes_trans (inside : m ∈ n.nodes) (e : Expr) : n ∈ e.nodes → m ∈ e.nodes := by
  induction e using Expr.inductionOn with
  | assign target value ih | unary op value ih | member value property ih =>
      exact mem_cons_of_imp rfl inside ih
  | binary left op right ihLeft ihRight =>
      exact mem_cons_of_imp rfl inside (mem_append_of_imp ihLeft ihRight)
  | call callee args ih ihArgs =>
      exact mem_cons_of_imp rfl inside (mem_append_of_imp ih (nodesEach_trans ihArgs))
  | ident | literal => exact mem_cons_of_imp rfl inside nofun
  | array items ih => exact mem_cons_of_imp rfl inside (nodesEach_trans ih)
  | object ps ih => exact mem_cons_of_imp rfl inside (nodesProperties_trans ih)

theorem nodesOptional_trans (inside : m ∈ n.nodes) (e : Option Expr) :
    n ∈ nodesOptional e → m ∈ nodesOptional e := by
  cases e with
  | none => exact nofun
  | some e => exact nodes_trans inside e

end Expr

namespace Stmt

theorem nodesEach_trans {body : List Stmt} (each : ∀ s ∈ body, n ∈ s.nodes → m ∈ s.nodes) :
    n ∈ nodesEach body → m ∈ nodesEach body := by
  induction body with
  | nil => exact nofun
  | cons s rest ih =>
      obtain ⟨here, later⟩ := List.forall_mem_cons.mp each
      exact mem_append_of_imp here (ih later)

theorem nodesOptional_trans {other : Option Stmt} (each : ∀ s ∈ other, n ∈ s.nodes → m ∈ s.nodes) :
    n ∈ nodesOptional other → m ∈ nodesOptional other := by
  cases other with
  | none => exact nofun
  | some s => exact each s rfl

/-- What is inside of a node of a statement is inside of the statement. -/
theorem nodes_trans (inside : m ∈ n.nodes) (s : Stmt) : n ∈ s.nodes → m ∈ s.nodes := by
  induction s using Stmt.inductionOn with
  | declare kind name init => exact mem_cons_of_imp rfl inside (Expr.nodesOptional_trans inside init)
  | function name params body ih | block body ih =>
      exact mem_cons_of_imp rfl inside (nodesEach_trans ih)
  | conditional cond body other ihBody ihOther =>
      exact mem_cons_of_imp rfl inside (mem_append_of_imp
        (mem_append_of_imp (cond.nodes_trans inside) (nodesEach_trans ihBody)) (nodesOptional_trans ihOther))
  | whileLoop cond body ih =>
      exact mem_cons_of_imp rfl inside (mem_append_of_imp (cond.nodes_trans inside) (nodesEach_trans ih))
  | forLoop init cond update body ihInit ihBody =>
      exact mem_cons_of_imp rfl inside (mem_append_of_imp (mem_append_of_imp (mem_append_of_imp
        (nodesOptional_trans ihInit) (Expr.nodesOptional_trans inside cond))
        (Expr.nodesOptional_trans inside update)) (nodesEach_trans ihBody))
  | result value => exact mem_cons_of_imp rfl inside (Expr.nodesOptional_trans inside value)
  | breakLoop | continueLoop => exact mem_cons_of_imp rfl inside nofun
  | print arg | expr arg => exact mem_cons_of_imp rfl inside (arg.nodes_trans inside)

end Stmt

/-- What is inside of a node of a program is a node of the program. -/
theorem Program.nodes_trans {p : Program} (outside : n ∈ p.nodes) (inside : m ∈ n.nodes) : m ∈ p.nodes :=
  Stmt.nodesEach_trans (fun s _ => s.nodes_trans inside) outside

end Inside

/-! ## What a text begins with -/

namespace Expr

/-- What the text of an expression begins with: what is called there, or what a member is taken of. -/
def front : Expr → Expr
  | call callee _ => callee.front
  | member base _ => base.front
  | e => e

/-- Whether the expression is an object literal. -/
def isObject : Expr → Bool
  | object _ => true
  | _ => false

theorem front_mem_nodes (e : Expr) : .expr e.front ∈ e.nodes := by
  induction e using Expr.inductionOn with
  | call callee args ih _ => exact List.mem_cons_of_mem _ (List.mem_append_left _ ih)
  | member base property ih => exact List.mem_cons_of_mem _ ih
  | _ => exact mem_nodes_self _

end Expr

/-- The names of the node are words. -/
def Node.NamedByWords (n : Node) : Prop :=
  ∀ id ∈ n.idents, IsWord id.name.toList

/-- The names in a program that was read are words of its source. -/
theorem namedByWords_of_parse {source : String} {p : Program} (read : parse source = .ok p) :
    ∀ n ∈ p.nodes, n.NamedByWords := by
  intro n member id named
  have fits := parse_allFit (fun _ => Naming.spelledIn_allows) read
  obtain ⟨_, _, -, -, isWord, -⟩ := Naming.spelled_of_fits (fits n member) id named
  exact isWord

/-- The characters that the text of a number can begin with. -/
def BeginsNumber (c : Char) : Prop :=
  c.isDigit = true ∨ c = '-' ∨ c = 'N' ∨ c = 'I'

theorem Number.text_begins (n : Float) : ∃ c rest, (text n).toList = c :: rest ∧ BeginsNumber c := by
  cases is : Binary64.ofFloat n with
  | nan => exact ⟨'N', ['a', 'N'], by rw [text, is]; rfl, .inr (.inr (.inl rfl))⟩
  | infinite negative =>
      rw [text, is]
      cases negative with
      | false => exact ⟨'I', _, rfl, .inr (.inr (.inr rfl))⟩
      | true => exact ⟨'-', _, rfl, .inr (.inl rfl)⟩
  | finite negative s e =>
      obtain rfl | nonzero := Nat.eq_zero_or_pos s
      · exact ⟨'0', [], by rw [text_zero is]; rfl, .inl rfl⟩
      · rw [text_finite is nonzero, String.toList_ofList]
        cases negative with
        | true => exact ⟨'-', _, rfl, .inr (.inl rfl)⟩
        | false =>
            have trimmed := (Decimal.isShortest_shortest (Binary64.isDouble_of_ofBits is) nonzero).trimmed
            obtain ⟨m, -, neat, written⟩ := written_decimal trimmed
            obtain ⟨c, rest, begins, digit⟩ := (written.isText neat).isNumeral.starts
            exact ⟨c, rest, begins, .inl digit⟩

namespace JavaScript

/-! ## The first character -/

theorem literal_begins (value : Literal) :
    ∃ c rest, (literal value).toList = c :: rest ∧ c ≠ '\x7b' := by
  cases value with
  | number n =>
      obtain ⟨c, rest, begins, first⟩ := Number.text_begins n
      refine ⟨c, rest, begins, ?_⟩
      rintro rfl
      exact absurd first (by unfold BeginsNumber; decide)
  | string text => exact ⟨'"', _, by rw [literal, quote, String.toList_ofList]; rfl, by decide⟩
  | bool value => cases value <;> exact ⟨_, _, rfl, by decide⟩
  | null => exact ⟨'n', _, rfl, by decide⟩
  | regex pattern flags => exact ⟨'/', _, by simp [literal]; rfl, by decide⟩

/-- An expression begins as its front does. -/
theorem exprIn_begins (e : Expr) (named : (Node.expr e.front).NamedByWords) (wrapped : Bool) :
    ∃ c rest, (exprIn wrapped e).toList = c :: rest ∧ (c = '\x7b' ↔ e.front.isObject = true) := by
  have word : ∀ {c : Char}, Lexeme.isWordStart c = true → c ≠ '\x7b' := by
    rintro _ starts rfl
    cases starts
  induction e using Expr.inductionOn generalizing wrapped with
  | assign target value =>
      cases wrapped with
      | true => exact ⟨'(', _, by simp [exprIn, parens]; rfl, by simp [Expr.front, Expr.isObject]⟩
      | false =>
          obtain ⟨c, rest, spelled, starts, -⟩ := named target (List.mem_singleton_self _)
          have brace : c = '\x7b' ↔ false = true := by simp [word starts]
          exact ⟨c, _, by simp [exprIn, parens, spelled]; rfl, brace⟩
  | binary => exact ⟨'(', _, by simp [exprIn]; rfl, by simp [Expr.front, Expr.isObject]⟩
  | unary => exact ⟨'(', _, by simp [exprIn]; rfl, by simp [Expr.front, Expr.isObject]⟩
  | call callee args ih =>
      obtain ⟨c, rest, begins, brace⟩ := ih named true
      exact ⟨c, _, by simp [exprIn, begins]; rfl, brace⟩
  | member base property ih =>
      obtain ⟨c, rest, begins, brace⟩ := ih named true
      exact ⟨c, _, by simp [exprIn, begins]; rfl, brace⟩
  | ident id =>
      obtain ⟨c, rest, spelled, starts, -⟩ := named id (List.mem_singleton_self _)
      exact ⟨c, rest, spelled, by simp [word starts, Expr.front, Expr.isObject]⟩
  | literal value =>
      obtain ⟨c, rest, begins, other⟩ := literal_begins value
      exact ⟨c, rest, begins, by simp [other, Expr.front, Expr.isObject]⟩
  | array => exact ⟨'[', _, by simp [exprIn]; rfl, by simp [Expr.front, Expr.isObject]⟩
  | object => exact ⟨'\x7b', _, by simp [exprIn]; rfl, by simp [Expr.front, Expr.isObject]⟩

/-- An expression statement begins with a brace if an object literal stands at its front, unless it is
    the whole statement. -/
theorem clause_begins {e : Expr} (named : (Node.expr e.front).NamedByWords) :
    ∃ text, clause? (.expr e) = some text ∧ stmt (.expr e) = .ok (text ++ ";") ∧
      (text.toList.head? = some '\x7b' ↔ e.front.isObject = true ∧ e.isObject = false) := by
  by_cases whole : e.isObject = true
  · obtain ⟨properties, rfl⟩ : ∃ properties, e = .object properties := by
      cases e with
      | object properties => exact ⟨properties, rfl⟩
      | _ => cases whole
    refine ⟨_, rfl, by rw [stmt, clause?]; rfl, ?_⟩
    simp [Expr.isObject]
  · have clause : clause? (.expr e) = some (bare e) := by
      cases e with
      | object => exact absurd rfl whole
      | _ => rfl
    obtain ⟨c, rest, begins, brace⟩ := exprIn_begins e named false
    refine ⟨bare e, clause, by rw [stmt, clause]; rfl, ?_⟩
    simp [bare, begins, brace, whole]

/-! ## Digits in front of a point -/

/-- Of all expressions only a whole number is written as digits alone. -/
theorem allDigits_expr_iff {e : Expr} (named : (Node.expr e).NamedByWords) :
    (∀ c ∈ (expr e).toList, c.isDigit = true) ↔
      ∃ v, e = .literal (.number v) ∧ Number.IsPlainWhole v := by
  -- one character that is no digit settles all expressions but numbers
  have other : ∀ c, c.isDigit = false → c ∈ (expr e).toList → (∀ v, e ≠ .literal (.number v)) →
      ((∀ c ∈ (expr e).toList, c.isDigit = true) ↔
        ∃ v, e = .literal (.number v) ∧ Number.IsPlainWhole v) :=
    fun c noDigit member noNumber =>
      iff_of_false (Number.not_allDigits noDigit member) fun ⟨v, is, _⟩ => noNumber v is
  cases e with
  | assign => exact other '(' rfl (by simp [expr, exprIn, parens]) (by simp)
  | binary => exact other '(' rfl (by simp [expr, exprIn]) (by simp)
  | unary => exact other '(' rfl (by simp [expr, exprIn]) (by simp)
  | call => exact other '(' rfl (by simp [expr, exprIn]) (by simp)
  | member => exact other '.' rfl (by simp [expr, exprIn]) (by simp)
  | ident id =>
      obtain ⟨c, rest, spelled, starts, -⟩ := named id (List.mem_singleton_self _)
      refine other c (Lexeme.isDigit_of_isWordStart starts) ?_ (by simp)
      simp [expr, exprIn, spelled]
  | literal value =>
      cases value with
      | number v =>
          have shown : expr (.literal (.number v)) = Number.text v := by simp [expr, exprIn, literal]
          rw [shown, Number.allDigits_text_iff]
          exact ⟨fun whole => ⟨v, rfl, whole⟩, by rintro ⟨_, ⟨⟩, whole⟩; exact whole⟩
      | string => exact other '"' rfl (by simp [expr, exprIn, literal, quote]) (by simp)
      | bool value => exact other 'e' rfl (by cases value <;> simp [expr, exprIn, literal]) (by simp)
      | null => exact other 'n' rfl (by simp [expr, exprIn, literal]) (by simp)
      | regex => exact other '/' rfl (by simp [expr, exprIn, literal]) (by simp)
  | array => exact other '[' rfl (by simp [expr, exprIn]) (by simp)
  | object => exact other '\x7b' rfl (by simp [expr, exprIn]) (by simp)

/-- A member is written as digits and its name behind a point exactly when it is taken of a whole
    number. -/
theorem member_of_digits_iff {base : Expr} (named : (Node.expr base).NamedByWords) (property : Ident)
    (wrapped : Bool) :
    (∃ digits, (∀ c ∈ digits, c.isDigit = true) ∧
      (exprIn wrapped (.member base property)).toList = digits ++ '.' :: property.name.toList) ↔
      ∃ v, base = .literal (.number v) ∧ Number.IsPlainWhole v := by
  have text : (exprIn wrapped (.member base property)).toList =
      (expr base).toList ++ '.' :: property.name.toList := by simp [exprIn, expr]
  rw [← allDigits_expr_iff named, text]
  constructor
  · rintro ⟨digits, all, same⟩
    rwa [List.append_cancel_right same]
  · exact fun all => ⟨_, all, rfl⟩

/-- In the JavaScript of a program that was read, an expression statement begins with a brace exactly when
    an object literal stands at its front and is not all of it, and nothing but digits stands before the
    point of a member exactly when the member is taken of a whole number below `10 ^ 21`. -/
theorem boundaries_kept_iff {source : String} {p : Program} (read : parse source = .ok p) :
    (∀ e, .stmt (.expr e) ∈ p.nodes → ∃ text,
      clause? (.expr e) = some text ∧ stmt (.expr e) = .ok (text ++ ";") ∧
      (text.toList.head? = some '\x7b' ↔ e.front.isObject = true ∧ e.isObject = false)) ∧
    ∀ base property wrapped, .expr (.member base property) ∈ p.nodes →
      ((∃ digits, (∀ c ∈ digits, c.isDigit = true) ∧
        (exprIn wrapped (.member base property)).toList = digits ++ '.' :: property.name.toList) ↔
        ∃ v, base = .literal (.number v) ∧ Number.IsPlainWhole v) := by
  have named := namedByWords_of_parse read
  constructor
  · intro e member
    have inside : .expr e.front ∈ (Node.stmt (.expr e)).nodes :=
      List.mem_cons_of_mem _ e.front_mem_nodes
    exact clause_begins (named _ (Program.nodes_trans member inside))
  · intro base property wrapped member
    have inside : .expr base ∈ (Node.expr (.member base property)).nodes :=
      List.mem_cons_of_mem _ base.mem_nodes_self
    exact member_of_digits_iff (named _ (Program.nodes_trans member inside)) property wrapped

/-- A member of a variable. -/
theorem boundaries_kept_iff_variable :
    ∃ e property, parse "x.y" = .ok ⟨[.expr (.member e property)]⟩ ∧
      (∃ text, stmt (.expr (.member e property)) = .ok (text ++ ";") ∧
        text.toList.head? ≠ some '\x7b') ∧
      ¬∃ digits, (∀ c ∈ digits, c.isDigit = true) ∧
        (exprIn true (.member e property)).toList = digits ++ '.' :: property.name.toList := by
  have read : parse "x.y" = .ok ⟨[.expr (.member (.ident ⟨"x", ⟨1, 1⟩⟩) ⟨"y", ⟨1, 3⟩⟩)]⟩ := by cbv
  obtain ⟨statements, members⟩ := boundaries_kept_iff read
  obtain ⟨text, -, written, begins⟩ := statements _ List.mem_cons_self
  refine ⟨_, _, read, ⟨text, written, ?_⟩, ?_⟩
  · rw [ne_eq, begins]
    decide
  · rw [members _ _ true (List.mem_cons_of_mem _ List.mem_cons_self)]
    rintro ⟨v, is, -⟩
    cases is

/-- A member of an object literal is a statement that begins with a brace. -/
theorem object_member_begins_with_brace :
    ∃ e, parse "(\x7b\x7d).b" = .ok ⟨[.expr e]⟩ ∧ ∃ text, stmt (.expr e) = .ok text ∧
      program ⟨[.expr e]⟩ = .ok text ∧ text.toList.head? = some '\x7b' := by
  have read : parse "(\x7b\x7d).b" = .ok ⟨[.expr (.member (.object []) ⟨"b", ⟨1, 6⟩⟩)]⟩ := by cbv
  have written : stmt (.expr (.member (.object []) ⟨"b", ⟨1, 6⟩⟩)) = .ok "\x7b\x7d.b;" := by
    simp [stmt, clause?, bare, exprIn, fields, commaList]
  refine ⟨_, read, _, written, ?_, by decide⟩
  rw [program, List.mapM_cons, written]
  rfl

end JavaScript

end MinangScript
