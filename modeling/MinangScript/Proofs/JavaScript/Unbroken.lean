import MinangScript.Proofs.Decimal.DigitsOnly
import MinangScript.Proofs.JavaScript.Refusals
import MinangScript.Proofs.JavaScript.Tokens
import MinangScript.Proofs.Program.Origins

/-! # Clauses on one line

What is written for an expression has no line feed, since a string is written with its line feeds escaped
and a number has only digits, letters, signs and points. Only a name and a regular expression are written
as they are. And what is written for a part of an expression stands in one piece in what is written for
the whole.
-/

namespace MinangScript

/-- A line feed stands neither in a name of the node nor in the regular expression that it is. -/
structure Node.Unbroken (n : Node) : Prop where
  names : ∀ id ∈ n.idents, '\n' ∉ id.name.toList
  regex : ∀ pattern flags, n = .expr (.literal (.regex pattern flags)) →
    '\n' ∉ pattern.toList ∧ '\n' ∉ flags.toList

namespace Expr

variable {n : Node}

theorem nodesEach_eq_flatMap (es : List Expr) : nodesEach es = es.flatMap nodes := by
  induction es with
  | nil => rfl
  | cons e rest ih => rw [nodesEach, ih, List.flatMap_cons]

theorem nodesProperties_eq_flatMap (ps : List (String × Expr)) :
    nodesProperties ps = ps.flatMap fun p => p.2.nodes := by
  induction ps with
  | nil => rfl
  | cons p rest ih => rw [nodesProperties, ih, List.flatMap_cons]

theorem mem_nodesEach_iff {es : List Expr} : n ∈ nodesEach es ↔ ∃ e ∈ es, n ∈ e.nodes := by
  rw [nodesEach_eq_flatMap, List.mem_flatMap]

theorem mem_nodesProperties_iff {ps : List (String × Expr)} :
    n ∈ nodesProperties ps ↔ ∃ p ∈ ps, n ∈ p.2.nodes := by
  rw [nodesProperties_eq_flatMap, List.mem_flatMap]

end Expr

theorem Stmt.nodesEach_eq_flatMap (body : List Stmt) : nodesEach body = body.flatMap nodes := by
  induction body with
  | nil => rfl
  | cons s rest ih => rw [nodesEach, ih, List.flatMap_cons]

theorem Stmt.mem_nodesEach_iff {n : Node} {body : List Stmt} :
    n ∈ nodesEach body ↔ ∃ s ∈ body, n ∈ s.nodes := by
  rw [nodesEach_eq_flatMap, List.mem_flatMap]

theorem Numeral.IsText.unbroken {m : Numeral} {text : List Char} (is : m.IsText text) : '\n' ∉ text := by
  have noDigit : ∀ {digits : List Char}, (∀ c ∈ digits, c.isDigit = true) → '\n' ∉ digits :=
    fun digits member => absurd (digits _ member) (by decide)
  obtain ⟨point, power, rfl, powers, points⟩ := is.parts
  refine List.not_mem_append (List.not_mem_append (noDigit is.whole) ?_) ?_
  · obtain ⟨rfl, -⟩ | rfl := points
    · exact List.not_mem_nil
    · exact List.not_mem_cons_of_ne_of_not_mem (by decide) (noDigit is.fraction)
  · obtain rfl | ⟨sign, digits, rfl, signs, all⟩ := powers.cases_eq
    · exact List.not_mem_nil
    · have other : '\n' ≠ sign := by rcases signs with rfl | rfl <;> decide
      exact List.not_mem_cons_of_ne_of_not_mem (by decide)
        (List.not_mem_cons_of_ne_of_not_mem other (noDigit all))

theorem Number.text_unbroken (n : Float) : '\n' ∉ (text n).toList := by
  cases is : Binary64.ofFloat n with
  | nan =>
      have shown : text n = "NaN" := by rw [text, is]; rfl
      rw [shown]
      decide
  | infinite negative =>
      rw [text, is]
      cases negative <;> decide
  | finite negative s e =>
      obtain rfl | nonzero := Nat.eq_zero_or_pos s
      · rw [text_zero is]
        decide
      · rw [text_finite is nonzero, String.toList_ofList]
        have trimmed := (Decimal.isShortest_shortest (Binary64.isDouble_of_ofBits is) nonzero).trimmed
        obtain ⟨m, -, neat, written⟩ := written_decimal trimmed
        refine List.not_mem_append ?_ (written.isText neat).unbroken
        cases negative <;> decide

namespace JavaScript

theorem quote_unbroken (text : String) : '\n' ∉ (quote text).toList := by
  have escaped : ∀ c, '\n' ∉ escapedChar c := by
    intro c
    unfold escapedChar
    split_ifs with _ _ feed
    iterate 5 decide
    exact fun member => feed (List.mem_singleton.mp member).symm
  simp [quote, escaped]

/-! ## Lists of parts -/

section Parts

variable {part : String} {parts : List String}

theorem commaList_unbroken (each : ∀ part ∈ parts, '\n' ∉ part.toList) :
    '\n' ∉ (commaList parts).toList := by
  induction parts with
  | nil => exact List.not_mem_nil
  | cons part rest ih =>
      obtain ⟨here, later⟩ := List.forall_mem_cons.mp each
      cases rest with
      | nil => simpa [commaList] using here
      | cons next rest =>
          rw [commaList, String.intercalate_cons_cons, String.toList_append, String.toList_append]
          exact List.not_mem_append (List.not_mem_append here (by decide)) (ih later)

theorem infix_commaList (member : part ∈ parts) : part.toList <:+: (commaList parts).toList := by
  induction parts with
  | nil => cases member
  | cons first rest ih =>
      cases rest with
      | nil =>
          obtain rfl := List.mem_singleton.mp member
          simp [commaList]
      | cons next rest =>
          rw [commaList, String.intercalate_cons_cons, String.toList_append, String.toList_append]
          obtain rfl | later := List.mem_cons.mp member
          · rw [List.append_assoc]
            exact (List.prefix_append _ _).isInfix
          · exact (ih later).trans (List.suffix_append _ _).isInfix

end Parts

/-! ## Expressions -/

theorem literal_unbroken {value : Literal} (unbroken : (Node.expr (.literal value)).Unbroken) :
    '\n' ∉ (literal value).toList := by
  cases value with
  | number n => exact Number.text_unbroken n
  | string text => exact quote_unbroken text
  | bool value => cases value <;> decide
  | null => decide
  | regex pattern flags =>
      obtain ⟨inPattern, inFlags⟩ := unbroken.regex pattern flags rfl
      simp [literal, inPattern, inFlags]

theorem exprIn_unbroken {e : Expr} (unbroken : ∀ n ∈ e.nodes, n.Unbroken) (wrapped : Bool) :
    '\n' ∉ (exprIn wrapped e).toList := by
  induction e using Expr.inductionOn generalizing wrapped with
  | assign target value ih =>
      obtain ⟨here, inside⟩ := List.forall_mem_cons.mp unbroken
      have name := here.names target (List.mem_singleton_self _)
      cases wrapped <;> simp [exprIn, parens, name, ih inside]
  | binary left op right ihLeft ihRight =>
      obtain ⟨-, inside⟩ := List.forall_mem_cons.mp unbroken
      obtain ⟨inLeft, inRight⟩ := List.forall_mem_append.mp inside
      have sign : '\n' ∉ (operator op).toList := by cases op <;> decide
      simp [exprIn, sign, ihLeft inLeft, ihRight inRight]
  | unary op operand ih =>
      obtain ⟨-, inside⟩ := List.forall_mem_cons.mp unbroken
      have sign : '\n' ∉ op.spelling.toList := by cases op <;> decide
      simp [exprIn, sign, ih inside]
  | call callee args ih ihArgs =>
      obtain ⟨-, inside⟩ := List.forall_mem_cons.mp unbroken
      obtain ⟨inCallee, inArgs⟩ := List.forall_mem_append.mp inside
      have list : '\n' ∉ (commaList (exprs args)).toList := by
        rw [exprs_eq_map]
        refine commaList_unbroken (List.forall_mem_map.mpr fun e member => ihArgs e member ?_ true)
        exact fun n within => inArgs n (Expr.mem_nodesEach_iff.mpr ⟨_, member, within⟩)
      simp [exprIn, ih inCallee, list]
  | member base property ih =>
      obtain ⟨here, inside⟩ := List.forall_mem_cons.mp unbroken
      have name := here.names property (List.mem_singleton_self _)
      simp [exprIn, name, ih inside]
  | ident id =>
      have name := (unbroken _ (Expr.mem_nodes_self _)).names id (List.mem_singleton_self _)
      simpa [exprIn] using name
  | literal value =>
      rw [exprIn]
      exact literal_unbroken (unbroken _ (Expr.mem_nodes_self _))
  | array items ih =>
      obtain ⟨-, inside⟩ := List.forall_mem_cons.mp unbroken
      have list : '\n' ∉ (commaList (exprs items)).toList := by
        rw [exprs_eq_map]
        refine commaList_unbroken (List.forall_mem_map.mpr fun e member => ih e member ?_ true)
        exact fun n within => inside n (Expr.mem_nodesEach_iff.mpr ⟨_, member, within⟩)
      simp [exprIn, list]
  | object ps ih =>
      obtain ⟨-, inside⟩ := List.forall_mem_cons.mp unbroken
      have list : '\n' ∉ (commaList (fields ps)).toList := by
        rw [fields_eq_map]
        refine commaList_unbroken (List.forall_mem_map.mpr fun p member => ?_)
        have value := ih p member
          (fun n within => inside n (Expr.mem_nodesProperties_iff.mpr ⟨_, member, within⟩)) true
        simp [quote_unbroken, value]
      simp [exprIn, list]

/-! ## Parts in the whole -/

/-- The text of an expression stands in one piece in a text. -/
def Stands (e : Expr) (text : String) : Prop :=
  ∃ own, (exprIn own e).toList <:+: text.toList

theorem Stands.trans {e : Expr} {text whole : String} (stands : Stands e text)
    (part : text.toList <:+: whole.toList) : Stands e whole :=
  let ⟨own, inside⟩ := stands
  ⟨own, inside.trans part⟩

/-- An expression of a list stands in one of the texts of the list. -/
theorem Stands.commaList {e : Expr} {text : String} {parts : List String} (stands : Stands e text)
    (member : text ∈ parts) {front back : String} : Stands e (front ++ commaList parts ++ back) := by
  refine (stands.trans (infix_commaList member)).trans ⟨front.toList, back.toList, ?_⟩
  simp

theorem stands_of_mem_cons {part whole : Expr} {others : List Node} {wrapped : Bool}
    (inside : .expr part ∈ .expr whole :: others)
    (deeper : .expr part ∈ others → Stands part (exprIn wrapped whole)) :
    Stands part (exprIn wrapped whole) := by
  obtain same | inside := List.mem_cons.mp inside
  · cases same
    exact ⟨wrapped, List.infix_rfl⟩
  · exact deeper inside

/-- A part of an expression stands in the whole. -/
theorem stands_exprIn {part e : Expr} (inside : .expr part ∈ e.nodes) (wrapped : Bool) :
    Stands part (exprIn wrapped e) := by
  induction e using Expr.inductionOn generalizing wrapped with
  | assign target value ih =>
      refine stands_of_mem_cons inside fun inValue => (ih inValue false).trans ?_
      cases wrapped with
      | false => exact ⟨target.name.toList ++ [' ', '=', ' '], [], by simp [exprIn, parens]⟩
      | true => exact ⟨'(' :: target.name.toList ++ [' ', '=', ' '], [')'], by simp [exprIn, parens]⟩
  | binary left op right ihLeft ihRight =>
      refine stands_of_mem_cons inside fun inside => ?_
      obtain inLeft | inRight := List.mem_append.mp inside
      · exact (ihLeft inLeft true).trans ⟨['('], _, by simp [exprIn]; rfl⟩
      · refine (ihRight inRight true).trans ⟨?_, [')'], ?_⟩
        · exact '(' :: (exprIn true left).toList ++ ' ' :: (operator op).toList ++ [' ']
        · simp [exprIn]
  | unary op operand ih =>
      refine stands_of_mem_cons inside fun inside => (ih inside true).trans ?_
      exact ⟨'(' :: op.spelling.toList, [')'], by simp [exprIn]⟩
  | call callee args ih ihArgs =>
      refine stands_of_mem_cons inside fun inside => ?_
      obtain inCallee | inArgs := List.mem_append.mp inside
      · exact (ih inCallee true).trans ⟨[], _, by simp [exprIn]; rfl⟩
      · obtain ⟨e, member, inside⟩ := Expr.mem_nodesEach_iff.mp inArgs
        rw [exprIn, exprs_eq_map]
        exact (ihArgs e member inside true).commaList (List.mem_map_of_mem member)
  | member base property ih =>
      refine stands_of_mem_cons inside fun inside => (ih inside true).trans ?_
      exact ⟨[], _, by simp [exprIn]; rfl⟩
  | ident | literal => exact stands_of_mem_cons inside nofun
  | array items ih =>
      refine stands_of_mem_cons inside fun inside => ?_
      obtain ⟨e, member, inside⟩ := Expr.mem_nodesEach_iff.mp inside
      rw [exprIn, exprs_eq_map]
      exact (ih e member inside true).commaList (List.mem_map_of_mem member)
  | object ps ih =>
      refine stands_of_mem_cons inside fun inside => ?_
      obtain ⟨p, member, inside⟩ := Expr.mem_nodesProperties_iff.mp inside
      rw [exprIn, fields_eq_map]
      refine ((ih p member inside true).trans ?_).commaList (List.mem_map_of_mem member)
      exact ⟨(quote p.1 ++ ": ").toList, [], by simp⟩

/-! ## Clauses -/

theorem clause_unbroken {s : Stmt} (unbroken : ∀ n ∈ s.nodes, n.Unbroken) {text : String}
    (is : clause? s = some text) : '\n' ∉ text.toList := by
  cases s with
  | declare kind name init =>
      obtain ⟨here, inside⟩ := List.forall_mem_cons.mp unbroken
      have word : '\n' ∉ (declKeyword kind).toList := by cases kind <;> decide
      have named := here.names name (List.mem_singleton_self _)
      cases init with
      | none =>
          cases is
          simp [word, named]
      | some value =>
          cases is
          simp [word, named, bare, exprIn_unbroken inside]
  | print arg =>
      obtain ⟨-, inside⟩ := List.forall_mem_cons.mp unbroken
      cases is
      simp [expr, exprIn_unbroken inside]
  | expr value =>
      obtain ⟨-, inside⟩ := List.forall_mem_cons.mp unbroken
      cases value with
      | object =>
          cases is
          simpa [expr] using exprIn_unbroken inside true
      | _ =>
          cases is
          exact exprIn_unbroken inside false
  | _ => cases is

theorem stands_clause {e : Expr} {s : Stmt} (inside : .expr e ∈ s.nodes) {text : String}
    (is : clause? s = some text) : Stands e text := by
  cases s with
  | declare kind name init =>
      have inside := (List.mem_cons.mp inside).resolve_left nofun
      cases init with
      | none => cases inside
      | some value =>
          cases is
          refine (stands_exprIn inside false).trans ⟨?_, [], ?_⟩
          · exact (declKeyword kind).toList ++ ' ' :: name.name.toList ++ [' ', '=', ' ']
          · simp [bare]
  | print arg =>
      have inside := (List.mem_cons.mp inside).resolve_left nofun
      cases is
      exact (stands_exprIn inside true).trans ⟨"console.log(".toList, [')'], by simp [expr]⟩
  | expr value =>
      have inside := (List.mem_cons.mp inside).resolve_left nofun
      cases value with
      | object =>
          cases is
          exact (stands_exprIn inside true).trans ⟨['('], [')'], by simp [expr]⟩
      | _ =>
          cases is
          exact stands_exprIn inside false
  | _ => cases is

end JavaScript

end MinangScript
