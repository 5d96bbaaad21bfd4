import MinangScript.Proofs.Parser.Comparison

/-! # The parsers of two levels side by side

Each parser of a level follows itself when what is nested is read by levels that follow each other,
so levels of the same depth do. In the lists between brackets, where line feeds do not count, the
parsers are loose until the closing bracket.
-/

namespace MinangScript

namespace Parser

open Reader (iterate)
open TokenStream (Leads Passes)

namespace Comparison

variable {C : Comparison} {α β : Type}

/-- Two levels that follow each other. -/
structure Levels (C : Comparison) (inner inner' : Level) : Prop where
  statement : C.Sim False inner.statement inner'.statement
  expression : C.Sim False inner.expression inner'.expression
  operand : C.Sim False inner.operand inner'.operand
  elseIf : C.Sim False inner.elseIf inner'.elseIf
  consuming : inner.Consuming
  consuming' : inner'.Consuming

namespace Levels

variable {inner inner' : Level}

theorem isInner_symbol {symbol : Symbol} (other : symbol ≠ .semicolon) :
    IsInner (.symbol symbol) where
  endOfText := rfl
  newline := rfl
  semicolon := Bool.eq_false_iff.mpr fun is =>
    other (TokenKind.symbol.inj (beq_symbol_iff.mp is)).symm

/-- At the end and at a separator there is nothing more to read, and both parses stop. -/
theorem sim_kind_of_stop {f f' : TokenKind → Parser α}
    (each : ∀ k, C.SimAhead False (f k) (f' k)) {value : α} (ended : f .endOfText = pure value)
    (newline : f' .newline = pure value) (semicolon : f' (.symbol .semicolon) = pure value) :
    C.Sim False (kind >>= f) (kind >>= f') := by
  refine sim_kind each fun s s' k beside _ is => ?_
  have stopped : f' k = pure value := by
    unfold isSeparator at is
    split at is
    · exact newline
    · exact semicolon
    · cases is
  rw [ended, stopped]
  exact sim_pure value s s' beside

/-! ## Lists between brackets -/

theorem sim_comma : C.Sim True comma comma := by
  refine (sim_skip isNewline).bind_loose (fun _ => ?_) fun _ => ?_
  · refine sim_isAt (isInner_symbol (by decide)) ?_ (sim_pure false)
    exact simAhead_advance.bind fun _ => (sim_skip isNewline).bind_loose (fun _ => sim_pure true)
      fun _ => forward_pure true
  · refine (forward_isAt _).bind fun found => ?_
    cases found with
    | true =>
        exact forward_advance.bind fun _ => forward_skipNewlines.bind fun _ => forward_pure true
    | false => exact forward_pure false

/-- After an item it is asked whether a comma promises another one. -/
theorem sim_asks {f : Bool → β} : C.Sim True (do return f (← comma)) (do return f (← comma)) :=
  sim_comma.bind_loose (fun _ => sim_pure _) fun _ => forward_pure _

theorem consumes_closing (close : Symbol) (value : α) : Consumes (do
    expect (.symbol close)
    return value) :=
  (consumes_expect_symbol close).bind fun _ => forward_pure value

theorem sim_closing (close : Symbol) (value : α) : C.Sim False
    (do expect (.symbol close); return value) (do expect (.symbol close); return value) :=
  (sim_expect_symbol close).bind fun _ => sim_pure value

/-- The items of a list and its closing bracket. -/
theorem sim_closed {items items' : Parser α} (sim : C.Sim True items items') (close : Symbol)
    (f : α → β) : C.Sim False (do let a ← items; expect (.symbol close); return f a)
      (do let a ← items'; expect (.symbol close); return f a) :=
  sim.close (fun a => sim_closing close (f a)) fun a => (consumes_closing close (f a)).failsAtEnd

theorem consumes_closed {items : Parser α} (forward : Forward items) (close : Symbol) (f : α → β) :
    Consumes (do let a ← items; expect (.symbol close); return f a) :=
  forward.bind_consumes fun a => consumes_closing close (f a)

theorem sim_nextArg (levels : C.Levels inner inner') (args : List Expr) :
    C.Sim True (nextArg inner args) (nextArg inner' args) :=
  levels.expression.bind fun _ => sim_asks

theorem sim_callArgs (levels : C.Levels inner inner') :
    C.Sim False (callArgs C.rounds inner) (callArgs C.rounds' inner') := by
  have forward := fun args => (consumes_nextArg levels.consuming args).forward
  have asks := fun args s => (consumes_nextArg levels.consuming args s).asksAt
  have asks' := fun args s => (consumes_nextArg levels.consuming' args s).asksAt
  refine (sim_expect_symbol .leftParen).bind fun _ => ?_
  refine (sim_skip isNewline).close (fun _ => ?_) fun _ => ?_
  · refine sim_isAt (isInner_symbol (by decide)) ?_ ?_
    · exact (sim_closed (sim_pure []) _ _).ahead
    · exact sim_closed (sim_iterate levels.sim_nextArg forward asks asks' []) _ _
  · refine Consumes.failsAtEnd ((forward_isAt _).bind_consumes fun empty => ?_)
    cases empty with
    | true => exact consumes_closed (forward_pure []) _ _
    | false => exact consumes_closed (forward_iterate forward C.rounds []) _ _

theorem sim_nextItem (levels : C.Levels inner inner') (items : List Expr) :
    C.Sim True (nextItem inner items) (nextItem inner' items) := by
  refine sim_isAt (isInner_symbol (by decide)) (sim_pure _).ahead ?_
  exact levels.expression.bind fun _ => sim_asks

theorem sim_arrayLiteral (levels : C.Levels inner inner') :
    C.Sim False (arrayLiteral C.rounds inner) (arrayLiteral C.rounds' inner') := by
  have forward := forward_nextItem levels.consuming
  have items := sim_iterate levels.sim_nextItem forward (asksAt_nextItem levels.consuming)
    (asksAt_nextItem levels.consuming') []
  refine (sim_expect_symbol .leftBracket).bind fun _ => ?_
  refine (sim_skip isNewline).close (fun _ => sim_closed items _ _) fun _ => ?_
  exact (consumes_closed (forward_iterate forward C.rounds []) _ _).failsAtEnd

theorem sim_propertyKey : C.Sim False propertyKey propertyKey := by
  refine sim_kind (fun k => ?_) fun s s' k _ spent _ => ?_
  · split
    · exact simAhead_advance.bind fun _ => sim_pure _
    · exact simAhead_advance.bind fun _ => sim_pure _
    · exact simAhead_advance.bind fun _ => sim_pure _
    · exact (sim_fail _).ahead
  · exact .error fun noMore => absurd noMore spent.goesOn

theorem sim_nextProperty (levels : C.Levels inner inner') (properties : List (String × Expr)) :
    C.Sim True (nextProperty inner properties) (nextProperty inner' properties) := by
  refine sim_isAt (isInner_symbol (by decide)) (sim_pure _).ahead ?_
  refine sim_propertyKey.bind fun _ => (sim_expect_symbol .colon).bind fun _ => ?_
  exact levels.expression.bind fun _ => sim_asks

theorem sim_objectLiteral (levels : C.Levels inner inner') :
    C.Sim False (objectLiteral C.rounds inner) (objectLiteral C.rounds' inner') := by
  have forward := forward_nextProperty levels.consuming
  have properties := sim_iterate levels.sim_nextProperty forward
    (asksAt_nextProperty levels.consuming) (asksAt_nextProperty levels.consuming') []
  refine (sim_expect_symbol .leftBrace).bind fun _ => ?_
  refine (sim_skip isNewline).close (fun _ => sim_closed properties _ _) fun _ => ?_
  exact (consumes_closed (forward_iterate forward C.rounds []) _ _).failsAtEnd

/-! ## Expressions -/

theorem sim_interpolation (levels : C.Levels inner inner') :
    C.Sim False (interpolation inner) (interpolation inner') := by
  have inside : IsInner .interpolationEnd := ⟨rfl, rfl, rfl⟩
  refine sim_isAt inside (simAhead_advance.bind fun _ => sim_pure _) ?_
  exact levels.expression.bind fun _ => (sim_expect inside).bind fun _ => sim_pure _

theorem sim_nextPart (levels : C.Levels inner inner') (parts : List Expr) :
    C.Sim False (nextPart inner parts) (nextPart inner' parts) := by
  refine sim_kind_of_stop (fun k => ?_) rfl rfl rfl
  split
  · refine simAhead_advance.bind fun _ => ?_
    exact sim_isAt ⟨rfl, rfl, rfl⟩ (sim_pure _).ahead (sim_pure _)
  · refine simAhead_advance.bind fun _ => levels.sim_interpolation.bind fun value => ?_
    refine sim_kind_of_stop (fun k => ?_) rfl rfl rfl
    split <;> exact (sim_pure _).ahead
  · exact (sim_pure _).ahead

theorem asksAt_nextPart (consuming : inner.Consuming) (parts : List Expr) (s : TokenStream) :
    AsksAt s (nextPart inner parts) := by
  by_cases ended : s.current.kind = .endOfText
  · refine asksAt_kind ?_
    rw [ended]
    exact asksAt_stop s parts
  · have moved := consumesAt_advance ended
    refine asksAt_kind ?_
    split
    · exact (moved.bind fun _ => (forward_isAt _).bind fun _ => forward_pure _).asksAt
    · refine ConsumesAt.asksAt
        (moved.bind fun _ => (forward_interpolation consuming).bind fun _ => ?_)
      refine forward_kind.bind fun k => ?_
      split <;> exact forward_pure _
    · exact asksAt_stop s parts

theorem sim_templateLiteral (levels : C.Levels inner inner') :
    C.Sim False (templateLiteral C.rounds inner) (templateLiteral C.rounds' inner') := by
  refine Sim.bind ?_ fun parts => sim_pure _
  exact sim_iterate levels.sim_nextPart (forward_nextPart levels.consuming)
    (asksAt_nextPart levels.consuming) (asksAt_nextPart levels.consuming') []

theorem sim_parenthesized (levels : C.Levels inner inner') :
    C.Sim False (parenthesized inner) (parenthesized inner') :=
  (sim_expect_symbol _).bind fun _ => levels.expression.bind fun _ => sim_closing _ _

theorem sim_primary (levels : C.Levels inner inner') :
    C.Sim False (primary C.rounds inner) (primary C.rounds' inner') := by
  have taken : ∀ value : Expr, C.SimAhead False (do advance; return value)
      (do advance; return value) := fun value => simAhead_advance.bind fun _ => sim_pure value
  refine SimAhead.sim (simAhead_current fun t => ?_)
    (consumes_primary levels.consuming C.positive).failsAtEnd
  split
  · exact taken _
  · exact taken _
  · exact taken _
  · exact taken _
  · exact taken _
  · exact taken _
  · exact taken _
  · exact taken _
  · exact levels.sim_templateLiteral.ahead
  · exact levels.sim_templateLiteral.ahead
  · exact levels.sim_parenthesized.ahead
  · exact levels.sim_arrayLiteral.ahead
  · exact levels.sim_objectLiteral.ahead
  · exact (sim_fail _).ahead

theorem sim_nextSuffix (levels : C.Levels inner inner') (value : Expr) :
    C.Sim False (nextSuffix C.rounds inner value) (nextSuffix C.rounds' inner' value) := by
  refine sim_kind_of_stop (fun k => ?_) rfl rfl rfl
  split
  · exact (levels.sim_callArgs.bind fun _ => sim_pure _).ahead
  · exact simAhead_advance.bind fun _ => (sim_identOr _).bind fun _ => sim_pure _
  · split
    · exact (sim_pure _).ahead
    · split
      · exact simAhead_advance.bind fun _ => sim_pure _
      · exact (sim_fail _).ahead

theorem sim_postfixed (levels : C.Levels inner inner') :
    C.Sim False (postfixed C.rounds inner) (postfixed C.rounds' inner') :=
  levels.sim_primary.bind fun first =>
    sim_iterate levels.sim_nextSuffix (forward_nextSuffix levels.consuming)
      (asksAt_nextSuffix levels.consuming) (asksAt_nextSuffix levels.consuming') first

theorem sim_prefixed (levels : C.Levels inner inner') :
    C.Sim False (prefixed C.rounds inner) (prefixed C.rounds' inner') := by
  refine SimAhead.sim (simAhead_kind fun k => ?_)
    (consumes_prefixed levels.consuming C.positive).failsAtEnd
  split
  · exact simAhead_advance.bind fun _ => levels.operand.bind fun _ => sim_pure _
  · exact simAhead_advance.bind fun _ => levels.operand.bind fun _ => sim_pure _
  · split
    · exact levels.sim_postfixed.ahead
    · refine simAhead_advance.bind fun _ => levels.sim_postfixed.bind fun value => ?_
      split
      · exact sim_pure _
      · exact sim_fail _

theorem sim_joinRight {right right' : Nat → Parser Expr}
    (sim : ∀ power, C.Sim False (right power) (right' power)) (power : Nat) (left : Expr) :
    C.Sim False (joinRight right power left) (joinRight right' power left) := by
  refine sim_kind_of_stop (fun k => ?_) rfl rfl rfl
  split
  · exact (sim_pure _).ahead
  · split
    · exact (sim_pure _).ahead
    · exact simAhead_advance.bind fun _ => (sim _).bind fun _ => sim_pure _

theorem sim_binary (levels : C.Levels inner inner') (steps power : Nat) :
    C.Sim False (binary C.rounds inner steps power) (binary C.rounds' inner' steps power) := by
  induction steps generalizing power with
  | zero => exact levels.sim_prefixed
  | succ steps ih =>
      have forward := fun power =>
        (consumes_binary levels.consuming C.positive steps power).forward
      have forward' := fun power =>
        (consumes_binary levels.consuming' C.positive' steps power).forward
      refine levels.sim_prefixed.bind fun first => ?_
      exact sim_iterate (sim_joinRight ih power) (forward_joinRight forward power)
        (asksAt_joinRight forward power) (asksAt_joinRight forward' power) first

theorem sim_expressionBody (levels : C.Levels inner inner') :
    C.Sim False (expressionBody C.rounds inner) (expressionBody C.rounds' inner') := by
  refine (levels.sim_binary powerSteps 0).bind fun left => ?_
  refine sim_kind_of_stop (fun k => ?_) rfl rfl rfl
  split
  · exact (sim_pure _).ahead
  · split
    · exact simAhead_advance.bind fun _ => levels.expression.bind fun _ => sim_pure _
    · exact (sim_fail _).ahead

/-! ## Statements -/

theorem sim_nextInBlock (levels : C.Levels inner inner') (body : List Stmt) :
    C.Sim False (nextInBlock inner body) (nextInBlock inner' body) := by
  refine (sim_skip isSeparator).close (fun _ => ?_) fun _ s ended => ?_
  · refine sim_kind (fun k => ?_) fun s s' k _ spent _ => ?_
    · split
      · exact (sim_pure _).ahead
      · exact (sim_fail _).ahead
      · exact (levels.statement.bind fun _ => sim_pure _).ahead
    · exact .error fun noMore => absurd noMore spent.goesOn
  · rw [kind_bind, TokenStream.current, ended]
    exact ⟨_, rfl⟩

theorem sim_block (levels : C.Levels inner inner') :
    C.Sim False (block C.rounds inner) (block C.rounds' inner') := by
  refine (sim_expect_symbol .leftBrace).bind fun _ => ?_
  refine Sim.bind ?_ fun body => sim_closing _ _
  exact sim_iterate levels.sim_nextInBlock (forward_nextInBlock levels.consuming)
    (asksAt_nextInBlock levels.consuming) (asksAt_nextInBlock levels.consuming') []

theorem simAhead_declaration (levels : C.Levels inner inner') (declKind : DeclKind) :
    C.SimAhead False (declaration inner declKind) (declaration inner' declKind) := by
  refine simAhead_advance.bind fun _ => (sim_identOr _).bind fun name => ?_
  refine sim_isAt (isInner_symbol (by decide)) ?_ ?_
  · exact simAhead_advance.bind fun _ => levels.expression.bind fun _ => sim_pure _
  · by_cases const : declKind = .constDecl
    · simp only [Bool.false_eq_true, if_false, const, if_true]
      exact sim_fail _
    · simp only [Bool.false_eq_true, if_false, const]
      exact sim_pure _

theorem sim_nextParam (params : List Ident) :
    C.Sim False (nextParam params) (nextParam params) := by
  refine (sim_identOr _).bind fun param => ?_
  exact sim_isAt (isInner_symbol (by decide)) (simAhead_advance.bind fun _ => sim_pure _)
    (sim_pure _)

theorem sim_parameters : C.Sim False (parameters C.rounds) (parameters C.rounds') := by
  have forward := fun params => (consumes_nextParam params).forward
  have asks := fun params s => (consumes_nextParam params s).asksAt
  refine (sim_expect_symbol .leftParen).bind fun _ => ?_
  refine sim_isAt (isInner_symbol (by decide)) ?_ ?_
  · exact ((sim_pure []).bind fun _ => sim_closing _ _).ahead
  · exact (sim_iterate sim_nextParam forward asks asks []).bind fun _ => sim_closing _ _

theorem simAhead_functionDeclaration (levels : C.Levels inner inner') :
    C.SimAhead False (functionDeclaration C.rounds inner)
      (functionDeclaration C.rounds' inner') := by
  refine simAhead_advance.bind fun _ => (sim_identOr _).bind fun name => ?_
  exact sim_parameters.bind fun params => levels.sim_block.bind fun _ => sim_pure _

/-- Behind a spent stream no other branch begins, so both parses go back to where they were. -/
theorem sim_otherBranch (levels : C.Levels inner inner') :
    C.Sim False (otherBranch C.rounds inner) (otherBranch C.rounds' inner') := by
  intro s s' beside
  have back : C.Follows False s (.ok ((none : Option Stmt), s)) (.ok (none, s')) :=
    .ok (Leads.refl s) beside
  simp only [otherBranch, get_bind, skipNewlines_bind, kind_bind]
  obtain spent | ⟨left, later⟩ := beside.dropWhile isNewline
  · rw [Beside.ended spent]
    obtain ⟨notElse, notElseIf⟩ : (s'.dropWhile isNewline).current.kind ≠ .keyword .elseWord ∧
        (s'.dropWhile isNewline).current.kind ≠ .keyword .elseIfWord := by
      have behind : (s'.dropWhile isNewline).ahead = C.more.dropWhile fun t => isNewline t.kind := by
        have empty := spent.ahead
        simp only [TokenStream.dropWhile] at empty
        simp only [TokenStream.dropWhile, beside.ahead, List.dropWhile_append, empty,
          List.isEmpty_nil, if_true]
      rw [TokenStream.current, behind]
      cases all : C.more.dropWhile fun t => isNewline t.kind with
      | nil => exact ⟨TokenKind.noConfusion, TokenKind.noConfusion⟩
      | cons t rest => exact C.noBranch t (by rw [all]; rfl)
    generalize (s'.dropWhile isNewline).current.kind = k at notElse notElseIf
    cases k with
    | keyword word =>
        cases word with
        | elseWord => exact absurd rfl notElse
        | elseIfWord => exact absurd rfl notElseIf
        | _ => exact back
    | _ => exact back
  · have skipped := s.leads_dropWhile isNewline
    have branch : C.SimAhead False (do
        advance
        if ← isAt (.keyword .ifWord) then return some (← inner.statement)
        else return some (.block (← block C.rounds inner))) (do
        advance
        if ← isAt (.keyword .ifWord) then return some (← inner'.statement)
        else return some (.block (← block C.rounds' inner'))) :=
      simAhead_advance.bind fun _ => sim_isAt ⟨rfl, rfl, rfl⟩
        (levels.statement.bind fun _ => sim_pure _).ahead (levels.sim_block.bind fun _ => sim_pure _)
    rw [later.current left]
    cases (s.dropWhile isNewline).current.kind with
    | keyword word =>
        cases word with
        | elseWord => exact (branch _ _ later left).after skipped
        | elseIfWord => exact ((levels.elseIf.bind fun _ => sim_pure _) _ _ later).after skipped
        | _ => exact back
    | _ => exact back

theorem simAhead_conditional (levels : C.Levels inner inner') :
    C.SimAhead False (conditional C.rounds inner) (conditional C.rounds' inner') := by
  refine simAhead_advance.bind fun _ => levels.expression.bind fun cond => ?_
  exact levels.sim_block.bind fun body => levels.sim_otherBranch.bind fun _ => sim_pure _

theorem simAhead_whileLoop (levels : C.Levels inner inner') :
    C.SimAhead False (whileLoop C.rounds inner) (whileLoop C.rounds' inner') := by
  refine simAhead_advance.bind fun _ => levels.expression.bind fun cond => ?_
  exact levels.sim_block.bind fun body => sim_pure _

/-- The closing token of a clause is needed, even if it is a separator. -/
theorem sim_clause (close : Symbol) {parser parser' : Parser α}
    (sim : C.Sim False parser parser') (forward : Forward parser) :
    C.Sim False (clause close parser) (clause close parser') := by
  refine SimAhead.sim (simAhead_isAt fun empty => ?_) ?_
  · cases empty with
    | true => exact ((sim_pure none).bind fun _ => sim_closing _ _).ahead
    | false =>
        have present : C.Sim False (some <$> parser) (some <$> parser') := by
          rw [map_eq_pure_bind, map_eq_pure_bind]
          exact sim.bind fun _ => sim_pure _
        exact (present.bind fun _ => sim_closing _ _).ahead
  · refine Consumes.failsAtEnd ((forward_isAt _).bind_consumes fun empty => ?_)
    cases empty with
    | true => exact (forward_pure none).bind_consumes fun _ => consumes_closing _ _
    | false =>
        have present : Forward (some <$> parser) := by
          rw [map_eq_pure_bind]
          exact forward.bind fun _ => forward_pure _
        exact present.bind_consumes fun _ => consumes_closing _ _

theorem simAhead_forLoop (levels : C.Levels inner inner') :
    C.SimAhead False (forLoop C.rounds inner) (forLoop C.rounds' inner') := by
  have statement := levels.consuming.statement.forward
  have expression := levels.consuming.expression.forward
  refine simAhead_advance.bind fun _ => (sim_expect_symbol _).bind fun _ => ?_
  refine (sim_clause _ levels.statement statement).bind fun init => ?_
  refine (sim_clause _ levels.expression expression).bind fun cond => ?_
  refine (sim_clause _ levels.expression expression).bind fun update => ?_
  exact levels.sim_block.bind fun body => sim_pure _

theorem simAhead_resultStatement (levels : C.Levels inner inner') :
    C.SimAhead False (resultStatement inner) (resultStatement inner') := by
  refine simAhead_advance.bind fun _ => sim_kind_of_stop (fun k => ?_) rfl rfl rfl
  split
  · exact (sim_pure _).ahead
  · exact (sim_pure _).ahead
  · exact (sim_pure _).ahead
  · exact (sim_pure _).ahead
  · exact (levels.expression.bind fun _ => sim_pure _).ahead

theorem simAhead_printStatement (levels : C.Levels inner inner') :
    C.SimAhead False (printStatement inner) (printStatement inner') := by
  refine simAhead_current fun t => simAhead_advance.bind fun _ => ?_
  refine sim_isAt (isInner_symbol (by decide)) ?_ (levels.expression.bind fun _ => sim_pure _)
  refine simAhead_advance.bind fun _ => (sim_identOr _).bind fun method => ?_
  exact levels.expression.bind fun _ => sim_pure _

theorem sim_statementBody (levels : C.Levels inner inner') :
    C.Sim False (statementBody C.rounds inner) (statementBody C.rounds' inner') := by
  refine SimAhead.sim (simAhead_kind fun k => ?_)
    (consumes_statementBody levels.consuming).failsAtEnd
  split
  · exact levels.simAhead_declaration _
  · exact levels.simAhead_declaration _
  · exact levels.simAhead_declaration _
  · exact levels.simAhead_functionDeclaration
  · exact levels.simAhead_conditional
  · exact levels.simAhead_whileLoop
  · exact levels.simAhead_forLoop
  · exact levels.simAhead_resultStatement
  · exact simAhead_advance.bind fun _ => sim_pure _
  · exact simAhead_advance.bind fun _ => sim_pure _
  · exact levels.simAhead_printStatement
  · exact (levels.sim_block.bind fun _ => sim_pure _).ahead
  · exact (levels.expression.bind fun _ => sim_pure _).ahead

end Levels

namespace Levels

variable {inner inner' : Level}

/-- The first parse may end at the end of its stream. -/
theorem sim_nextInProgram (levels : C.Levels inner inner') (body : List Stmt) :
    C.Sim True (nextInProgram inner body) (nextInProgram inner' body) := by
  intro s s' beside
  have skipped := s.leads_dropWhile isSeparator
  simp only [nextInProgram, skipSeparators_bind]
  rcases beside.dropWhile isSeparator with spent | ⟨left, later⟩
  · rw [kind_bind, Beside.ended spent]
    exact .spent trivial skipped spent
  · apply Follows.after skipped
    refine simAhead_kind (fun k => ?_) _ _ later left
    split
    · exact (sim_pure _).ahead
    · exact (levels.statement.bind fun _ => sim_pure _).ahead

theorem sim_program (levels : C.Levels inner inner') :
    C.Sim True (program C.rounds inner) (program C.rounds' inner') := by
  have forward := forward_nextInProgram levels.consuming
  have body := sim_iterate levels.sim_nextInProgram forward
    (asksAt_nextInProgram levels.consuming) (asksAt_nextInProgram levels.consuming') []
  exact body.bind_loose (fun _ => sim_pure _) fun _ => forward_pure _

end Levels

/-- Levels at which equally much may still be nested follow each other. -/
theorem levels_level (C : Comparison) (depth : Nat) :
    C.Levels (level C.rounds depth) (level C.rounds' depth) := by
  induction depth with
  | zero =>
      exact
        { statement := sim_fail _
          expression := sim_fail _
          operand := sim_fail _
          elseIf := sim_fail _
          consuming := level_consuming C.positive 0
          consuming' := level_consuming C.positive' 0 }
  | succ depth ih =>
      exact
        { statement := ih.sim_statementBody
          expression := ih.sim_expressionBody
          operand := ih.sim_binary powerSteps unaryPower
          elseIf := ih.simAhead_conditional.sim (consumes_conditional ih.consuming).failsAtEnd
          consuming := level_consuming C.positive (depth + 1)
          consuming' := level_consuming C.positive' (depth + 1) }

end Comparison

end Parser

end MinangScript
