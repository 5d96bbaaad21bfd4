import MinangScript.Proofs.Parser.ExpressionCompleteness

/-! # The parser reads back every rendered program

`ReadsStatement` says what the parser makes of some kinds of tokens in front of a semicolon. It holds
of the rendering of every well-formed statement, by induction on the statement, and a whole program
is one more list of statements. A program whose rendering nests too deep is refused for that reason
and for no other.
-/

namespace MinangScript

namespace Parser

open Reader (iterate)
open TokenStream (Spells spells_append spells_between length_advance_lt dropWhile_of_not
  dropWhile_of_skip)

variable {rounds : Nat}

/-! ## Statements one after another -/

/-- Whether the rendering of a statement may begin with a token of this kind. -/
def startsStatement : TokenKind → Bool
  | .keyword word =>
    match word with
    | .elseWord | .elseIfWord | .trueWord | .falseWord | .nullWord => false
    | _ => true
  | .symbol .leftBrace | .symbol .leftParen => true
  | _ => false

/-- The given kinds of tokens, in front of a semicolon, are read as a statement that is `stmt` but for
    positions. -/
structure ReadsStatement (rounds : Nat) (kinds : List TokenKind) (nesting : Nat) (stmt : Stmt) :
    Prop where
  starts : ∀ {s rest : TokenStream}, Spells kinds s rest → startsStatement s.current.kind = true
  reads : ∀ {depth : Nat} {s rest : TokenStream}, Spells kinds s rest → s.ahead.length < rounds →
    rest.current.kind = .symbol .semicolon →
    Gives (nesting < depth) (fun read => read.forgetPositions = stmt.forgetPositions) rest
      ((level rounds depth).statement s)

theorem ReadsStatement.of_body {kinds : List TokenKind} {nesting : Nat} {stmt : Stmt}
    (starts : ∀ {s rest : TokenStream}, Spells kinds s rest →
      startsStatement s.current.kind = true)
    (body : ∀ {depth : Nat} {s rest : TokenStream}, Spells kinds s rest → s.ahead.length < rounds →
      rest.current.kind = .symbol .semicolon →
      Gives (nesting ≤ depth) (fun read => read.forgetPositions = stmt.forgetPositions) rest
        (statementBody rounds (level rounds depth) s)) :
    ReadsStatement rounds kinds nesting stmt where
  starts := starts
  reads := by
    intro depth s rest spells enough ends
    cases depth with
    | zero => exact Gives.error.iff (by simp)
    | succ depth => exact (body spells enough ends).iff (by omega)

theorem isSeparator_of_startsStatement {k : TokenKind} (starts : startsStatement k = true) :
    isSeparator k = false := by
  cases k with
  | newline => cases starts
  | symbol symbol =>
      cases symbol with
      | semicolon => cases starts
      | _ => rfl
  | _ => rfl

theorem isSeparator_of_renderBody {body : List Stmt}
    (statements : ∀ stmt ∈ body, ReadsStatement rounds stmt.render stmt.nesting stmt)
    {s rest : TokenStream} (spells : Spells (Stmt.renderBody body) s rest)
    (closed : isSeparator rest.current.kind = false) : isSeparator s.current.kind = false := by
  cases body with
  | nil =>
      obtain rfl := spells
      exact closed
  | cons stmt body =>
      rw [Stmt.renderBody] at spells
      obtain ⟨mid, spells, -⟩ := spells_append.mp spells
      exact isSeparator_of_startsStatement ((statements stmt List.mem_cons_self).starts spells)

/-- A loop over a list of statements. The semicolon behind each of them is left for the next round,
    so a round may begin in front of separators. -/
theorem gives_renderBody {step : List Stmt → Parser (List Stmt × Bool)}
    (asks : ∀ before s, AsksAt s (step before)) {close : TokenKind}
    (closes : isSeparator close = false)
    (stop : ∀ before s, (s.dropWhile isSeparator).current.kind = close →
      step before s = .ok ((before, false), s.dropWhile isSeparator)) {depth : Nat}
    (round : ∀ before s, startsStatement (s.dropWhile isSeparator).current.kind = true →
      step before s = (do
        let stmt ← (level rounds depth).statement
        return (stmt :: before, true) : Parser (List Stmt × Bool)) (s.dropWhile isSeparator))
    {body : List Stmt}
    (statements : ∀ stmt ∈ body, ReadsStatement rounds stmt.render stmt.nesting stmt)
    {s rest : TokenStream} (spells : Spells (Stmt.renderBody body) (s.dropWhile isSeparator) rest)
    (enough : s.ahead.length < rounds) (closed : rest.current.kind = close) (before : List Stmt) :
    Gives (∀ stmt ∈ body, stmt.nesting < depth)
      (fun all => ∃ read : List Stmt,
        read.map Stmt.forgetPositions = body.map Stmt.forgetPositions ∧ all = read.reverse ++ before)
      rest (iterate step rounds before s) := by
  have shorter := (s.leads_dropWhile isSeparator).length_le
  induction body generalizing s before with
  | nil =>
      obtain rfl := spells
      rw [iterate_unfold asks enough, bind_apply, stop _ _ closed]
      exact Gives.iff (Gives.ok ⟨[], rfl, rfl⟩) (by simp)
  | cons stmt body ih =>
      rw [Stmt.renderBody] at spells
      obtain ⟨mid, spells, semicolon, spells'⟩ := spells_append.mp spells
      have first := statements stmt List.mem_cons_self
      have later : ∀ stmt ∈ body, ReadsStatement rounds stmt.render stmt.nesting stmt :=
        fun stmt is => statements stmt (List.mem_cons_of_mem _ is)
      -- The round stops in front of the semicolon; the next one skips it and nothing else.
      have stays := isSeparator_of_renderBody later spells' (by rw [closed, closes])
      have skipped : mid.dropWhile isSeparator = mid.advance := by
        rw [dropWhile_of_skip (by rw [semicolon]; rfl), dropWhile_of_not stays]
      have enough' : mid.ahead.length < rounds := spells.length_lt (by omega)
      have head : Gives (stmt.nesting < depth)
          (fun next => ∃ read : Stmt, read.forgetPositions = stmt.forgetPositions ∧
            next = (read :: before, true)) mid (step before s) := by
        rw [round _ _ (first.starts spells)]
        refine (first.reads spells (by omega) semicolon).bind_ok fun read same => ?_
        exact Gives.ok ⟨read, same, rfl⟩
      have fits : (stmt.nesting < depth ∧ ∀ other ∈ body, other.nesting < depth) ↔
          ∀ other ∈ stmt :: body, other.nesting < depth := by simp
      rw [iterate_unfold asks enough]
      refine (head.bind fun next is => ?_).iff fits
      obtain ⟨read, same, rfl⟩ := is
      have shorter' := (mid.leads_dropWhile isSeparator).length_le
      refine Gives.imp (ih later (by rwa [skipped]) enough' _ shorter') fun all is => ?_
      obtain ⟨reads, sames, rfl⟩ := is
      exact ⟨read :: reads, by simp [same, sames], by simp⟩

theorem nextInBlock_of_starts {inner : Level} (before : List Stmt) (s : TokenStream)
    (starts : startsStatement (s.dropWhile isSeparator).current.kind = true) :
    nextInBlock inner before s = (do
      let stmt ← inner.statement
      return (stmt :: before, true) : Parser (List Stmt × Bool)) (s.dropWhile isSeparator) := by
  rw [nextInBlock, skipSeparators_bind, kind_bind]
  cases here : (s.dropWhile isSeparator).current.kind with
  | endOfText =>
      rw [here] at starts
      cases starts
  | symbol symbol =>
      cases symbol with
      | rightBrace =>
          rw [here] at starts
          cases starts
      | _ => rfl
  | _ => rfl

theorem gives_block {body : List Stmt}
    (statements : ∀ stmt ∈ body, ReadsStatement rounds stmt.render stmt.nesting stmt)
    {depth : Nat} {s rest : TokenStream}
    (whole : Spells (between .leftBrace .rightBrace (Stmt.renderBody body)) s rest)
    (enough : s.ahead.length < rounds) :
    Gives (deepest (Stmt.nestingEach body) ≤ depth)
      (fun read => Stmt.forgetEach read = Stmt.forgetEach body) rest
      (block rounds (level rounds depth) s) := by
  obtain ⟨opened, last, spells, closed, rfl⟩ := spells_between.mp whole
  have shorter := s.leads_advance.length_le
  have asks := asksAt_nextInBlock (@level_consuming rounds (by omega) depth)
  have stop : ∀ before s, (s.dropWhile isSeparator).current.kind = .symbol .rightBrace →
      nextInBlock (level rounds depth) before s =
        .ok ((before, false), s.dropWhile isSeparator) := by
    intro before s here
    rw [nextInBlock, skipSeparators_bind, kind_bind, here]
    rfl
  have stays : s.advance.dropWhile isSeparator = s.advance :=
    dropWhile_of_not (isSeparator_of_renderBody statements spells (by rw [closed]; rfl))
  have loop := gives_renderBody asks rfl stop nextInBlock_of_starts statements (by rwa [stays])
    (by omega) closed []
  rw [block, expect_bind _ opened, Stmt.nestingEach_eq_map]
  refine (loop.bind_ok fun all is => ?_).iff deepest_map_le_iff.symm
  obtain ⟨read, same, rfl⟩ := is
  rw [expect_bind _ closed]
  exact Gives.ok (by simpa [Stmt.forgetEach_eq_map] using same)

/-! ## Simple statements -/

theorem gives_expression (e : Expr) {depth : Nat} {s rest : TokenStream}
    (spells : Spells e.render s rest) (enough : s.ahead.length < rounds)
    (ends : endsExpression rest.current.kind = true) :
    Gives (e.nesting < depth) (fun read => read.forgetPositions = e.forgetPositions) rest
      ((level rounds depth).expression s) :=
  (readsOperand_render e).expression.reads spells enough ends

theorem startsExpression_of_render {e : Expr} {s rest : TokenStream}
    (spells : Spells e.render s rest) : startsExpression s.current.kind = true :=
  (@readsOperand_render 0 e).starts spells

theorem statementBody_of_declares {kind : DeclKind} {inner : Level} {s : TokenStream}
    (word : s.current.kind = .keyword kind.keyword) :
    statementBody rounds inner s = declaration inner kind s := by
  rw [statementBody, kind_bind, word]
  cases kind <;> rfl

/-- A declaration with a value, in front of whatever ends an expression. -/
theorem gives_declaration {kinds : List TokenKind} {nesting : Nat} {value : Expr}
    (init : ReadsExpression rounds kinds nesting value) (kind : DeclKind) (name : Ident)
    {depth : Nat} {s rest : TokenStream}
    (whole : Spells
      (.keyword kind.keyword :: .identifier name.name :: .symbol .assign :: kinds) s rest)
    (enough : s.ahead.length < rounds) (ends : endsExpression rest.current.kind = true) :
    Gives (nesting < depth)
      (fun read => read.forgetPositions = (Stmt.declare kind name (some value)).forgetPositions)
      rest (statementBody rounds (level rounds depth) s) := by
  obtain ⟨word, named, sign, spells⟩ := whole
  have enough := length_advance_lt (length_advance_lt (length_advance_lt enough))
  rw [statementBody_of_declares word, declaration, advance_bind, ident, identOr_bind _ _ named,
    isAt_bind, beq_symbol_iff.mpr sign]
  simp only [if_true, advance_bind]
  refine Gives.bind_ok (init.reads spells enough ends) fun read same => ?_
  exact Gives.ok (by simp [same])

theorem readsStatement_declare (kind : DeclKind) (name : Ident) (init : Option Expr)
    (valued : (kind != .constDecl || init.isSome) = true) :
    ReadsStatement rounds
      (.keyword kind.keyword :: .identifier name.name ::
        init.elim [] fun value => .symbol .assign :: value.render)
      (Expr.optionalNesting init) (.declare kind name init) := by
  refine .of_body (fun spells => ?_) fun {depth s rest} whole enough ends => ?_
  · rw [spells.1]
    cases kind <;> rfl
  · cases init with
    | none =>
        obtain ⟨word, named, rfl⟩ := whole
        have notConst : kind ≠ .constDecl := by simpa using valued
        rw [statementBody_of_declares word, declaration, advance_bind, ident,
          identOr_bind _ _ named, isAt_bind, beq_symbol_of_ne (by simp [ends])]
        simp only [Bool.false_eq_true, if_false, notConst]
        refine Gives.iff (Gives.ok ?_) (by simp [Expr.optionalNesting])
        simp
    | some value =>
        exact gives_declaration (readsOperand_render value).expression kind name whole enough
          (by rw [ends]; rfl)

theorem resultStatement_of_starts {inner : Level} {s : TokenStream}
    (starts : startsExpression s.advance.current.kind = true) :
    resultStatement inner s = (do
      let value ← inner.expression
      return Stmt.result (some value)) s.advance := by
  rw [resultStatement, advance_bind, kind_bind]
  cases here : s.advance.current.kind with
  | newline | endOfText =>
      rw [here] at starts
      cases starts
  | symbol symbol =>
      cases symbol with
      | semicolon | rightBrace =>
          rw [here] at starts
          cases starts
      | _ => rfl
  | _ => rfl

theorem readsStatement_result (value : Option Expr) :
    ReadsStatement rounds (.keyword .returnWord :: value.elim [] Expr.render)
      (Expr.optionalNesting value) (.result value) := by
  refine .of_body (fun spells => ?_) fun {depth s rest} whole enough ends => ?_
  · rw [spells.1]
    rfl
  · obtain ⟨word, spells⟩ := whole
    have body : statementBody rounds (level rounds depth) s =
        resultStatement (level rounds depth) s := by
      rw [statementBody, kind_bind, word]
    rw [body]
    cases value with
    | none =>
        obtain rfl := spells
        rw [resultStatement, advance_bind, kind_bind, ends]
        exact Gives.iff (Gives.ok rfl) (by simp [Expr.optionalNesting])
    | some value =>
        rw [resultStatement_of_starts (startsExpression_of_render spells)]
        refine Gives.bind_ok (gives_expression value spells (length_advance_lt enough)
          (by rw [ends]; rfl)) fun read same => ?_
        exact Gives.ok (by simp [same])

/-- A print statement is never taken for a method of printing, since no expression begins with a
    point. -/
theorem readsStatement_print (arg : Expr) :
    ReadsStatement rounds (.keyword .printWord :: arg.render) (arg.nesting + 1) (.print arg) := by
  refine .of_body (fun spells => ?_) fun {depth s rest} whole enough ends => ?_
  · rw [spells.1]
    rfl
  · obtain ⟨word, spells⟩ := whole
    have noMethod : (s.advance.current.kind == .symbol .dot) = false :=
      not_symbol_of_startsExpression (startsExpression_of_render spells) rfl
    have body : statementBody rounds (level rounds depth) s =
        printStatement (level rounds depth) s := by
      rw [statementBody, kind_bind, word]
    rw [body, printStatement, current_bind, advance_bind, isAt_bind, noMethod]
    simp only [Bool.false_eq_true, if_false]
    refine Gives.bind_ok (gives_expression arg spells (length_advance_lt enough)
      (by rw [ends]; rfl)) fun read same => ?_
    exact Gives.ok (by simp [same])

/-- The parentheses around an expression that is a statement keep it from being read as a block or
    as a print statement. -/
theorem readsStatement_expr (value : Expr) :
    ReadsStatement rounds (between .leftParen .rightParen value.render) (value.nesting + 2)
      (.expr value) := by
  have operand := (@readsOperand_render rounds value).expression.parenthesized
  refine .of_body (fun spells => ?_) fun {depth s rest} whole enough ends => ?_
  · rw [(spells_between.mp spells).1]
    rfl
  · rw [statementBody, kind_bind, (spells_between.mp whole).1]
    refine Gives.bind_ok (operand.expression.reads whole enough (by rw [ends]; rfl))
      fun read same => ?_
    exact Gives.ok (by simp [same])

theorem readsStatement_word {word : Keyword} {stmt : Stmt}
    (starts : startsStatement (.keyword word) = true)
    (body : ∀ {inner : Level} {s : TokenStream}, s.current.kind = .keyword word →
      statementBody rounds inner s = .ok (stmt, s.advance)) :
    ReadsStatement rounds [.keyword word] 0 stmt := by
  refine .of_body (fun spells => ?_) fun {depth s rest} whole enough ends => ?_
  · rw [spells.1, starts]
  · obtain ⟨here, rfl⟩ := whole
    rw [body here]
    exact Gives.iff (Gives.ok rfl) (by simp)

/-! ## Statements with bodies -/

theorem readsStatement_block {body : List Stmt}
    (statements : ∀ stmt ∈ body, ReadsStatement rounds stmt.render stmt.nesting stmt) :
    ReadsStatement rounds (between .leftBrace .rightBrace (Stmt.renderBody body))
      (deepest (Stmt.nestingEach body)) (.block body) := by
  refine .of_body (fun spells => ?_) fun {depth s rest} whole enough ends => ?_
  · rw [(spells_between.mp spells).1]
    rfl
  · rw [statementBody, kind_bind, (spells_between.mp whole).1]
    refine (gives_block statements whole enough).bind_ok fun read same => ?_
    exact Gives.ok (by simp [same])

theorem readsStatement_whileLoop (cond : Expr) {body : List Stmt}
    (statements : ∀ stmt ∈ body, ReadsStatement rounds stmt.render stmt.nesting stmt) :
    ReadsStatement rounds
      (.keyword .whileWord :: cond.render ++
        between .leftBrace .rightBrace (Stmt.renderBody body))
      (max (cond.nesting + 1) (deepest (Stmt.nestingEach body))) (.whileLoop cond body) := by
  refine .of_body (fun spells => ?_) fun {depth s rest} whole enough ends => ?_
  · rw [spells.1]
    rfl
  · obtain ⟨word, whole⟩ := whole
    obtain ⟨mid, spells, spells'⟩ := spells_append.mp whole
    have enough := length_advance_lt enough
    have endsCond : endsExpression mid.current.kind = true := by
      rw [(spells_between.mp spells').1]
      rfl
    have body : statementBody rounds (level rounds depth) s =
        Parser.whileLoop rounds (level rounds depth) s := by
      rw [statementBody, kind_bind, word]
    rw [body, Parser.whileLoop, advance_bind]
    refine ((gives_expression cond spells enough endsCond).bind fun read same => ?_).iff
      Nat.max_le.symm
    refine (gives_block statements spells' (spells.length_lt enough)).bind_ok fun read' same' => ?_
    exact Gives.ok (by simp [same, same'])

theorem otherBranch_of_semicolon {inner : Level} {s : TokenStream}
    (ends : s.current.kind = .symbol .semicolon) : otherBranch rounds inner s = .ok (none, s) := by
  rw [otherBranch, get_bind, skipNewlines_bind, dropWhile_of_not (by rw [ends]; rfl), kind_bind,
    ends]
  rfl

/-- Where a brace opens, a block is what is read as a statement one level further out. -/
theorem block_eq_statement {depth : Nat} {s : TokenStream}
    (brace : s.current.kind = .symbol .leftBrace) :
    (do
      let body ← block rounds (level rounds depth)
      return some (Stmt.block body) : Parser (Option Stmt)) s = (do
      let stmt ← (level rounds (depth + 1)).statement
      return some stmt) s := by
  have body : (level rounds (depth + 1)).statement s = (do
      let body ← block rounds (level rounds depth)
      return Stmt.block body) s := by
    change statementBody rounds (level rounds depth) s = _
    rw [statementBody, kind_bind, brace]
  rw [bind_apply, bind_apply, body, bind_apply]
  cases block rounds (level rounds depth) s <;> rfl

/-- A conditional behind `lain` is a statement, so it nests deeper. A block behind `lain` is read as
    it would be one level further out. -/
theorem gives_otherBranch {other : Stmt} (branch : other.isBranch = true)
    (statement : ReadsStatement rounds other.render other.nesting other) {depth : Nat}
    {s rest : TokenStream} (whole : Spells (.keyword .elseWord :: other.render) s rest)
    (enough : s.ahead.length < rounds) (ends : rest.current.kind = .symbol .semicolon) :
    Gives (Stmt.nestingElse (some other) ≤ depth)
      (fun read => Stmt.forgetOptional read = Stmt.forgetOptional (some other)) rest
      (otherBranch rounds (level rounds depth) s) := by
  obtain ⟨word, spells⟩ := whole
  have enough := length_advance_lt enough
  rw [otherBranch, get_bind, skipNewlines_bind, dropWhile_of_not (by rw [word]; rfl), kind_bind,
    word]
  simp only [advance_bind, isAt_bind]
  cases other with
  | conditional cond body other =>
      have word' : s.advance.current.kind = .keyword .ifWord := by
        rw [Stmt.render] at spells
        exact spells.1
      have again : (s.advance.current.kind == .keyword .ifWord) = true := by
        rw [word']
        rfl
      simp only [again, if_true]
      refine (statement.reads spells enough ends).bind_ok fun read same => ?_
      exact Gives.ok (by simp [same])
  | block body =>
      have brace : s.advance.current.kind = .symbol .leftBrace := by
        rw [Stmt.render] at spells
        exact (spells_between.mp spells).1
      have notAgain : (s.advance.current.kind == .keyword .ifWord) = false := by
        rw [brace]
        rfl
      have nested : (Stmt.block body).nesting < depth + 1 ↔
          Stmt.nestingElse (some (.block body)) ≤ depth := by
        rw [Stmt.nestingElse, Stmt.nesting, Nat.lt_succ_iff]
      simp only [notAgain, Bool.false_eq_true, if_false]
      rw [block_eq_statement brace]
      refine ((statement.reads spells enough ends).bind_ok fun read same => ?_).iff nested
      exact Gives.ok (by simp [same])
  | _ => cases branch

theorem readsStatement_conditional (cond : Expr) {body : List Stmt} {other : Option Stmt}
    (statements : ∀ stmt ∈ body, ReadsStatement rounds stmt.render stmt.nesting stmt)
    (branch : ∀ stmt ∈ other, stmt.isBranch = true ∧
      ReadsStatement rounds stmt.render stmt.nesting stmt) :
    ReadsStatement rounds
      (.keyword .ifWord :: cond.render ++
        between .leftBrace .rightBrace (Stmt.renderBody body) ++ Stmt.renderElse other)
      (max (cond.nesting + 1) (max (deepest (Stmt.nestingEach body)) (Stmt.nestingElse other)))
      (.conditional cond body other) := by
  refine .of_body (fun spells => ?_) fun {depth s rest} whole enough ends => ?_
  · rw [spells.1]
    rfl
  · obtain ⟨last, whole, spells''⟩ := spells_append.mp whole
    obtain ⟨word, whole⟩ := whole
    obtain ⟨mid, spells, spells'⟩ := spells_append.mp whole
    have enough := length_advance_lt enough
    have enough' := spells.length_lt enough
    have endsCond : endsExpression mid.current.kind = true := by
      rw [(spells_between.mp spells').1]
      rfl
    have otherwise : Gives (Stmt.nestingElse other ≤ depth)
        (fun read => Stmt.forgetOptional read = Stmt.forgetOptional other) rest
        (otherBranch rounds (level rounds depth) last) := by
      cases other with
      | none =>
          obtain rfl := spells''
          rw [otherBranch_of_semicolon ends]
          exact Gives.iff (Gives.ok rfl) (by simp [Stmt.nestingElse])
      | some stmt =>
          obtain ⟨is, statement⟩ := branch stmt rfl
          exact gives_otherBranch is statement spells'' (spells'.length_lt enough') ends
    have fits : (cond.nesting < depth ∧ deepest (Stmt.nestingEach body) ≤ depth ∧
        Stmt.nestingElse other ≤ depth) ↔
        max (cond.nesting + 1) (max (deepest (Stmt.nestingEach body)) (Stmt.nestingElse other)) ≤
          depth := by
      rw [Nat.max_le, Nat.max_le]
      exact Iff.rfl
    have body : statementBody rounds (level rounds depth) s =
        Parser.conditional rounds (level rounds depth) s := by
      rw [statementBody, kind_bind, word]
    rw [body, Parser.conditional, advance_bind]
    refine ((gives_expression cond spells enough endsCond).bind fun read same => ?_).iff fits
    refine (gives_block statements spells' enough').bind fun read' same' => ?_
    refine otherwise.bind_ok fun read'' same'' => ?_
    exact Gives.ok (by simp [same, same', same''])

/-! ## Loops and functions -/

theorem clause_of_none {α : Type} {close : Symbol} {parser : Parser α} {s : TokenStream}
    (closed : s.current.kind = .symbol close) : clause close parser s = .ok (none, s.advance) := by
  rw [clause, isAt_bind, beq_symbol_iff.mpr closed]
  simp only [if_true, pure_bind]
  rw [expect_bind _ closed]
  rfl

theorem gives_clause {α : Type} {close : Symbol} {parser : Parser α} {fits : Prop}
    {good : α → Prop} {s mid : TokenStream} (present : s.current.kind ≠ .symbol close)
    (reads : Gives fits good mid (parser s)) (closed : mid.current.kind = .symbol close) :
    Gives fits (fun read => ∃ a, good a ∧ read = some a) mid.advance (clause close parser s) := by
  rw [clause, isAt_bind, beq_symbol_of_ne present]
  simp only [Bool.false_eq_true, if_false, map_eq_pure_bind, bind_assoc, pure_bind]
  refine reads.bind_ok fun a is => ?_
  rw [expect_bind _ closed]
  exact Gives.ok ⟨a, is, rfl⟩

theorem gives_initClause {init : Option Stmt}
    (statement : ∀ stmt ∈ init, ReadsStatement rounds stmt.render stmt.nesting stmt) {depth : Nat}
    {s mid : TokenStream} (spells : Spells (Stmt.renderInit init) s mid)
    (enough : s.ahead.length < rounds) (closed : mid.current.kind = .symbol .semicolon) :
    Gives (Stmt.nestingInit init ≤ depth)
      (fun read => Stmt.forgetOptional read = Stmt.forgetOptional init) mid.advance
      (clause .semicolon (level rounds depth).statement s) := by
  cases init with
  | none =>
      obtain rfl := spells
      rw [clause_of_none closed]
      exact Gives.iff (Gives.ok rfl) (by simp [Stmt.nestingInit])
  | some stmt =>
      have reads := statement stmt rfl
      have present : s.current.kind ≠ .symbol .semicolon := by
        intro here
        have starts := reads.starts spells
        rw [here] at starts
        cases starts
      refine (gives_clause present (reads.reads spells enough closed) closed).imp fun read is => ?_
      obtain ⟨stmt', same, rfl⟩ := is
      simp [same]

theorem gives_expressionClause {e : Option Expr} {close : Symbol}
    (ends : endsExpression (.symbol close) = true)
    (starts : startsExpression (.symbol close) = false) {depth : Nat} {s mid : TokenStream}
    (spells : Spells (e.elim [] Expr.render) s mid) (enough : s.ahead.length < rounds)
    (closed : mid.current.kind = .symbol close) :
    Gives (Expr.optionalNesting e ≤ depth)
      (fun read => read.map Expr.forgetPositions = e.map Expr.forgetPositions) mid.advance
      (clause close (level rounds depth).expression s) := by
  cases e with
  | none =>
      obtain rfl := spells
      rw [clause_of_none closed]
      exact Gives.iff (Gives.ok rfl) (by simp [Expr.optionalNesting])
  | some e =>
      have present : s.current.kind ≠ .symbol close := by
        intro here
        have begins := startsExpression_of_render spells
        rw [here, starts] at begins
        cases begins
      have reads := @gives_expression rounds e depth s mid spells enough (by rw [closed, ends])
      refine (gives_clause present reads closed).imp fun read is => ?_
      obtain ⟨e', same, rfl⟩ := is
      simp [same]

theorem readsStatement_forLoop {init : Option Stmt} (cond update : Option Expr) {body : List Stmt}
    (statement : ∀ stmt ∈ init, ReadsStatement rounds stmt.render stmt.nesting stmt)
    (statements : ∀ stmt ∈ body, ReadsStatement rounds stmt.render stmt.nesting stmt) :
    ReadsStatement rounds
      (.keyword .forWord ::
        between .leftParen .rightParen (Stmt.renderInit init ++ .symbol .semicolon ::
          cond.elim [] Expr.render ++ .symbol .semicolon :: update.elim [] Expr.render) ++
        between .leftBrace .rightBrace (Stmt.renderBody body))
      (max (Stmt.nestingInit init) (max (Expr.optionalNesting cond)
        (max (Expr.optionalNesting update) (deepest (Stmt.nestingEach body)))))
      (.forLoop init cond update body) := by
  refine .of_body (fun spells => ?_) fun {depth s rest} whole enough ends => ?_
  · rw [spells.1]
    rfl
  · obtain ⟨word, whole⟩ := whole
    obtain ⟨header, spellsHeader, spellsBody⟩ := spells_append.mp whole
    obtain ⟨opened, last, spellsClauses, closed, rfl⟩ := spells_between.mp spellsHeader
    obtain ⟨second, spellsTwo, semicolon', spellsUpdate⟩ := spells_append.mp spellsClauses
    obtain ⟨first, spellsInit, semicolon, spellsCond⟩ := spells_append.mp spellsTwo
    have enoughInit := length_advance_lt (length_advance_lt enough)
    have enoughCond := length_advance_lt (spellsInit.length_lt enoughInit)
    have enoughUpdate := length_advance_lt (spellsCond.length_lt enoughCond)
    have enoughBody := length_advance_lt (spellsUpdate.length_lt enoughUpdate)
    have fits : (Stmt.nestingInit init ≤ depth ∧ Expr.optionalNesting cond ≤ depth ∧
        Expr.optionalNesting update ≤ depth ∧ deepest (Stmt.nestingEach body) ≤ depth) ↔
        max (Stmt.nestingInit init) (max (Expr.optionalNesting cond)
          (max (Expr.optionalNesting update) (deepest (Stmt.nestingEach body)))) ≤ depth := by
      rw [Nat.max_le, Nat.max_le, Nat.max_le]
    have body : statementBody rounds (level rounds depth) s =
        Parser.forLoop rounds (level rounds depth) s := by
      rw [statementBody, kind_bind, word]
    rw [body, Parser.forLoop, advance_bind, expect_bind _ opened]
    refine ((gives_initClause statement spellsInit enoughInit semicolon).bind
      fun init' sameInit => ?_).iff fits
    refine (gives_expressionClause rfl rfl spellsCond enoughCond semicolon').bind
      fun cond' sameCond => ?_
    refine (gives_expressionClause rfl rfl spellsUpdate enoughUpdate closed).bind
      fun update' sameUpdate => ?_
    refine (gives_block statements spellsBody enoughBody).bind_ok fun body' sameBody => ?_
    exact Gives.ok (by simp [sameInit, sameCond, sameUpdate, sameBody])

theorem readsPiece_param (param : Ident) :
    ReadsPiece rounds nextParam .rightParen [.identifier param.name] True
      fun read => read.forgetPosition = param.forgetPosition where
  starts spells := by
    rw [spells.1]
    rfl
  round before more s mid spells enough follows := by
    obtain ⟨here, rfl⟩ := spells
    rw [nextParam, ident, identOr_bind _ _ here, isAt_bind]
    cases more with
    | true =>
        rw [beq_symbol_iff.mpr follows.1]
        exact Gives.ok ⟨⟨param.name, s.current.position⟩, rfl, rfl⟩
    | false =>
        have closed : s.advance.current.kind = .symbol .rightParen := follows
        rw [beq_symbol_of_ne (by simp [closed])]
        exact Gives.ok ⟨⟨param.name, s.current.position⟩, rfl, rfl⟩

theorem gives_parameters {params : List Ident} {s rest : TokenStream}
    (whole : Spells (between .leftParen .rightParen
      (commaSeparated (params.map fun id => [.identifier id.name]))) s rest)
    (enough : s.ahead.length < rounds) :
    Gives True (fun read => read.map Ident.forgetPosition = params.map Ident.forgetPosition) rest
      (parameters rounds s) := by
  obtain ⟨opened, last, spells, closed, rfl⟩ := spells_between.mp whole
  rw [parameters, expect_bind _ opened, isAt_bind]
  cases params with
  | nil =>
      obtain rfl := spells
      rw [beq_symbol_iff.mpr closed]
      simp only [if_true, pure_bind]
      rw [expect_bind _ closed]
      exact Gives.ok rfl
  | cons first others =>
      have pieces := fun id (_ : id ∈ first :: others) => @readsPiece_param rounds id
      have starts := startsExpression_of_pieces pieces spells
      have asks : ∀ before s, AsksAt s (nextParam before) :=
        fun before s => (consumes_nextParam before s).asksAt
      have loop := @gives_commaSeparated rounds _ _ _ asks _ _ _ Ident.forgetPosition _ _ pieces
        _ _ [] spells (length_advance_lt enough) closed
      rw [not_symbol_of_startsExpression starts rfl]
      simp only [Bool.false_eq_true, if_false]
      refine (loop.bind_ok fun all is => ?_).iff (by simp)
      obtain ⟨read, same, rfl⟩ := is
      rw [expect_bind _ closed]
      exact Gives.ok (by simpa using same)

theorem readsStatement_function (name : Ident) (params : List Ident) {body : List Stmt}
    (statements : ∀ stmt ∈ body, ReadsStatement rounds stmt.render stmt.nesting stmt) :
    ReadsStatement rounds
      (.keyword .functionWord :: .identifier name.name ::
        between .leftParen .rightParen
          (commaSeparated (params.map fun id => [.identifier id.name])) ++
        between .leftBrace .rightBrace (Stmt.renderBody body))
      (deepest (Stmt.nestingEach body)) (.function name params body) := by
  refine .of_body (fun spells => ?_) fun {depth s rest} whole enough ends => ?_
  · rw [spells.1]
    rfl
  · obtain ⟨word, named, whole⟩ := whole
    obtain ⟨mid, spellsParams, spellsBody⟩ := spells_append.mp whole
    have enoughParams := length_advance_lt (length_advance_lt enough)
    have enoughBody := spellsParams.length_lt enoughParams
    have body : statementBody rounds (level rounds depth) s =
        functionDeclaration rounds (level rounds depth) s := by
      rw [statementBody, kind_bind, word]
    rw [body, functionDeclaration, advance_bind, ident, identOr_bind _ _ named]
    refine ((gives_parameters spellsParams enoughParams).bind fun params' sameParams => ?_).iff
      (and_iff_right trivial)
    refine (gives_block statements spellsBody enoughBody).bind_ok fun body' sameBody => ?_
    exact Gives.ok (by simp [sameParams, sameBody])

/-! ## Every statement and every program -/

/-- Every well-formed statement is read back from its rendering. -/
theorem readsStatement_render {stmt : Stmt} (wellFormed : stmt.wellFormed = true) :
    ReadsStatement rounds stmt.render stmt.nesting stmt := by
  induction stmt using Stmt.inductionOn with
  | declare kind name init =>
      rw [Stmt.render, Stmt.nesting]
      exact readsStatement_declare kind name init wellFormed
  | function name params body ih =>
      have all := Stmt.wellFormedEach_iff.mp wellFormed
      rw [Stmt.render, Stmt.nesting]
      exact readsStatement_function name params fun stmt is => ih stmt is (all stmt is)
  | conditional cond body other ih ihOther =>
      rw [Stmt.wellFormed, Bool.and_eq_true] at wellFormed
      have all := Stmt.wellFormedEach_iff.mp wellFormed.1
      rw [Stmt.render, Stmt.nesting]
      refine readsStatement_conditional cond (fun stmt is => ih stmt is (all stmt is)) ?_
      rintro stmt rfl
      have branch := wellFormed.2
      rw [Stmt.wellFormedElse, Bool.and_eq_true] at branch
      exact ⟨branch.1, ihOther stmt rfl branch.2⟩
  | whileLoop cond body ih =>
      have all := Stmt.wellFormedEach_iff.mp wellFormed
      rw [Stmt.render, Stmt.nesting]
      exact readsStatement_whileLoop cond fun stmt is => ih stmt is (all stmt is)
  | forLoop init cond update body ihInit ih =>
      rw [Stmt.wellFormed, Bool.and_eq_true] at wellFormed
      have all := Stmt.wellFormedEach_iff.mp wellFormed.2
      rw [Stmt.render, Stmt.nesting]
      refine readsStatement_forLoop cond update ?_ fun stmt is => ih stmt is (all stmt is)
      rintro stmt rfl
      exact ihInit stmt rfl wellFormed.1
  | result value =>
      rw [Stmt.render, Stmt.nesting]
      exact readsStatement_result value
  | breakLoop =>
      rw [Stmt.render, Stmt.nesting]
      refine readsStatement_word rfl fun here => ?_
      rw [statementBody, kind_bind, here]
      rfl
  | continueLoop =>
      rw [Stmt.render, Stmt.nesting]
      refine readsStatement_word rfl fun here => ?_
      rw [statementBody, kind_bind, here]
      rfl
  | print arg =>
      rw [Stmt.render, Stmt.nesting]
      exact readsStatement_print arg
  | block body ih =>
      have all := Stmt.wellFormedEach_iff.mp wellFormed
      rw [Stmt.render, Stmt.nesting]
      exact readsStatement_block fun stmt is => ih stmt is (all stmt is)
  | expr value =>
      rw [Stmt.render, Stmt.nesting]
      exact readsStatement_expr value

theorem nextInProgram_of_starts {outermost : Level} (before : List Stmt) (s : TokenStream)
    (starts : startsStatement (s.dropWhile isSeparator).current.kind = true) :
    nextInProgram outermost before s = (do
      let stmt ← outermost.statement
      return (stmt :: before, true) : Parser (List Stmt × Bool)) (s.dropWhile isSeparator) := by
  rw [nextInProgram, skipSeparators_bind, kind_bind]
  cases here : (s.dropWhile isSeparator).current.kind with
  | endOfText =>
      rw [here] at starts
      cases starts
  | _ => rfl

theorem gives_program {p : Program} (wellFormed : p.wellFormed = true) {depth : Nat}
    {s rest : TokenStream} (spells : Spells (Stmt.renderBody p.body) s rest)
    (enough : s.ahead.length < rounds) (closed : rest.current.kind = .endOfText) :
    Gives (p.nesting ≤ depth) (fun read => read.forgetPositions = p.forgetPositions) rest
      (program rounds (level rounds depth) s) := by
  have statements : ∀ stmt ∈ p.body, ReadsStatement rounds stmt.render stmt.nesting stmt :=
    fun stmt is => readsStatement_render (Stmt.wellFormedEach_iff.mp wellFormed stmt is)
  have asks := asksAt_nextInProgram (@level_consuming rounds (by omega) depth)
  have stays : s.dropWhile isSeparator = s :=
    dropWhile_of_not (isSeparator_of_renderBody statements spells (by rw [closed]; rfl))
  have loop := gives_renderBody asks rfl nextInProgram_of_end nextInProgram_of_starts statements
    (by rwa [stays]) enough closed []
  rw [Program.nesting, Stmt.nestingEach_eq_map]
  refine (loop.bind_ok fun all is => ?_).iff deepest_map_le_iff.symm
  obtain ⟨read, same, rfl⟩ := is
  exact Gives.ok (by simpa [Program.forgetPositions, Stmt.forgetEach_eq_map] using same)

/-- A single statement that reaches to the end of the text. -/
theorem gives_program_of_statement {fits : Prop} {stmt : Stmt} {depth : Nat}
    {s rest : TokenStream} (starts : startsStatement s.current.kind = true)
    (first : Gives fits (fun read => read.forgetPositions = stmt.forgetPositions) rest
      ((level rounds depth).statement s))
    (enough : s.ahead.length < rounds) (spent : rest.ahead = []) :
    Gives fits (fun read => read.forgetPositions = (Program.mk [stmt]).forgetPositions) rest
      (program rounds (level rounds depth) s) := by
  have asks := asksAt_nextInProgram (@level_consuming rounds (by omega) depth)
  have stays : s.dropWhile isSeparator = s :=
    dropWhile_of_not (isSeparator_of_startsStatement starts)
  have closed : rest.current.kind = .endOfText := by rw [TokenStream.current, spent]
  have ended : rest.dropWhile isSeparator = rest := dropWhile_of_not (by rw [closed]; rfl)
  have round : Gives fits
      (fun next => ∃ read : Stmt, read.forgetPositions = stmt.forgetPositions ∧
        next = ([read], true)) rest (nextInProgram (level rounds depth) [] s) := by
    rw [nextInProgram_of_starts _ _ (by rwa [stays]), stays]
    exact first.bind_ok fun read same => Gives.ok ⟨read, same, rfl⟩
  have loop : Gives fits
      (fun all => ∃ read : Stmt, read.forgetPositions = stmt.forgetPositions ∧ all = [read]) rest
      (iterate (nextInProgram (level rounds depth)) rounds [] s) := by
    rw [iterate_unfold asks enough]
    refine round.bind_ok fun next is => ?_
    obtain ⟨read, same, rfl⟩ := is
    dsimp only
    rw [if_pos rfl, iterate_unfold asks (by rw [spent]; exact Nat.zero_lt_of_lt enough), bind_apply,
      nextInProgram_of_end _ _ (by rwa [ended]), ended]
    exact Gives.ok ⟨read, same, rfl⟩
  refine loop.bind_ok fun all is => ?_
  obtain ⟨read, same, rfl⟩ := is
  exact Gives.ok (by simpa [Program.forgetPositions, Stmt.forgetEach_eq_map] using same)

end Parser

/-- The tokens in front of the end of the text. -/
theorem TokenStream.spells_ofTokens_to_end {tokens : List Token} {kinds : List TokenKind}
    (same : tokens.map Token.kind = kinds ++ [.endOfText]) :
    ∃ position, Spells kinds (ofTokens tokens) ⟨[], position⟩ := by
  obtain ⟨front, back, rfl, sameFront, sameBack⟩ := List.map_eq_append_iff.mp same
  obtain ⟨last, rfl, isEnd⟩ := List.map_eq_singleton_iff.mp sameBack
  have stream : ofTokens (front ++ [last]) = ⟨front, last.position⟩ := by
    simp [ofTokens, isEnd]
  rw [stream]
  exact ⟨last.position, spells_of_map last.position sameFront⟩

theorem TokenStream.spells_ofTokens {tokens : List Token} {kinds : List TokenKind}
    (same : tokens.map Token.kind = kinds ++ [.endOfText]) :
    ∃ rest, Spells kinds (ofTokens tokens) rest ∧ rest.current.kind = .endOfText := by
  obtain ⟨position, spells⟩ := spells_ofTokens_to_end same
  exact ⟨⟨[], position⟩, spells, rfl⟩

/-- Every well-formed program is read back from tokens of its rendering, wherever they stand, unless
    the rendering nests too deep. Then that is what the parser says. -/
theorem rendering_parses_back (p : Program) (wellFormed : p.wellFormed = true)
    (tokens : List Token) (rendered : tokens.map Token.kind = p.render) :
    (p.nesting ≤ maxNesting → ∃ read, parseTokens tokens = .ok read ∧
      read.forgetPositions = p.forgetPositions) ∧
    (maxNesting < p.nesting → ∃ error, parseTokens tokens = .error error ∧
      error.problem.text = "nesting too deep") := by
  obtain ⟨rest, spells, closed⟩ := TokenStream.spells_ofTokens rendered
  have enough : (TokenStream.ofTokens tokens).ahead.length < tokens.length + 1 :=
    TokenStream.length_skip_ofTokens tokens 0
  have gives := @Parser.gives_program (tokens.length + 1) p wellFormed maxNesting _ _ spells enough
    closed
  constructor
  · intro fits
    obtain ⟨read, same, ran⟩ := gives.fitting fits
    refine ⟨read, ?_, same⟩
    rw [parseTokens, StateT.run, ran]
    rfl
  · intro deep
    obtain ⟨token, ran⟩ := gives.tooDeep (Nat.not_le.mpr deep)
    refine ⟨⟨.nestingTooDeep, token⟩, ?_, rfl⟩
    rw [parseTokens, StateT.run, ran]
    rfl

theorem rendering_parses_back_else_if :
    let x : Ident := ⟨"x", .start⟩
    let printed : Expr := .call (.member (.ident ⟨"cetak", .start⟩) x) [.object [("k", .ident x)]]
    let last : Stmt := .forLoop (some (.declare .constDecl x (some (.array [])))) none
      (some (.assign x (.unary .neg (.ident x)))) [.result none]
    let fitting : Program := ⟨[.conditional (.ident x) [.expr printed]
      (some (.conditional (.binary (.ident x) .lt (.ident x)) [] (some (.block [last]))))]⟩
    let deep : Program := ⟨[.expr (Nat.repeat (.unary .not) 64 (.ident x))]⟩
    let placed (p : Program) : List Token := p.render.map fun kind => ⟨kind, .start⟩
    (fitting.wellFormed = true ∧ fitting.nesting ≤ maxNesting ∧
      ∃ read, parseTokens (placed fitting) = .ok read ∧
        read.forgetPositions = fitting.forgetPositions) ∧
    (deep.wellFormed = true ∧ maxNesting < deep.nesting ∧
      ∃ error, parseTokens (placed deep) = .error error ∧
        error.problem.text = "nesting too deep") := by
  intro x printed last fitting deep placed
  have rendered : ∀ p, (placed p).map Token.kind = p.render := by
    simp [placed, Function.comp_def]
  have fits : fitting.nesting ≤ maxNesting := by decide
  have exceeds : maxNesting < deep.nesting := by decide
  refine ⟨⟨rfl, fits, ?_⟩, ⟨rfl, exceeds, ?_⟩⟩
  · exact (rendering_parses_back fitting rfl _ (rendered fitting)).1 fits
  · exact (rendering_parses_back deep rfl _ (rendered deep)).2 exceeds

end MinangScript
