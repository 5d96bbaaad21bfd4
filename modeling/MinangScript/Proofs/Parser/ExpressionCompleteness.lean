import MinangScript.Proofs.Parser.Layers
import MinangScript.Proofs.Parser.Spelling

/-! # The parser reads back every rendered expression

`ReadsOperand` and `ReadsExpression` say what the parser makes of some kinds of tokens in front of
any stream that does not continue them. Every way in which the rendering of an expression is put
together keeps them, so an induction on the expression gives them for every rendering. Both are
exact about nesting: where the levels suffice the result is the rendered expression, and where they
do not the parser says so.
-/

namespace MinangScript

namespace Parser

open Reader (iterate)
open TokenStream (Spells spells_append spells_between dropWhile_of_not)

section Expressions

variable {rounds : Nat}

/-- The given kinds of tokens are read as an operand that is `value` but for positions: what the
    parser does behind them is what it does behind that operand. The levels inside suffice if there
    are at least `nesting` of them. -/
structure ReadsOperand (rounds : Nat) (kinds : List TokenKind) (nesting : Nat) (value : Expr) :
    Prop where
  starts : ∀ {s rest : TokenStream}, Spells kinds s rest →
    startsExpression s.current.kind = true
  reads : ∀ {depth : Nat} {s mid rest : TokenStream} {fits : Prop} {good : Expr → Prop},
    Spells kinds s mid → s.ahead.length < rounds →
    (∀ read : Expr, read.forgetPositions = value.forgetPositions →
      Gives fits good rest (iterate (nextSuffix rounds (level rounds depth)) rounds read mid)) →
    Gives (nesting ≤ depth ∧ fits) good rest (postfixed rounds (level rounds depth) s)

/-- The given kinds of tokens, in front of a token that ends an expression, are read as an expression
    that is `value` but for positions. -/
structure ReadsExpression (rounds : Nat) (kinds : List TokenKind) (nesting : Nat) (value : Expr) :
    Prop where
  reads : ∀ {depth : Nat} {s rest : TokenStream}, Spells kinds s rest → s.ahead.length < rounds →
    endsExpression rest.current.kind = true →
    Gives (nesting < depth) (fun read => read.forgetPositions = value.forgetPositions) rest
      ((level rounds depth).expression s)

theorem endsOperand_of_endsExpression {k : TokenKind} (ends : endsExpression k = true) :
    endsOperand k = true := by
  simp only [endsExpression, Bool.and_eq_true] at ends
  exact ends.1.1

theorem assignment?_of_endsExpression {k : TokenKind} (ends : endsExpression k = true) :
    assignment? k = none := by
  simp only [endsExpression, Bool.and_eq_true, Option.isNone_iff_eq_none] at ends
  exact ends.2

theorem settled_of_endsExpression {s : TokenStream}
    (ends : endsExpression s.current.kind = true) (power : Nat) : Settled power s := by
  simp only [endsExpression, Bool.and_eq_true, Option.isNone_iff_eq_none] at ends
  intro op l r is
  simp [ends.1.2] at is

/-! ### What stands behind an operand -/

theorem iterate_nextSuffix_of_ends (positive : 0 < rounds) {depth : Nat} {s : TokenStream}
    (ends : endsOperand s.current.kind = true) (enough : s.ahead.length < rounds) (value : Expr) :
    iterate (nextSuffix rounds (level rounds depth)) rounds value s = .ok (value, s) := by
  have stops : nextSuffix rounds (level rounds depth) value s = .ok ((value, false), s) := by
    rw [nextSuffix, kind_bind]
    cases here : s.current.kind with
    | symbol symbol =>
        rw [here] at ends
        cases symbol with
        | leftParen | dot | increment | decrement => cases ends
        | _ => rfl
    | _ => rfl
  rw [iterate_unfold (asksAt_nextSuffix (level_consuming positive depth)) enough, bind_apply, stops]
  rfl

theorem iterate_nextSuffix_of_dot (positive : 0 < rounds) {depth : Nat} {s : TokenStream}
    {name : String} (dot : s.current.kind = .symbol .dot)
    (property : s.advance.current.kind = .identifier name) (enough : s.ahead.length < rounds)
    (value : Expr) :
    iterate (nextSuffix rounds (level rounds depth)) rounds value s =
      iterate (nextSuffix rounds (level rounds depth)) rounds
        (.member value ⟨name, s.advance.current.position⟩) s.advance.advance := by
  have round : nextSuffix rounds (level rounds depth) value s =
      .ok ((.member value ⟨name, s.advance.current.position⟩, true), s.advance.advance) := by
    simp only [nextSuffix, kind_bind, dot, advance_bind, propertyName]
    rw [identOr_bind _ _ property]
    rfl
  rw [iterate_unfold (asksAt_nextSuffix (level_consuming positive depth)) enough, bind_apply, round]
  rfl

theorem iterate_nextSuffix_of_paren (positive : 0 < rounds) {depth : Nat} {s : TokenStream}
    (paren : s.current.kind = .symbol .leftParen) (enough : s.ahead.length < rounds)
    (value : Expr) :
    iterate (nextSuffix rounds (level rounds depth)) rounds value s = (do
      let args ← callArgs rounds (level rounds depth)
      iterate (nextSuffix rounds (level rounds depth)) rounds (.call value args)) s := by
  have round : nextSuffix rounds (level rounds depth) value s = (do
      let args ← callArgs rounds (level rounds depth)
      return (.call value args, true) : Parser (Expr × Bool)) s := by
    rw [nextSuffix, kind_bind, paren]
  rw [iterate_unfold (asksAt_nextSuffix (level_consuming positive depth)) enough, bind_apply, round,
    bind_apply, bind_apply]
  cases callArgs rounds (level rounds depth) s <;> rfl

/-! ### From operands to expressions -/

theorem prefixed_of_starts {inner : Level} {s : TokenStream}
    (starts : startsExpression s.current.kind = true) :
    prefixed rounds inner s = postfixed rounds inner s := by
  rw [prefixed, kind_bind]
  cases here : s.current.kind with
  | symbol symbol =>
      rw [here] at starts
      cases symbol with
      | leftParen | leftBracket | leftBrace => rfl
      | _ => cases starts
  | _ => rfl

theorem ReadsOperand.prefixed {kinds : List TokenKind} {nesting : Nat} {value : Expr}
    (operand : ReadsOperand rounds kinds nesting value) {depth : Nat} {s rest : TokenStream}
    (spells : Spells kinds s rest) (enough : s.ahead.length < rounds)
    (ends : endsOperand rest.current.kind = true) :
    Gives (nesting ≤ depth) (fun read => read.forgetPositions = value.forgetPositions) rest
      (prefixed rounds (level rounds depth) s) := by
  have shorter := spells.length_le
  rw [prefixed_of_starts (operand.starts spells)]
  refine (operand.reads spells enough fun read same => ?_).iff (and_iff_left trivial)
  rw [iterate_nextSuffix_of_ends (by omega) ends (by omega)]
  exact Gives.ok same

/-- At the exhausted level nothing is read, and at any other it is the body that counts. -/
theorem ReadsExpression.of_body {kinds : List TokenKind} {nesting : Nat} {value : Expr}
    (body : ∀ {depth : Nat} {s rest : TokenStream}, Spells kinds s rest → s.ahead.length < rounds →
      endsExpression rest.current.kind = true →
      Gives (nesting ≤ depth) (fun read => read.forgetPositions = value.forgetPositions) rest
        (expressionBody rounds (level rounds depth) s)) :
    ReadsExpression rounds kinds nesting value where
  reads := by
    intro depth s rest spells enough ends
    cases depth with
    | zero => exact Gives.error.iff (by simp)
    | succ depth => exact (body spells enough ends).iff (by omega)

/-- Behind operands that no operator follows there is nothing more to an expression. -/
theorem expressionBody_of_settled {depth : Nat} {s rest : TokenStream} {fits : Prop}
    {good : Expr → Prop} (ends : endsExpression rest.current.kind = true)
    (operands : Gives fits good rest (binary rounds (level rounds depth) powerSteps 0 s)) :
    Gives fits good rest (expressionBody rounds (level rounds depth) s) := by
  refine operands.bind_ok fun read is => ?_
  rw [kind_bind, assignment?_of_endsExpression ends]
  exact Gives.ok is

theorem forward_binary (positive : 0 < rounds) (depth steps power : Nat) :
    Forward (binary rounds (level rounds depth) steps power) :=
  (consumes_binary (level_consuming positive depth) positive steps power).forward

/-- A single operand in front of a stream that is settled. -/
theorem binary_of_prefixed {depth steps power : Nat} {s rest : TokenStream} {fits : Prop}
    {good : Expr → Prop} (settled : Settled power rest) (enough : rest.ahead.length < rounds)
    (operand : Gives fits good rest (prefixed rounds (level rounds depth) s)) :
    Gives fits good rest (binary rounds (level rounds depth) steps power s) := by
  cases steps with
  | zero => exact operand
  | succ steps =>
      refine operand.bind_ok fun read is => ?_
      rw [iterate_of_settled (forward_binary (by omega) depth steps) settled enough]
      exact Gives.ok is

theorem ReadsOperand.expression {kinds : List TokenKind} {nesting : Nat} {value : Expr}
    (operand : ReadsOperand rounds kinds nesting value) :
    ReadsExpression rounds kinds nesting value := by
  refine ReadsExpression.of_body fun spells enough ends => ?_
  have shorter := spells.length_le
  refine expressionBody_of_settled ends ?_
  refine binary_of_prefixed (settled_of_endsExpression ends 0) (by omega) ?_
  exact operand.prefixed spells enough (endsOperand_of_endsExpression ends)

theorem ReadsOperand.of_primary {kinds : List TokenKind} {nesting : Nat} {value : Expr}
    (starts : ∀ {s rest : TokenStream}, Spells kinds s rest →
      startsExpression s.current.kind = true)
    (reads : ∀ {depth : Nat} {s rest : TokenStream}, Spells kinds s rest →
      s.ahead.length < rounds →
      Gives (nesting ≤ depth) (fun read => read.forgetPositions = value.forgetPositions) rest
        (primary rounds (level rounds depth) s)) :
    ReadsOperand rounds kinds nesting value where
  starts := starts
  reads spells enough next := (reads spells enough).bind next

theorem readsOperand_identifier (id : Ident) :
    ReadsOperand rounds [.identifier id.name] 0 (.ident id) := by
  refine .of_primary (fun spells => ?_) fun {depth s rest} spells enough => ?_
  · rw [spells.1]
    rfl
  · obtain ⟨here, rfl⟩ := spells
    rw [primary, current_bind, here]
    exact Gives.iff (Gives.ok rfl) (by simp)

theorem readsOperand_variable (id : Ident) :
    ReadsOperand rounds [Expr.variableToken id.name] 0 (.ident id) := by
  unfold Expr.variableToken
  split
  · rename_i prints
    refine .of_primary (fun spells => ?_) fun {depth s rest} spells enough => ?_
    · rw [spells.1]
      rfl
    · obtain ⟨here, rfl⟩ := spells
      rw [primary, current_bind, here]
      exact Gives.iff (Gives.ok (by simp [prints])) (by simp)
  · exact readsOperand_identifier id

theorem readsOperand_literal (value : Literal) :
    ReadsOperand rounds [value.token] 0 (.literal value) := by
  refine .of_primary (fun spells => ?_) fun {depth s rest} spells enough => ?_
  · rw [spells.1]
    cases value with
    | bool value => cases value <;> rfl
    | _ => rfl
  · obtain ⟨here, rfl⟩ := spells
    have read : primary rounds (level rounds depth) s = .ok (.literal value, s.advance) := by
      rw [primary, current_bind, here]
      cases value with
      | bool value => cases value <;> rfl
      | _ => rfl
    rw [read]
    exact Gives.iff (Gives.ok rfl) (by simp)

/-! ### Operators and parentheses -/

theorem eq_ident_of_forgetPositions {read : Expr} {id : Ident}
    (same : read.forgetPositions = (Expr.ident id).forgetPositions) :
    ∃ id' : Ident, read = .ident id' ∧ id'.name = id.name := by
  cases read with
  | ident id' =>
      exact ⟨id', rfl, by simpa using same⟩
  | _ => simp at same

theorem ReadsExpression.assign {kinds : List TokenKind} {nesting : Nat} {value : Expr}
    (right : ReadsExpression rounds kinds nesting value) {target : Ident} {token : TokenKind}
    (named : ReadsOperand rounds [token] 0 (.ident target)) :
    ReadsExpression rounds (token :: .symbol .assign :: kinds) (nesting + 1)
      (.assign target value) := by
  refine .of_body fun {depth s rest} spells enough ends => ?_
  obtain ⟨name, sign, spells⟩ := spells
  have shorter := s.leads_advance.length_le
  have shorter' := s.advance.leads_advance.length_le
  have settled : Settled 0 s.advance := by
    intro op l r is
    rw [sign] at is
    cases is
  have left : Gives (0 ≤ depth)
      (fun read => read.forgetPositions = (Expr.ident target).forgetPositions) s.advance
      (binary rounds (level rounds depth) powerSteps 0 s) := by
    refine binary_of_prefixed settled (by omega) ?_
    exact named.prefixed ⟨name, rfl⟩ enough (by rw [sign]; rfl)
  have fits : 0 ≤ depth ∧ nesting < depth ↔ nesting + 1 ≤ depth := by omega
  refine (left.bind fun read same => ?_).iff fits
  obtain ⟨id, rfl, sameName⟩ := eq_ident_of_forgetPositions same
  simp only [kind_bind, sign, assignment?, advance_bind]
  refine (right.reads spells (by omega) ends).bind_ok fun read same' => ?_
  exact Gives.ok (by simp [sameName, same'])

theorem binaryOp?_symbol (op : BinaryOp) :
    ∃ l r, binaryOp? (.symbol op.symbol) = some (op, l, r) := by
  cases op <;> exact ⟨_, _, rfl⟩

theorem ReadsOperand.binary {kinds kinds' : List TokenKind} {nesting nesting' : Nat}
    {left right : Expr} (first : ReadsOperand rounds kinds nesting left)
    (second : ReadsOperand rounds kinds' nesting' right) (op : BinaryOp) :
    ReadsExpression rounds (kinds ++ .symbol op.symbol :: kinds') (max nesting nesting')
      (.binary left op right) := by
  refine .of_body fun {depth s rest} whole enough ends => ?_
  obtain ⟨mid, spells, sign, spells'⟩ := spells_append.mp whole
  have shorter := spells.length_le
  have shorter' := mid.leads_advance.length_le
  have shorter'' := spells'.length_le
  obtain ⟨l, r, is⟩ := binaryOp?_symbol op
  have endsLeft : endsOperand mid.current.kind = true := by
    rw [sign]
    cases op <;> rfl
  refine expressionBody_of_settled ends ?_
  refine ((first.prefixed spells enough endsLeft).bind fun read same => ?_).iff Nat.max_le.symm
  have forward : ∀ power, Forward (Parser.binary rounds (level rounds depth) 6 power) :=
    forward_binary (by omega) depth 6
  rw [iterate_of_operator forward (by rw [sign]; exact is) (Nat.zero_le _) (by omega)]
  -- The right operand stops for want of any operator, whatever its power.
  have operand : Gives (nesting' ≤ depth)
      (fun read => read.forgetPositions = right.forgetPositions) rest
      (Parser.binary rounds (level rounds depth) 6 r mid.advance) := by
    refine binary_of_prefixed (settled_of_endsExpression ends r) (by omega) ?_
    exact second.prefixed spells' (by omega) (endsOperand_of_endsExpression ends)
  refine operand.bind_ok fun read' same' => ?_
  rw [iterate_of_settled forward (settled_of_endsExpression ends 0) (by omega)]
  exact Gives.ok (by simp [same, same'])

/-- The operand of a unary operator is a level of its own. -/
theorem ReadsOperand.operand {kinds : List TokenKind} {nesting : Nat} {value : Expr}
    (operand : ReadsOperand rounds kinds nesting value) {depth : Nat} {s rest : TokenStream}
    (spells : Spells kinds s rest) (enough : s.ahead.length < rounds)
    (ends : endsOperand rest.current.kind = true) :
    Gives (nesting < depth) (fun read => read.forgetPositions = value.forgetPositions) rest
      ((level rounds depth).operand s) := by
  cases depth with
  | zero => exact Gives.error.iff (by simp)
  | succ depth =>
      rw [operand_eq_prefixed (by omega) depth enough]
      exact (operand.prefixed spells enough ends).iff (by omega)

theorem ReadsOperand.unary {kinds : List TokenKind} {nesting : Nat} {value : Expr}
    (operand : ReadsOperand rounds kinds nesting value) (op : UnaryOp) :
    ReadsExpression rounds (.symbol op.symbol :: kinds) (nesting + 1) (.unary op value) := by
  refine .of_body fun {depth s rest} spells enough ends => ?_
  obtain ⟨sign, spells⟩ := spells
  have shorter := s.leads_advance.length_le
  have shorter' := spells.length_le
  have is : unary? s.current.kind = some op := by
    rw [sign]
    cases op <;> rfl
  refine expressionBody_of_settled ends ?_
  refine binary_of_prefixed (settled_of_endsExpression ends 0) (by omega) ?_
  rw [prefixed_of_unary is]
  refine ((operand.operand spells (by omega) (endsOperand_of_endsExpression ends)).bind_ok
    fun read same => ?_).iff Iff.rfl
  exact Gives.ok (by simp [same])

theorem ReadsExpression.parenthesized {kinds : List TokenKind} {nesting : Nat} {value : Expr}
    (content : ReadsExpression rounds kinds nesting value) :
    ReadsOperand rounds (between .leftParen .rightParen kinds) (nesting + 1) value := by
  refine .of_primary (fun spells => ?_) fun {depth s rest} whole enough => ?_
  · rw [(spells_between.mp spells).1]
    rfl
  · obtain ⟨opened, last, spells, closed, rfl⟩ := spells_between.mp whole
    have shorter := s.leads_advance.length_le
    have read : primary rounds (level rounds depth) s =
        Parser.parenthesized (level rounds depth) s := by
      rw [primary, current_bind, opened]
    rw [read, Parser.parenthesized, expect_bind _ opened]
    refine ((content.reads spells (by omega) (by rw [closed]; rfl)).bind_ok fun read same => ?_).iff Iff.rfl
    rw [expect_bind _ closed]
    exact Gives.ok same

theorem ReadsOperand.member {kinds : List TokenKind} {nesting : Nat} {value : Expr}
    (base : ReadsOperand rounds kinds nesting value) (property : Ident) :
    ReadsOperand rounds (kinds ++ [.symbol .dot, .identifier property.name]) nesting
      (.member value property) where
  starts spells := by
    obtain ⟨mid, spells, -⟩ := spells_append.mp spells
    exact base.starts spells
  reads := by
    intro depth s behind rest fits good whole enough next
    obtain ⟨mid, spells, dot, name, rfl⟩ := spells_append.mp whole
    have shorter := spells.length_le
    refine base.reads spells enough fun read same => ?_
    rw [iterate_nextSuffix_of_dot (by omega) dot name (by omega)]
    exact next _ (by simp [same])

/-! ### Lists with commas -/

/-- What may follow a piece of a list: a comma and another piece if there is `more`, and the closing
    symbol if there is not. -/
def Follows (close : Symbol) (s : TokenStream) : Bool → Prop
  | true => s.current.kind = .symbol .comma ∧ isNewline s.advance.current.kind = false
  | false => s.current.kind = .symbol close

/-- The stream behind the comma, if there is one. -/
def pastComma (s : TokenStream) (more : Bool) : TokenStream :=
  if more then s.advance else s

theorem comma_of_follows {close : Symbol} {s : TokenStream} {more : Bool}
    (follows : Follows close s more) (other : close ≠ .comma) :
    comma s = .ok (more, pastComma s more) := by
  cases more with
  | true =>
      obtain ⟨here, next⟩ := follows
      simp only [comma, skipNewlines_bind, isAt_bind]
      rw [dropWhile_of_not (by rw [here]; rfl), beq_symbol_iff.mpr here]
      simp only [if_true, advance_bind, skipNewlines_bind]
      rw [dropWhile_of_not next]
      rfl
  | false =>
      have here : s.current.kind = .symbol close := follows
      simp only [comma, skipNewlines_bind, isAt_bind]
      rw [dropWhile_of_not (by rw [here]; rfl), beq_symbol_of_ne (by simp [here, other])]
      rfl

/-- What one round of a loop does with one piece of a list: it puts what it read, which is `good`, in
    front of what was read before. -/
structure ReadsPiece {β : Type} (rounds : Nat) (step : List β → Parser (List β × Bool))
    (close : Symbol) (kinds : List TokenKind) (fits : Prop) (good : β → Prop) : Prop where
  starts : ∀ {s rest : TokenStream}, Spells kinds s rest → startsExpression s.current.kind = true
  round : ∀ (before : List β) (more : Bool) {s mid : TokenStream}, Spells kinds s mid →
    s.ahead.length < rounds → Follows close mid more →
    Gives fits (fun next => ∃ x, good x ∧ next = (x :: before, more)) (pastComma mid more)
      (step before s)

theorem startsExpression_of_pieces {β : Type} {step : List β → Parser (List β × Bool)}
    {close : Symbol} {piece : β → List TokenKind} {fits : β → Prop} {good : β → β → Prop}
    {first : β} {others : List β}
    (pieces : ∀ x ∈ first :: others, ReadsPiece rounds step close (piece x) (fits x) (good x))
    {s rest : TokenStream}
    (spells : Spells (commaSeparated ((first :: others).map piece)) s rest) :
    startsExpression s.current.kind = true := by
  have starts := @(pieces first List.mem_cons_self).starts
  cases others with
  | nil => exact starts spells
  | cons second others =>
      obtain ⟨mid, spells, -⟩ := spells_append.mp spells
      exact starts spells

theorem isNewline_of_pieces {β : Type} {step : List β → Parser (List β × Bool)}
    {close : Symbol} {piece : β → List TokenKind} {fits : β → Prop} {good : β → β → Prop}
    {xs : List β}
    (pieces : ∀ x ∈ xs, ReadsPiece rounds step close (piece x) (fits x) (good x))
    {s rest : TokenStream} (spells : Spells (commaSeparated (xs.map piece)) s rest)
    (closed : rest.current.kind = .symbol close) : isNewline s.current.kind = false := by
  cases xs with
  | nil =>
      obtain rfl := spells
      rw [closed]
      rfl
  | cons first others =>
      exact isNewline_of_startsExpression (startsExpression_of_pieces pieces spells)

/-- A loop over the pieces of a list that is not empty. -/
theorem gives_commaSeparated {β γ : Type} {step : List β → Parser (List β × Bool)}
    (asks : ∀ before s, AsksAt s (step before)) {close : Symbol} {piece : β → List TokenKind}
    {fits : β → Prop} {forget : β → γ} {first : β} {others : List β}
    (pieces : ∀ x ∈ first :: others,
      ReadsPiece rounds step close (piece x) (fits x) fun x' => forget x' = forget x)
    {s rest : TokenStream} {before : List β}
    (spells : Spells (commaSeparated ((first :: others).map piece)) s rest)
    (enough : s.ahead.length < rounds) (closed : rest.current.kind = .symbol close) :
    Gives (∀ x ∈ first :: others, fits x)
      (fun all => ∃ xs : List β, xs.map forget = (first :: others).map forget ∧
        all = xs.reverse ++ before) rest (iterate step rounds before s) := by
  induction others generalizing first s before with
  | nil =>
      have last := (pieces first (by simp)).round before false spells enough closed
      rw [iterate_unfold asks enough]
      refine (last.bind_ok fun next is => ?_).iff (by simp)
      obtain ⟨x, same, rfl⟩ := is
      exact Gives.ok ⟨[x], by simp [same], rfl⟩
  | cons second others ih =>
      obtain ⟨mid, spells, separated, spells'⟩ := spells_append.mp spells
      have shorter := spells.length_le
      have shorter' := mid.leads_advance.length_le
      have later : ∀ x ∈ second :: others,
          ReadsPiece rounds step close (piece x) (fits x) fun x' => forget x' = forget x :=
        fun x mem => pieces x (List.mem_cons_of_mem _ mem)
      have more : Follows close mid true :=
        ⟨separated, isNewline_of_startsExpression (startsExpression_of_pieces later spells')⟩
      have head := (pieces first (by simp)).round before true spells enough more
      have enough' : mid.advance.ahead.length < rounds := by omega
      rw [iterate_unfold asks enough]
      refine (head.bind fun next is => ?_).iff List.forall_mem_cons.symm
      obtain ⟨x, same, rfl⟩ := is
      refine Gives.imp (ih later spells' enough') fun all is => ?_
      obtain ⟨xs, sames, rfl⟩ := is
      exact ⟨x :: xs, by simp [same, sames], by simp⟩

/-- A list between two delimiters, if a round in front of the closing one stops. -/
theorem gives_enclosed {β γ : Type} {step : List β → Parser (List β × Bool)}
    (asks : ∀ before s, AsksAt s (step before)) {opening close : Symbol}
    (stop : ∀ before s, s.current.kind = .symbol close → step before s = .ok ((before, false), s))
    {piece : β → List TokenKind} {fits : β → Prop} {forget : β → γ} {xs : List β}
    (pieces : ∀ x ∈ xs,
      ReadsPiece rounds step close (piece x) (fits x) fun x' => forget x' = forget x)
    {s rest : TokenStream}
    (whole : Spells (between opening close (commaSeparated (xs.map piece))) s rest)
    (enough : s.ahead.length < rounds) (make : List β → Expr) :
    Gives (∀ x ∈ xs, fits x)
      (fun value => ∃ read : List β, read.map forget = xs.map forget ∧ value = make read) rest
      ((do
        expect (.symbol opening)
        skipNewlines
        let all ← iterate step rounds []
        expect (.symbol close)
        return make all.reverse : Parser Expr) s) := by
  obtain ⟨opened, last, spells, closed, rfl⟩ := spells_between.mp whole
  have enough' := Nat.lt_of_le_of_lt s.leads_advance.length_le enough
  have loop : Gives (∀ x ∈ xs, fits x)
      (fun all => ∃ read : List β, read.map forget = xs.map forget ∧ all = read.reverse) last
      (iterate step rounds [] s.advance) := by
    cases xs with
    | nil =>
        obtain rfl := spells
        rw [iterate_unfold asks enough', bind_apply, stop _ _ closed]
        exact Gives.iff (Gives.ok ⟨[], rfl, rfl⟩) (by simp)
    | cons first others =>
        refine (gives_commaSeparated asks pieces spells enough' closed).imp fun all is => ?_
        obtain ⟨read, same, rfl⟩ := is
        exact ⟨read, same, List.append_nil _⟩
  rw [expect_bind _ opened, skipNewlines_bind,
    dropWhile_of_not (isNewline_of_pieces pieces spells closed)]
  refine loop.bind_ok fun all is => ?_
  obtain ⟨read, same, rfl⟩ := is
  rw [expect_bind _ closed, List.reverse_reverse]
  exact Gives.ok ⟨read, same, rfl⟩

theorem endsExpression_of_follows {close : Symbol} {s : TokenStream} {more : Bool}
    (ends : endsExpression (.symbol close) = true) (follows : Follows close s more) :
    endsExpression s.current.kind = true := by
  cases more with
  | true =>
      rw [follows.1]
      rfl
  | false =>
      have here : s.current.kind = .symbol close := follows
      rwa [here]

theorem readsPiece_arg {kinds : List TokenKind} {nesting depth : Nat} {value : Expr}
    (operand : ReadsOperand rounds kinds nesting value) {close : Symbol}
    (ends : endsExpression (.symbol close) = true) (other : close ≠ .comma) :
    ReadsPiece rounds (nextArg (level rounds depth)) close kinds (nesting < depth)
      fun read => read.forgetPositions = value.forgetPositions where
  starts := operand.starts
  round before more s mid spells enough follows := by
    have ends := endsExpression_of_follows ends follows
    refine (operand.expression.reads spells enough ends).bind_ok fun read same => ?_
    rw [bind_apply, comma_of_follows follows other]
    exact Gives.ok ⟨read, same, rfl⟩

theorem nextItem_of_starts {inner : Level} {s : TokenStream}
    (starts : startsExpression s.current.kind = true) (before : List Expr) :
    nextItem inner before s = nextArg inner before s := by
  rw [nextItem, isAt_bind, not_symbol_of_startsExpression starts rfl]
  rfl

theorem readsPiece_item {kinds : List TokenKind} {nesting depth : Nat} {value : Expr}
    (operand : ReadsOperand rounds kinds nesting value) :
    ReadsPiece rounds (nextItem (level rounds depth)) .rightBracket kinds (nesting < depth)
      fun read => read.forgetPositions = value.forgetPositions where
  starts := operand.starts
  round before more s mid spells enough follows := by
    rw [nextItem_of_starts (operand.starts spells)]
    exact (readsPiece_arg operand rfl (by decide)).round before more spells enough follows

theorem propertyKey_bind {α : Type} {key : String} {s : TokenStream} (f : String → Parser α)
    (here : s.current.kind = .string key) : (propertyKey >>= f) s = f key s.advance := by
  rw [bind_apply, propertyKey, kind_bind, here]
  rfl

theorem readsPiece_property {kinds : List TokenKind} {nesting depth : Nat} {value : Expr}
    (operand : ReadsOperand rounds kinds nesting value) (key : String) :
    ReadsPiece rounds (nextProperty (level rounds depth)) .rightBrace
      (.string key :: .symbol .colon :: kinds) (nesting < depth)
      fun read => (read.1, read.2.forgetPositions) = (key, value.forgetPositions) where
  starts spells := by
    rw [spells.1]
    rfl
  round before more s mid whole enough follows := by
    obtain ⟨string, colon, spells⟩ := whole
    have shorter := s.leads_advance.length_le
    have shorter' := s.advance.leads_advance.length_le
    have ends := endsExpression_of_follows rfl follows
    rw [nextProperty, isAt_bind, beq_symbol_of_ne (by simp [string])]
    simp only [Bool.false_eq_true, if_false]
    rw [propertyKey_bind _ string, expect_bind _ colon]
    refine (operand.expression.reads spells (by omega) ends).bind_ok fun read same => ?_
    rw [bind_apply, comma_of_follows follows (by decide)]
    exact Gives.ok ⟨(key, read), by simp [same], rfl⟩

/-! ### Every expression -/

variable {piece : Expr → List TokenKind} {inside : Expr → Nat}

theorem gives_callArgs {args : List Expr}
    (operands : ∀ e ∈ args, ReadsOperand rounds (piece e) (inside e) e) {depth : Nat}
    {s rest : TokenStream}
    (whole : Spells (between .leftParen .rightParen (commaSeparated (args.map piece))) s rest)
    (enough : s.ahead.length < rounds) :
    Gives (∀ e ∈ args, inside e < depth)
      (fun read => read.map Expr.forgetPositions = args.map Expr.forgetPositions) rest
      (callArgs rounds (level rounds depth) s) := by
  obtain ⟨opened, last, spells, closed, rfl⟩ := spells_between.mp whole
  have shorter := s.leads_advance.length_le
  rw [callArgs, expect_bind _ opened, skipNewlines_bind]
  cases args with
  | nil =>
      obtain rfl := spells
      rw [dropWhile_of_not (by rw [closed]; rfl), isAt_bind, beq_symbol_iff.mpr closed]
      simp only [if_true, pure_bind]
      rw [expect_bind _ closed]
      exact Gives.iff (Gives.ok rfl) (by simp)
  | cons first others =>
      have pieces : ∀ e ∈ first :: others, ReadsPiece rounds (nextArg (level rounds depth))
          .rightParen (piece e) (inside e < depth)
          fun read => read.forgetPositions = e.forgetPositions :=
        fun e is => readsPiece_arg (operands e is) rfl (by decide)
      have starts := startsExpression_of_pieces pieces spells
      have asks : ∀ before s, AsksAt s (nextArg (level rounds depth) before) :=
        fun before s => (consumes_nextArg (level_consuming (by omega) depth) before s).asksAt
      rw [dropWhile_of_not (isNewline_of_startsExpression starts), isAt_bind,
        not_symbol_of_startsExpression starts rfl]
      simp only [Bool.false_eq_true, if_false]
      refine (gives_commaSeparated asks pieces spells (by omega) closed).bind_ok fun all is => ?_
      obtain ⟨read, same, rfl⟩ := is
      rw [expect_bind _ closed]
      exact Gives.ok (by simpa using same)

theorem ReadsOperand.call {kinds : List TokenKind} {nesting : Nat} {callee : Expr}
    (operand : ReadsOperand rounds kinds nesting callee) {args : List Expr}
    (operands : ∀ e ∈ args, ReadsOperand rounds (piece e) (inside e) e) :
    ReadsOperand rounds
      (kinds ++ between .leftParen .rightParen (commaSeparated (args.map piece)))
      (max nesting (deepest (args.map inside))) (.call callee args) where
  starts spells := by
    obtain ⟨mid, spells, -⟩ := spells_append.mp spells
    exact operand.starts spells
  reads := by
    intro depth s behind rest fits good whole enough next
    obtain ⟨mid, spells, spells'⟩ := spells_append.mp whole
    have shorter := spells.length_le
    have levels : nesting ≤ depth ∧ (∀ e ∈ args, inside e < depth) ∧ fits ↔
        max nesting (deepest (args.map inside)) ≤ depth ∧ fits := by
      simp only [deepest_map_le_iff, Nat.max_le, and_assoc]
    refine (operand.reads spells enough fun read same => ?_).iff levels
    rw [iterate_nextSuffix_of_paren (by omega) (spells_between.mp spells').1 (by omega)]
    refine (gives_callArgs operands spells' (by omega)).bind fun read' same' => ?_
    exact next _ (by simp [Expr.forgetEach_eq_map, same, same'])

theorem readsOperand_array {items : List Expr}
    (operands : ∀ e ∈ items, ReadsOperand rounds (piece e) (inside e) e) :
    ReadsOperand rounds
      (between .leftBracket .rightBracket (commaSeparated (items.map piece)))
      (deepest (items.map inside)) (.array items) := by
  refine .of_primary (fun spells => ?_) fun {depth s rest} whole enough => ?_
  · rw [(spells_between.mp spells).1]
    rfl
  · have asks := asksAt_nextItem (@level_consuming rounds (by omega) depth)
    have stop : ∀ before s, s.current.kind = .symbol .rightBracket →
        nextItem (level rounds depth) before s = .ok ((before, false), s) := by
      intro before s here
      rw [nextItem, isAt_bind, beq_symbol_iff.mpr here]
      rfl
    have pieces := fun e is => @readsPiece_item rounds _ _ depth _ (operands e is)
    rw [primary, current_bind, (spells_between.mp whole).1]
    refine ((gives_enclosed asks stop pieces whole enough .array).imp fun value is => ?_).iff
      deepest_map_le_iff.symm
    obtain ⟨read, same, rfl⟩ := is
    simpa [Expr.forgetEach_eq_map] using same

theorem readsOperand_object {properties : List (String × Expr)}
    (operands : ∀ p ∈ properties, ReadsOperand rounds (piece p.2) (inside p.2) p.2) :
    ReadsOperand rounds
      (between .leftBrace .rightBrace (commaSeparated
        (properties.map fun p => .string p.1 :: .symbol .colon :: piece p.2)))
      (deepest (properties.map fun p => inside p.2)) (.object properties) := by
  refine .of_primary (fun spells => ?_) fun {depth s rest} whole enough => ?_
  · rw [(spells_between.mp spells).1]
    rfl
  · have asks := asksAt_nextProperty (@level_consuming rounds (by omega) depth)
    have stop : ∀ before s, s.current.kind = .symbol .rightBrace →
        nextProperty (level rounds depth) before s = .ok ((before, false), s) := by
      intro before s here
      rw [nextProperty, isAt_bind, beq_symbol_iff.mpr here]
      rfl
    have pieces : ∀ p ∈ properties, ReadsPiece rounds (nextProperty (level rounds depth))
        .rightBrace (.string p.1 :: .symbol .colon :: piece p.2) (inside p.2 < depth)
        fun read => (read.1, read.2.forgetPositions) = (p.1, p.2.forgetPositions) :=
      fun p is => readsPiece_property (operands p is) p.1
    rw [primary, current_bind, (spells_between.mp whole).1]
    refine ((gives_enclosed asks stop pieces whole enough .object).imp fun value is => ?_).iff
      deepest_map_le_iff.symm
    obtain ⟨read, same, rfl⟩ := is
    simpa [Expr.forgetProperties_eq_map] using same

/-- Every expression is read back from its rendering. -/
theorem readsOperand_render (e : Expr) : ReadsOperand rounds e.render e.nesting e := by
  induction e using Expr.inductionOn with
  | assign target value ih =>
      rw [Expr.render, Expr.nesting]
      exact (ih.expression.assign (readsOperand_identifier target)).parenthesized
  | binary left op right ihLeft ihRight =>
      rw [Expr.render, Expr.nesting]
      exact (ihLeft.binary ihRight op).parenthesized
  | unary op operand ih =>
      rw [Expr.render, Expr.nesting]
      exact (ih.unary op).parenthesized
  | call callee args ih ihArgs =>
      rw [Expr.render, Expr.nesting, Expr.renderEach_eq_map, Expr.nestingEach_eq_map]
      exact ih.call ihArgs
  | member base property ih =>
      rw [Expr.render, Expr.nesting]
      exact ih.member property
  | ident id =>
      rw [Expr.render, Expr.nesting]
      exact readsOperand_variable id
  | literal value =>
      rw [Expr.render, Expr.nesting]
      exact readsOperand_literal value
  | array items ih =>
      rw [Expr.render, Expr.nesting, Expr.renderEach_eq_map, Expr.nestingEach_eq_map]
      exact readsOperand_array ih
  | object properties ih =>
      rw [Expr.render, Expr.nesting, Expr.renderProperties_eq_map, Expr.nestingProperties_eq_map]
      exact readsOperand_object ih

end Expressions

end Parser

end MinangScript
