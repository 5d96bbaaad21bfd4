import MinangScript.Proofs.JavaScript.Tokens
import MinangScript.Proofs.Parser.Completeness

/-! # Written expressions are read back

The parser makes of the tokens of a written expression what it makes of a rendering: the parentheses
differ only around an assignment that is the value of another one, which is where the parser needs
none. So a shared expression, written and read again, is itself, and no precedence is involved.
-/

namespace MinangScript

namespace JavaScript

open MinangScript.Parser (ReadsOperand ReadsExpression)

mutual

/-- How many expressions and operands of unary operators are open at the deepest place within a
    written expression. Less is open where an assignment goes without parentheses. -/
def nestingIn (wrapped : Bool) : Expr → Nat
  | .assign _ value => nestingIn false value + (if wrapped then 2 else 1)
  | .binary left _ right => max (nestingIn true left) (nestingIn true right) + 1
  | .unary _ operand => nestingIn true operand + 2
  | .call callee args => max (nestingIn true callee) (deepest (nestingEach args))
  | .member base _ => nestingIn true base
  | .ident _ => 0
  | .literal _ => 0
  | .array items => deepest (nestingEach items)
  | .object properties => deepest (nestingFields properties)

def nestingEach : List Expr → List Nat
  | [] => []
  | e :: rest => nestingIn true e :: nestingEach rest

def nestingFields : List (String × Expr) → List Nat
  | [] => []
  | (_, value) :: rest => nestingIn true value :: nestingFields rest

end

theorem nestingEach_eq_map (es : List Expr) : nestingEach es = es.map (nestingIn true) := by
  induction es with
  | nil => rfl
  | cons e rest ih => simp only [nestingEach, ih, List.map_cons]

theorem nestingFields_eq_map (properties : List (String × Expr)) :
    nestingFields properties = properties.map fun p => nestingIn true p.2 := by
  induction properties with
  | nil => rfl
  | cons property rest ih => simp only [nestingFields, ih, List.map_cons]

/-- The tokens of a written expression are read as that expression. -/
structure ReadsWritten (rounds : Nat) (e : Expr) : Prop where
  operand : ReadsOperand rounds (tokensIn true e) (nestingIn true e) e
  bare : ReadsExpression rounds (tokensIn false e) (nestingIn false e) e

theorem ReadsWritten.of_operand {rounds : Nat} {e : Expr}
    (operand : ReadsOperand rounds (tokensIn true e) (nestingIn true e) e)
    (sameTokens : tokensIn false e = tokensIn true e)
    (sameNesting : nestingIn false e = nestingIn true e) : ReadsWritten rounds e where
  operand := operand
  bare := by
    rw [sameTokens, sameNesting]
    exact operand.expression

theorem readsWritten (rounds : Nat) (e : Expr) : ReadsWritten rounds e := by
  induction e using Expr.inductionOn with
  | assign target value ih =>
      have bare := ih.bare.assign (Parser.readsOperand_variable target)
      constructor
      · simpa [tokensIn, nestingIn] using bare.parenthesized
      · simpa [tokensIn, nestingIn] using bare
  | binary left op right ihLeft ihRight =>
      refine .of_operand ?_ rfl rfl
      rw [tokensIn, nestingIn]
      exact (ihLeft.operand.binary ihRight.operand op).parenthesized
  | unary op operand ih =>
      refine .of_operand ?_ rfl rfl
      rw [tokensIn, nestingIn]
      exact (ih.operand.unary op).parenthesized
  | call callee args ih ihArgs =>
      refine .of_operand ?_ rfl rfl
      rw [tokensIn, nestingIn, tokensEach_eq_map, nestingEach_eq_map]
      exact ih.operand.call fun e member => (ihArgs e member).operand
  | member base property ih =>
      refine .of_operand ?_ rfl rfl
      rw [tokensIn, nestingIn]
      exact ih.operand.member property
  | ident id =>
      refine .of_operand ?_ rfl rfl
      rw [tokensIn, nestingIn]
      exact Parser.readsOperand_variable id
  | literal value =>
      refine .of_operand ?_ rfl rfl
      rw [tokensIn, nestingIn]
      exact Parser.readsOperand_literal value
  | array items ih =>
      refine .of_operand ?_ rfl rfl
      rw [tokensIn, nestingIn, tokensEach_eq_map, nestingEach_eq_map]
      exact Parser.readsOperand_array fun e member => (ih e member).operand
  | object properties ih =>
      refine .of_operand ?_ rfl rfl
      rw [tokensIn, nestingIn, tokensFields_eq_map, nestingFields_eq_map]
      exact Parser.readsOperand_object fun p member => (ih p member).operand

/-- The tokens of a written expression, up to the end of the text. -/
theorem gives_written {e : Expr} {tokens : List Token}
    (written : tokens.map Token.kind = tokensIn true e ++ [.endOfText]) {rounds : Nat}
    (enough : tokens.length < rounds) (depth : Nat) :
    ∃ position, Parser.Gives (nestingIn true e < depth)
      (fun read => read.forgetPositions = e.forgetPositions) ⟨[], position⟩
      ((Parser.level rounds depth).expression (.ofTokens tokens)) := by
  obtain ⟨position, spells⟩ := TokenStream.spells_ofTokens_to_end written
  have shorter : (TokenStream.ofTokens tokens).ahead.length < tokens.length + 1 :=
    TokenStream.length_skip_ofTokens tokens 0
  exact ⟨position, (readsWritten rounds e).operand.expression.reads spells (by omega) rfl⟩

/-- The same tokens behind the words that declare a name. -/
theorem gives_declared {e : Expr} {tokens declared : List Token}
    (written : tokens.map Token.kind = tokensIn true e ++ [.endOfText]) (kind : DeclKind)
    (name : Ident)
    (declares : declared.map Token.kind =
      [.keyword kind.keyword, .identifier name.name, .symbol .assign]) {rounds : Nat}
    (enough : (declared ++ tokens).length < rounds) (depth : Nat) :
    ∃ position, Parser.Gives (nestingIn true e + 2 ≤ depth)
      (fun read => read.forgetPositions =
        (Program.mk [.declare kind name (some e)]).forgetPositions) ⟨[], position⟩
      (Parser.program rounds (Parser.level rounds depth) (.ofTokens (declared ++ tokens))) := by
  have same : (declared ++ tokens).map Token.kind =
      (.keyword kind.keyword :: .identifier name.name :: .symbol .assign :: tokensIn true e) ++
        [.endOfText] := by
    simp [declares, written]
  obtain ⟨position, spells⟩ := TokenStream.spells_ofTokens_to_end same
  have shorter : (TokenStream.ofTokens (declared ++ tokens)).ahead.length <
      (declared ++ tokens).length + 1 := TokenStream.length_skip_ofTokens _ 0
  have init := (readsWritten rounds e).operand.expression
  refine ⟨position, Parser.gives_program_of_statement ?_ ?_ (by omega) rfl⟩
  · rw [spells.1]
    cases kind <;> rfl
  · cases depth with
    | zero => exact Parser.Gives.error.iff (by simp)
    | succ depth =>
        exact (Parser.gives_declaration init kind name spells (by omega) rfl).iff (by omega)

end JavaScript

/-- A shared expression is written as a text of which the parser makes that expression again, alone
    or as the value of a declaration. It reads all of the text, and it refuses only what nests too
    deep. -/
theorem written_expression_reads_back (e : Expr) (shared : JavaScript.isShared e = true) :
    ∃ tokens, tokenize (JavaScript.expr e) = .ok tokens ∧
      (∀ rounds depth, tokens.length < rounds →
        (JavaScript.nestingIn true e < depth → ∃ read rest,
          (Parser.level rounds depth).expression (.ofTokens tokens) = .ok (read, rest) ∧
            rest.ahead = [] ∧ read.forgetPositions = e.forgetPositions) ∧
        (depth ≤ JavaScript.nestingIn true e → ∃ error,
          (Parser.level rounds depth).expression (.ofTokens tokens) = .error error ∧
            error.problem.text = "nesting too deep")) ∧
      ∀ (kind : DeclKind) (name : Ident) (declared : List Token),
        declared.map Token.kind =
          [.keyword kind.keyword, .identifier name.name, .symbol .assign] →
        (JavaScript.nestingIn true e + 2 ≤ maxNesting → ∃ read,
          parseTokens (declared ++ tokens) = .ok read ∧ read.forgetPositions =
            (Program.mk [.declare kind name (some e)]).forgetPositions) ∧
        (maxNesting < JavaScript.nestingIn true e + 2 → ∃ error,
          parseTokens (declared ++ tokens) = .error error ∧
            error.problem.text = "nesting too deep") := by
  have lexes := (JavaScript.written_of_isShared shared).within.lexes
  obtain ⟨tokens, same, written⟩ := lexes.tokenize (by simp [EndsNumber])
  refine ⟨tokens, same, fun rounds depth enough => ?_, fun kind name declared declares => ?_⟩
  · obtain ⟨position, gives⟩ := JavaScript.gives_written written enough depth
    constructor
    · intro fits
      obtain ⟨read, sameRead, ran⟩ := gives.fitting fits
      exact ⟨read, _, ran, rfl, sameRead⟩
    · intro deep
      obtain ⟨token, ran⟩ := gives.tooDeep (Nat.not_lt.mpr deep)
      exact ⟨_, ran, rfl⟩
  · obtain ⟨position, gives⟩ := JavaScript.gives_declared written kind name declares
      (Nat.lt_succ_self _) maxNesting
    constructor
    · intro fits
      obtain ⟨read, sameRead, ran⟩ := gives.fitting fits
      refine ⟨read, ?_, sameRead⟩
      rw [parseTokens, StateT.run, ran]
      rfl
    · intro deep
      obtain ⟨token, ran⟩ := gives.tooDeep (Nat.not_le.mpr deep)
      refine ⟨⟨.nestingTooDeep, token⟩, ?_, rfl⟩
      rw [parseTokens, StateT.run, ran]
      rfl

theorem written_expression_reads_back_chain :
    let x : Ident := ⟨"x", .start⟩
    let args : List Expr := [.literal (.string "\"/\n"), .array [.literal (.number 0.5)],
      .object [("a b", .unary .neg (.unary .neg (.literal (.number 1e21))))]]
    let chain : Expr := .assign x (.assign ⟨"cetak", .start⟩
      (.binary (.call (.member (.ident x) x) args) .div (.binary (.ident x) .le (.ident x))))
    let deep : Expr := Nat.repeat (.unary .not) 64 (.ident x)
    let declared : List Token :=
      [⟨.keyword .varWord, .start⟩, ⟨.identifier "x", .start⟩, ⟨.symbol .assign, .start⟩]
    (JavaScript.isShared chain = true ∧ JavaScript.nestingIn true chain + 2 ≤ maxNesting ∧
      ∃ tokens, tokenize (JavaScript.expr chain) = .ok tokens ∧
        ∃ read, parseTokens (declared ++ tokens) = .ok read ∧
          read.forgetPositions =
            (Program.mk [.declare .varDecl x (some chain)]).forgetPositions) ∧
    (JavaScript.isShared deep = true ∧ maxNesting < JavaScript.nestingIn true deep + 2 ∧
      ∃ tokens, tokenize (JavaScript.expr deep) = .ok tokens ∧
        ∃ error, parseTokens (declared ++ tokens) = .error error ∧
          error.problem.text = "nesting too deep") := by
  intro x args chain deep declared
  have shared : JavaScript.isShared chain = true := by decide
  have shared' : JavaScript.isShared deep = true := by decide
  have fits : JavaScript.nestingIn true chain + 2 ≤ maxNesting := by decide
  have exceeds : maxNesting < JavaScript.nestingIn true deep + 2 := by decide
  obtain ⟨tokens, same, -, asDeclared⟩ := written_expression_reads_back chain shared
  obtain ⟨tokens', same', -, asDeclared'⟩ := written_expression_reads_back deep shared'
  refine ⟨⟨shared, fits, tokens, same, ?_⟩, ⟨shared', exceeds, tokens', same', ?_⟩⟩
  · exact (asDeclared .varDecl x declared rfl).1 fits
  · exact (asDeclared' .varDecl x declared rfl).2 exceeds

end MinangScript
