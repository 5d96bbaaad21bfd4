import MinangScript.Proofs.Parser.Pieces
import MinangScript.Proofs.Parser.Rendering
import MinangScript.Proofs.Program.Nodes

/-! # The names in a program come from tokens

A parser makes no names up: whatever holds of the names among the tokens, and of the word that
prints where it stands for a variable, holds of the names in the program. The same walk through the
parsers shows what else they promise about the shape of a program: a constant has a value, and
behind `lain` stands a conditional or a block.
-/

namespace MinangScript

/-- What is allowed as a name: where something is declared or a property is named, and where a
    variable is read or written. -/
structure Naming where
  Declared : Ident → Prop
  Variable : Ident → Prop

namespace Naming

variable {N : Naming}

/-- The names that a parser can make of the token are allowed. -/
structure Allows (N : Naming) (t : Token) : Prop where
  declared : ∀ name, t.kind = .identifier name → N.Declared ⟨name, t.position⟩
  read : ∀ name, t.kind = .identifier name → N.Variable ⟨name, t.position⟩
  printing : t.kind = .keyword .printWord → N.Variable ⟨Keyword.printWord.spelling, t.position⟩

/-- What a node of a program says itself is allowed and well formed, whatever is inside of it. -/
def Fits (N : Naming) : Node → Prop
  | .expr (.assign target _) => N.Variable target
  | .expr (.member _ property) => N.Declared property
  | .expr (.ident id) => N.Variable id
  | .stmt (.declare kind name init) => N.Declared name ∧ (kind = .constDecl → init.isSome = true)
  | .stmt (.function name params _) => N.Declared name ∧ ∀ param ∈ params, N.Declared param
  | .stmt (.conditional _ _ (some other)) => other.isBranch = true
  | _ => True

def AllFit (N : Naming) (nodes : List Node) : Prop :=
  ∀ n ∈ nodes, N.Fits n

@[simp] theorem allFit_nil : N.AllFit [] := List.forall_mem_nil _

@[simp] theorem allFit_cons {n : Node} {nodes : List Node} :
    N.AllFit (n :: nodes) ↔ N.Fits n ∧ N.AllFit nodes := List.forall_mem_cons

@[simp] theorem allFit_append {front back : List Node} :
    N.AllFit (front ++ back) ↔ N.AllFit front ∧ N.AllFit back := List.forall_mem_append

@[simp] theorem allFit_exprs {es : List Expr} :
    N.AllFit (Expr.nodesEach es) ↔ ∀ e ∈ es, N.AllFit e.nodes := by
  induction es with
  | nil => simp [Expr.nodesEach]
  | cons e es ih => simp [Expr.nodesEach, ih]

@[simp] theorem allFit_properties {properties : List (String × Expr)} :
    N.AllFit (Expr.nodesProperties properties) ↔
      ∀ property ∈ properties, N.AllFit property.2.nodes := by
  induction properties with
  | nil => simp [Expr.nodesProperties]
  | cons property properties ih => simp [Expr.nodesProperties, ih]

@[simp] theorem allFit_stmts {body : List Stmt} :
    N.AllFit (Stmt.nodesEach body) ↔ ∀ s ∈ body, N.AllFit s.nodes := by
  induction body with
  | nil => simp [Stmt.nodesEach]
  | cons s body ih => simp [Stmt.nodesEach, ih]

@[simp] theorem allFit_optionalExpr {e : Option Expr} :
    N.AllFit (Expr.nodesOptional e) ↔ ∀ value ∈ e, N.AllFit value.nodes := by
  cases e <;> simp [Expr.nodesOptional]

@[simp] theorem allFit_optionalStmt {s : Option Stmt} :
    N.AllFit (Stmt.nodesOptional s) ↔ ∀ value ∈ s, N.AllFit value.nodes := by
  cases s <;> simp [Stmt.nodesOptional]

/-- The names that can be made of the tokens ahead are allowed. -/
def Clean (N : Naming) (s : TokenStream) : Prop :=
  ∀ t ∈ s.ahead, N.Allows t

/-- What the end of the text or any other token without a name gives is allowed. -/
theorem Clean.current {s : TokenStream} (clean : N.Clean s) : N.Allows s.current := by
  obtain ⟨ahead, stop⟩ := s
  cases ahead with
  | nil => exact ⟨nofun, nofun, nofun⟩
  | cons t rest => exact clean t List.mem_cons_self

theorem Clean.of_leads {s s' : TokenStream} (clean : N.Clean s) (leads : s.Leads s') : N.Clean s' :=
  fun t member => clean t (leads.ahead.subset member)

end Naming

namespace Parser

open Reader (iterate)

variable {N : Naming} {α β : Type}

/-- On the stream `s` the parser gives only what is good, and leaves only allowed names ahead. -/
def MakesAt (N : Naming) (s : TokenStream) (good : α → Prop) (p : Parser α) : Prop :=
  ∀ a s', p s = .ok (a, s') → good a ∧ N.Clean s'

/-- If the names ahead are allowed, the parser gives only what is good. -/
def Makes (N : Naming) (good : α → Prop) (p : Parser α) : Prop :=
  ∀ s, N.Clean s → MakesAt N s good p

variable {good : α → Prop} {fine : β → Prop}

/-! ## Putting parsers together -/

theorem MakesAt.bind {s : TokenStream} {p : Parser α} {f : α → Parser β}
    (first : MakesAt N s good p) (next : ∀ a, good a → Makes N fine (f a)) :
    MakesAt N s fine (p >>= f) := by
  intro b s' h
  obtain ⟨a, mid, ran, rest⟩ := bind_ok h
  obtain ⟨isGood, clean⟩ := first a mid ran
  exact next a isGood mid clean b s' rest

theorem Makes.bind {p : Parser α} {f : α → Parser β} (first : Makes N good p)
    (next : ∀ a, good a → Makes N fine (f a)) : Makes N fine (p >>= f) :=
  fun s clean => (first s clean).bind next

theorem makes_pure {a : α} (isGood : good a) : Makes N good (pure a : Parser α) := by
  intro s clean a' s' h
  cases h
  exact ⟨isGood, clean⟩

theorem makes_fail (problem : SyntaxProblem) : Makes N good (fail problem : Parser α) := by
  intro s clean a s' h
  cases h

theorem makesAt_kind {s : TokenStream} {f : TokenKind → Parser α}
    (next : MakesAt N s good (f s.current.kind)) : MakesAt N s good (kind >>= f) := next

theorem makesAt_current {s : TokenStream} {f : Token → Parser α}
    (next : MakesAt N s good (f s.current)) : MakesAt N s good (current >>= f) := next

theorem makes_kind {f : TokenKind → Parser α} (next : ∀ k, Makes N good (f k)) :
    Makes N good (kind >>= f) :=
  fun s clean => next s.current.kind s clean

theorem makes_look (k : TokenKind) : Makes N (fun _ => True) (isAt k) := by
  intro s clean a s' h
  cases h
  exact ⟨trivial, clean⟩

theorem makes_isAt {k : TokenKind} {p q : Parser α} (found : Makes N good p)
    (other : Makes N good q) : Makes N good (do if ← isAt k then p else q) := by
  refine (makes_look k).bind fun here _ => ?_
  split
  · exact found
  · exact other

theorem makes_modify {f : TokenStream → TokenStream} (leads : ∀ s, TokenStream.Leads s (f s)) :
    Makes N (fun _ => True) (modify f : Parser Unit) := by
  intro s clean a s' h
  cases h
  exact ⟨trivial, clean.of_leads (leads s)⟩

theorem makes_advance : Makes N (fun _ => True) advance := makes_modify TokenStream.leads_advance

theorem makes_skipNewlines : Makes N (fun _ => True) skipNewlines :=
  makes_modify (TokenStream.leads_dropWhile isNewline)

theorem makes_skipSeparators : Makes N (fun _ => True) skipSeparators :=
  makes_modify (TokenStream.leads_dropWhile isSeparator)

theorem makes_expect (k : TokenKind) : Makes N (fun _ => True) (expect k) :=
  makes_isAt makes_advance (makes_fail _)

/-- After a token that was looked at, the parser goes on behind it. -/
theorem makes_taken {p : Parser α} (next : Makes N good p) : Makes N good (do advance; p) :=
  makes_advance.bind fun _ _ => next

theorem makes_expected {k : TokenKind} {p : Parser α} (next : Makes N good p) :
    Makes N good (do expect k; p) :=
  (makes_expect k).bind fun _ _ => next

theorem makes_iterate {step : β → Parser (β × Bool)}
    (round : ∀ value, fine value → Makes N (fun next => fine next.1) (step value)) (rounds : Nat)
    {value : β} (isFine : fine value) : Makes N fine (iterate step rounds value) := by
  induction rounds generalizing value with
  | zero => exact makes_pure isFine
  | succ rounds ih =>
      refine (round value isFine).bind fun (next, more) nextFine => ?_
      cases more with
      | true => exact ih nextFine
      | false => exact makes_pure nextFine

/-- The name of a token is allowed wherever a name is. -/
theorem makes_identOr (problem : SyntaxProblem) : Makes N N.Declared (identOr problem) := by
  intro s clean
  refine makesAt_current ?_
  split
  · rename_i name here
    exact makes_taken (makes_pure (clean.current.declared name here)) s clean
  · exact makes_fail _ s clean

theorem makes_comma : Makes N (fun _ => True) comma := by
  refine makes_skipNewlines.bind fun _ _ => makes_isAt ?_ (makes_pure trivial)
  exact makes_taken (makes_skipNewlines.bind fun _ _ => makes_pure trivial)

theorem makes_asks {f : Bool → α} (isGood : ∀ more, good (f more)) :
    Makes N good (do return f (← comma)) :=
  makes_comma.bind fun more _ => makes_pure (isGood more)

/-- The parsers of the level give only programs that fit, and conditionals where one begins. -/
structure Level.Fits (N : Naming) (level : Level) : Prop where
  statement : Makes N (fun s => N.AllFit s.nodes) level.statement
  branch : ∀ s, N.Clean s → s.current.kind = .keyword .ifWord →
    MakesAt N s (fun s => s.isBranch = true ∧ N.AllFit s.nodes) level.statement
  expression : Makes N (fun e => N.AllFit e.nodes) level.expression
  operand : Makes N (fun e => N.AllFit e.nodes) level.operand
  elseIf : Makes N (fun s => s.isBranch = true ∧ N.AllFit s.nodes) level.elseIf

/-! ## Expressions -/

section Expressions

variable {rounds : Nat} {inner : Level}

theorem makes_nextArg (fits : inner.Fits N) (args : List Expr)
    (fit : ∀ arg ∈ args, N.AllFit arg.nodes) :
    Makes N (fun next => ∀ arg ∈ next.1, N.AllFit arg.nodes) (nextArg inner args) :=
  fits.expression.bind fun _ here => makes_asks fun _ => List.forall_mem_cons.mpr ⟨here, fit⟩

theorem makes_callArgs (fits : inner.Fits N) :
    Makes N (fun args => ∀ arg ∈ args, N.AllFit arg.nodes) (callArgs rounds inner) := by
  have close : ∀ args : List Expr, (∀ arg ∈ args, N.AllFit arg.nodes) →
      Makes N (fun args => ∀ arg ∈ args, N.AllFit arg.nodes) (do
        expect (.symbol .rightParen)
        return args.reverse) :=
    fun args fit => makes_expected (makes_pure (by simpa using fit))
  refine makes_expected (makes_skipNewlines.bind fun _ _ => makes_isAt ?_ ?_)
  · exact close [] (List.forall_mem_nil _)
  · exact (makes_iterate (makes_nextArg fits) rounds (List.forall_mem_nil _)).bind close

theorem makes_nextItem (fits : inner.Fits N) (items : List Expr)
    (fit : ∀ item ∈ items, N.AllFit item.nodes) :
    Makes N (fun next => ∀ item ∈ next.1, N.AllFit item.nodes) (nextItem inner items) :=
  makes_isAt (makes_pure fit) (fits.expression.bind fun _ here =>
    makes_asks fun _ => List.forall_mem_cons.mpr ⟨here, fit⟩)

theorem makes_arrayLiteral (fits : inner.Fits N) :
    Makes N (fun e => N.AllFit e.nodes) (arrayLiteral rounds inner) := by
  refine makes_expected (makes_skipNewlines.bind fun _ _ => ?_)
  refine (makes_iterate (makes_nextItem fits) rounds (List.forall_mem_nil _)).bind fun items fit => ?_
  exact makes_expected (makes_pure (by simpa [Expr.nodes, Naming.Fits] using fit))

theorem makes_propertyKey : Makes N (fun _ => True) propertyKey := by
  refine makes_kind fun k => ?_
  split
  · exact makes_taken (makes_pure trivial)
  · exact makes_taken (makes_pure trivial)
  · exact makes_taken (makes_pure trivial)
  · exact makes_fail _

theorem makes_nextProperty (fits : inner.Fits N) (properties : List (String × Expr))
    (fit : ∀ property ∈ properties, N.AllFit property.2.nodes) :
    Makes N (fun next => ∀ property ∈ next.1, N.AllFit property.2.nodes)
      (nextProperty inner properties) := by
  refine makes_isAt (makes_pure fit) (makes_propertyKey.bind fun key _ => makes_expected ?_)
  exact fits.expression.bind fun _ here =>
    makes_asks fun _ => List.forall_mem_cons.mpr ⟨here, fit⟩

theorem makes_objectLiteral (fits : inner.Fits N) :
    Makes N (fun e => N.AllFit e.nodes) (objectLiteral rounds inner) := by
  have properties := makes_iterate (makes_nextProperty fits) rounds (List.forall_mem_nil _)
  refine makes_expected (makes_skipNewlines.bind fun _ _ => properties.bind fun properties fit => ?_)
  refine makes_expected (makes_pure ?_)
  simp only [Expr.nodes, Naming.allFit_cons, Naming.Fits, Naming.allFit_properties,
    List.mem_reverse]
  exact ⟨trivial, fit⟩

theorem makes_interpolation (fits : inner.Fits N) :
    Makes N (fun part => ∀ e ∈ part, N.AllFit e.nodes) (interpolation inner) := by
  refine makes_isAt (makes_taken (makes_pure nofun)) ?_
  exact fits.expression.bind fun _ here => makes_expected (makes_pure (by simpa using here))

theorem makes_nextPart (fits : inner.Fits N) (parts : List Expr)
    (fit : ∀ part ∈ parts, N.AllFit part.nodes) :
    Makes N (fun next => ∀ part ∈ next.1, N.AllFit part.nodes) (nextPart inner parts) := by
  refine makes_kind fun k => ?_
  split
  · rename_i text
    have here : N.AllFit (Expr.literal (.string text)).nodes := by simp [Expr.nodes, Naming.Fits]
    refine makes_taken ((makes_look _).bind fun more _ => ?_)
    exact makes_pure (List.forall_mem_cons.mpr ⟨here, fit⟩)
  · refine makes_taken ((makes_interpolation fits).bind fun value here => ?_)
    have both : ∀ part ∈ value.toList ++ parts, N.AllFit part.nodes :=
      List.forall_mem_append.mpr ⟨by simpa using here, fit⟩
    refine makes_kind fun k => ?_
    split <;> exact makes_pure both
  · exact makes_pure fit

theorem allFit_joined {parts : List Expr} (fit : ∀ part ∈ parts, N.AllFit part.nodes) :
    N.AllFit (joined parts).nodes := by
  have folded : ∀ (rest : List Expr) (first : Expr), N.AllFit first.nodes →
      (∀ part ∈ rest, N.AllFit part.nodes) →
      N.AllFit (rest.foldl (fun left right => .binary left .add right) first).nodes := by
    intro rest
    induction rest with
    | nil => exact fun first here _ => here
    | cons part rest ih =>
        intro first here fit
        obtain ⟨next, later⟩ := List.forall_mem_cons.mp fit
        exact ih _ (by simp [Expr.nodes, Naming.Fits, here, next]) later
  unfold joined
  split
  · exact folded _ _ (fit _ List.mem_cons_self) (List.forall_mem_cons.mp fit).2
  · exact folded _ _ (by simp [Expr.nodes, Naming.Fits]) fit

theorem makes_templateLiteral (fits : inner.Fits N) :
    Makes N (fun e => N.AllFit e.nodes) (templateLiteral rounds inner) :=
  (makes_iterate (makes_nextPart fits) rounds (List.forall_mem_nil _)).bind fun _ fit =>
    makes_pure (allFit_joined (by simpa using fit))

theorem makes_parenthesized (fits : inner.Fits N) :
    Makes N (fun e => N.AllFit e.nodes) (parenthesized inner) :=
  makes_expected (fits.expression.bind fun _ fit => makes_expected (makes_pure fit))

/-- Both a name and the word that prints are read as variables. -/
theorem makes_primary (fits : inner.Fits N) :
    Makes N (fun e => N.AllFit e.nodes) (primary rounds inner) := by
  intro s clean
  have literal : ∀ value : Literal, MakesAt N s (fun e => N.AllFit e.nodes) (do
      advance
      return Expr.literal value) := fun value =>
    makes_taken (makes_pure (by simp [Expr.nodes, Naming.Fits])) s clean
  have ident : ∀ id : Ident, N.Variable id → MakesAt N s (fun e => N.AllFit e.nodes) (do
      advance
      return Expr.ident id) := fun id allowed =>
    makes_taken (makes_pure (by simpa [Expr.nodes, Naming.Fits] using allowed)) s clean
  refine makesAt_current ?_
  split
  · exact literal _
  · exact literal _
  · exact literal _
  · rename_i name here
    exact ident _ (clean.current.read name here)
  · exact literal _
  · exact literal _
  · exact literal _
  · rename_i here
    exact ident _ (clean.current.printing here)
  · exact makes_templateLiteral fits s clean
  · exact makes_templateLiteral fits s clean
  · exact makes_parenthesized fits s clean
  · exact makes_arrayLiteral fits s clean
  · exact makes_objectLiteral fits s clean
  · exact makes_fail _ s clean

theorem allFit_stepped {target : Ident} (fit : N.AllFit (Expr.ident target).nodes) (op : BinaryOp) :
    N.AllFit (stepped target op).nodes := by
  have allowed : N.Variable target := by simpa [Expr.nodes, Naming.Fits] using fit
  simp [stepped, Expr.nodes, Naming.Fits, allowed]

theorem makes_nextSuffix (fits : inner.Fits N) (value : Expr) (fit : N.AllFit value.nodes) :
    Makes N (fun next => N.AllFit next.1.nodes) (nextSuffix rounds inner value) := by
  refine makes_kind fun k => ?_
  split
  · refine (makes_callArgs fits).bind fun args each => makes_pure ?_
    simpa [Expr.nodes, Naming.Fits, fit] using each
  · refine makes_taken ((makes_identOr _).bind fun property allowed => makes_pure ?_)
    simpa [Expr.nodes, Naming.Fits, fit] using allowed
  · split
    · exact makes_pure fit
    · split
      · exact makes_taken (makes_pure (allFit_stepped fit _))
      · exact makes_fail _

theorem makes_postfixed (fits : inner.Fits N) :
    Makes N (fun e => N.AllFit e.nodes) (postfixed rounds inner) :=
  (makes_primary fits).bind fun _ fit => makes_iterate (makes_nextSuffix fits) rounds fit

theorem makes_prefixed (fits : inner.Fits N) :
    Makes N (fun e => N.AllFit e.nodes) (prefixed rounds inner) := by
  have operand : ∀ op : UnaryOp, Makes N (fun e => N.AllFit e.nodes) (do
      advance
      return Expr.unary op (← inner.operand)) := fun op =>
    makes_taken (fits.operand.bind fun _ fit =>
      makes_pure (by simpa [Expr.nodes, Naming.Fits] using fit))
  refine makes_kind fun k => ?_
  split
  · exact operand .not
  · exact operand .neg
  · split
    · exact makes_postfixed fits
    · refine makes_taken ((makes_postfixed fits).bind fun value fit => ?_)
      split
      · exact makes_pure (allFit_stepped fit _)
      · exact makes_fail _

theorem makes_joinRight {right : Nat → Parser Expr}
    (operands : ∀ power, Makes N (fun e => N.AllFit e.nodes) (right power)) (power : Nat)
    (left : Expr) (fit : N.AllFit left.nodes) :
    Makes N (fun next => N.AllFit next.1.nodes) (joinRight right power left) := by
  refine makes_kind fun k => ?_
  split
  · exact makes_pure fit
  · split
    · exact makes_pure fit
    · refine makes_taken ((operands _).bind fun right also => makes_pure ?_)
      simp [Expr.nodes, Naming.Fits, fit, also]

theorem makes_binary (fits : inner.Fits N) (steps power : Nat) :
    Makes N (fun e => N.AllFit e.nodes) (binary rounds inner steps power) := by
  induction steps generalizing power with
  | zero => exact makes_prefixed fits
  | succ steps ih =>
      refine (makes_prefixed fits).bind fun _ fit => ?_
      exact makes_iterate (makes_joinRight ih power) rounds fit

/-- An assignment that computes with the old value names its target twice. -/
theorem makes_expressionBody (fits : inner.Fits N) :
    Makes N (fun e => N.AllFit e.nodes) (expressionBody rounds inner) := by
  refine (makes_binary fits powerSteps 0).bind fun left fit => makes_kind fun k => ?_
  split
  · exact makes_pure fit
  · split
    · rename_i target
      have allowed : N.Variable target := by simpa [Expr.nodes, Naming.Fits] using fit
      refine makes_taken (fits.expression.bind fun right also => makes_pure ?_)
      split <;> simp [Expr.nodes, Naming.Fits, allowed, also]
    · exact makes_fail _

end Expressions

/-! ## Statements -/

section Statements

variable {rounds : Nat} {inner : Level}

theorem makes_nextInBlock (fits : inner.Fits N) (body : List Stmt)
    (fit : ∀ s ∈ body, N.AllFit s.nodes) :
    Makes N (fun next => ∀ s ∈ next.1, N.AllFit s.nodes) (nextInBlock inner body) := by
  refine makes_skipSeparators.bind fun _ _ => makes_kind fun k => ?_
  split
  · exact makes_pure fit
  · exact makes_fail _
  · exact fits.statement.bind fun _ here => makes_pure (List.forall_mem_cons.mpr ⟨here, fit⟩)

theorem makes_block (fits : inner.Fits N) :
    Makes N (fun body => ∀ s ∈ body, N.AllFit s.nodes) (block rounds inner) := by
  have body := makes_iterate (makes_nextInBlock fits) rounds (List.forall_mem_nil _)
  exact makes_expected (body.bind fun _ fit => makes_expected (makes_pure (by simpa using fit)))

/-- A constant without a value is refused. -/
theorem makes_declaration (fits : inner.Fits N) (declKind : DeclKind) :
    Makes N (fun s => N.AllFit s.nodes) (declaration inner declKind) := by
  refine makes_taken ((makes_identOr _).bind fun name allowed => makes_isAt ?_ ?_)
  · refine makes_taken (fits.expression.bind fun value fit => makes_pure ?_)
    simp [Stmt.nodes, Naming.Fits, allowed, fit]
  · split
    · exact makes_fail _
    · rename_i other
      exact makes_pure (by simp [Stmt.nodes, Naming.Fits, allowed, other])

theorem makes_nextParam (params : List Ident) (allowed : ∀ param ∈ params, N.Declared param) :
    Makes N (fun next => ∀ param ∈ next.1, N.Declared param) (nextParam params) := by
  refine (makes_identOr _).bind fun param here => ?_
  have both := List.forall_mem_cons.mpr ⟨here, allowed⟩
  exact makes_isAt (makes_taken (makes_pure both)) (makes_pure both)

theorem makes_parameters :
    Makes N (fun params => ∀ param ∈ params, N.Declared param) (parameters rounds) := by
  have close : ∀ params : List Ident, (∀ param ∈ params, N.Declared param) →
      Makes N (fun params => ∀ param ∈ params, N.Declared param) (do
        expect (.symbol .rightParen)
        return params.reverse) :=
    fun params allowed => makes_expected (makes_pure (by simpa using allowed))
  refine makes_expected (makes_isAt ?_ ?_)
  · exact close [] (List.forall_mem_nil _)
  · exact (makes_iterate makes_nextParam rounds (List.forall_mem_nil _)).bind close

theorem makes_functionDeclaration (fits : inner.Fits N) :
    Makes N (fun s => N.AllFit s.nodes) (functionDeclaration rounds inner) := by
  refine makes_taken ((makes_identOr _).bind fun name allowed => ?_)
  refine makes_parameters.bind fun params each => (makes_block fits).bind fun body fit => ?_
  refine makes_pure ?_
  simp only [Stmt.nodes, Naming.allFit_cons, Naming.Fits, Naming.allFit_stmts]
  exact ⟨⟨allowed, each⟩, fit⟩

@[simp] theorem beq_keyword_iff {k : TokenKind} {word : Keyword} :
    (k == .keyword word) = true ↔ k = .keyword word := by
  cases k with
  | keyword other =>
      have decided : (TokenKind.keyword other == .keyword word) = decide (other = word) := rfl
      simp [decided]
  | _ => exact iff_of_false Bool.false_ne_true (by simp)

/-- Behind `lain` another conditional is read as a statement, but only where one begins. -/
theorem makes_otherBranch (fits : inner.Fits N) :
    Makes N (fun other => ∀ s ∈ other, s.isBranch = true ∧ N.AllFit s.nodes)
      (otherBranch rounds inner) := by
  have present : ∀ s : Stmt, s.isBranch = true ∧ N.AllFit s.nodes →
      Makes N (fun other => ∀ s ∈ other, s.isBranch = true ∧ N.AllFit s.nodes)
        (pure (some s) : Parser (Option Stmt)) := fun s fit =>
    makes_pure fun s' is => Option.mem_some.mp is ▸ fit
  intro s clean
  have skipped := clean.of_leads (s.leads_dropWhile isNewline)
  change MakesAt N (s.dropWhile isNewline) _ _
  split
  · have behind := skipped.of_leads (TokenStream.leads_advance _)
    change MakesAt N (s.dropWhile isNewline).advance _ (if _ then _ else _)
    split
    · rename_i again
      exact (fits.branch _ behind (beq_keyword_iff.mp again)).bind present
    · refine (makes_block fits).bind (fun body fit => ?_) _ behind
      exact present _ ⟨rfl, by simpa [Stmt.nodes, Naming.Fits] using fit⟩
  · exact fits.elseIf.bind present _ skipped
  · intro other s' h
    cases h
    exact ⟨fun other is => absurd is (Option.not_mem_none other), clean⟩

theorem makes_conditional (fits : inner.Fits N) :
    Makes N (fun s => s.isBranch = true ∧ N.AllFit s.nodes) (conditional rounds inner) := by
  refine makes_taken (fits.expression.bind fun cond condFits => ?_)
  refine (makes_block fits).bind fun body bodyFits => ?_
  refine (makes_otherBranch fits).bind fun other otherFits => makes_pure ⟨rfl, ?_⟩
  cases other with
  | none => simpa [Stmt.nodes, Stmt.nodesOptional, Naming.Fits, condFits] using bodyFits
  | some other =>
      obtain ⟨branch, otherFits⟩ := otherFits other rfl
      simpa [Stmt.nodes, Stmt.nodesOptional, Naming.Fits, condFits, branch, otherFits] using bodyFits

theorem makes_whileLoop (fits : inner.Fits N) :
    Makes N (fun s => N.AllFit s.nodes) (whileLoop rounds inner) := by
  refine makes_taken (fits.expression.bind fun cond condFits => ?_)
  refine (makes_block fits).bind fun body bodyFits => makes_pure ?_
  simpa [Stmt.nodes, Naming.Fits, condFits] using bodyFits

theorem makes_clause (close : Symbol) {parser : Parser α} (makes : Makes N good parser) :
    Makes N (fun value => ∀ a ∈ value, good a) (clause close parser) := by
  refine makes_isAt (makes_expected (makes_pure nofun)) ?_
  rw [map_eq_pure_bind, bind_assoc]
  refine makes.bind fun a isGood => makes_expected (makes_pure fun b is => ?_)
  exact Option.mem_some.mp is ▸ isGood

theorem makes_forLoop (fits : inner.Fits N) :
    Makes N (fun s => N.AllFit s.nodes) (forLoop rounds inner) := by
  refine makes_taken (makes_expected ?_)
  refine (makes_clause _ fits.statement).bind fun init initFits => ?_
  refine (makes_clause _ fits.expression).bind fun cond condFits => ?_
  refine (makes_clause _ fits.expression).bind fun update updateFits => ?_
  refine (makes_block fits).bind fun body bodyFits => makes_pure ?_
  simp only [Stmt.nodes, Naming.allFit_cons, Naming.allFit_append, Naming.allFit_optionalStmt,
    Naming.allFit_optionalExpr, Naming.allFit_stmts]
  exact ⟨trivial, ⟨⟨initFits, condFits⟩, updateFits⟩, bodyFits⟩

theorem makes_resultStatement (fits : inner.Fits N) :
    Makes N (fun s => N.AllFit s.nodes) (resultStatement inner) := by
  have bare : Makes N (fun s => N.AllFit s.nodes) (pure (Stmt.result none) : Parser Stmt) :=
    makes_pure (by simp [Stmt.nodes, Naming.Fits])
  refine makes_taken (makes_kind fun k => ?_)
  split
  · exact bare
  · exact bare
  · exact bare
  · exact bare
  · refine fits.expression.bind fun value fit => makes_pure ?_
    simpa [Stmt.nodes, Naming.Fits] using fit

/-- A method of printing is called on the word that prints, read as a variable. -/
theorem makesAt_printStatement (fits : inner.Fits N) {s : TokenStream} (clean : N.Clean s)
    (printing : s.current.kind = .keyword .printWord) :
    MakesAt N s (fun s => N.AllFit s.nodes) (printStatement inner) := by
  have allowed := clean.current.printing printing
  refine makesAt_current (makes_taken (makes_isAt ?_ ?_) s clean)
  · refine makes_taken ((makes_identOr _).bind fun method named => ?_)
    refine fits.expression.bind fun arg fit => makes_pure ?_
    simp [Stmt.nodes, Expr.nodes, Naming.Fits, allowed, named, fit]
  · refine fits.expression.bind fun arg fit => makes_pure ?_
    simpa [Stmt.nodes, Naming.Fits] using fit

theorem makes_statementBody (fits : inner.Fits N) :
    Makes N (fun s => N.AllFit s.nodes) (statementBody rounds inner) := by
  intro s clean
  refine makesAt_kind ?_
  split
  · exact makes_declaration fits _ s clean
  · exact makes_declaration fits _ s clean
  · exact makes_declaration fits _ s clean
  · exact makes_functionDeclaration fits s clean
  · intro stmt s' h
    obtain ⟨⟨-, fit⟩, clean'⟩ := makes_conditional fits s clean stmt s' h
    exact ⟨fit, clean'⟩
  · exact makes_whileLoop fits s clean
  · exact makes_forLoop fits s clean
  · exact makes_resultStatement fits s clean
  · exact makes_taken (makes_pure (by simp [Stmt.nodes, Naming.Fits])) s clean
  · exact makes_taken (makes_pure (by simp [Stmt.nodes, Naming.Fits])) s clean
  · rename_i printing
    exact makesAt_printStatement fits clean printing
  · refine (makes_block fits).bind (fun body fit => makes_pure ?_) s clean
    simpa [Stmt.nodes, Naming.Fits] using fit
  · refine fits.expression.bind (fun value fit => makes_pure ?_) s clean
    simpa [Stmt.nodes, Naming.Fits] using fit

theorem makes_nextInProgram (fits : inner.Fits N) (body : List Stmt)
    (fit : ∀ s ∈ body, N.AllFit s.nodes) :
    Makes N (fun next => ∀ s ∈ next.1, N.AllFit s.nodes) (nextInProgram inner body) := by
  refine makes_skipSeparators.bind fun _ _ => makes_kind fun k => ?_
  split
  · exact makes_pure fit
  · exact fits.statement.bind fun _ here => makes_pure (List.forall_mem_cons.mpr ⟨here, fit⟩)

end Statements

/-- Every level gives only what fits. -/
theorem level_fits (N : Naming) (rounds depth : Nat) : (level rounds depth).Fits N := by
  induction depth with
  | zero =>
      exact
        { statement := makes_fail _
          branch := fun s clean _ => makes_fail _ s clean
          expression := makes_fail _
          operand := makes_fail _
          elseIf := makes_fail _ }
  | succ depth ih =>
      refine
        { statement := makes_statementBody ih
          branch := fun s clean begins => ?_
          expression := makes_expressionBody ih
          operand := makes_binary ih powerSteps unaryPower
          elseIf := makes_conditional ih }
      refine makesAt_kind ?_
      rw [begins]
      exact makes_conditional ih s clean

end Parser

theorem TokenStream.ahead_ofTokens_subset (tokens : List Token) :
    (ofTokens tokens).ahead ⊆ tokens := by
  unfold ofTokens
  split
  · exact List.nil_subset tokens
  · split
    · exact List.dropLast_subset tokens
    · exact List.Subset.refl tokens

/-- If the names among the tokens are allowed, so are all names in the program. -/
theorem parseTokens_allFit {N : Naming} {tokens : List Token} {p : Program}
    (allowed : ∀ t ∈ tokens, N.Allows t) (read : parseTokens tokens = .ok p) :
    N.AllFit p.nodes := by
  have clean : N.Clean (.ofTokens tokens) := fun t member =>
    allowed t (TokenStream.ahead_ofTokens_subset tokens member)
  obtain ⟨_, loop⟩ := Parser.parseTokens_eq_ok_iff.mp read
  have round := Parser.makes_nextInProgram (Parser.level_fits N (tokens.length + 1) maxNesting)
  obtain ⟨fit, -⟩ := Parser.makes_iterate round _ (List.forall_mem_nil _) _ clean _ _ loop
  simpa [Program.nodes] using fit

end MinangScript
