import MinangScript.Program.Parser

/-! # Readers of tokens move forward

A parser that succeeds leaves a later part of the stream it was given, and the parsers of a level
leave a strictly later part. Each loop of the parser asks for another round only after it has read
a token, so a bound on its rounds that is greater than the number of tokens ahead is no bound at
all: `iterate_unfold` opens such a loop like an unbounded one.
-/

namespace MinangScript

namespace TokenStream

/-- What is left of the stream `s` after some of its tokens were read. -/
structure Leads (s s' : TokenStream) : Prop where
  ahead : s'.ahead <:+ s.ahead
  stop : s'.stop = s.stop

/-- What is left of the stream `s` after at least one of its tokens was read. -/
structure Passes (s s' : TokenStream) : Prop extends Leads s s' where
  shorter : s'.ahead.length < s.ahead.length

theorem Leads.refl (s : TokenStream) : Leads s s :=
  ⟨List.suffix_rfl, rfl⟩

theorem Leads.trans {a b c : TokenStream} (first : Leads a b) (next : Leads b c) : Leads a c :=
  ⟨next.ahead.trans first.ahead, next.stop.trans first.stop⟩

theorem Leads.length_le {s s' : TokenStream} (leads : Leads s s') :
    s'.ahead.length ≤ s.ahead.length :=
  leads.ahead.length_le

theorem Passes.trans_leads {a b c : TokenStream} (first : Passes a b) (next : Leads b c) :
    Passes a c :=
  ⟨first.toLeads.trans next, Nat.lt_of_le_of_lt next.length_le first.shorter⟩

theorem Leads.trans_passes {a b c : TokenStream} (first : Leads a b) (next : Passes b c) :
    Passes a c :=
  ⟨first.trans next.toLeads, Nat.lt_of_lt_of_le next.shorter first.length_le⟩

theorem leads_advance (s : TokenStream) : Leads s s.advance :=
  ⟨List.tail_suffix s.ahead, rfl⟩

theorem leads_dropWhile (skip : TokenKind → Bool) (s : TokenStream) : Leads s (s.dropWhile skip) :=
  ⟨List.dropWhile_suffix _, rfl⟩

/-- Only the end of the text stays where it is when one moves on. -/
theorem passes_advance {s : TokenStream} (more : s.current.kind ≠ .endOfText) :
    Passes s s.advance := by
  refine ⟨s.leads_advance, ?_⟩
  obtain ⟨ahead, stop⟩ := s
  cases ahead with
  | nil => exact absurd rfl more
  | cons t rest => simp [advance]

end TokenStream

namespace Parser

open Reader (iterate)
open TokenStream (Leads Passes)

variable {α β : Type}

/-! ## The steps of a parser -/

theorem bind_apply (p : Parser α) (f : α → Parser β) (s : TokenStream) :
    (p >>= f) s = match p s with
      | .ok (a, mid) => f a mid
      | .error e => .error e := by
  change StateT.bind p f s = _
  unfold StateT.bind
  cases p s <;> rfl

theorem bind_ok {p : Parser α} {f : α → Parser β} {s s' : TokenStream} {b : β}
    (h : (p >>= f) s = .ok (b, s')) : ∃ a mid, p s = .ok (a, mid) ∧ f a mid = .ok (b, s') := by
  rw [bind_apply] at h
  cases ran : p s with
  | error e => simp [ran] at h
  | ok result =>
      obtain ⟨a, mid⟩ := result
      exact ⟨a, mid, rfl, by simpa only [ran] using h⟩

@[simp] theorem pure_apply (a : α) (s : TokenStream) : (pure a : Parser α) s = .ok (a, s) := rfl

@[simp] theorem fail_apply (problem : SyntaxProblem) (s : TokenStream) :
    (fail problem : Parser α) s = .error ⟨problem, s.current⟩ := rfl

@[simp] theorem kind_bind (f : TokenKind → Parser α) (s : TokenStream) :
    (kind >>= f) s = f s.current.kind s := rfl

@[simp] theorem current_bind (f : Token → Parser α) (s : TokenStream) :
    (current >>= f) s = f s.current s := rfl

@[simp] theorem isAt_bind (k : TokenKind) (f : Bool → Parser α) (s : TokenStream) :
    (isAt k >>= f) s = f (s.current.kind == k) s := rfl

@[simp] theorem advance_bind (f : Unit → Parser α) (s : TokenStream) :
    (advance >>= f) s = f () s.advance := rfl

@[simp] theorem skipNewlines_bind (f : Unit → Parser α) (s : TokenStream) :
    (skipNewlines >>= f) s = f () (s.dropWhile isNewline) := rfl

@[simp] theorem skipSeparators_bind (f : Unit → Parser α) (s : TokenStream) :
    (skipSeparators >>= f) s = f () (s.dropWhile isSeparator) := rfl

@[simp] theorem get_bind (f : TokenStream → Parser α) (s : TokenStream) :
    ((get : Parser TokenStream) >>= f) s = f s s := rfl

/-! ## Moving forward -/

/-- The parser leaves a later part of the stream, or the same. -/
def Forward (p : Parser α) : Prop :=
  ∀ s a s', p s = .ok (a, s') → Leads s s'

/-- The parser leaves a strictly later part of the stream `s`. -/
def ConsumesAt (s : TokenStream) (p : Parser α) : Prop :=
  ∀ a s', p s = .ok (a, s') → Passes s s'

/-- The parser leaves a strictly later part of every stream. -/
def Consumes (p : Parser α) : Prop :=
  ∀ s, ConsumesAt s p

theorem Consumes.forward {p : Parser α} (consumes : Consumes p) : Forward p :=
  fun s a s' h => (consumes s a s' h).toLeads

theorem Forward.bind {p : Parser α} {f : α → Parser β} (first : Forward p)
    (next : ∀ a, Forward (f a)) : Forward (p >>= f) := by
  intro s b s' h
  obtain ⟨a, mid, ran, rest⟩ := bind_ok h
  exact (first s a mid ran).trans (next a mid b s' rest)

theorem ConsumesAt.bind {s : TokenStream} {p : Parser α} {f : α → Parser β}
    (first : ConsumesAt s p) (next : ∀ a, Forward (f a)) : ConsumesAt s (p >>= f) := by
  intro b s' h
  obtain ⟨a, mid, ran, rest⟩ := bind_ok h
  exact (first a mid ran).trans_leads (next a mid b s' rest)

theorem consumesAt_current {s : TokenStream} {f : Token → Parser α}
    (next : ConsumesAt s (f s.current)) : ConsumesAt s (current >>= f) := next

theorem consumesAt_kind {s : TokenStream} {f : TokenKind → Parser α}
    (next : ConsumesAt s (f s.current.kind)) : ConsumesAt s (kind >>= f) := next

theorem Consumes.bind {p : Parser α} {f : α → Parser β} (first : Consumes p)
    (next : ∀ a, Forward (f a)) : Consumes (p >>= f) :=
  fun s => ConsumesAt.bind (first s) next

theorem Forward.bind_consumes {p : Parser α} {f : α → Parser β} (first : Forward p)
    (next : ∀ a, Consumes (f a)) : Consumes (p >>= f) := by
  intro s b s' h
  obtain ⟨a, mid, ran, rest⟩ := bind_ok h
  exact (first s a mid ran).trans_passes (next a mid b s' rest)

/-- A parser that only looks at the stream. -/
theorem forward_of_look {p : Parser α} (look : ∀ s, ∃ a, p s = .ok (a, s)) : Forward p := by
  intro s b s' h
  obtain ⟨a, looked⟩ := look s
  rw [looked] at h
  cases h
  exact Leads.refl s

theorem forward_modify {f : TokenStream → TokenStream} (leads : ∀ s, Leads s (f s)) :
    Forward (modify f : Parser Unit) := by
  intro s a s' h
  cases h
  exact leads s

theorem forward_pure (a : α) : Forward (pure a : Parser α) := forward_of_look fun _ => ⟨a, rfl⟩

theorem forward_kind : Forward kind := forward_of_look fun _ => ⟨_, rfl⟩

theorem forward_current : Forward current := forward_of_look fun _ => ⟨_, rfl⟩

theorem forward_isAt (k : TokenKind) : Forward (isAt k) := forward_of_look fun _ => ⟨_, rfl⟩

theorem forward_advance : Forward advance := forward_modify TokenStream.leads_advance

theorem forward_skipNewlines : Forward skipNewlines :=
  forward_modify (TokenStream.leads_dropWhile isNewline)

theorem forward_skipSeparators : Forward skipSeparators :=
  forward_modify (TokenStream.leads_dropWhile isSeparator)

theorem consumes_fail (problem : SyntaxProblem) : Consumes (fail problem : Parser α) := by
  intro s a s' h
  cases h

theorem consumesAt_advance {s : TokenStream} (more : s.current.kind ≠ .endOfText) :
    ConsumesAt s advance := by
  intro a s' h
  cases h
  exact TokenStream.passes_advance more

@[simp] theorem beq_symbol_iff {k : TokenKind} {symbol : Symbol} :
    (k == .symbol symbol) = true ↔ k = .symbol symbol := by
  cases k with
  | symbol other =>
      have decided : (TokenKind.symbol other == .symbol symbol) = decide (other = symbol) := rfl
      simp [decided]
  | _ => exact iff_of_false Bool.false_ne_true (by simp)

theorem forward_iterate {step : β → Parser (β × Bool)} (forward : ∀ value, Forward (step value))
    (rounds : Nat) (value : β) : Forward (iterate step rounds value) := by
  induction rounds generalizing value with
  | zero => exact forward_pure value
  | succ rounds ih =>
      refine (forward value).bind fun (next, more) => ?_
      cases more with
      | true => exact ih next
      | false => exact forward_pure next

/-! ## Loops -/

/-- When the round asks for another one, it has read a token of the stream `s`. -/
def AsksAt (s : TokenStream) (round : Parser (β × Bool)) : Prop :=
  ∀ next s', round s = .ok ((next, true), s') → Passes s s'

theorem ConsumesAt.asksAt {s : TokenStream} {round : Parser (β × Bool)}
    (consumes : ConsumesAt s round) : AsksAt s round :=
  fun next s' h => consumes (next, true) s' h

theorem asksAt_kind {s : TokenStream} {f : TokenKind → Parser (β × Bool)}
    (next : AsksAt s (f s.current.kind)) : AsksAt s (kind >>= f) := next

theorem asksAt_isAt {s : TokenStream} {k : TokenKind} {f : Bool → Parser (β × Bool)}
    (next : AsksAt s (f (s.current.kind == k))) : AsksAt s (isAt k >>= f) := next

/-- A round may skip separators before it reads a token. -/
theorem asksAt_skipSeparators {s : TokenStream} {f : Unit → Parser (β × Bool)}
    (next : AsksAt (s.dropWhile isSeparator) (f ())) : AsksAt s (skipSeparators >>= f) :=
  fun value s' h => (s.leads_dropWhile isSeparator).trans_passes (next value s' h)

theorem asksAt_stop (s : TokenStream) (value : β) :
    AsksAt s (pure (value, false) : Parser (β × Bool)) := by
  intro next s' h
  cases h

/-- With more rounds than tokens ahead, it does not matter how many more. -/
theorem iterate_rounds {step : β → Parser (β × Bool)} (asks : ∀ value s, AsksAt s (step value))
    {few many : Nat} {value : β} {s : TokenStream} (enough : s.ahead.length < few)
    (also : s.ahead.length < many) : iterate step few value s = iterate step many value s := by
  induction few generalizing many value s with
  | zero => omega
  | succ few ih =>
      obtain ⟨many, rfl⟩ : ∃ n, many = n + 1 := ⟨many - 1, by omega⟩
      simp only [iterate, bind_apply]
      cases ran : step value s with
      | error e => rfl
      | ok result =>
          obtain ⟨⟨next, more⟩, s'⟩ := result
          cases more with
          | false => rfl
          | true =>
              have shorter := (asks value s next s' ran).shorter
              exact ih (by omega) (by omega)

/-- A loop with more rounds than tokens ahead, opened without using up a round. -/
theorem iterate_unfold {step : β → Parser (β × Bool)} (asks : ∀ value s, AsksAt s (step value))
    {rounds : Nat} {value : β} {s : TokenStream} (enough : s.ahead.length < rounds) :
    iterate step rounds value s = (do
      let (next, more) ← step value
      if more then iterate step rounds next else pure next) s := by
  obtain ⟨rounds, rfl⟩ : ∃ n, rounds = n + 1 := ⟨rounds - 1, by omega⟩
  rw [iterate, bind_apply, bind_apply]
  cases ran : step value s with
  | error e => rfl
  | ok result =>
      obtain ⟨⟨next, more⟩, s'⟩ := result
      cases more with
      | false => rfl
      | true =>
          have shorter := (asks value s next s' ran).shorter
          exact iterate_rounds asks (by omega) (by omega)

/-! ## Names and single tokens -/

theorem consumes_expect_symbol (symbol : Symbol) : Consumes (expect (.symbol symbol)) := by
  intro s a s' h
  simp only [expect, isAt_bind] at h
  split at h
  · rename_i here
    have more : s.current.kind ≠ .endOfText := by
      rw [beq_symbol_iff.mp here]
      exact TokenKind.noConfusion
    exact consumesAt_advance more a s' h
  · cases h

theorem forward_expect (k : TokenKind) : Forward (expect k) := by
  refine (forward_isAt k).bind fun here => ?_
  cases here with
  | true => exact forward_advance
  | false => exact (consumes_fail _).forward

theorem consumes_identOr (problem : SyntaxProblem) : Consumes (identOr problem) := by
  intro s a s' h
  simp only [identOr, current_bind] at h
  cases here : s.current.kind with
  | identifier name =>
      have more : s.current.kind ≠ .endOfText := by
        rw [here]
        exact TokenKind.noConfusion
      rw [here] at h
      cases h
      exact TokenStream.passes_advance more
  | _ =>
      rw [here] at h
      cases h

/-! ## Expressions -/

/-- The parsers of a level leave strictly later streams. -/
structure Level.Consuming (level : Level) : Prop where
  statement : Consumes level.statement
  expression : Consumes level.expression
  operand : Consumes level.operand
  elseIf : Consumes level.elseIf

section Expressions

variable {rounds : Nat} {inner : Level}

theorem forward_comma : Forward comma := by
  refine forward_skipNewlines.bind fun _ => (forward_isAt _).bind fun found => ?_
  cases found with
  | true => exact forward_advance.bind fun _ => forward_skipNewlines.bind fun _ => forward_pure true
  | false => exact forward_pure false

theorem consumes_nextArg (consuming : inner.Consuming) (args : List Expr) :
    Consumes (nextArg inner args) :=
  consuming.expression.bind fun _ => forward_comma.bind fun _ => forward_pure _

theorem consumes_callArgs (consuming : inner.Consuming) : Consumes (callArgs rounds inner) := by
  refine (consumes_expect_symbol .leftParen).bind fun _ => ?_
  refine forward_skipNewlines.bind fun _ => (forward_isAt _).bind fun empty => ?_
  have close : ∀ args : List Expr, Forward (do
      expect (.symbol .rightParen)
      return args.reverse) := fun args => (forward_expect _).bind fun _ => forward_pure _
  cases empty with
  | true => exact (forward_pure []).bind close
  | false =>
      have args := forward_iterate (fun args => (consumes_nextArg consuming args).forward) rounds []
      exact args.bind close

theorem forward_nextItem (consuming : inner.Consuming) (items : List Expr) :
    Forward (nextItem inner items) := by
  refine (forward_isAt _).bind fun closed => ?_
  cases closed with
  | true => exact forward_pure _
  | false =>
      refine consuming.expression.forward.bind fun _ => ?_
      exact forward_comma.bind fun _ => forward_pure _

theorem asksAt_nextItem (consuming : inner.Consuming) (items : List Expr) (s : TokenStream) :
    AsksAt s (nextItem inner items) := by
  refine asksAt_isAt ?_
  split
  · exact asksAt_stop s items
  · refine ConsumesAt.asksAt (consuming.expression.bind (fun _ => ?_) s)
    exact forward_comma.bind fun _ => forward_pure _

theorem consumes_arrayLiteral (consuming : inner.Consuming) :
    Consumes (arrayLiteral rounds inner) := by
  refine (consumes_expect_symbol .leftBracket).bind fun _ => ?_
  refine forward_skipNewlines.bind fun _ => ?_
  refine (forward_iterate (forward_nextItem consuming) rounds []).bind fun _ => ?_
  exact (forward_expect _).bind fun _ => forward_pure _

theorem forward_propertyKey : Forward propertyKey := by
  refine forward_kind.bind fun k => ?_
  split
  · exact forward_advance.bind fun _ => forward_pure _
  · exact forward_advance.bind fun _ => forward_pure _
  · exact forward_advance.bind fun _ => forward_pure _
  · exact (consumes_fail _).forward

theorem forward_nextProperty (consuming : inner.Consuming) (properties : List (String × Expr)) :
    Forward (nextProperty inner properties) := by
  refine (forward_isAt _).bind fun closed => ?_
  cases closed with
  | true => exact forward_pure _
  | false =>
      refine forward_propertyKey.bind fun _ => (forward_expect _).bind fun _ => ?_
      refine consuming.expression.forward.bind fun _ => ?_
      exact forward_comma.bind fun _ => forward_pure _

theorem asksAt_nextProperty (consuming : inner.Consuming) (properties : List (String × Expr))
    (s : TokenStream) : AsksAt s (nextProperty inner properties) := by
  refine asksAt_isAt ?_
  split
  · exact asksAt_stop s properties
  · refine ConsumesAt.asksAt (forward_propertyKey.bind_consumes (fun _ => ?_) s)
    refine (forward_expect _).bind_consumes fun _ => consuming.expression.bind fun _ => ?_
    exact forward_comma.bind fun _ => forward_pure _

theorem consumes_objectLiteral (consuming : inner.Consuming) :
    Consumes (objectLiteral rounds inner) := by
  refine (consumes_expect_symbol .leftBrace).bind fun _ => ?_
  refine forward_skipNewlines.bind fun _ => ?_
  refine (forward_iterate (forward_nextProperty consuming) rounds []).bind fun _ => ?_
  exact (forward_expect _).bind fun _ => forward_pure _

theorem forward_interpolation (consuming : inner.Consuming) : Forward (interpolation inner) := by
  refine (forward_isAt _).bind fun blank => ?_
  cases blank with
  | true => exact forward_advance.bind fun _ => forward_pure _
  | false =>
      refine consuming.expression.forward.bind fun _ => ?_
      exact (forward_expect _).bind fun _ => forward_pure _

theorem forward_nextPart (consuming : inner.Consuming) (parts : List Expr) :
    Forward (nextPart inner parts) := by
  refine forward_kind.bind fun k => ?_
  split
  · exact forward_advance.bind fun _ => (forward_isAt _).bind fun _ => forward_pure _
  · refine forward_advance.bind fun _ => (forward_interpolation consuming).bind fun _ => ?_
    refine forward_kind.bind fun k => ?_
    split <;> exact forward_pure _
  · exact forward_pure _

/-- A template literal is read only where one begins, and then its first part is read. -/
theorem consumesAt_templateLiteral (consuming : inner.Consuming) (positive : 0 < rounds)
    {s : TokenStream} (begins : (∃ text, s.current.kind = .templateText text) ∨
      s.current.kind = .interpolationStart) :
    ConsumesAt s (templateLiteral rounds inner) := by
  have more : s.current.kind ≠ .endOfText := by
    obtain ⟨text, here⟩ | here := begins <;> rw [here] <;> exact TokenKind.noConfusion
  have moved := consumesAt_advance more
  have first : ConsumesAt s (nextPart inner []) := by
    refine consumesAt_kind ?_
    obtain ⟨text, here⟩ | here := begins
    · rw [here]
      exact moved.bind fun _ => (forward_isAt _).bind fun _ => forward_pure _
    · rw [here]
      refine moved.bind fun _ => (forward_interpolation consuming).bind fun _ => ?_
      refine forward_kind.bind fun k => ?_
      split <;> exact forward_pure _
  obtain ⟨rounds, rfl⟩ : ∃ n, rounds = n + 1 := ⟨rounds - 1, by omega⟩
  have parts : ConsumesAt s (iterate (nextPart inner) (rounds + 1) []) := by
    refine first.bind fun (next, again) => ?_
    cases again with
    | true => exact forward_iterate (forward_nextPart consuming) rounds next
    | false => exact forward_pure next
  exact parts.bind fun _ => forward_pure _

theorem consumes_parenthesized (consuming : inner.Consuming) : Consumes (parenthesized inner) := by
  refine (consumes_expect_symbol .leftParen).bind fun _ => ?_
  refine consuming.expression.forward.bind fun _ => ?_
  exact (forward_expect _).bind fun _ => forward_pure _

theorem consumes_primary (consuming : inner.Consuming) (positive : 0 < rounds) :
    Consumes (primary rounds inner) := by
  intro s
  by_cases ended : s.current.kind = .endOfText
  · intro a s' h
    simp only [primary, current_bind, ended] at h
    cases h
  · have taken : ∀ value : Expr, ConsumesAt s (do advance; return value) := fun value =>
      (consumesAt_advance ended).bind fun _ => forward_pure value
    refine consumesAt_current ?_
    split
    · exact taken _
    · exact taken _
    · exact taken _
    · exact taken _
    · exact taken _
    · exact taken _
    · exact taken _
    · exact taken _
    · rename_i text here
      exact consumesAt_templateLiteral consuming positive (.inl ⟨text, here⟩)
    · rename_i here
      exact consumesAt_templateLiteral consuming positive (.inr here)
    · exact consumes_parenthesized consuming s
    · exact consumes_arrayLiteral consuming s
    · exact consumes_objectLiteral consuming s
    · exact consumes_fail _ s

theorem forward_nextSuffix (consuming : inner.Consuming) (value : Expr) :
    Forward (nextSuffix rounds inner value) := by
  refine forward_kind.bind fun k => ?_
  split
  · exact (consumes_callArgs consuming).forward.bind fun _ => forward_pure _
  · exact forward_advance.bind fun _ => (consumes_identOr _).forward.bind fun _ => forward_pure _
  · split
    · exact forward_pure _
    · split
      · exact forward_advance.bind fun _ => forward_pure _
      · exact (consumes_fail _).forward

theorem asksAt_nextSuffix (consuming : inner.Consuming) (value : Expr) (s : TokenStream) :
    AsksAt s (nextSuffix rounds inner value) := by
  refine asksAt_kind ?_
  split
  · exact ConsumesAt.asksAt ((consumes_callArgs consuming).bind (fun _ => forward_pure _) s)
  · refine ConsumesAt.asksAt (forward_advance.bind_consumes (fun _ => ?_) s)
    exact (consumes_identOr _).bind fun _ => forward_pure _
  · split
    · exact asksAt_stop s value
    · split
      · intro next s' h
        cases h
      · exact ConsumesAt.asksAt (consumes_fail _ s)

theorem consumes_postfixed (consuming : inner.Consuming) (positive : 0 < rounds) :
    Consumes (postfixed rounds inner) :=
  (consumes_primary consuming positive).bind fun first =>
    forward_iterate (forward_nextSuffix consuming) rounds first

theorem consumes_prefixed (consuming : inner.Consuming) (positive : 0 < rounds) :
    Consumes (prefixed rounds inner) := by
  have operand : ∀ op : UnaryOp, Consumes (do
      advance
      return Expr.unary op (← inner.operand)) := fun op =>
    forward_advance.bind_consumes fun _ => consuming.operand.bind fun _ => forward_pure _
  refine forward_kind.bind_consumes fun k => ?_
  split
  · exact operand .not
  · exact operand .neg
  · split
    · exact consumes_postfixed consuming positive
    · refine forward_advance.bind_consumes fun _ => ?_
      refine (consumes_postfixed consuming positive).bind fun value => ?_
      split
      · exact forward_pure _
      · exact (consumes_fail _).forward

theorem forward_joinRight {right : Nat → Parser Expr} (forward : ∀ power, Forward (right power))
    (power : Nat) (left : Expr) : Forward (joinRight right power left) := by
  refine forward_kind.bind fun k => ?_
  split
  · exact forward_pure _
  · split
    · exact forward_pure _
    · exact forward_advance.bind fun _ => (forward _).bind fun _ => forward_pure _

/-- The end of the text is no operator, so an operator that is taken is a token less. -/
theorem asksAt_joinRight {right : Nat → Parser Expr} (forward : ∀ power, Forward (right power))
    (power : Nat) (left : Expr) (s : TokenStream) : AsksAt s (joinRight right power left) := by
  refine asksAt_kind ?_
  split
  · exact asksAt_stop s left
  · rename_i op leftPower rightPower found
    have more : s.current.kind ≠ .endOfText := by
      intro ended
      simp [ended, binaryOp?] at found
    split
    · exact asksAt_stop s left
    · refine ConsumesAt.asksAt ((consumesAt_advance more).bind fun _ => ?_)
      exact (forward _).bind fun _ => forward_pure _

theorem consumes_binary (consuming : inner.Consuming) (positive : 0 < rounds)
    (steps power : Nat) : Consumes (binary rounds inner steps power) := by
  induction steps generalizing power with
  | zero => exact consumes_prefixed consuming positive
  | succ steps ih =>
      refine (consumes_prefixed consuming positive).bind fun first => ?_
      exact forward_iterate (forward_joinRight (fun power => (ih power).forward) power) rounds first

theorem consumes_expressionBody (consuming : inner.Consuming) (positive : 0 < rounds) :
    Consumes (expressionBody rounds inner) := by
  refine (consumes_binary consuming positive powerSteps 0).bind fun left => ?_
  refine forward_kind.bind fun k => ?_
  split
  · exact forward_pure _
  · split
    · refine forward_advance.bind fun _ => consuming.expression.forward.bind fun _ => ?_
      exact forward_pure _
    · exact (consumes_fail _).forward

end Expressions

/-! ## Statements -/

section Statements

variable {rounds : Nat} {inner : Level}

theorem forward_nextInBlock (consuming : inner.Consuming) (body : List Stmt) :
    Forward (nextInBlock inner body) := by
  refine forward_skipSeparators.bind fun _ => forward_kind.bind fun k => ?_
  split
  · exact forward_pure _
  · exact (consumes_fail _).forward
  · exact consuming.statement.forward.bind fun _ => forward_pure _

theorem asksAt_nextInBlock (consuming : inner.Consuming) (body : List Stmt) (s : TokenStream) :
    AsksAt s (nextInBlock inner body) := by
  refine asksAt_skipSeparators (asksAt_kind ?_)
  split
  · exact asksAt_stop _ body
  · exact ConsumesAt.asksAt (consumes_fail _ _)
  · exact ConsumesAt.asksAt (consuming.statement.bind (fun _ => forward_pure _) _)

theorem consumes_block (consuming : inner.Consuming) : Consumes (block rounds inner) := by
  refine (consumes_expect_symbol .leftBrace).bind fun _ => ?_
  refine (forward_iterate (forward_nextInBlock consuming) rounds []).bind fun _ => ?_
  exact (forward_expect _).bind fun _ => forward_pure _

theorem consumes_declaration (consuming : inner.Consuming) (declKind : DeclKind) :
    Consumes (declaration inner declKind) := by
  refine forward_advance.bind_consumes fun _ => (consumes_identOr _).bind fun name => ?_
  refine (forward_isAt _).bind fun initialized => ?_
  split
  · exact forward_advance.bind fun _ => consuming.expression.forward.bind fun _ => forward_pure _
  · split
    · exact (consumes_fail _).forward
    · exact forward_pure _

theorem consumes_nextParam (params : List Ident) : Consumes (nextParam params) := by
  refine (consumes_identOr _).bind fun param => (forward_isAt _).bind fun found => ?_
  split
  · exact forward_advance.bind fun _ => forward_pure _
  · exact forward_pure _

theorem forward_parameters : Forward (parameters rounds) := by
  refine (forward_expect _).bind fun _ => (forward_isAt _).bind fun empty => ?_
  have close : ∀ params : List Ident, Forward (do
      expect (.symbol .rightParen)
      return params.reverse) := fun params => (forward_expect _).bind fun _ => forward_pure _
  cases empty with
  | true => exact (forward_pure []).bind close
  | false =>
      have params := forward_iterate (fun params => (consumes_nextParam params).forward) rounds []
      exact params.bind close

theorem consumes_functionDeclaration (consuming : inner.Consuming) :
    Consumes (functionDeclaration rounds inner) := by
  refine forward_advance.bind_consumes fun _ => (consumes_identOr _).bind fun name => ?_
  refine forward_parameters.bind fun _ => ?_
  exact (consumes_block consuming).forward.bind fun _ => forward_pure _

/-- Where there is no other branch, the stream is put back to where it was. -/
theorem forward_otherBranch (consuming : inner.Consuming) :
    Forward (otherBranch rounds inner) := by
  intro s other s' h
  have skipped := TokenStream.leads_dropWhile isNewline s
  simp only [otherBranch, get_bind, skipNewlines_bind, kind_bind] at h
  cases here : (s.dropWhile isNewline).current.kind with
  | keyword word =>
      rw [here] at h
      cases word with
      | elseWord =>
          refine skipped.trans (Forward.bind forward_advance (fun _ => ?_) _ _ _ h)
          refine (forward_isAt _).bind fun again => ?_
          split
          · exact consuming.statement.forward.bind fun _ => forward_pure _
          · exact (consumes_block consuming).forward.bind fun _ => forward_pure _
      | elseIfWord =>
          refine skipped.trans (Forward.bind consuming.elseIf.forward (fun _ => ?_) _ _ _ h)
          exact forward_pure _
      | _ =>
          cases h
          exact Leads.refl s
  | _ =>
      rw [here] at h
      cases h
      exact Leads.refl s

theorem consumes_conditional (consuming : inner.Consuming) :
    Consumes (conditional rounds inner) := by
  refine forward_advance.bind_consumes fun _ => consuming.expression.bind fun cond => ?_
  refine (consumes_block consuming).forward.bind fun body => ?_
  exact (forward_otherBranch consuming).bind fun _ => forward_pure _

theorem consumes_whileLoop (consuming : inner.Consuming) : Consumes (whileLoop rounds inner) := by
  refine forward_advance.bind_consumes fun _ => consuming.expression.bind fun cond => ?_
  exact (consumes_block consuming).forward.bind fun _ => forward_pure _

theorem forward_clause (close : Symbol) {parser : Parser α} (forward : Forward parser) :
    Forward (clause close parser) := by
  refine (forward_isAt _).bind fun empty => ?_
  have ended : ∀ value : Option α, Forward (do
      expect (.symbol close)
      return value) := fun value => (forward_expect _).bind fun _ => forward_pure _
  cases empty with
  | true => exact (forward_pure none).bind ended
  | false =>
      have present : Forward (some <$> parser) := by
        rw [map_eq_pure_bind]
        exact forward.bind fun _ => forward_pure _
      exact present.bind ended

theorem consumes_forLoop (consuming : inner.Consuming) : Consumes (forLoop rounds inner) := by
  refine forward_advance.bind_consumes fun _ => ?_
  refine (consumes_expect_symbol .leftParen).bind fun _ => ?_
  refine (forward_clause _ consuming.statement.forward).bind fun _ => ?_
  refine (forward_clause _ consuming.expression.forward).bind fun _ => ?_
  refine (forward_clause _ consuming.expression.forward).bind fun _ => ?_
  exact (consumes_block consuming).forward.bind fun _ => forward_pure _

theorem consumesAt_resultStatement (consuming : inner.Consuming) {s : TokenStream}
    (more : s.current.kind ≠ .endOfText) : ConsumesAt s (resultStatement inner) := by
  refine (consumesAt_advance more).bind fun _ => forward_kind.bind fun k => ?_
  split
  · exact forward_pure _
  · exact forward_pure _
  · exact forward_pure _
  · exact forward_pure _
  · exact consuming.expression.forward.bind fun _ => forward_pure _

theorem consumes_printStatement (consuming : inner.Consuming) :
    Consumes (printStatement inner) := by
  refine forward_current.bind_consumes fun t => forward_advance.bind_consumes fun _ => ?_
  refine (forward_isAt _).bind_consumes fun method => ?_
  split
  · refine forward_advance.bind_consumes fun _ => (consumes_identOr _).bind fun _ => ?_
    exact consuming.expression.forward.bind fun _ => forward_pure _
  · exact consuming.expression.bind fun _ => forward_pure _

theorem consumes_statementBody (consuming : inner.Consuming) :
    Consumes (statementBody rounds inner) := by
  intro s
  by_cases ended : s.current.kind = .endOfText
  · refine consumesAt_kind ?_
    rw [ended]
    exact consuming.expression.bind (fun _ => forward_pure _) s
  · refine consumesAt_kind ?_
    split
    · exact consumes_declaration consuming _ s
    · exact consumes_declaration consuming _ s
    · exact consumes_declaration consuming _ s
    · exact consumes_functionDeclaration consuming s
    · exact consumes_conditional consuming s
    · exact consumes_whileLoop consuming s
    · exact consumes_forLoop consuming s
    · exact consumesAt_resultStatement consuming ended
    · exact (consumesAt_advance ended).bind fun _ => forward_pure _
    · exact (consumesAt_advance ended).bind fun _ => forward_pure _
    · exact consumes_printStatement consuming s
    · exact (consumes_block consuming).bind (fun _ => forward_pure _) s
    · exact consuming.expression.bind (fun _ => forward_pure _) s

theorem nextInProgram_of_end (before : List Stmt) (s : TokenStream)
    (ended : (s.dropWhile isSeparator).current.kind = .endOfText) :
    nextInProgram inner before s = .ok ((before, false), s.dropWhile isSeparator) := by
  rw [nextInProgram, skipSeparators_bind, kind_bind, ended]
  rfl

/-- Before the end of the text there has to be a statement. -/
theorem nextInProgram_of_more (before : List Stmt) (s : TokenStream)
    (more : (s.dropWhile isSeparator).current.kind ≠ .endOfText) :
    nextInProgram inner before s = (inner.statement (s.dropWhile isSeparator)).map
      fun (read, t) => ((read :: before, true), t) := by
  rw [nextInProgram, skipSeparators_bind, kind_bind]
  cases here : (s.dropWhile isSeparator).current.kind with
  | endOfText => exact absurd here more
  | _ =>
      dsimp only
      rw [bind_apply]
      cases inner.statement (s.dropWhile isSeparator) <;> rfl

theorem forward_nextInProgram (consuming : inner.Consuming) (body : List Stmt) :
    Forward (nextInProgram inner body) := by
  refine forward_skipSeparators.bind fun _ => forward_kind.bind fun k => ?_
  split
  · exact forward_pure _
  · exact consuming.statement.forward.bind fun _ => forward_pure _

theorem asksAt_nextInProgram (consuming : inner.Consuming) (body : List Stmt) (s : TokenStream) :
    AsksAt s (nextInProgram inner body) := by
  refine asksAt_skipSeparators (asksAt_kind ?_)
  split
  · exact asksAt_stop _ body
  · exact ConsumesAt.asksAt (consuming.statement.bind (fun _ => forward_pure _) _)

end Statements

/-- Every parser of every level reads at least one token when it succeeds. -/
theorem level_consuming {rounds : Nat} (positive : 0 < rounds) (depth : Nat) :
    (level rounds depth).Consuming := by
  induction depth with
  | zero =>
      exact
        { statement := consumes_fail _
          expression := consumes_fail _
          operand := consumes_fail _
          elseIf := consumes_fail _ }
  | succ depth ih =>
      exact
        { statement := consumes_statementBody ih
          expression := consumes_expressionBody ih positive
          operand := consumes_binary ih positive powerSteps unaryPower
          elseIf := consumes_conditional ih }

end Parser

end MinangScript
