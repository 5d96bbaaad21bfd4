import Mathlib.Data.List.TakeWhile
import MinangScript.Proofs.Parser.Progress

/-! # Parsers as scripts

A script writes down what a parser does: where it looks, how it moves on, which parser it calls and
where it counts a level of nesting. It can be followed in several ways. Here it is read as a parser
that knows how deep it is nested; what a script has in common with every other one, however it
looks, is then a single induction. So a script that leaves a token behind which is no line feed has
not noticed where the stream ends.
-/

namespace MinangScript

namespace TokenStream

/-- The stream with more tokens behind it, and the end of the text elsewhere. -/
def followedBy (s : TokenStream) (more : List Token) (stop : Position) : TokenStream :=
  ⟨s.ahead ++ more, stop⟩

/-- Some token of the stream is no line feed. -/
def GoesOn (s : TokenStream) : Prop :=
  ∃ t ∈ s.ahead, Parser.isNewline t.kind = false

variable {s s' : TokenStream} {more : List Token} {stop : Position}

theorem GoesOn.before (goesOn : s'.GoesOn) (leads : Leads s s') : s.GoesOn := by
  obtain ⟨t, member, other⟩ := goesOn
  exact ⟨t, leads.ahead.subset member, other⟩

theorem GoesOn.ne_nil (goesOn : s.GoesOn) : s.ahead ≠ [] := by
  obtain ⟨t, member, -⟩ := goesOn
  exact List.ne_nil_of_mem member

/-- A line feed is not all there is to skip. -/
theorem GoesOn.past (goesOn : s.GoesOn) : (s.dropWhile Parser.isNewline).ahead ≠ [] := by
  obtain ⟨t, member, other⟩ := goesOn
  intro empty
  have skipped := List.dropWhile_eq_nil_iff.mp empty t member
  rw [other] at skipped
  cases skipped

theorem current_followedBy (nonempty : s.ahead ≠ []) :
    (s.followedBy more stop).current = s.current := by
  obtain ⟨first, rest, all⟩ := List.exists_cons_of_ne_nil nonempty
  simp [current, followedBy, all]

theorem advance_followedBy (nonempty : s.ahead ≠ []) :
    (s.followedBy more stop).advance = s.advance.followedBy more stop := by
  obtain ⟨first, rest, all⟩ := List.exists_cons_of_ne_nil nonempty
  simp [advance, followedBy, all]

theorem dropWhile_followedBy {skip : TokenKind → Bool} (nonempty : (s.dropWhile skip).ahead ≠ []) :
    (s.followedBy more stop).dropWhile skip = (s.dropWhile skip).followedBy more stop := by
  simp only [dropWhile] at nonempty
  simp [dropWhile, followedBy, List.dropWhile_append, nonempty]

end TokenStream

/-- The parsers that call each other, from the one for whole texts to those for single names. -/
inductive Activation where
  | text
  | tokens
  | program
  | statement
  | statementBody
  | name
  | declaration
  | function
  | block
  | conditional
  | elseIf
  | whileLoop
  | forLoop
  | result
  | print
  | expression
  | assignment
  | operands
  | prefixed
  | postfixed
  | propertyName
  | primary
  | template
  | array
  | object
  | arguments
  deriving Repr, DecidableEq

/-- What a parser does. -/
inductive Script : Type → Type 1 where
  /-- Nothing more; this is the result. -/
  | done {α : Type} (value : α) : Script α
  /-- Fails at the next token. -/
  | fail {α : Type} (problem : SyntaxProblem) : Script α
  /-- Looks at the next token. -/
  | look {α : Type} (next : Token → Script α) : Script α
  /-- Looks at the next token that is no line feed, without moving on. -/
  | lookPast {α : Type} (next : Token → Script α) : Script α
  /-- Moves on by one token. -/
  | advance {α : Type} (next : Script α) : Script α
  /-- Moves on over all tokens of some kinds. -/
  | skip {α : Type} (what : TokenKind → Bool) (next : Script α) : Script α
  /-- Calls a parser and goes on with its result. -/
  | call {α β : Type} (f : Activation) (body : Script β) (next : β → Script α) : Script α
  /-- Does something one level deeper and goes on with its result. -/
  | nest {α β : Type} (body : Script β) (next : β → Script α) : Script α

namespace Script

variable {α β γ : Type}

protected def bind : {α : Type} → Script α → (α → Script β) → Script β
  | _, done value, f => f value
  | _, fail problem, _ => fail problem
  | _, look next, f => look fun t => (next t).bind f
  | _, lookPast next, f => lookPast fun t => (next t).bind f
  | _, advance next, f => advance (next.bind f)
  | _, skip what next, f => skip what (next.bind f)
  | _, call g body next, f => call g body fun b => (next b).bind f
  | _, nest body next, f => nest body fun b => (next b).bind f

instance : Monad Script where
  pure := done
  bind := Script.bind

/-! ## Steps -/

def current : Script Token :=
  look done

def kind : Script TokenKind :=
  look fun t => done t.kind

def isAt (k : TokenKind) : Script Bool :=
  look fun t => done (t.kind == k)

/-- The kind of the next token that is no line feed. -/
def kindPast : Script TokenKind :=
  lookPast fun t => done t.kind

def move : Script Unit :=
  advance (done ())

def expect (k : TokenKind) : Script Unit := do
  if ← isAt k then move else fail (.expected k)

def skipNewlines : Script Unit :=
  skip Parser.isNewline (done ())

def skipSeparators : Script Unit :=
  skip Parser.isSeparator (done ())

/-- Does the whole of `body` as a call of the parser `f`. -/
def calling (f : Activation) (body : Script α) : Script α :=
  call f body done

/-- Does the whole of `body` one level deeper. -/
def nested (body : Script α) : Script α :=
  nest body done

/-- Repeats `step` on a value as long as it asks for more, at most `rounds` times. -/
def iterate (step : β → Script (β × Bool)) : Nat → β → Script β
  | 0, value => pure value
  | rounds + 1, value => do
    let (next, more) ← step value
    if more then iterate step rounds next else pure next

/-! ## Scripts as parsers -/

/-- A parser that counts as one level deeper, from the given depth. -/
def deeper (depth : Nat) (p : Parser α) : Parser α :=
  if maxNesting ≤ depth then Parser.fail .nestingTooDeep else p

/-- The parser that follows the script at the given depth of nesting. -/
def parser : {α : Type} → Script α → Nat → Parser α
  | _, done value, _ => pure value
  | _, fail problem, _ => Parser.fail problem
  | _, look next, depth => fun s => (next s.current).parser depth s
  | _, lookPast next, depth => fun s =>
    (next (s.dropWhile Parser.isNewline).current).parser depth s
  | _, advance next, depth => fun s => next.parser depth s.advance
  | _, skip what next, depth => fun s => next.parser depth (s.dropWhile what)
  | _, call _ body next, depth => do
    let b ← body.parser depth
    (next b).parser depth
  | _, nest body next, depth => do
    let b ← deeper depth (body.parser (depth + 1))
    (next b).parser depth

variable {depth : Nat}

@[simp] theorem parser_pure (value : α) : (pure value : Script α).parser depth = pure value := rfl

@[simp] theorem parser_done (value : α) : (done value).parser depth = pure value := rfl

@[simp] theorem parser_fail (problem : SyntaxProblem) :
    (fail problem : Script α).parser depth = Parser.fail problem := rfl

@[simp] theorem parser_bind (x : Script α) (f : α → Script β) :
    (x >>= f).parser depth = x.parser depth >>= fun a => (f a).parser depth := by
  change (x.bind f).parser depth = _
  induction x generalizing depth with
  | done | fail => rfl
  | look next ih | lookPast next ih =>
      funext s
      exact congrFun (ih _ f) s
  | advance next ih | skip what next ih =>
      funext s
      exact congrFun (ih f) _
  | call g body next _ ih | nest body next _ ih =>
      simp only [Script.bind, parser, ih, bind_assoc]

@[simp] theorem parser_map (f : α → β) (x : Script α) :
    (f <$> x).parser depth = f <$> x.parser depth := by
  rw [map_eq_pure_bind f (x.parser depth)]
  exact parser_bind x fun a => pure (f a)

@[simp] theorem parser_ite (p : Prop) [Decidable p] (x y : Script α) :
    (if p then x else y).parser depth = if p then x.parser depth else y.parser depth := by
  split <;> rfl

@[simp] theorem parser_current : current.parser depth = Parser.current := rfl

@[simp] theorem parser_kind : kind.parser depth = Parser.kind := rfl

@[simp] theorem parser_isAt (k : TokenKind) : (isAt k).parser depth = Parser.isAt k := rfl

@[simp] theorem parser_kindPast_bind (f : TokenKind → Parser α) (s : TokenStream) :
    (kindPast.parser depth >>= f) s = f (s.dropWhile Parser.isNewline).current.kind s := rfl

@[simp] theorem parser_move : move.parser depth = Parser.advance := rfl

@[simp] theorem parser_skipNewlines : skipNewlines.parser depth = Parser.skipNewlines := rfl

@[simp] theorem parser_skipSeparators : skipSeparators.parser depth = Parser.skipSeparators := rfl

@[simp] theorem parser_expect (k : TokenKind) : (expect k).parser depth = Parser.expect k := by
  simp [expect, Parser.expect]

/-- A call does not show in the result. -/
@[simp] theorem parser_calling (f : Activation) (body : Script α) :
    (calling f body).parser depth = body.parser depth :=
  bind_pure _

@[simp] theorem parser_nested (body : Script α) :
    (nested body).parser depth = deeper depth (body.parser (depth + 1)) :=
  bind_pure _

theorem deeper_of_lt (left : depth < maxNesting) (p : Parser α) : deeper depth p = p :=
  if_neg (Nat.not_le.mpr left)

theorem deeper_maxNesting (p : Parser α) :
    deeper maxNesting p = Parser.fail .nestingTooDeep :=
  if_pos (Nat.le_refl _)

@[simp] theorem parser_iterate (step : β → Script (β × Bool)) (rounds : Nat) (value : β) :
    (iterate step rounds value).parser depth =
      Reader.iterate (fun value => (step value).parser depth) rounds value := by
  induction rounds generalizing value with
  | zero => rfl
  | succ rounds ih => simp [iterate, Reader.iterate, ih]

/-! ## What stands behind -/

theorem forward_of_script (x : Script α) : Parser.Forward (x.parser depth) := by
  induction x generalizing depth with
  | done value => exact Parser.forward_pure value
  | fail problem => exact (Parser.consumes_fail problem).forward
  | look next ih => exact fun s a s' ran => ih s.current s a s' ran
  | lookPast next ih => exact fun s a s' ran => ih _ s a s' ran
  | advance next ih => exact fun s a s' ran => s.leads_advance.trans (ih _ a s' ran)
  | skip what next ih => exact fun s a s' ran => (s.leads_dropWhile what).trans (ih _ a s' ran)
  | call f body next ihBody ih => exact ihBody.bind fun b => ih b
  | nest body next ihBody ih =>
      refine Parser.Forward.bind ?_ fun b => ih b
      unfold deeper
      split
      · exact (Parser.consumes_fail _).forward
      · exact ihBody

/-- A script that leaves a token which is no line feed does the same whatever stands behind the
    stream: all that it looked at was there. -/
theorem parser_followedBy (x : Script α) {s s' : TokenStream} {a : α} (more : List Token)
    (stop : Position) (ran : x.parser depth s = .ok (a, s')) (goesOn : s'.GoesOn) :
    x.parser depth (s.followedBy more stop) = .ok (a, s'.followedBy more stop) := by
  have before := goesOn.before (forward_of_script x s a s' ran)
  induction x generalizing depth s s' with
  | done value =>
      cases ran
      rfl
  | fail problem => cases ran
  | look next ih =>
      simp only [parser, TokenStream.current_followedBy before.ne_nil]
      exact ih _ ran goesOn before
  | lookPast next ih =>
      simp only [parser, TokenStream.dropWhile_followedBy before.past,
        TokenStream.current_followedBy before.past]
      exact ih _ ran goesOn before
  | advance next ih =>
      simp only [parser, TokenStream.advance_followedBy before.ne_nil]
      exact ih ran goesOn (goesOn.before (forward_of_script next _ _ _ ran))
  | skip what next ih =>
      have later := goesOn.before (forward_of_script next _ _ _ ran)
      simp only [parser, TokenStream.dropWhile_followedBy later.ne_nil]
      exact ih ran goesOn later
  | call f body next ihBody ih =>
      obtain ⟨b, mid, first, rest⟩ := Parser.bind_ok ran
      have between := goesOn.before (forward_of_script (next b) _ _ _ rest)
      rw [parser, Parser.bind_apply, ihBody first between before]
      exact ih b rest goesOn between
  | nest body next ihBody ih =>
      obtain ⟨b, mid, first, rest⟩ := Parser.bind_ok ran
      have between := goesOn.before (forward_of_script (next b) _ _ _ rest)
      unfold deeper at first
      split at first
      · cases first
      · rename_i left
        rw [parser, Parser.bind_apply, deeper_of_lt (Nat.not_le.mp left),
          ihBody first between before]
        exact ih b rest goesOn between

end Script

end MinangScript
