import MinangScript.Proofs.Parser.Progress
import MinangScript.Proofs.Parser.Rendering

/-! # Streams that spell known tokens

`Spells` takes a stream apart along a rendering, and `Gives` says what a parser makes of such a
stream: the outcome depends on nothing but whether the nesting fits. The rule `Gives.bind` puts
such facts together the way parsers are put together.
-/

namespace MinangScript

namespace TokenStream

/-- The tokens in front of `rest` in the stream `s` are of the given kinds. -/
def Spells : List TokenKind → TokenStream → TokenStream → Prop
  | [], s, rest => s = rest
  | k :: kinds, s, rest => s.current.kind = k ∧ Spells kinds s.advance rest

@[simp] theorem spells_nil {s rest : TokenStream} : Spells [] s rest ↔ s = rest := Iff.rfl

@[simp] theorem spells_cons {k : TokenKind} {kinds : List TokenKind} {s rest : TokenStream} :
    Spells (k :: kinds) s rest ↔ s.current.kind = k ∧ Spells kinds s.advance rest := Iff.rfl

@[simp] theorem spells_append {front back : List TokenKind} {s rest : TokenStream} :
    Spells (front ++ back) s rest ↔ ∃ mid, Spells front s mid ∧ Spells back mid rest := by
  induction front generalizing s with
  | nil => simp
  | cons k front ih => simp [ih, and_assoc]

theorem spells_between {opening closing : Symbol} {kinds : List TokenKind}
    {s rest : TokenStream} : Spells (between opening closing kinds) s rest ↔
      s.current.kind = .symbol opening ∧ ∃ last, Spells kinds s.advance last ∧
        last.current.kind = .symbol closing ∧ last.advance = rest := by
  simp [between]

theorem Spells.length_le {kinds : List TokenKind} {s rest : TokenStream}
    (spells : Spells kinds s rest) : rest.ahead.length ≤ s.ahead.length := by
  induction kinds generalizing s with
  | nil =>
      obtain rfl := spells
      exact Nat.le_refl _
  | cons k kinds ih => exact Nat.le_trans (ih spells.2) s.leads_advance.length_le

theorem Spells.length_lt {kinds : List TokenKind} {s rest : TokenStream}
    (spells : Spells kinds s rest) {rounds : Nat} (enough : s.ahead.length < rounds) :
    rest.ahead.length < rounds :=
  Nat.lt_of_le_of_lt spells.length_le enough

theorem length_advance_lt {s : TokenStream} {rounds : Nat} (enough : s.ahead.length < rounds) :
    s.advance.ahead.length < rounds :=
  Nat.lt_of_le_of_lt s.leads_advance.length_le enough

theorem spells_of_map {tokens : List Token} {kinds : List TokenKind} (stop : Position)
    (same : tokens.map Token.kind = kinds) : Spells kinds ⟨tokens, stop⟩ ⟨[], stop⟩ := by
  induction tokens generalizing kinds with
  | nil =>
      obtain rfl := same
      rfl
  | cons t tokens ih =>
      obtain rfl := same
      exact ⟨rfl, ih rfl⟩

theorem dropWhile_of_not {skip : TokenKind → Bool} {s : TokenStream}
    (stays : skip s.current.kind = false) : s.dropWhile skip = s := by
  obtain ⟨ahead, stop⟩ := s
  cases ahead with
  | nil => rfl
  | cons t ahead =>
      have stays : skip t.kind = false := stays
      simp [dropWhile, stays]

theorem dropWhile_of_skip {skip : TokenKind → Bool} {s : TokenStream}
    (moves : skip s.current.kind = true) : s.dropWhile skip = s.advance.dropWhile skip := by
  obtain ⟨ahead, stop⟩ := s
  cases ahead with
  | nil => rfl
  | cons t ahead =>
      have moves : skip t.kind = true := moves
      simp [dropWhile, advance, moves]

end TokenStream

namespace Parser

open Reader (iterate)
open TokenStream (Spells dropWhile_of_not dropWhile_of_skip)

/-! ## Results that depend on the nesting alone -/

/-- If the nesting `fits`, a `good` value with `rest` behind it, and the error about the nesting
    otherwise. -/
structure Gives {α : Type} (fits : Prop) (good : α → Prop) (rest : TokenStream)
    (result : Except SyntaxError (α × TokenStream)) : Prop where
  fitting : fits → ∃ a, good a ∧ result = .ok (a, rest)
  tooDeep : ¬fits → ∃ token, result = .error ⟨.nestingTooDeep, token⟩

namespace Gives

variable {α β : Type} {fits fits' : Prop} {good : α → Prop} {good' : β → Prop}
  {s mid rest : TokenStream}

theorem ok {a : α} (is : good a) : Gives True good rest (.ok (a, rest)) :=
  ⟨fun _ => ⟨a, is, rfl⟩, fun h => absurd trivial h⟩

theorem error {token : Token} : Gives False good rest (.error ⟨.nestingTooDeep, token⟩) :=
  ⟨False.elim, fun _ => ⟨token, rfl⟩⟩

theorem iff {result : Except SyntaxError (α × TokenStream)} (gives : Gives fits good rest result)
    (same : fits ↔ fits') : Gives fits' good rest result :=
  ⟨fun h => gives.fitting (same.mpr h), fun h => gives.tooDeep fun h' => h (same.mp h')⟩

theorem imp {good'' : α → Prop} {result : Except SyntaxError (α × TokenStream)}
    (gives : Gives fits good rest result) (better : ∀ a, good a → good'' a) :
    Gives fits good'' rest result := by
  refine ⟨fun fit => ?_, gives.tooDeep⟩
  obtain ⟨a, is, ran⟩ := gives.fitting fit
  exact ⟨a, better a is, ran⟩

theorem bind {p : Parser α} {f : α → Parser β} (first : Gives fits good mid (p s))
    (next : ∀ a, good a → Gives fits' good' rest (f a mid)) :
    Gives (fits ∧ fits') good' rest ((p >>= f) s) := by
  constructor
  · rintro ⟨fit, fit'⟩
    obtain ⟨a, is, ran⟩ := first.fitting fit
    rw [bind_apply, ran]
    exact (next a is).fitting fit'
  · intro deep
    by_cases fit : fits
    · obtain ⟨a, is, ran⟩ := first.fitting fit
      rw [bind_apply, ran]
      exact (next a is).tooDeep fun fit' => deep ⟨fit, fit'⟩
    · obtain ⟨token, ran⟩ := first.tooDeep fit
      exact ⟨token, by rw [bind_apply, ran]⟩

/-- What follows always fits. -/
theorem bind_ok {p : Parser α} {f : α → Parser β} (first : Gives fits good mid (p s))
    (next : ∀ a, good a → Gives True good' rest (f a mid)) :
    Gives fits good' rest ((p >>= f) s) :=
  (first.bind next).iff (and_iff_left trivial)

end Gives

/-! ## Single tokens -/

theorem expect_bind {α : Type} {symbol : Symbol} {s : TokenStream} (f : Unit → Parser α)
    (here : s.current.kind = .symbol symbol) :
    (expect (.symbol symbol) >>= f) s = f () s.advance := by
  rw [bind_apply, expect, isAt_bind, beq_symbol_iff.mpr here]
  rfl

theorem identOr_bind {α : Type} {name : String} {s : TokenStream} (problem : SyntaxProblem)
    (f : Ident → Parser α) (here : s.current.kind = .identifier name) :
    (identOr problem >>= f) s = f ⟨name, s.current.position⟩ s.advance := by
  rw [bind_apply, identOr, current_bind, here]
  rfl

theorem beq_symbol_of_ne {k : TokenKind} {symbol : Symbol} (other : k ≠ .symbol symbol) :
    (k == .symbol symbol) = false :=
  Bool.eq_false_iff.mpr fun is => other (beq_symbol_iff.mp is)

/-- Whether an operand ends in front of a token of this kind. -/
def endsOperand : TokenKind → Bool
  | .symbol .leftParen | .symbol .dot | .symbol .increment | .symbol .decrement => false
  | _ => true

/-- Whether an expression ends in front of a token of this kind. -/
def endsExpression (k : TokenKind) : Bool :=
  endsOperand k && (binaryOp? k).isNone && (assignment? k).isNone

/-- Whether the rendering of an expression may begin with a token of this kind. -/
def startsExpression : TokenKind → Bool
  | .number _ | .string _ | .regex _ _ | .identifier _ => true
  | .keyword .trueWord | .keyword .falseWord | .keyword .nullWord | .keyword .printWord => true
  | .symbol .leftParen | .symbol .leftBracket | .symbol .leftBrace => true
  | _ => false

theorem isNewline_of_startsExpression {k : TokenKind} (starts : startsExpression k = true) :
    isNewline k = false := by
  cases k with
  | newline => cases starts
  | _ => rfl

theorem not_symbol_of_startsExpression {k : TokenKind} {symbol : Symbol}
    (starts : startsExpression k = true) (other : startsExpression (.symbol symbol) = false) :
    (k == .symbol symbol) = false := by
  refine beq_symbol_of_ne fun is => ?_
  rw [is, other] at starts
  cases starts

end Parser

end MinangScript
