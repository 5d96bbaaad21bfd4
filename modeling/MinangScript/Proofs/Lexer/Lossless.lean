import MinangScript.Proofs.Lexer.Grammar
import MinangScript.Proofs.Lexer.MainLoop

/-! # No part of a text is lost

A text without template literals is lexemes with trivia between and around them, and nothing else. Its
tokens are what the lexemes denote, one for each and in their order, and the position of a token is where
its lexeme begins.
-/

namespace MinangScript

/-- From a position on, the text is lexemes and trivia up to `stop`, and the tokens are those that the
    lexemes denote. A lexeme spells its token, and what comes after does not make it longer. Whether a slash
    may open a regex is up to the token before it. -/
inductive Tiled (stop : List Char) : Bool → Position → List Char → List Token → Prop where
  | stop {regexAllowed : Bool} {position : Position} : Tiled stop regexAllowed position stop []
  | trivia {regexAllowed : Bool} {position : Position} {lexeme after : List Char}
      {tokens : List Token} : IsTrivia lexeme after →
      Tiled stop regexAllowed (position.advanceBy lexeme) after tokens →
      Tiled stop regexAllowed position (lexeme ++ after) tokens
  | token {regexAllowed : Bool} {position : Position} {kind : TokenKind} {lexeme after : List Char}
      {tokens : List Token} : Denotes regexAllowed kind lexeme after → kind.SpelledBy lexeme →
      Tiled stop kind.opensRegex (position.advanceBy lexeme) after tokens →
      Tiled stop regexAllowed position (lexeme ++ after) (⟨kind, position⟩ :: tokens)

/-- No backtick stands outside of strings, comments and regexes: there is none with only lexemes and trivia
    before it. -/
def HasNoTemplate (source : String) : Prop :=
  ∀ after tokens, ¬Tiled (Lexeme.backtick :: after) true .start source.toList tokens

theorem Denotes.spelledBy {regexAllowed : Bool} {kind : TokenKind} {lexeme after : List Char}
    (denotes : Denotes regexAllowed kind lexeme after) : kind.SpelledBy lexeme := by
  cases denotes with
  | newline | symbol => rfl
  | word => exact TokenKind.spelledBy_ofWord lexeme
  | decimal digit => exact .inl ⟨_, _, rfl, digit, rfl⟩
  | radix marked nonempty => exact .inr ⟨_, _, _, rfl, marked, nonempty, rfl⟩
  | @string quote body _ _ quoted encodes =>
      refine ⟨quote, body, [quote], rfl, quoted, List.prefix_rfl, ?_⟩
      rw [encodes.unescape_closed]
  | @openString quote body _ tail quoted encodes loose =>
      refine ⟨quote, body ++ tail, [], by simp, quoted, List.nil_prefix, ?_⟩
      rw [encodes.unescape [] loose, List.reverse_nil, List.nil_append]
  | regex => exact ⟨['/'], by simp, List.prefix_rfl⟩
  | openRegex => exact ⟨[], by simp, List.nil_prefix⟩

namespace Lexer.Pass

/-- In front of the pass are lexemes and trivia up to `stop`. -/
abbrev TiledTo (p : Pass) (stop : List Char) (tokens : List Token) : Prop :=
  Tiled stop p.regexAllowed p.position p.rest tokens

/-- No template literal is in front of the pass. -/
def Untemplated (p : Pass) : Prop :=
  ∀ after tokens, ¬p.TiledTo (Lexeme.backtick :: after) tokens

variable {p next done : Pass}

/-- A step over ordinary text puts its lexeme in front of what is tiled from there on. -/
theorem Scans.tiled (scans : Scans p p.rest (.ok next)) (mode : p.mode = .code)
    (plain : p.Untemplated) :
    next.mode = .code ∧ p.position.advanceBy p.rest = next.position.advanceBy next.rest ∧
      ∃ taken, next.tokens = taken.reverse ++ p.tokens ∧
        ∀ stop tokens, next.TiledTo stop tokens → p.TiledTo stop (taken ++ tokens) := by
  generalize whole : p.rest = text at scans
  cases scans with
  | trivia trivia =>
      refine ⟨mode, by rw [Position.advanceBy_append]; rfl, [], rfl, fun stop tokens tiled => ?_⟩
      rw [TiledTo, whole]
      exact .trivia trivia tiled
  | token denotes =>
      refine ⟨mode, by rw [Position.advanceBy_append]; rfl, [_], rfl, fun stop tokens tiled => ?_⟩
      rw [TiledTo, whole]
      exact .token denotes denotes.spelledBy tiled
  | @template after =>
      have tiled : p.TiledTo p.rest [] := .stop
      rw [whole] at tiled
      exact absurd tiled (plain after [])

/-- A pass without template literals that comes to the end of its text had only lexemes and trivia in front
    of it. -/
theorem Ends.tiled {o : Except LexError Pass} (ends : Ends p o) (ok : o = .ok done)
    (mode : p.mode = .code) (plain : p.Untemplated) :
    done.position = p.position.advanceBy p.rest ∧
      ∃ taken, done.tokens = taken.reverse ++ p.tokens ∧ p.TiledTo [] taken := by
  induction ends with
  | @finished p _ spent =>
      obtain rfl : p = done := Except.ok.inj ok
      have tiled : p.TiledTo p.rest [] := .stop
      rw [spent] at tiled
      exact ⟨by rw [spent]; rfl, [], rfl, tiled⟩
  | @code p next c rest _ _ text step _ ih =>
      have scans := scans_codeStep p c rest
      rw [step, ← text] at scans
      obtain ⟨mode', position, taken, tokens, onward⟩ := scans.tiled mode plain
      -- A backtick that is reached from the next pass is reached from this one.
      have plain' : next.Untemplated :=
        fun after later tiled => plain after (taken ++ later) (onward _ later tiled)
      obtain ⟨position', taken', tokens', tiled⟩ := ih ok mode' plain'
      refine ⟨position'.trans position.symm, taken ++ taken', ?_, onward _ _ tiled⟩
      rw [tokens', tokens, List.reverse_append, List.append_assoc]
  | refused | nestedRefused => cases ok
  | close inside => cases mode.symm.trans inside
  | blank opens | nested opens => exact absurd mode opens.mode_ne

/-! ## There is one way to tile a text -/

theorem Scans.unique {text : List Char} {o o' : Except LexError Pass} (scans : Scans p text o)
    (scans' : Scans p text o') : o = o' := by
  obtain ⟨c, rest, rfl, step⟩ := scans.codeStep
  obtain ⟨c', rest', same, step'⟩ := scans'.codeStep
  cases same
  exact step.symm.trans step'

/-- What is tiled from a pass on is tiled from behind its next lexeme on. -/
theorem TiledTo.onward {stop : List Char} {tokens : List Token} (tiled : p.TiledTo stop tokens)
    (scans : Scans p p.rest (.ok next)) : stop = p.rest ∨ ∃ later, next.TiledTo stop later := by
  unfold TiledTo at tiled
  generalize allowed : p.regexAllowed = regexAllowed at tiled
  generalize here : p.position = position at tiled
  generalize p.rest = text at tiled scans
  cases tiled with
  | stop => exact .inl rfl
  | trivia trivia later =>
      cases scans.unique (.trivia trivia)
      subst allowed here
      exact .inr ⟨_, later⟩
  | token denotes _ later =>
      rw [← allowed] at denotes
      cases scans.unique (.token denotes)
      subst here
      exact .inr ⟨_, later⟩

end Lexer.Pass

theorem Tiled.suffix {stop text : List Char} {regexAllowed : Bool} {position : Position}
    {tokens : List Token} (tiled : Tiled stop regexAllowed position text tokens) : stop <:+ text := by
  induction tiled with
  | stop => exact List.suffix_rfl
  | @trivia _ _ lexeme _ _ _ _ ih => exact ih.trans (List.suffix_append lexeme _)
  | @token _ _ _ lexeme _ _ _ _ _ ih => exact ih.trans (List.suffix_append lexeme _)

/-- An accepted text without template literals is the lexemes of its tokens with trivia between and around
    them. -/
theorem lexing_loses_nothing {source : String} {tokens : List Token}
    (accepted : tokenize source = .ok tokens) (plain : HasNoTemplate source) :
    ∃ written, tokens = written ++ [⟨.endOfText, Position.start.advanceBy source.toList⟩] ∧
      Tiled [] true .start source.toList written := by
  obtain ⟨o, ends, same⟩ := Lexer.Pass.tokenize_ends source
  cases o with
  | error e => cases same.symm.trans accepted
  | ok done =>
      obtain ⟨position, written, taken, tiled⟩ := ends.tiled rfl rfl plain
      refine ⟨written, ?_, tiled⟩
      have all := Except.ok.inj (same.symm.trans accepted)
      simp [← all, Lexer.Pass.push, taken, position, Lexer.Pass.start]

/-- A backtick in a string, and one in a comment that nothing closes. -/
theorem lexing_loses_nothing_backticks :
    HasNoTemplate "'`'/*`" ∧ ∃ tokens, tokenize "'`'/*`" = .ok tokens ∧
      ∃ written, tokens = written ++ [⟨.endOfText, Position.start.advanceBy "'`'/*`".toList⟩] ∧
        Tiled [] true .start "'`'/*`".toList written := by
  have plain : HasNoTemplate "'`'/*`" := by
    intro after tokens tiled
    rw [show "'`'/*`".toList = ['\'', Lexeme.backtick, '\'', '/', '*', Lexeme.backtick] by decide] at tiled
    let p := Lexer.Pass.start ['\'', Lexeme.backtick, '\'', '/', '*', Lexeme.backtick] .start
    let q := p.take (.string "`") ['\'', Lexeme.backtick, '\''] ['/', '*', Lexeme.backtick]
    have string : p.Scans p.rest (.ok q) :=
      .token (.string (.inr rfl) (.plain (by decide) (by decide) .nil))
    have unclosed : ¬['*', '/'] <:+: [Lexeme.backtick] := by decide
    have comment : q.Scans q.rest (.ok (q.skip ['/', '*', Lexeme.backtick] [])) :=
      .trivia (.openBlock unclosed)
    obtain ⟨⟨⟩⟩ | ⟨_, tiled⟩ := Lexer.Pass.TiledTo.onward (p := p) tiled string
    obtain ⟨⟨⟩⟩ | ⟨_, tiled⟩ := tiled.onward comment
    exact List.cons_ne_nil _ _ (List.suffix_nil.mp tiled.suffix)
  have accepted : (tokenize "'`'/*`").toOption.isSome = true := by decide +kernel
  cases outcome : tokenize "'`'/*`" with
  | error e => simp [outcome, Except.toOption] at accepted
  | ok tokens => exact ⟨plain, tokens, rfl, lexing_loses_nothing outcome plain⟩

end MinangScript
