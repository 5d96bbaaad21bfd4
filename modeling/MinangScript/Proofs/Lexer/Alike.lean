import MinangScript.Proofs.Lexer.Grammar
import MinangScript.Proofs.Lexer.MainLoop

/-! # Positions play no part in reading

What a pass makes of its text depends on the text, on whether it is inside of a template literal, and on the
kinds of the tokens before. Two passes that have these in common take tokens of the same kinds and refuse the
same texts, wherever they stand.
-/

namespace MinangScript

/-- The error without its place. -/
def LexError.unplaced : LexError → LexError
  | unexpectedCharacter c _ => unexpectedCharacter c .start
  | malformedNumber text _ => malformedNumber text .start

/-- What was read without the places: the kinds of the tokens with what they carry, or the error. -/
def unplaced : Except LexError (List Token) → Except LexError (List TokenKind)
  | .ok tokens => .ok (tokens.map Token.kind)
  | .error e => .error e.unplaced

namespace Lexer.Pass

/-! ## Passes that differ in positions only -/

/-- The passes read the same kind of text after tokens of the same kinds. -/
structure Alike (p q : Pass) : Prop where
  mode : p.mode = .code ↔ q.mode = .code
  kinds : p.tokens.map Token.kind = q.tokens.map Token.kind

variable {p q next opened : Pass} {inner after : List Char} {e : LexError}

namespace Alike

theorem regexAllowed (alike : Alike p q) : p.regexAllowed = q.regexAllowed := by
  have kinds := alike.kinds
  unfold Pass.regexAllowed
  cases tokens : p.tokens with
  | nil =>
      rw [tokens, List.map_nil, eq_comm, List.map_eq_nil_iff] at kinds
      rw [kinds]
  | cons t earlier =>
      rw [tokens, List.map_cons, eq_comm] at kinds
      obtain ⟨t', earlier', tokens', same, -⟩ := List.map_eq_cons_iff.mp kinds
      rw [tokens']
      exact congrArg TokenKind.opensRegex same.symm

theorem skip (alike : Alike p q) (lexeme after lexeme' after' : List Char) :
    Alike (p.skip lexeme after) (q.skip lexeme' after') :=
  ⟨alike.mode, alike.kinds⟩

theorem push (alike : Alike p q) (kind : TokenKind) (position position' : Position) :
    Alike (p.push kind position) (q.push kind position') :=
  ⟨alike.mode, congrArg (kind :: ·) alike.kinds⟩

theorem take (alike : Alike p q) (kind : TokenKind) (lexeme after lexeme' after' : List Char) :
    Alike (p.take kind lexeme after) (q.take kind lexeme' after') :=
  (alike.skip lexeme after lexeme' after').push kind _ _

theorem inTemplate (alike : Alike p q) (textStart textStart' : Position) :
    Alike { p with mode := .template textStart } { q with mode := .template textStart' } :=
  ⟨by simp, alike.kinds⟩

theorem template (alike : Alike p q) {textStart : Position} (mode : p.mode = .template textStart) :
    ∃ textStart', q.mode = .template textStart' := by
  cases mode' : q.mode with
  | code => cases mode.symm.trans (alike.mode.mpr mode')
  | template textStart' => exact ⟨textStart', rfl⟩

theorem closeTemplate (alike : Alike p q) (textStart textStart' : Position) (body : List Char)
    (text : String) (after after' : List Char) :
    Alike (p.closeTemplate textStart body text after) (q.closeTemplate textStart' body text after') :=
  ⟨by simp [Pass.closeTemplate],
    ((alike.skip _ _ _ _).push (.templateText text) textStart textStart').kinds⟩

theorem openInterpolation (alike : Alike p q) (textStart textStart' : Position) (body : List Char)
    (text : String) (after after' : List Char) :
    Alike (p.openInterpolation textStart body text after)
      (q.openInterpolation textStart' body text after') := by
  unfold Pass.openInterpolation
  dsimp only
  split
  · exact (alike.skip _ _ _ _).take _ _ _ _ _
  · exact ((alike.skip _ _ _ _).push _ _ _).take _ _ _ _ _

theorem closeInterpolation (alike : Alike p q) {tokens tokens' : List Token}
    (same : tokens.map Token.kind = tokens'.map Token.kind) (inner after after' : List Char) :
    Alike (p.closeInterpolation inner tokens after) (q.closeInterpolation inner tokens' after') := by
  refine ⟨by simp [Pass.closeInterpolation], ?_⟩
  simp [Pass.closeInterpolation, Pass.take, Pass.push, Pass.skip, same, alike.kinds]

end Alike

theorem Scans.alike {text : List Char} (scans : Scans p text (.ok next)) (alike : Alike p q) :
    ∃ next', Scans q text (.ok next') ∧ Alike next next' ∧ next'.rest = next.rest := by
  cases scans with
  | trivia trivia => exact ⟨_, .trivia trivia, alike.skip _ _ _ _, rfl⟩
  | token denotes =>
      rw [alike.regexAllowed] at denotes
      exact ⟨_, .token denotes, alike.take _ _ _ _ _, rfl⟩
  | template => exact ⟨_, .template, (alike.skip _ _ _ _).inTemplate _ _, rfl⟩

theorem Scans.alike_error {text : List Char} (scans : Scans p text (.error e)) (q : Pass) :
    ∃ e', Scans q text (.error e') ∧ e'.unplaced = e.unplaced := by
  cases scans with
  | unknown strange => exact ⟨_, .unknown strange, rfl⟩
  | malformed marked ends => exact ⟨_, .malformed marked ends, rfl⟩

theorem kinds_shift (tokens : List Token) (base base' : Position) :
    (tokens.map (·.shift base)).map Token.kind = (tokens.map (·.shift base')).map Token.kind := by
  simp [Token.shift, Function.comp_def]

theorem Interpolates.alike (opens : p.Interpolates opened inner after) (alike : Alike p q)
    (rest : q.rest = p.rest) : ∃ opened', q.Interpolates opened' inner after ∧
      Alike opened opened' := by
  obtain ⟨⟨textStart, body, text, more, mode, split, rfl⟩, inside⟩ := opens
  obtain ⟨textStart', mode'⟩ := alike.template mode
  have split' : q.templateText = (body, text, '$' :: '\x7b' :: more) := by
    rwa [templateText, rest]
  exact ⟨_, ⟨⟨textStart', body, text, more, mode', split', rfl⟩, inside⟩,
    alike.openInterpolation _ _ _ _ _ _⟩

/-- Passes that differ in positions only end alike. -/
theorem Ends.alike {o : Except LexError Pass} (ends : Ends p o) (alike : Alike p q)
    (rest : q.rest = p.rest) :
    ∃ o', Ends q o' ∧ unplaced (o'.map Pass.tokens) = unplaced (o.map Pass.tokens) := by
  induction ends generalizing q with
  | finished mode spent =>
      exact ⟨_, .finished (alike.mode.mp mode) (rest.trans spent), congrArg Except.ok alike.kinds.symm⟩
  | @refused p c others e mode text step =>
      have scans := scans_codeStep p c others
      rw [step] at scans
      obtain ⟨e', scans', same⟩ := scans.alike_error q
      obtain ⟨_, _, ⟨⟩, step'⟩ := scans'.codeStep
      exact ⟨_, .refused (alike.mode.mp mode) (rest.trans text) step', congrArg Except.error same⟩
  | @code p next c others o mode text step _ ih =>
      have scans := scans_codeStep p c others
      rw [step] at scans
      obtain ⟨next', scans', alike', rest'⟩ := scans.alike alike
      obtain ⟨_, _, ⟨⟩, step'⟩ := scans'.codeStep
      obtain ⟨o', ends', same⟩ := ih alike' rest'
      exact ⟨o', .code (alike.mode.mp mode) (rest.trans text) step' ends', same⟩
  | close mode split plain _ ih =>
      obtain ⟨textStart', mode'⟩ := alike.template mode
      obtain ⟨o', ends', same⟩ := ih (alike.closeTemplate _ textStart' _ _ _ _) rfl
      rw [templateText, ← rest] at split
      exact ⟨o', .close mode' split plain ends', same⟩
  | blank opens blank _ ih =>
      obtain ⟨opened', opens', alike'⟩ := opens.alike alike rest
      obtain ⟨o', ends', same⟩ := ih (alike'.closeInterpolation rfl _ _ _) rfl
      exact ⟨o', .blank opens' blank ends', same⟩
  | nested opens written inside _ _ ih =>
      -- The pass inside starts afresh on the same text, so it is the same pass for both.
      obtain ⟨opened', opens', alike'⟩ := opens.alike alike rest
      obtain ⟨o', ends', same⟩ := ih (alike'.closeInterpolation (kinds_shift _ _ _) _ _ _) rfl
      exact ⟨o', .nested opens' written inside ends', same⟩
  | @nestedRefused p opened inner after e opens written inside _ =>
      obtain ⟨opened', opens', alike'⟩ := opens.alike alike rest
      refine ⟨_, .nestedRefused opens' written inside, ?_⟩
      cases e <;> rfl

end Lexer.Pass

theorem unplaced_push (o : Except LexError Lexer.Pass) :
    unplaced (o.map fun done => (done.push .endOfText done.position).tokens.reverse) =
      (unplaced (o.map Lexer.Pass.tokens)).map fun kinds => kinds.reverse ++ [.endOfText] := by
  cases o with
  | ok done => simp [unplaced, Except.map, Lexer.Pass.push]
  | error e => rfl

end MinangScript
