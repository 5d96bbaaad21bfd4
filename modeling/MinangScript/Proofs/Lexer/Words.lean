import MinangScript.Proofs.Lexer.Places

/-! # Words stand where they are written

A token that is a word is all of a word of the source, at its position and no part of a longer one,
and it is a name only if the word is no keyword and not set aside. A word in an interpolation is
written in the text of the interpolation, and what stands behind that text does not go on with it,
so the word is written in the text around it too.
-/

namespace MinangScript

/-- The word that a token of this kind is, if it is one. -/
def TokenKind.word? : TokenKind → Option String
  | identifier name => some name
  | keyword k => some k.spelling
  | reserved r => some r.spelling
  | _ => none

/-- At the position the text has a word, which is exactly the given one. -/
def SpelledAt (text : List Char) (word : String) (position : Position) : Prop :=
  ∃ before after, text = before ++ word.toList ++ after ∧ position = .after before ∧
    IsWord word.toList ∧ EndsWord after

/-- If the token is a word, the text has that word at its position, and the token is what the word
    means. -/
def Token.Written (text : List Char) (t : Token) : Prop :=
  ∀ word, t.kind.word? = some word → SpelledAt text word t.position ∧ t.kind = .ofWord word

theorem EndsWord.append {first second : List Char} (ends : EndsWord first)
    (also : EndsWord second) : EndsWord (first ++ second) := by
  cases first with
  | nil => exact also
  | cons c first => exact ends

/-- A word of an inner text is a word of the text around it, at the position moved there. -/
theorem SpelledAt.shift {inner before behind : List Char} {word : String} {position : Position}
    (spelled : SpelledAt inner word position) (ends : EndsWord behind) :
    SpelledAt (before ++ inner ++ behind) word (position.shift (.after before)) := by
  obtain ⟨front, after, rfl, rfl, isWord, endsWord⟩ := spelled
  refine ⟨before ++ front, after ++ behind, by simp, ?_, isWord, endsWord.append ends⟩
  exact Position.shift_after before front

theorem Token.Written.shift {inner before behind : List Char} {t : Token}
    (written : t.Written inner) (ends : EndsWord behind) :
    (t.shift (.after before)).Written (before ++ inner ++ behind) := by
  intro word is
  obtain ⟨spelled, means⟩ := written word is
  exact ⟨spelled.shift ends, means⟩

theorem Token.written_of_none {text : List Char} {t : Token} (noWord : t.kind.word? = none) :
    t.Written text := by
  intro word is
  rw [noWord] at is
  cases is

/-- What a word means is that word. -/
theorem TokenKind.word?_ofWord (word : String) : (ofWord word).word? = some word := by
  unfold ofWord
  split
  · rename_i k found
    have same : k.spelling = word := by simpa using List.find?_some found
    simp [word?, same]
  · split
    · rename_i r found
      have same : r.spelling = word := by simpa using List.find?_some found
      simp [word?, same]
    · rfl

/-- A name that a word means is no keyword and not set aside. -/
theorem TokenKind.not_special_of_ofWord {word name : String} (is : ofWord word = identifier name) :
    Keyword.ofSpelling? name = none ∧ Reserved.ofSpelling? name = none := by
  unfold ofWord at is
  split at is
  · cases is
  · rename_i noKeyword
    split at is
    · cases is
    · rename_i notReserved
      cases is
      exact ⟨noKeyword, notReserved⟩

theorem isWord_takeWhile {c : Char} (starts : Lexeme.isWordStart c = true) (rest : List Char) :
    IsWord ((c :: rest).takeWhile Lexeme.isWordPart) := by
  refine ⟨c, rest.takeWhile Lexeme.isWordPart, ?_, starts, ?_⟩
  · rw [List.takeWhile_cons_of_pos (Lexeme.isWordPart_of_isWordStart starts)]
  · exact List.all_eq_true.mp List.all_takeWhile

theorem endsWord_dropWhile (text : List Char) : EndsWord (text.dropWhile Lexeme.isWordPart) := by
  intro c first
  have stops := List.head?_dropWhile_not Lexeme.isWordPart text
  rw [Option.mem_def.mp first] at stops
  simpa using stops

namespace Lexer.Pass

variable {p next opened done : Pass} {text seen : List Char}

/-! ## Steps over ordinary text -/

/-- The tokens that `next` has in addition to those of `p` are no words. -/
def AddsNoWord (p next : Pass) : Prop :=
  ∀ t ∈ next.tokens, t ∈ p.tokens ∨ t.kind.word? = none

theorem addsNoWord_skip (p : Pass) (lexeme after : List Char) : AddsNoWord p (p.skip lexeme after) :=
  fun _ member => .inl member

theorem addsNoWord_take (p : Pass) {kind : TokenKind} (noWord : kind.word? = none)
    (lexeme after : List Char) : AddsNoWord p (p.take kind lexeme after) := by
  intro t member
  obtain rfl | earlier := List.mem_cons.mp member
  · exact .inr noWord
  · exact .inl earlier

theorem addsNoWord_number {c : Char} {rest : List Char} (step : p.number c rest = .ok next) :
    AddsNoWord p next := by
  have decimal : ∀ text, p.decimal text = next → AddsNoWord p next := by
    rintro text rfl
    exact addsNoWord_take p rfl _ _
  unfold number at step
  split at step
  · split at step
    · unfold radix at step
      dsimp only at step
      split at step
      · cases step
      · cases step
        exact addsNoWord_take p rfl _ _
    · exact decimal _ (Except.ok.inj step)
  · exact decimal _ (Except.ok.inj step)

/-- Only where a word begins is a word read, and then all of it. -/
theorem word_of_symbolOrWord {c : Char} {rest : List Char}
    (step : p.symbolOrWord c rest = .ok next) :
    AddsNoWord p next ∨ Lexeme.isWordStart c = true ∧ next = p.word (c :: rest) := by
  have single : p.singleOrWord c rest = .ok next →
      AddsNoWord p next ∨ Lexeme.isWordStart c = true ∧ next = p.word (c :: rest) := by
    intro step
    unfold singleOrWord at step
    split at step
    · cases step
      exact .inl (addsNoWord_take p rfl _ _)
    · split at step
      · rename_i starts
        exact .inr ⟨starts, (Except.ok.inj step).symm⟩
      · cases step
  have regexOrSingle : (if c = '/' ∧ p.regexAllowed then .ok (p.regex rest)
      else p.singleOrWord c rest) = Except.ok next →
      AddsNoWord p next ∨ Lexeme.isWordStart c = true ∧ next = p.word (c :: rest) := by
    intro step
    split at step
    · cases step
      exact .inl (addsNoWord_take p rfl _ _)
    · exact single step
  unfold symbolOrWord at step
  split at step
  · split at step
    · cases step
      exact .inl (addsNoWord_take p rfl _ _)
    · exact regexOrSingle step
  · exact regexOrSingle step

theorem word_of_codeStep {c : Char} {rest : List Char} (step : p.codeStep c rest = .ok next) :
    AddsNoWord p next ∨ Lexeme.isWordStart c = true ∧ next = p.word (c :: rest) := by
  unfold codeStep at step
  split at step
  · cases step
    exact .inl (addsNoWord_skip p _ _)
  split at step
  · cases step
    exact .inl (addsNoWord_take p rfl _ _)
  split at step
  · cases step
    exact .inl (addsNoWord_take p rfl _ _)
  split at step
  · cases step
    exact .inl (addsNoWord_skip p [c] rest)
  split at step
  · exact .inl (addsNoWord_number step)
  split at step
  · cases step
    exact .inl (addsNoWord_skip p _ _)
  · cases step
    exact .inl (addsNoWord_skip p _ _)
  · exact word_of_symbolOrWord step

/-! ## Whole passes -/

/-- The pass has read `seen` of the text, and the words among its tokens are written in the text. -/
structure Writes (text seen : List Char) (p : Pass) : Prop where
  whole : text = seen ++ p.rest
  position : p.position = .after seen
  words : ∀ t ∈ p.tokens, t.Written text

theorem Writes.start (text : List Char) : Writes text [] (start text .start) :=
  ⟨rfl, rfl, by simp [Pass.start]⟩

theorem Writes.skip (writes : Writes text seen p) {lexeme after : List Char}
    (split : p.rest = lexeme ++ after) : Writes text (seen ++ lexeme) (p.skip lexeme after) where
  whole := by rw [writes.whole, split, List.append_assoc]; rfl
  position := by simp only [Pass.skip, writes.position, Position.advanceBy_after]
  words := writes.words

theorem Writes.push (writes : Writes text seen p) {kind : TokenKind} (noWord : kind.word? = none)
    (position : Position) : Writes text seen (p.push kind position) :=
  { writes with
    words := List.forall_mem_cons.mpr ⟨Token.written_of_none noWord, writes.words⟩ }

theorem Writes.inMode (writes : Writes text seen p) (mode : Mode) :
    Writes text seen { p with mode := mode } :=
  { writes with }

theorem Writes.word (writes : Writes text seen p) {c : Char} {rest : List Char}
    (here : p.rest = c :: rest) (starts : Lexeme.isWordStart c = true) :
    ∃ seen, Writes text seen (p.word (c :: rest)) := by
  have split : p.rest = (Lexeme.word (c :: rest)).1 ++ (Lexeme.word (c :: rest)).2 := by
    rw [here, Lexeme.word_append]
  have skipped := writes.skip split
  refine ⟨_, skipped.whole, skipped.position, List.forall_mem_cons.mpr ⟨?_, writes.words⟩⟩
  intro word is
  rw [TokenKind.word?_ofWord] at is
  cases is
  refine ⟨⟨seen, (Lexeme.word (c :: rest)).2, ?_, writes.position, ?_, ?_⟩, rfl⟩
  · rw [String.toList_ofList, List.append_assoc]
    exact writes.whole.trans (congrArg (seen ++ ·) split)
  · rw [String.toList_ofList]
    exact isWord_takeWhile starts rest
  · exact endsWord_dropWhile (c :: rest)

/-- A step over ordinary text reads a lexeme, and writes down no word or the one that is there. -/
theorem Writes.codeStep (writes : Writes text seen p) {c : Char} {rest : List Char}
    (here : p.rest = c :: rest) (step : p.codeStep c rest = .ok next) :
    ∃ seen, Writes text seen next := by
  obtain noWord | ⟨starts, rfl⟩ := word_of_codeStep step
  · have words : ∀ t ∈ next.tokens, t.Written text := by
      intro t member
      obtain earlier | wordless := noWord t member
      · exact writes.words t earlier
      · exact Token.written_of_none wordless
    have spec := codeStep_spec p c rest
    rw [step, ← here] at spec
    cases spec with
    | trivia _ split => exact ⟨_, writes.skip split⟩
    | token _ split _ =>
        have skipped := writes.skip split
        exact ⟨_, skipped.whole, skipped.position, words⟩
    | template split =>
        have split : p.rest = [Lexeme.backtick] ++ _ := split
        exact ⟨_, (writes.skip split).inMode _⟩
  · exact writes.word here starts

theorem Writes.closeTemplate (writes : Writes text seen p) {textStart : Position}
    {body after : List Char} {piece : String} (split : p.templateText = (body, piece, after)) :
    ∃ seen, Writes text seen (p.closeTemplate textStart body piece after) := by
  have whole : p.rest = (body ++ after.take 1) ++ after.drop 1 := by
    rw [templateText_split split, List.append_assoc, List.take_append_drop]
  exact ⟨_, ((writes.skip whole).push rfl textStart).inMode .code⟩

theorem Writes.openInterpolation (writes : Writes text seen p) {inner after : List Char}
    (opens : p.Interpolates opened inner after) : ∃ seen, Writes text seen opened := by
  obtain ⟨⟨textStart, body, piece, more, -, split, rfl⟩, -⟩ := opens
  have skipped := writes.skip (templateText_split split)
  have marked : ∀ p' : Pass, Writes text (seen ++ body) p' → p'.rest = '$' :: '\x7b' :: more →
      ∃ seen, Writes text seen (p'.take .interpolationStart ['$', '\x7b'] more) := by
    intro p' writes' rest
    have rest : p'.rest = ['$', '\x7b'] ++ more := rest
    exact ⟨_, (writes'.skip rest).push rfl _⟩
  unfold Pass.openInterpolation
  dsimp only
  split
  · exact marked _ skipped rfl
  · exact marked _ (skipped.push rfl textStart) rfl

/-- What stands behind the text of an interpolation does not go on with a word. -/
theorem Interpolates.endsWord {inner after : List Char} (opens : p.Interpolates opened inner after) :
    EndsWord after := by
  obtain ⟨inner', after', same, -, -, closed⟩ := Lexeme.interpolation_split 0 [] opened.rest
  rw [opens.inside, Prod.mk.injEq] at same
  obtain ⟨-, rfl⟩ := same
  intro c first
  obtain rfl | ⟨-, more, rfl⟩ := closed
  · cases first
  · cases first
    decide

theorem Writes.closeInterpolation (writes : Writes text seen opened) {inner after : List Char}
    {tokens : List Token} (split : opened.rest = inner ++ after)
    (words : ∀ t ∈ tokens, t.Written text) :
    ∃ seen, Writes text seen (opened.closeInterpolation inner tokens after) := by
  have spliced : Writes text (seen ++ inner)
      { opened.skip inner after with tokens := tokens ++ opened.tokens } :=
    { writes.skip split with words := List.forall_mem_append.mpr ⟨words, writes.words⟩ }
  have rest : after = after.take 1 ++ after.drop 1 := (List.take_append_drop 1 after).symm
  exact ⟨_, ((spliced.skip rest).push rfl _).inMode _⟩

/-- However a pass got to the end of its text, the words among its tokens are written there. -/
theorem Ends.writes {o : Except LexError Pass} (ends : Ends p o) (ok : o = .ok done) :
    ∀ {text seen}, Writes text seen p → ∃ seen, Writes text seen done := by
  induction ends generalizing done with
  | finished mode spent =>
      intro text seen writes
      cases ok
      exact ⟨seen, writes⟩
  | refused => cases ok
  | code mode here step later ih =>
      intro text seen writes
      obtain ⟨seen', writes'⟩ := writes.codeStep here step
      exact ih ok writes'
  | close mode split plain later ih =>
      intro text seen writes
      obtain ⟨seen', writes'⟩ := writes.closeTemplate split
      exact ih ok writes'
  | blank opens written later ih =>
      intro text seen writes
      obtain ⟨seen', inside⟩ := writes.openInterpolation opens
      obtain ⟨_, writes'⟩ := inside.closeInterpolation opens.split.1 (List.forall_mem_nil _)
      exact ih ok writes'
  | @nested p opened nested inner after o opens written inside later ihInside ih =>
      intro text seen writes
      obtain ⟨seen', writing⟩ := writes.openInterpolation opens
      obtain ⟨_, alone⟩ := ihInside rfl (.start inner)
      have words : ∀ t ∈ nested.tokens.map (·.shift opened.position), t.Written text := by
        rw [List.forall_mem_map]
        intro t member
        rw [writing.whole, opens.split.1, writing.position, ← List.append_assoc]
        exact (alone.words t member).shift opens.endsWord
      obtain ⟨_, writes'⟩ := writing.closeInterpolation opens.split.1 words
      exact ih ok writes'
  | nestedRefused => cases ok

end Lexer.Pass

open Lexer.Pass in
/-- Every word among the tokens of a source is written in the source where the token stands. -/
theorem tokens_written {source : String} {tokens : List Token}
    (read : tokenize source = .ok tokens) : ∀ t ∈ tokens, t.Written source.toList := by
  obtain ⟨o, ends, same⟩ := tokenize_ends source
  rw [same] at read
  cases o with
  | error e => cases read
  | ok done =>
      cases read
      obtain ⟨_, writes⟩ := ends.writes rfl (.start source.toList)
      intro t member
      obtain rfl | member := List.mem_cons.mp (List.mem_reverse.mp member)
      · exact Token.written_of_none rfl
      · exact writes.words t member

end MinangScript
