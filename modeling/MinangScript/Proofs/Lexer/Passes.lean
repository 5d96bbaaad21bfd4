import MinangScript.Proofs.Lexer.Lexemes
import MinangScript.Token.Lexer

/-! # What a pass does

`CodeStep` says what a step over ordinary text can do: pass over trivia, take a token whose lexeme
is there, enter a template literal, or refuse the text where it stands. `Ends` says how a pass ends,
with the passes for the interpolations on its way; it knows no bound on the number of steps, and
`run_ends` shows that the bound of `Lexer.run` is none. So whatever is to be shown of tokens is an
induction on `Ends`, with one case for each kind of step.
-/

namespace MinangScript

/-- The lexeme `lexeme` is a way to write a token of this kind. The tokens of template literals and
    the end of the text have no lexemes of their own. -/
def TokenKind.SpelledBy : TokenKind → List Char → Prop
  | newline, lexeme => lexeme = ['\n']
  | number value, lexeme =>
    (∃ first others, lexeme = first :: others ∧ first.isDigit = true ∧
      value = Lexer.Pass.decimalValue lexeme) ∨
    (∃ mark base digits, lexeme = '0' :: mark :: digits ∧ Lexer.Pass.base? mark = some base ∧
      digits ≠ [] ∧ value = Lexer.Pass.radixValue base digits)
  | string text, lexeme =>
    ∃ quote body closing, lexeme = quote :: body ++ closing ∧ (quote = '"' ∨ quote = '\'') ∧
      closing <+: [quote] ∧ text = String.ofList (Lexeme.unescape [] body)
  | regex pattern flags, lexeme =>
    ∃ closing, lexeme = '/' :: pattern.toList ++ closing ++ flags.toList ∧ closing <+: ['/']
  | identifier name, lexeme => lexeme = name.toList
  | keyword word, lexeme => lexeme = word.spelling.toList
  | reserved word, lexeme => lexeme = word.spelling.toList
  | symbol s, lexeme => lexeme = s.spelling.toList
  | templateText _, _ => False
  | interpolationStart, _ => False
  | interpolationEnd, _ => False
  | endOfText, _ => False

theorem TokenKind.spelledBy_ofWord (word : List Char) :
    (TokenKind.ofWord (String.ofList word)).SpelledBy word := by
  unfold TokenKind.ofWord
  split
  · rename_i k found
    have same : k.spelling = String.ofList word := by simpa using List.find?_some found
    simp [SpelledBy, same]
  · split
    · rename_i r found
      have same : r.spelling = String.ofList word := by simpa using List.find?_some found
      simp [SpelledBy, same]
    · simp [SpelledBy]

namespace Lexer.Pass

/-- A pass with nothing left to read is over, whatever its fuel. -/
theorem run_finished {p : Pass} {fuel : Nat} {sizes : List Nat} (mode : p.mode = .code)
    (spent : p.rest = []) : run fuel sizes p = ⟨.ok p, sizes⟩ := by
  cases fuel <;> simp [run, mode, spent]

/-! ## Steps over ordinary text -/

/-- What a step makes of the text in front of a pass. -/
inductive CodeStep (p : Pass) (text : List Char) : Except LexError Pass → Prop where
  | trivia {lexeme after : List Char} (nonempty : lexeme ≠ []) (split : text = lexeme ++ after) :
      CodeStep p text (.ok (p.skip lexeme after))
  | token {kind : TokenKind} {lexeme after : List Char} (nonempty : lexeme ≠ [])
      (split : text = lexeme ++ after) (spelled : kind.SpelledBy lexeme) :
      CodeStep p text (.ok (p.take kind lexeme after))
  | template {after : List Char} (split : text = Lexeme.backtick :: after) :
      CodeStep p text (.ok { p.skip [Lexeme.backtick] after with mode := .template p.position })
  | unknown {c : Char} {after : List Char} (split : text = c :: after) :
      CodeStep p text (.error (.unexpectedCharacter c p.position))
  | malformed {number : String} {after : List Char} (nonempty : number.toList ≠ [])
      (split : text = number.toList ++ after) :
      CodeStep p text (.error (.malformedNumber number p.position))

theorem codeStep_string (p : Pass) {quote : Char} (quoted : quote = '"' ∨ quote = '\'')
    (rest : List Char) : CodeStep p (quote :: rest) (.ok (p.string quote rest)) := by
  unfold Pass.string
  have split := Lexeme.escapedUntil_append (Lexeme.startsWith quote) [] rest
  have stops := Lexeme.escapedUntil_stops (Lexeme.startsWith quote) [] rest
  generalize Lexeme.escapedUntil (Lexeme.startsWith quote) [] rest = parts at split stops
  obtain ⟨body, after⟩ := parts
  obtain rfl : body ++ after = rest := split
  cases after with
  | nil => exact .token (by simp) (by simp) ⟨quote, body, [], rfl, quoted, by simp, rfl⟩
  | cons c after =>
      obtain rfl : c = quote := by simpa [Lexeme.startsWith] using stops
      exact .token (by simp) (by simp) ⟨c, body, [c], rfl, quoted, by simp, rfl⟩

theorem codeStep_regex (p : Pass) (rest : List Char) :
    CodeStep p ('/' :: rest) (.ok (p.regex rest)) := by
  unfold Pass.regex
  have split := Lexeme.escapedUntil_append (Lexeme.startsWith '/') [] rest
  have stops := Lexeme.escapedUntil_stops (Lexeme.startsWith '/') [] rest
  generalize Lexeme.escapedUntil (Lexeme.startsWith '/') [] rest = parts at split stops
  obtain ⟨body, after⟩ := parts
  obtain rfl : body ++ after = rest := split
  cases after with
  | nil => exact .token (by simp) (by simp) ⟨[], by simp, by simp⟩
  | cons c after =>
      obtain rfl : c = '/' := by simpa [Lexeme.startsWith] using stops
      refine .token (by simp) ?_ ⟨['/'], by simp, by simp⟩
      simp

theorem codeStep_radix (p : Pass) {mark : Char} {base : Nat} (marked : base? mark = some base)
    (rest : List Char) : CodeStep p ('0' :: mark :: rest) (p.radix base '0' mark rest) := by
  unfold radix
  have split := Lexeme.digitsIn_append base rest
  generalize Lexeme.digitsIn base rest = parts at split
  obtain ⟨digits, after⟩ := parts
  obtain rfl : digits ++ after = rest := split
  simp only [List.isEmpty_iff]
  split
  · have split : '0' :: mark :: (digits ++ after) =
        (String.ofList ['0', mark]).toList ++ (digits ++ after) := by simp
    exact .malformed (by simp) split
  · rename_i nonempty
    exact .token (by simp) (by simp) (.inr ⟨mark, base, digits, rfl, marked, nonempty, rfl⟩)

theorem codeStep_decimal (p : Pass) {c : Char} (digit : c.isDigit = true) (rest : List Char) :
    CodeStep p (c :: rest) (.ok (p.decimal (c :: rest))) := by
  obtain ⟨others, begins⟩ : ∃ others, (Lexeme.decimal (c :: rest)).1 = c :: others := by
    simp [Lexeme.decimal, digitRun, digit]
  have nonempty : (Lexeme.decimal (c :: rest)).1 ≠ [] := by
    rw [begins]
    exact List.cons_ne_nil c others
  exact .token nonempty (Lexeme.decimal_append (c :: rest)).symm
    (.inl ⟨c, others, begins, digit, rfl⟩)

theorem codeStep_number (p : Pass) {c : Char} (digit : c.isDigit = true) (rest : List Char) :
    CodeStep p (c :: rest) (p.number c rest) := by
  unfold number
  split
  · split
    · rename_i mark digits _ base marked
      obtain ⟨rfl, marked⟩ : c = '0' ∧ base? mark = some base := by simpa using marked
      exact codeStep_radix p marked digits
    · exact codeStep_decimal p digit _
  · exact codeStep_decimal p digit _

theorem codeStep_word (p : Pass) {c : Char} (starts : Lexeme.isWordStart c = true)
    (rest : List Char) : CodeStep p (c :: rest) (.ok (p.word (c :: rest))) := by
  have nonempty : (Lexeme.word (c :: rest)).1 ≠ [] := by
    simp [Lexeme.word, Lexeme.isWordPart_of_isWordStart starts]
  exact .token nonempty (Lexeme.word_append (c :: rest)).symm (TokenKind.spelledBy_ofWord _)

theorem codeStep_singleOrWord (p : Pass) (c : Char) (rest : List Char) :
    CodeStep p (c :: rest) (p.singleOrWord c rest) := by
  unfold singleOrWord
  split
  · rename_i s single
    exact .token (by simp) rfl (Symbol.spelling_of_single? single).symm
  · split
    · rename_i starts
      exact codeStep_word p starts rest
    · exact .unknown rfl

theorem codeStep_symbolOrWord (p : Pass) (c : Char) (rest : List Char) :
    CodeStep p (c :: rest) (p.symbolOrWord c rest) := by
  have regexOrWord : CodeStep p (c :: rest)
      (if c = '/' ∧ p.regexAllowed then .ok (p.regex rest) else p.singleOrWord c rest) := by
    split
    · rename_i slash
      rw [slash.1]
      exact codeStep_regex p rest
    · exact codeStep_singleOrWord p c rest
  unfold symbolOrWord
  split
  · split
    · rename_i s pair
      exact .token (by simp) rfl (Symbol.spelling_of_pair? pair).symm
    · exact regexOrWord
  · exact regexOrWord

/-- Every step over ordinary text is one of the five. -/
theorem codeStep_spec (p : Pass) (c : Char) (rest : List Char) :
    CodeStep p (c :: rest) (p.codeStep c rest) := by
  unfold codeStep
  split
  · exact .trivia (by simp) rfl
  split
  · rename_i newline
    exact .token (by simp) rfl (by rw [newline]; rfl)
  split
  · rename_i quoted
    exact codeStep_string p quoted rest
  split
  · rename_i opens
    subst opens
    exact .template rfl
  split
  · rename_i digit
    exact codeStep_number p digit rest
  split
  · exact .trivia (by simp) (Lexeme.lineComment_append _).symm
  · rename_i others _ _ _ _ _
    obtain ⟨body, after, same, rfl⟩ := Lexeme.blockComment_split ['*', '/'] others
    rw [same]
    exact .trivia (by simp) (by simp)
  · exact codeStep_symbolOrWord p c rest

/-! ## Whole passes -/

/-- In the template literal that `p` reads, the text up to an interpolation is followed by its
    opening marker, which `opened` has passed, by the text `inner` of the interpolation, and by
    `after`. -/
structure Interpolates (p opened : Pass) (inner after : List Char) : Prop where
  opens : ∃ textStart body text more, p.mode = .template textStart ∧
    p.templateText = (body, text, '$' :: '\x7b' :: more) ∧
    opened = p.openInterpolation textStart body text ('$' :: '\x7b' :: more)
  inside : Lexeme.interpolation 0 [] opened.rest = (inner, after)

/-- How a pass ends: having read all its text, or refusing it. -/
inductive Ends : Pass → Except LexError Pass → Prop where
  | finished {p : Pass} (mode : p.mode = .code) (spent : p.rest = []) : Ends p (.ok p)
  | refused {p : Pass} {c : Char} {rest : List Char} {e : LexError} (mode : p.mode = .code)
      (text : p.rest = c :: rest) (step : p.codeStep c rest = .error e) : Ends p (.error e)
  | code {p next : Pass} {c : Char} {rest : List Char} {o : Except LexError Pass}
      (mode : p.mode = .code) (text : p.rest = c :: rest) (step : p.codeStep c rest = .ok next)
      (later : Ends next o) : Ends p o
  | close {p : Pass} {textStart : Position} {body after : List Char} {text : String}
      {o : Except LexError Pass} (mode : p.mode = .template textStart)
      (split : p.templateText = (body, text, after))
      (plain : ∀ more, after ≠ '$' :: '\x7b' :: more)
      (later : Ends (p.closeTemplate textStart body text after) o) : Ends p o
  | blank {p opened : Pass} {inner after : List Char} {o : Except LexError Pass}
      (opens : p.Interpolates opened inner after) (blank : inner.all isBlank = true)
      (later : Ends (opened.closeInterpolation inner [] after) o) : Ends p o
  | nested {p opened done : Pass} {inner after : List Char} {o : Except LexError Pass}
      (opens : p.Interpolates opened inner after) (written : inner.all isBlank = false)
      (inside : Ends (start inner .start) (.ok done))
      (later : Ends (opened.closeInterpolation inner
        (done.tokens.map (·.shift opened.position)) after) o) : Ends p o
  | nestedRefused {p opened : Pass} {inner after : List Char} {e : LexError}
      (opens : p.Interpolates opened inner after) (written : inner.all isBlank = false)
      (inside : Ends (start inner .start) (.error e)) : Ends p (.error (e.shift opened.position))

theorem templateText_split {p : Pass} {body after : List Char} {text : String}
    (split : p.templateText = (body, text, after)) : p.rest = body ++ after := by
  have whole := Lexeme.escapedUntil_append Lexeme.endsTemplateText [] p.rest
  simp only [templateText, Prod.mk.injEq] at split
  rw [split.1, split.2.2] at whole
  exact whole.symm

theorem openInterpolation_rest (p : Pass) (textStart : Position) (body : List Char) (text : String)
    (more : List Char) :
    (p.openInterpolation textStart body text ('$' :: '\x7b' :: more)).rest = more := rfl

theorem Interpolates.split {p opened : Pass} {inner after : List Char}
    (opens : p.Interpolates opened inner after) :
    opened.rest = inner ++ after ∧ ∃ body, p.rest = body ++ '$' :: '\x7b' :: opened.rest := by
  obtain ⟨⟨textStart, body, text, more, -, split, rfl⟩, inside⟩ := opens
  obtain ⟨inner', after', same, whole, -⟩ := Lexeme.interpolation_split 0 [] more
  rw [openInterpolation_rest, same, Prod.mk.injEq] at inside
  obtain ⟨rfl, rfl⟩ := inside
  exact ⟨whole, body, templateText_split split⟩

theorem CodeStep.shorter {p next : Pass} {text : List Char}
    (step : CodeStep p text (.ok next)) : next.rest.length < text.length := by
  cases step with
  | trivia nonempty split | token nonempty split _ =>
      have positive := List.length_pos_iff.mpr nonempty
      simp only [split, List.length_append, skip, take, push]
      omega
  | template split => simp [split, skip]

variable {p next opened done : Pass} {fuel : Nat} {sizes : List Nat}

theorem run_refused {c : Char} {rest : List Char} {e : LexError} (mode : p.mode = .code)
    (text : p.rest = c :: rest) (step : p.codeStep c rest = .error e) :
    run (fuel + 1) sizes p = ⟨.error e, sizes⟩ := by
  simp [run, mode, text, step]

theorem run_code {c : Char} {rest : List Char} (mode : p.mode = .code)
    (text : p.rest = c :: rest) (step : p.codeStep c rest = .ok next) :
    run (fuel + 1) sizes p = run fuel sizes next := by
  simp [run, mode, text, step]

theorem run_close {textStart : Position} {body after : List Char} {text : String}
    (mode : p.mode = .template textStart) (split : p.templateText = (body, text, after))
    (plain : ∀ more, after ≠ '$' :: '\x7b' :: more) :
    run (fuel + 1) sizes p = run fuel sizes (p.closeTemplate textStart body text after) := by
  simp only [run, mode, split]

theorem Interpolates.run_blank {inner after : List Char} (opens : p.Interpolates opened inner after)
    (blank : inner.all isBlank = true) :
    run (fuel + 1) sizes p = run fuel sizes (opened.closeInterpolation inner [] after) := by
  obtain ⟨⟨textStart, body, text, more, mode, split, rfl⟩, inside⟩ := opens
  simp only [run, mode, split, inside, blank, if_true]

theorem Interpolates.run_nested {inner after : List Char} {sizes' : List Nat}
    (opens : p.Interpolates opened inner after) (written : inner.all isBlank = false)
    (nested : run fuel sizes (start inner .start) = ⟨.ok done, sizes'⟩) :
    run (fuel + 1) sizes p = run fuel ((done.tokens.length + 1) :: sizes')
      (opened.closeInterpolation inner (done.tokens.map (·.shift opened.position)) after) := by
  obtain ⟨⟨textStart, body, text, more, mode, split, rfl⟩, inside⟩ := opens
  simp only [run, mode, split, inside, written, nested, Bool.false_eq_true, if_false,
    List.length_map]

theorem Interpolates.run_nestedRefused {inner after : List Char} {sizes' : List Nat} {e : LexError}
    (opens : p.Interpolates opened inner after) (written : inner.all isBlank = false)
    (nested : run fuel sizes (start inner .start) = ⟨.error e, sizes'⟩) :
    run (fuel + 1) sizes p = ⟨.error (e.shift opened.position), sizes'⟩ := by
  obtain ⟨⟨textStart, body, text, more, mode, split, rfl⟩, inside⟩ := opens
  simp only [run, mode, split, inside, written, nested, Bool.false_eq_true, if_false]

/-- There is fuel for every character that is left, and one more, or nothing is left to do. -/
def Fueled (fuel : Nat) (p : Pass) : Prop :=
  p.rest.length < fuel ∨ (p.mode = .code ∧ p.rest = [])

theorem Interpolates.fueled_nested {inner after : List Char}
    (opens : p.Interpolates opened inner after) (fueled : p.rest.length < fuel + 1) :
    Fueled fuel (start inner .start) := by
  obtain ⟨inside, _, whole⟩ := opens.split
  have lengths := congrArg List.length whole
  simp only [inside, List.length_append, List.length_cons] at lengths
  refine .inl (?_ : inner.length < fuel)
  omega

theorem Interpolates.fueled_later {inner after : List Char}
    (opens : p.Interpolates opened inner after) (fueled : p.rest.length < fuel + 1)
    (tokens : List Token) : Fueled fuel (opened.closeInterpolation inner tokens after) := by
  obtain ⟨inside, _, whole⟩ := opens.split
  have lengths := congrArg List.length whole
  simp only [inside, List.length_append, List.length_cons] at lengths
  refine .inl (?_ : (after.drop 1).length < fuel)
  rw [List.length_drop]
  omega

theorem fueled_closeTemplate {textStart : Position} {body after : List Char} {text : String}
    (split : p.templateText = (body, text, after)) (fueled : p.rest.length < fuel + 1) :
    Fueled fuel (p.closeTemplate textStart body text after) := by
  have whole := congrArg List.length (templateText_split split)
  cases after with
  | nil => exact .inr ⟨rfl, rfl⟩
  | cons c after =>
      simp only [List.length_append, List.length_cons] at whole
      refine .inl (?_ : after.length < fuel)
      omega

/-- A pass with enough fuel is not stopped by the fuel. -/
theorem run_ends (sizes : List Nat) (fueled : Fueled fuel p) :
    Ends p (run fuel sizes p).outcome := by
  induction fuel generalizing p sizes with
  | zero =>
      obtain below | ⟨mode, spent⟩ := fueled
      · exact absurd below (Nat.not_lt_zero _)
      · exact .finished mode spent
  | succ fuel ih =>
      cases mode : p.mode with
      | code =>
          cases text : p.rest with
          | nil =>
              rw [run_finished mode text]
              exact .finished mode text
          | cons c rest =>
              have spec := codeStep_spec p c rest
              cases step : p.codeStep c rest with
              | error e =>
                  rw [run_refused mode text step]
                  exact .refused mode text step
              | ok next =>
                  rw [step] at spec
                  have shorter := spec.shorter
                  simp only [Fueled, mode, text, reduceCtorEq, and_false, or_false] at fueled
                  rw [run_code mode text step]
                  exact .code mode text step (ih sizes (.inl (by omega)))
      | template textStart =>
          have enough : p.rest.length < fuel + 1 := by
            simpa only [Fueled, mode, reduceCtorEq, false_and, or_false] using fueled
          obtain ⟨⟨body, text, after⟩, split⟩ : ∃ parts, p.templateText = parts := ⟨_, rfl⟩
          by_cases opening : ∃ more, after = '$' :: '\x7b' :: more
          · obtain ⟨more, rfl⟩ := opening
            obtain ⟨⟨inner, after⟩, inside⟩ : ∃ parts, Lexeme.interpolation 0 [] more = parts :=
              ⟨_, rfl⟩
            have opens : p.Interpolates _ inner after :=
              ⟨⟨textStart, body, text, more, mode, split, rfl⟩, inside⟩
            cases written : inner.all isBlank with
            | true =>
                rw [opens.run_blank written]
                exact .blank opens written (ih sizes (opens.fueled_later enough []))
            | false =>
                have nested := ih sizes (opens.fueled_nested enough)
                cases ran : run fuel sizes (start inner .start) with
                | mk outcome sizes' =>
                rw [ran] at nested
                cases outcome with
                | error e =>
                    rw [opens.run_nestedRefused written ran]
                    exact .nestedRefused opens written nested
                | ok done =>
                    rw [opens.run_nested written ran]
                    exact .nested opens written nested (ih _ (opens.fueled_later enough _))
          · have plain : ∀ more, after ≠ '$' :: '\x7b' :: more := fun more is => opening ⟨more, is⟩
            rw [run_close mode split plain]
            exact .close mode split plain (ih sizes (fueled_closeTemplate split enough))

/-- Reading a source text is one pass from its start, and the end of the text behind it. -/
theorem tokenize_ends (source : String) :
    ∃ o, Ends (start source.toList .start) o ∧
      tokenize source = o.map fun done => (done.push .endOfText done.position).tokens.reverse := by
  have fueled : Fueled (source.toList.length + 2) (start source.toList .start) :=
    .inl (Nat.lt_add_of_pos_right (by decide))
  refine ⟨_, run_ends [] fueled, ?_⟩
  simp only [tokenize, lex]
  generalize run _ [] (start source.toList .start) = result
  obtain ⟨outcome, sizes⟩ := result
  cases outcome <;> rfl

end Lexer.Pass

end MinangScript
