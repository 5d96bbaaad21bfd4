import Mathlib
import MinangScript.JavaScript.Emit
import MinangScript.Proofs.Lexer.Grammar
import MinangScript.Proofs.Lexer.MainLoop
import MinangScript.Proofs.Lexer.Templates

/-! # Regexes that the end of a text cuts off

The JavaScript of a regex is read as the same regex again, unless its text has nothing that could stand
between two slashes: no character at all, or a backslash that takes the closing slash with it. No regex
that a slash closes is like that. The end of the source, or of an interpolation, can leave one behind.
-/

namespace MinangScript

/-! ## Patterns -/

/-- Whether a backslash is left without a character behind it, if every backslash goes with the character
    behind it. -/
def dangles : List Char → Bool
  | ['\\'] => true
  | '\\' :: _ :: rest => dangles rest
  | _ :: rest => dangles rest
  | [] => false

/-- A pattern that is not all of what stands between two slashes. -/
def IsCutOff (pattern : String) : Prop :=
  pattern = "" ∨ dangles pattern.toList = true

theorem dangles_cons {c : Char} (other : c ≠ '\\') (rest : List Char) :
    dangles (c :: rest) = dangles rest := by
  rw [dangles.eq_3] <;> simp [other]

/-- Up to the mark that closes a literal no backslash is left over. -/
theorem Encodes.dangles_append {mark : Char} {body text : List Char} (encodes : Encodes mark body text)
    (tail : List Char) : dangles (body ++ tail) = dangles tail := by
  induction encodes with
  | nil => rfl
  | plain _ backslash _ ih => rw [List.cons_append, dangles_cons backslash, ih]
  | escaped _ ih => exact ih

theorem Encodes.append {mark : Char} {first second text text' : List Char}
    (encodes : Encodes mark first text) (later : Encodes mark second text') :
    Encodes mark (first ++ second) (text ++ text') := by
  induction encodes with
  | nil => exact later
  | plain differs backslash _ ih => exact .plain differs backslash ih
  | escaped _ ih => exact .escaped ih

/-- A pattern and flags that the lexer makes a regex of. -/
structure IsRegex (pattern flags : List Char) : Prop where
  noComment : OpensNoComment pattern
  noPair : BeginsNoPair '/' pattern
  encoded : ∃ body text tail, pattern = body ++ tail ∧ Encodes '/' body text ∧ IsLoose tail
  allFlags : ∀ c ∈ flags, Lexeme.isFlag c = true
  unflagged : IsCutOff (String.ofList pattern) → flags = []

/-- A regex is closed by a slash, or by the end of the text. -/
theorem isRegex_of_denotes {regexAllowed : Bool} {pattern flags : String} {lexeme after : List Char}
    (denotes : Denotes regexAllowed (.regex pattern flags) lexeme after) :
    IsRegex pattern.toList flags.toList ∧ (IsCutOff pattern → after = []) := by
  generalize is : TokenKind.regex pattern flags = kind at denotes
  cases denotes with
  | @regex body text flags after allowed nonempty noComment noPair encodes inside ends =>
      cases is
      have closed : ¬IsCutOff (String.ofList body) := by
        have even := encodes.dangles_append []
        rw [List.append_nil] at even
        simp [IsCutOff, nonempty, even, dangles]
      rw [String.toList_ofList, String.toList_ofList]
      exact ⟨⟨noComment, noPair, ⟨body, text, [], (List.append_nil _).symm, encodes, .inl rfl⟩,
        inside, (absurd · closed)⟩, (absurd · closed)⟩
  | @openRegex body text tail allowed noComment noPair encodes loose =>
      cases is
      rw [String.toList_ofList]
      exact ⟨⟨noComment, noPair, ⟨body, text, tail, rfl, encodes, loose⟩, by simp, fun _ => rfl⟩,
        fun _ => rfl⟩
  | @word lexeme =>
      have alone := congrArg TokenKind.word? is
      rw [TokenKind.word?_ofWord] at alone
      cases alone
  | _ => cases is

/-! ## Regexes among the tokens of a source -/

namespace TokenKind

/-- A regex whose pattern is cut off. -/
def CutsOff (kind : TokenKind) : Prop :=
  ∃ pattern flags, kind = regex pattern flags ∧ IsCutOff pattern

/-- Tokens of these kinds stand where a text ends: that of the source, or that of an interpolation. -/
def EndsText (kind : TokenKind) : Prop :=
  kind = interpolationEnd ∨ kind = endOfText

theorem not_cutsOff {kind : TokenKind} (other : ∀ pattern flags, kind ≠ regex pattern flags) :
    ¬kind.CutsOff := by
  rintro ⟨pattern, flags, is, -⟩
  exact other pattern flags is

end TokenKind

/-- In kinds of tokens, the latest first, a regex that is cut off is always the last of its text. -/
abbrev CutOffAtEnds (kinds : List TokenKind) : Prop :=
  kinds.IsChain fun next kind => kind.CutsOff → next.EndsText

/-- Any token may follow one that is no cut off regex. -/
theorem CutOffAtEnds.cons {kinds : List TokenKind} (cutOff : CutOffAtEnds kinds)
    (whole : ∀ kind ∈ kinds.head?, ¬kind.CutsOff) (next : TokenKind) : CutOffAtEnds (next :: kinds) :=
  List.isChain_cons.mpr ⟨fun kind last cut => absurd cut (whole kind last), cutOff⟩

namespace Lexer.Pass

variable {p next opened done : Pass}

/-- The regexes of a pass are such as the lexer makes, and those that are cut off stand at ends. -/
structure ReadsRegexes (p : Pass) : Prop where
  regexes : ∀ pattern flags, .regex pattern flags ∈ p.kindsSoFar → IsRegex pattern.toList flags.toList
  cutOff : CutOffAtEnds p.kindsSoFar
  last : ∀ kind ∈ p.kindsSoFar.head?, kind.CutsOff → p.mode = .code ∧ p.rest = []

namespace ReadsRegexes

theorem start (text : List Char) : ReadsRegexes (start text .start) :=
  ⟨by simp [kindsSoFar, Pass.start], .nil, by simp [kindsSoFar, Pass.start]⟩

/-- Behind a regex that is cut off a pass has nothing left to read. -/
theorem goesOn (reads : p.ReadsRegexes) (busy : p.mode = .code → p.rest ≠ []) :
    ∀ kind ∈ p.kindsSoFar.head?, ¬kind.CutsOff := by
  intro kind last cut
  obtain ⟨mode, spent⟩ := reads.last kind last cut
  exact busy mode spent

theorem codeStep (reads : p.ReadsRegexes) {c : Char} {rest : List Char} (mode : p.mode = .code)
    (text : p.rest = c :: rest) (step : p.codeStep c rest = .ok next) : next.ReadsRegexes := by
  have whole := reads.goesOn (by simp [text])
  have scans := scans_codeStep p c rest
  rw [step] at scans
  generalize c :: rest = text at scans
  cases scans with
  | trivia | template =>
      exact ⟨reads.regexes, reads.cutOff, fun kind last cut => absurd cut (whole kind last)⟩
  | @token kind lexeme after denotes =>
      -- The token before is no cut off regex, because there was a character left to read.
      refine ⟨fun pattern flags member => ?_, ?_, ?_⟩
      · obtain rfl | earlier := List.mem_cons.mp member
        · exact (isRegex_of_denotes denotes).1
        · exact reads.regexes pattern flags earlier
      · exact reads.cutOff.cons whole kind
      · rintro _ ⟨⟩ ⟨pattern, flags, rfl, cut⟩
        exact ⟨mode, (isRegex_of_denotes denotes).2 cut⟩

theorem closeTemplate (reads : p.ReadsRegexes) (textStart : Position) (body : List Char) (text : String)
    (after : List Char) (inside : p.mode ≠ .code) :
    (p.closeTemplate textStart body text after).ReadsRegexes := by
  have whole := reads.goesOn (absurd · inside)
  refine ⟨fun pattern flags member => ?_, ?_, ?_⟩
  · obtain ⟨⟨⟩⟩ | earlier := List.mem_cons.mp member
    exact reads.regexes pattern flags earlier
  · exact reads.cutOff.cons whole _
  · rintro _ ⟨⟩ cut
    exact absurd cut (TokenKind.not_cutsOff nofun)

theorem interpolation (reads : p.ReadsRegexes) {inner after : List Char}
    (opens : p.Interpolates opened inner after) {tokens : List Token}
    (regexes : ∀ pattern flags, .regex pattern flags ∈ tokens.map Token.kind →
      IsRegex pattern.toList flags.toList)
    (cutOff : CutOffAtEnds (tokens.map Token.kind)) :
    (opened.closeInterpolation inner tokens after).ReadsRegexes := by
  have whole := reads.goesOn (absurd · opens.mode_ne)
  obtain ⟨⟨textStart, body, text, more, -, -, rfl⟩, -⟩ := opens
  have before : CutOffAtEnds
      (p.openInterpolation textStart body text ('$' :: '\x7b' :: more)).kindsSoFar := by
    rw [openInterpolation_kinds]
    split
    · exact reads.cutOff.cons whole _
    · refine (reads.cutOff.cons whole _).cons ?_ _
      rintro _ ⟨⟩
      exact TokenKind.not_cutsOff nofun
  refine ⟨fun pattern flags member => ?_, ?_, ?_⟩
  · rw [closeInterpolation_kinds, openInterpolation_kinds] at member
    have member :
        .regex pattern flags ∈ tokens.map Token.kind ∨ .regex pattern flags ∈ p.kindsSoFar := by
      split at member <;> simpa using member
    exact member.elim (regexes pattern flags) (reads.regexes pattern flags)
  · rw [closeInterpolation_kinds]
    refine List.isChain_cons.mpr ⟨fun _ _ _ => .inl rfl, List.isChain_append.mpr ⟨cutOff, before, ?_⟩⟩
    rintro _ - kind first cut
    rw [openInterpolation_kinds] at first
    cases first
    exact absurd cut (TokenKind.not_cutsOff nofun)
  · rw [closeInterpolation_kinds]
    rintro _ ⟨⟩ cut
    exact absurd cut (TokenKind.not_cutsOff nofun)

end ReadsRegexes

theorem Ends.readsRegexes {o : Except LexError Pass} (ends : Ends p o) (ok : o = .ok done)
    (reads : p.ReadsRegexes) : done.ReadsRegexes := by
  induction ends generalizing done with
  | finished =>
      cases ok
      exact reads
  | code mode text step _ ih => exact ih ok (reads.codeStep mode text step)
  | close mode _ _ _ ih => exact ih ok (reads.closeTemplate _ _ _ _ (by simp [mode]))
  | blank opens _ _ ih => exact ih ok (reads.interpolation opens (by simp) .nil)
  | nested opens _ _ _ ihInside ih =>
      have inside := ihInside rfl (.start _)
      refine ih ok (reads.interpolation opens ?_ ?_)
      · rw [map_kind_shift]
        exact inside.regexes
      · rw [map_kind_shift]
        exact inside.cutOff
  | refused | nestedRefused => cases ok

end Lexer.Pass

/-- The regexes among the tokens of a source are such as the lexer makes. Behind one that is cut off the
    source ends, or the interpolation in which it is. -/
theorem regex_of_tokenize {source : String} {tokens : List Token} (accepted : tokenize source = .ok tokens)
    {before after : List TokenKind} {pattern flags : String}
    (is : tokens.map Token.kind = before ++ .regex pattern flags :: after) :
    IsRegex pattern.toList flags.toList ∧
      (IsCutOff pattern → ∃ next ∈ after.head?, next.EndsText) := by
  obtain ⟨o, ends, same⟩ := Lexer.Pass.tokenize_ends source
  cases o with
  | error e => cases same.symm.trans accepted
  | ok done =>
      have reads := ends.readsRegexes rfl (.start _)
      obtain rfl := Except.ok.inj (same.symm.trans accepted)
      have latest :
          .endOfText :: done.kindsSoFar = after.reverse ++ .regex pattern flags :: before.reverse := by
        have reversed := congrArg List.reverse is
        simpa [Lexer.Pass.push, Lexer.Pass.kindsSoFar] using reversed
      have cutOff : CutOffAtEnds (.endOfText :: done.kindsSoFar) :=
        List.isChain_cons.mpr ⟨fun _ _ _ => .inr rfl, reads.cutOff⟩
      have member : .regex pattern flags ∈ TokenKind.endOfText :: done.kindsSoFar := by simp [latest]
      obtain ⟨⟨⟩⟩ | member := List.mem_cons.mp member
      refine ⟨reads.regexes pattern flags member, fun cut => ?_⟩
      rw [latest] at cutOff
      cases after with
      | nil => cases latest
      | cons next after =>
          refine ⟨next, rfl, ?_⟩
          refine (List.isChain_append.mp cutOff).2.2 next ?_ _ rfl ⟨pattern, flags, rfl, cut⟩
          simp

/-! ## Reading the JavaScript of a regex -/

namespace Lexer.Pass

/-- The pass that has read an assignment sign and a blank in front of the text. -/
def behindAssign (text : List Char) : Pass :=
  ((start ('=' :: ' ' :: text) .start).take (.symbol .assign) ['='] (' ' :: text)).skip [' '] text

/-- A text that is read in one step behind an assignment sign. -/
theorem tokenize_assign {text : String} {next : Pass} (spent : next.rest = [])
    (mode : next.mode = .code) (scans : (behindAssign text.toList).Scans text.toList (.ok next)) :
    tokenize ("= " ++ text) = .ok (next.push .endOfText next.position).tokens.reverse := by
  obtain ⟨c, rest, begins, step⟩ := scans.codeStep
  have whole : ("= " ++ text).toList = '=' :: ' ' :: text.toList := by simp
  refine tokenize_of_ends (o := .ok next) ?_
  rw [whole]
  refine .code rfl rfl (codeStep_eq_single rfl (by simp [Symbol.pair?]) (by simp)) ?_
  refine .code rfl rfl rfl ?_
  exact .code rfl begins step (.finished mode spent)

end Lexer.Pass

/-- A token that is written behind an assignment sign. -/
theorem kinds_of_denotes {text : String} {kind : TokenKind}
    (denotes : Denotes true kind text.toList []) :
    ∃ tokens, tokenize ("= " ++ text) = .ok tokens ∧
      tokens.map Token.kind = [.symbol .assign, kind, .endOfText] := by
  have scans := Lexer.Pass.Scans.token (p := Lexer.Pass.behindAssign text.toList) denotes
  rw [List.append_nil] at scans
  exact ⟨_, Lexer.Pass.tokenize_assign rfl rfl scans, rfl⟩

namespace IsRegex

variable {pattern flags : String} (regex : IsRegex pattern.toList flags.toList)

theorem toList_literal (pattern flags : String) : (JavaScript.literal (.regex pattern flags)).toList =
    '/' :: pattern.toList ++ '/' :: flags.toList := by
  simp [JavaScript.literal]

include regex

/-- A regex that is not cut off is closed by the slash that is written behind it. -/
theorem denotes_of_whole (whole : ¬IsCutOff pattern) :
    Denotes true (.regex pattern flags) (JavaScript.literal (.regex pattern flags)).toList [] := by
  obtain ⟨nonempty, even⟩ := not_or.mp whole
  obtain ⟨body, text, tail, same, encodes, loose⟩ := regex.encoded
  rw [same, encodes.dangles_append] at even
  obtain rfl | rfl := loose
  · rw [List.append_nil] at same
    have denotes : Denotes true _ _ [] := .regex rfl (by simpa using nonempty) regex.noComment
      regex.noPair (same ▸ encodes) regex.allFlags (by simp)
    rwa [String.ofList_toList, String.ofList_toList, ← toList_literal] at denotes
  · exact absurd rfl even

/-- The slash that is written behind a backslash does not close a regex. -/
theorem denotes_of_dangles (dangling : dangles pattern.toList = true) :
    Denotes true (.regex (pattern ++ "/") "") (JavaScript.literal (.regex pattern "")).toList [] := by
  obtain ⟨body, text, tail, same, encodes, loose⟩ := regex.encoded
  have noComment := regex.noComment
  have noPair := regex.noPair
  rw [same] at dangling noComment noPair
  rw [encodes.dangles_append] at dangling
  obtain rfl | rfl := loose
  · cases dangling
  have encodes' : Encodes '/' (body ++ ['\\', '/']) _ := encodes.append (.escaped .nil)
  have head : (body ++ ['\\', '/'] ++ []).head? = (body ++ ['\\']).head? := by
    cases body <;> rfl
  have denotes : Denotes true _ _ [] := .openRegex rfl (by rwa [OpensNoComment, head])
    (by rwa [BeginsNoPair, head]) encodes' (.inl rfl)
  have longer : pattern ++ "/" = String.ofList (body ++ ['\\', '/']) := by
    rw [← String.toList_inj]
    simp [same]
  rw [longer, toList_literal, same]
  simpa using denotes

end IsRegex

/-- Two slashes open a comment. -/
theorem kinds_slash_slash : ∃ tokens, tokenize ("= " ++ JavaScript.literal (.regex "" "")) = .ok tokens ∧
    tokens.map Token.kind = [.symbol .assign, .endOfText] := by
  have comment : IsTrivia ['/', '/'] [] := .line (by simp) (by simp)
  exact ⟨_, Lexer.Pass.tokenize_assign rfl rfl (.trivia comment), rfl⟩

/-- Every regex of an accepted source. Its JavaScript is read as the same regex again if and only if its
    pattern is not cut off. Without a pattern the slashes open a comment, and behind a backslash that is left
    over the closing slash becomes part of the pattern. A cut off regex has no flags, and the text that it is
    in ends behind it. -/
theorem regex_survives_iff {source : String} {tokens : List Token} (accepted : tokenize source = .ok tokens)
    {before after : List TokenKind} {pattern flags : String}
    (is : tokens.map Token.kind = before ++ .regex pattern flags :: after) :
    ∃ again, tokenize ("= " ++ JavaScript.literal (.regex pattern flags)) = .ok again ∧
      (again.map Token.kind = [.symbol .assign, .regex pattern flags, .endOfText] ↔ ¬IsCutOff pattern) ∧
      (pattern = "" → again.map Token.kind = [.symbol .assign, .endOfText]) ∧
      (dangles pattern.toList = true →
        again.map Token.kind = [.symbol .assign, .regex (pattern ++ "/") "", .endOfText]) ∧
      (IsCutOff pattern → flags = "" ∧
        ∃ next ∈ after.head?, next = .interpolationEnd ∨ next = .endOfText) := by
  obtain ⟨regex, ends⟩ := regex_of_tokenize accepted is
  have unflagged : IsCutOff pattern → flags = "" := fun cut => by
    simpa using regex.unflagged (by simpa using cut)
  by_cases cut : IsCutOff pattern
  · obtain rfl := unflagged cut
    obtain rfl | dangling := cut
    · obtain ⟨again, read, kinds⟩ := kinds_slash_slash
      refine ⟨again, read, ?_, fun _ => kinds, nofun, fun cut => ⟨rfl, ends cut⟩⟩
      simp [kinds, IsCutOff]
    · obtain ⟨again, read, kinds⟩ := kinds_of_denotes (regex.denotes_of_dangles dangling)
      refine ⟨again, read, ?_, ?_, fun _ => kinds, fun cut => ⟨rfl, ends cut⟩⟩
      · simp [kinds, IsCutOff, dangling]
      · rintro rfl
        cases dangling
  · obtain ⟨again, read, kinds⟩ := kinds_of_denotes (regex.denotes_of_whole cut)
    exact ⟨again, read, ⟨fun _ => cut, fun _ => kinds⟩, fun empty => absurd (.inl empty) cut,
      fun dangling => absurd (.inr dangling) cut, fun is => absurd is cut⟩

/-- A slash that the pattern escapes, and a flag. -/
theorem regex_survives_iff_escaped_slash :
    ∃ tokens, tokenize "/a\\/b/g" = .ok tokens ∧
      tokens.map Token.kind = [] ++ .regex "a\\/b" "g" :: [.endOfText] ∧ ¬IsCutOff "a\\/b" ∧
      ∃ again, tokenize ("= " ++ JavaScript.literal (.regex "a\\/b" "g")) = .ok again ∧
        again.map Token.kind = [.symbol .assign, .regex "a\\/b" "g", .endOfText] := by
  have accepted : tokenize "/a\\/b/g" =
      .ok [⟨.regex "a\\/b" "g", ⟨1, 1⟩⟩, ⟨.endOfText, ⟨1, 8⟩⟩] := by cbv
  have whole : ¬IsCutOff "a\\/b" := by
    unfold IsCutOff
    decide
  have kinds : [.regex "a\\/b" "g", .endOfText] =
      [] ++ .regex "a\\/b" "g" :: [TokenKind.endOfText] := rfl
  obtain ⟨again, read, survives, -⟩ := regex_survives_iff accepted kinds
  exact ⟨_, accepted, kinds, whole, again, read, survives.mpr whole⟩

/-- A slash at the end of a source is a regex, and its JavaScript is a comment. -/
theorem lone_slash_is_lost :
    ∃ tokens, tokenize "/" = .ok tokens ∧ tokens.map Token.kind = [.regex "" "", .endOfText] ∧
      ∃ again, tokenize ("= " ++ JavaScript.literal (.regex "" "")) = .ok again ∧
        again.map Token.kind ≠ [.symbol .assign, .regex "" "", .endOfText] := by
  refine ⟨_, rfl, rfl, _, rfl, ?_⟩
  intro same
  exact absurd (congrArg List.length same) (by decide)

end MinangScript
