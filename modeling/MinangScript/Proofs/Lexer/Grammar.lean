import MinangScript.Proofs.Lexer.Chunks
import MinangScript.Proofs.Lexer.Words

/-! # The lexical grammar

How each kind of token is written, as rules that know nothing of passes. A rule says what the lexeme is,
what it denotes, and what may not stand right behind it because the lexeme would be longer then. A slash
is the one place where what was read before matters. A step over ordinary text does what one of the rules
says, and whenever a rule applies the step does what it says.
-/

namespace MinangScript

/-! ## Texts between marks -/

/-- The body of a literal and what it reads as. A backslash goes with the character behind it; all other
    characters stand for themselves, and the mark that closes the literal is not among them. -/
inductive Encodes (mark : Char) : List Char → List Char → Prop where
  | nil : Encodes mark [] []
  | plain {c : Char} {body text : List Char} : c ≠ mark → c ≠ '\\' → Encodes mark body text →
      Encodes mark (c :: body) (c :: text)
  | escaped {e : Char} {body text : List Char} : Encodes mark body text →
      Encodes mark ('\\' :: e :: body) (Lexeme.unescapedChar e :: text)

/-- What may stand between the body of a literal and the end of the text: nothing, or a backslash that has
    no character behind it. -/
def IsLoose (tail : List Char) : Prop :=
  tail = [] ∨ tail = ['\\']

namespace Encodes

variable {mark : Char} {body text : List Char}

theorem unescape (encodes : Encodes mark body text) (seen : List Char) {tail : List Char}
    (loose : IsLoose tail) : Lexeme.unescape seen (body ++ tail) = seen.reverse ++ text := by
  induction encodes generalizing seen with
  | nil => obtain rfl | rfl := loose <;> simp [Lexeme.unescape]
  | plain _ backslash _ ih =>
      rw [List.cons_append, Lexeme.unescape.eq_def]
      simp [backslash, ih]
  | escaped _ ih =>
      rw [List.cons_append, List.cons_append, Lexeme.unescape.eq_def]
      simp [ih]

theorem unescape_closed (encodes : Encodes mark body text) : Lexeme.unescape [] body = text := by
  simpa using encodes.unescape [] (.inl rfl)

theorem escapedUntil_closed (encodes : Encodes mark body text) (other : mark ≠ '\\')
    (seen after : List Char) :
    Lexeme.escapedUntil (Lexeme.startsWith mark) seen (body ++ mark :: after) =
      (seen.reverse ++ body, mark :: after) := by
  induction encodes generalizing seen with
  | nil =>
      rw [List.nil_append, Lexeme.escapedUntil.eq_def]
      simp [Lexeme.startsWith]
  | plain differs backslash _ ih =>
      rw [List.cons_append, Lexeme.escapedUntil.eq_def]
      simp [Lexeme.startsWith, differs, backslash, ih]
  | escaped _ ih =>
      rw [List.cons_append, List.cons_append, Lexeme.escapedUntil.eq_def]
      simp [Lexeme.startsWith, Ne.symm other, ih]

theorem escapedUntil_open (encodes : Encodes mark body text) (other : mark ≠ '\\')
    (seen : List Char) {tail : List Char} (loose : IsLoose tail) :
    Lexeme.escapedUntil (Lexeme.startsWith mark) seen (body ++ tail) =
      (seen.reverse ++ body ++ tail, []) := by
  induction encodes generalizing seen with
  | nil =>
      obtain rfl | rfl := loose
      · simp [Lexeme.escapedUntil]
      · simp [Lexeme.escapedUntil, Lexeme.startsWith, Ne.symm other]
  | plain differs backslash _ ih =>
      rw [List.cons_append, Lexeme.escapedUntil.eq_def]
      simp [Lexeme.startsWith, differs, backslash, ih]
  | escaped _ ih =>
      rw [List.cons_append, List.cons_append, Lexeme.escapedUntil.eq_def]
      simp [Lexeme.startsWith, Ne.symm other, ih]

theorem of_plain (plain : ∀ c ∈ text, c ≠ mark ∧ c ≠ '\\') : Encodes mark text text := by
  induction text with
  | nil => exact .nil
  | cons c text ih =>
      obtain ⟨first, rest⟩ := List.forall_mem_cons.mp plain
      exact .plain first.1 first.2 (ih rest)

/-- Escapes are longer than what they read as. -/
theorem length (encodes : Encodes mark body text) :
    text.length ≤ body.length ∧ ('\\' ∈ body → text.length < body.length) := by
  induction encodes with
  | nil => simp
  | plain _ backslash _ ih =>
      obtain ⟨least, less⟩ := ih
      simp only [List.length_cons, List.mem_cons, Ne.symm backslash, false_or]
      exact ⟨by omega, fun escapes => by have := less escapes; omega⟩
  | escaped _ ih =>
      simp only [List.length_cons]
      omega

theorem eq_of_plain (encodes : Encodes mark body text) (plain : '\\' ∉ body) : text = body := by
  induction encodes with
  | nil => rfl
  | plain _ _ _ ih => rw [ih (List.not_mem_of_not_mem_cons plain)]
  | escaped => exact absurd (List.mem_cons_self ..) plain

theorem noMark (encodes : Encodes mark body text) (plain : '\\' ∉ body) : mark ∉ body := by
  induction encodes with
  | nil => exact List.not_mem_nil
  | plain differs _ _ ih =>
      rw [List.mem_cons, not_or]
      exact ⟨Ne.symm differs, ih (List.not_mem_of_not_mem_cons plain)⟩
  | escaped => exact absurd (List.mem_cons_self ..) plain

end Encodes

/-- A scan up to a mark passes over a body, and stops at the mark or at the end of the text. -/
theorem escapedUntil_encodes (mark : Char) (seen rest : List Char) :
    ∃ body text, Encodes mark body text ∧
      ((∃ after, rest = body ++ mark :: after ∧
        Lexeme.escapedUntil (Lexeme.startsWith mark) seen rest = (seen.reverse ++ body, mark :: after)) ∨
      ∃ tail, IsLoose tail ∧ rest = body ++ tail ∧
        Lexeme.escapedUntil (Lexeme.startsWith mark) seen rest = (seen.reverse ++ body ++ tail, [])) := by
  fun_induction Lexeme.escapedUntil (Lexeme.startsWith mark) seen rest with
  | case1 seen => exact ⟨[], [], .nil, .inr ⟨[], .inl rfl, rfl, by simp⟩⟩
  | case2 seen c rest stops =>
      obtain rfl : c = mark := by simpa [Lexeme.startsWith] using stops
      exact ⟨[], [], .nil, .inl ⟨rest, rfl, by simp⟩⟩
  | case3 seen => exact ⟨[], [], .nil, .inr ⟨['\\'], .inr rfl, rfl, by simp⟩⟩
  | case4 seen e rest _ ih =>
      obtain ⟨body, text, encodes, ⟨after, rfl, same⟩ | ⟨tail, loose, rfl, same⟩⟩ := ih
      · exact ⟨_, _, encodes.escaped, .inl ⟨after, rfl, by simp [same]⟩⟩
      · exact ⟨_, _, encodes.escaped, .inr ⟨tail, loose, rfl, by simp [same]⟩⟩
  | case5 seen c rest goesOn backslash ih =>
      have differs : c ≠ mark := by simpa [Lexeme.startsWith] using goesOn
      obtain ⟨body, text, encodes, ⟨after, rfl, same⟩ | ⟨tail, loose, rfl, same⟩⟩ := ih
      · exact ⟨_, _, encodes.plain differs backslash, .inl ⟨after, rfl, by simp [same]⟩⟩
      · exact ⟨_, _, encodes.plain differs backslash, .inr ⟨tail, loose, rfl, by simp [same]⟩⟩

theorem head?_append_of_ne_nil {first second : List Char} (nonempty : first ≠ []) :
    (first ++ second).head? = first.head? := by
  rw [List.head?_append, Option.or_of_isSome (List.isSome_head?.mpr nonempty)]

theorem takeWhile_ends (q : Char → Bool) (text : List Char) :
    (∀ c ∈ text.takeWhile q, q c = true) ∧ ∀ c ∈ (text.dropWhile q).head?, q c = false := by
  refine ⟨List.all_eq_true.mp List.all_takeWhile, fun c first => ?_⟩
  have stops := List.head?_dropWhile_not q text
  rw [Option.mem_def.mp first] at stops
  simpa using stops

/-- Every text begins with all it can have of one class of characters. -/
theorem exists_maximal_run (q : Char → Bool) (text : List Char) :
    ∃ run rest, text = run ++ rest ∧ (∀ c ∈ run, q c = true) ∧ ∀ c ∈ rest.head?, q c = false :=
  ⟨text.takeWhile q, text.dropWhile q, List.takeWhile_append_dropWhile.symm, takeWhile_ends q text⟩

/-! ## Comments -/

theorem not_infix_of_cons {c : Char} {body : List Char} (unclosed : ¬['*', '/'] <:+: c :: body) :
    ¬['*', '/'] <:+: body :=
  mt (fun inside => inside.trans (List.suffix_cons c body).isInfix) unclosed

theorem blockComment_closed {body : List Char} (unclosed : ¬['*', '/'] <:+: body)
    (seen after : List Char) :
    Lexeme.blockComment seen (body ++ '*' :: '/' :: after) =
      (seen.reverse ++ body ++ ['*', '/'], after) := by
  induction body generalizing seen with
  | nil => simp [Lexeme.blockComment]
  | cons c body ih =>
      have goesOn : ∀ rest, c = '*' → body ++ '*' :: '/' :: after = '/' :: rest → False := by
        rintro rest rfl begins
        cases body with
        | nil => cases begins
        | cons d body =>
            obtain rfl : d = '/' := (List.cons.inj begins).1
            exact unclosed ⟨[], body, rfl⟩
      rw [List.cons_append, Lexeme.blockComment.eq_3 _ _ _ goesOn, ih (not_infix_of_cons unclosed)]
      simp

theorem blockComment_open {body : List Char} (unclosed : ¬['*', '/'] <:+: body)
    (seen : List Char) : Lexeme.blockComment seen body = (seen.reverse ++ body, []) := by
  induction body generalizing seen with
  | nil => simp [Lexeme.blockComment]
  | cons c body ih =>
      have goesOn : ∀ rest, c = '*' → body = '/' :: rest → False := by
        rintro rest rfl rfl
        exact unclosed ⟨[], rest, rfl⟩
      rw [Lexeme.blockComment.eq_3 _ _ _ goesOn, ih (not_infix_of_cons unclosed)]
      simp

/-- A block comment reaches to its first closing mark, or to the end of the text. -/
theorem blockComment_cases (seen text : List Char) :
    ∃ body, ¬['*', '/'] <:+: body ∧
      ((∃ after, text = body ++ '*' :: '/' :: after ∧
        Lexeme.blockComment seen text = (seen.reverse ++ body ++ ['*', '/'], after)) ∨
      text = body ∧ Lexeme.blockComment seen text = (seen.reverse ++ body, [])) := by
  fun_induction Lexeme.blockComment seen text with
  | case1 seen => exact ⟨[], by simp, .inr ⟨rfl, by simp⟩⟩
  | case2 seen rest => exact ⟨[], by simp, .inl ⟨rest, rfl, by simp⟩⟩
  | case3 seen c rest goesOn ih =>
      obtain ⟨body, unclosed, ends⟩ := ih
      have unclosed' : ¬['*', '/'] <:+: c :: body := by
        rw [List.infix_cons_iff]
        rintro (⟨others, begins⟩ | inside)
        · obtain ⟨rfl, rfl⟩ := List.cons.inj begins
          obtain ⟨after, rfl, -⟩ | ⟨rfl, -⟩ := ends <;> exact goesOn _ rfl rfl
        · exact unclosed inside
      obtain ⟨after, rfl, same⟩ | ⟨rfl, same⟩ := ends
      · exact ⟨c :: body, unclosed', .inl ⟨after, rfl, by simp [same]⟩⟩
      · exact ⟨c :: rest, unclosed', .inr ⟨rfl, by simp [same]⟩⟩

/-! ## Symbols -/

/-- A symbol is one character or two, and is found by them. -/
theorem Symbol.spelling_cases (s : Symbol) :
    (∃ c, s.spelling.toList = [c] ∧ Symbol.single? c = some s) ∨
      ∃ c d, s.spelling.toList = [c, d] ∧ Symbol.pair? c d = some s := by
  cases s with
  | plus | minus | star | slash | percent | assign | less | greater | not | leftParen | rightParen
  | leftBrace | rightBrace | leftBracket | rightBracket | comma | semicolon | dot | colon | question
  | atSign | hash => exact .inl ⟨_, rfl, rfl⟩
  | equal | notEqual | atMost | atLeast | and | or | increment | decrement | plusAssign | minusAssign
  | starAssign | slashAssign | power | optionalChain | nullish | arrow => exact .inr ⟨_, _, rfl, rfl⟩

theorem Symbol.single?_eq_none_iff {c : Char} :
    Symbol.single? c = none ↔ ∀ s : Symbol, s.spelling.toList ≠ [c] := by
  constructor
  · intro noSymbol s is
    obtain ⟨d, spelled, single⟩ | ⟨d, e, spelled, -⟩ := s.spelling_cases
    · cases is.symm.trans spelled
      cases noSymbol.symm.trans single
    · cases is.symm.trans spelled
  · intro unspelled
    cases single : Symbol.single? c with
    | none => rfl
    | some s => exact absurd (Symbol.spelling_of_single? single) (unspelled s)

theorem Symbol.pair?_eq_none_iff {c d : Char} :
    Symbol.pair? c d = none ↔ ∀ s : Symbol, s.spelling.toList ≠ [c, d] := by
  constructor
  · intro noSymbol s is
    obtain ⟨c', spelled, -⟩ | ⟨c', d', spelled, pair⟩ := s.spelling_cases
    · cases is.symm.trans spelled
    · cases is.symm.trans spelled
      cases noSymbol.symm.trans pair
  · intro unspelled
    cases pair : Symbol.pair? c d with
    | none => rfl
    | some s => exact absurd (Symbol.spelling_of_pair? pair) (unspelled s)

/-! ## The rules -/

/-- A character that separates tokens and nothing else. -/
def IsSpace (c : Char) : Prop :=
  c = ' ' ∨ c = '\t' ∨ c = '\r'

/-- What separates tokens, in front of what comes after it. -/
inductive IsTrivia : List Char → List Char → Prop where
  | space {c : Char} {after : List Char} : IsSpace c → IsTrivia [c] after
  | line {text after : List Char} : '\n' ∉ text → (∀ c ∈ after.head?, c = '\n') →
      IsTrivia ('/' :: '/' :: text) after
  | block {text after : List Char} : ¬['*', '/'] <:+: text →
      IsTrivia ('/' :: '*' :: text ++ ['*', '/']) after
  /-- The end of the text closes a block comment too. -/
  | openBlock {text : List Char} : ¬['*', '/'] <:+: text → IsTrivia ('/' :: '*' :: text) []

/-- No symbol of two characters begins with this character and goes on with the text. -/
def BeginsNoPair (c : Char) (after : List Char) : Prop :=
  ∀ d ∈ after.head?, ∀ s : Symbol, s.spelling.toList ≠ [c, d]

/-- A slash in front of this text does not open a comment. -/
def OpensNoComment (after : List Char) : Prop :=
  ∀ d ∈ after.head?, d ≠ '/' ∧ d ≠ '*'

/-- A token of the kind is written as the lexeme, in front of what comes after it. Where a regex may begin,
    a slash that opens no comment and begins no longer symbol opens one. -/
inductive Denotes (regexAllowed : Bool) : TokenKind → List Char → List Char → Prop where
  | newline {after : List Char} : Denotes regexAllowed .newline ['\n'] after
  | word {lexeme after : List Char} : IsWord lexeme → EndsWord after →
      Denotes regexAllowed (.ofWord (String.ofList lexeme)) lexeme after
  | symbol {s : Symbol} {after : List Char} :
      (∀ c, s.spelling.toList = [c] → BeginsNoPair c after) →
      (s = .slash → regexAllowed = false ∧ OpensNoComment after) →
      Denotes regexAllowed (.symbol s) s.spelling.toList after
  | decimal {c : Char} {others after : List Char} : c.isDigit = true →
      (c = '0' → ∀ d ∈ (others ++ after).head?, Lexer.Pass.base? d = none) →
      Lexeme.decimal (c :: others ++ after) = (c :: others, after) →
      Denotes regexAllowed (.number (Lexer.Pass.decimalValue (c :: others))) (c :: others) after
  | radix {mark : Char} {base : Nat} {digits after : List Char} : Lexer.Pass.base? mark = some base →
      digits ≠ [] → (∀ d ∈ digits, (Lexeme.digitValue? base d).isSome = true) →
      (∀ d ∈ after.head?, (Lexeme.digitValue? base d).isSome = false) →
      Denotes regexAllowed (.number (Lexer.Pass.radixValue base digits)) ('0' :: mark :: digits) after
  | string {quote : Char} {body text after : List Char} : quote = '"' ∨ quote = '\'' →
      Encodes quote body text →
      Denotes regexAllowed (.string (String.ofList text)) (quote :: body ++ [quote]) after
  /-- The end of the text closes a string too. -/
  | openString {quote : Char} {body text tail : List Char} : quote = '"' ∨ quote = '\'' →
      Encodes quote body text → IsLoose tail →
      Denotes regexAllowed (.string (String.ofList text)) (quote :: body ++ tail) []
  | regex {pattern text flags after : List Char} : regexAllowed = true → pattern ≠ [] →
      OpensNoComment pattern → BeginsNoPair '/' pattern → Encodes '/' pattern text →
      (∀ c ∈ flags, Lexeme.isFlag c = true) → (∀ c ∈ after.head?, Lexeme.isFlag c = false) →
      Denotes regexAllowed (.regex (String.ofList pattern) (String.ofList flags))
        ('/' :: pattern ++ '/' :: flags) after
  /-- The end of the text closes a regex too. -/
  | openRegex {pattern text tail : List Char} : regexAllowed = true →
      OpensNoComment (pattern ++ tail) → BeginsNoPair '/' (pattern ++ tail) →
      Encodes '/' pattern text → IsLoose tail →
      Denotes regexAllowed (.regex (String.ofList (pattern ++ tail)) "") ('/' :: pattern ++ tail) []

theorem denotes_pair {regexAllowed : Bool} {c d : Char} {s : Symbol} {after : List Char}
    (pair : Symbol.pair? c d = some s) : Denotes regexAllowed (.symbol s) [c, d] after := by
  have spelled := Symbol.spelling_of_pair? pair
  rw [← spelled]
  refine .symbol (fun e alone => ?_) ?_
  · cases spelled.symm.trans alone
  · rintro rfl
    cases spelled

theorem denotes_single {regexAllowed : Bool} {c : Char} {s : Symbol} {after : List Char}
    (single : Symbol.single? c = some s) (noPair : BeginsNoPair c after)
    (divides : c = '/' → regexAllowed = false ∧ OpensNoComment after) :
    Denotes regexAllowed (.symbol s) [c] after := by
  have spelled := Symbol.spelling_of_single? single
  rw [← spelled]
  refine .symbol (fun e alone => ?_) ?_
  · cases spelled.symm.trans alone
    exact noPair
  · rintro rfl
    cases spelled
    exact divides rfl

/-- No lexeme begins with this character in front of this text. -/
structure IsStrange (c : Char) (after : List Char) : Prop where
  plain : c ∉ [' ', '\t', '\r', '\n', '"', '\'', Lexeme.backtick]
  digit : c.isDigit = false
  word : Lexeme.isWordStart c = false
  symbol : ∀ s : Symbol, s.spelling.toList ≠ [c]
  pair : BeginsNoPair c after

namespace Lexer.Pass

/-- What the text in front of a pass makes of it. -/
inductive Scans (p : Pass) : List Char → Except LexError Pass → Prop where
  | trivia {lexeme after : List Char} : IsTrivia lexeme after →
      Scans p (lexeme ++ after) (.ok (p.skip lexeme after))
  | token {kind : TokenKind} {lexeme after : List Char} : Denotes p.regexAllowed kind lexeme after →
      Scans p (lexeme ++ after) (.ok (p.take kind lexeme after))
  | template {after : List Char} : Scans p (Lexeme.backtick :: after)
      (.ok { p.skip [Lexeme.backtick] after with mode := .template p.position })
  | unknown {c : Char} {after : List Char} : IsStrange c after →
      Scans p (c :: after) (.error (.unexpectedCharacter c p.position))
  | malformed {mark : Char} {base : Nat} {after : List Char} : base? mark = some base →
      (∀ d ∈ after.head?, (Lexeme.digitValue? base d).isSome = false) →
      Scans p ('0' :: mark :: after)
        (.error (.malformedNumber (String.ofList ['0', mark]) p.position))

variable (p : Pass)

/-! ## A step follows a rule -/

theorem scans_string {quote : Char} (quoted : quote = '"' ∨ quote = '\'') (rest : List Char) :
    Scans p (quote :: rest) (.ok (p.string quote rest)) := by
  obtain ⟨body, text, encodes, ⟨after, rfl, same⟩ | ⟨tail, loose, rfl, same⟩⟩ :=
    escapedUntil_encodes quote [] rest
  · have scans : Scans p (quote :: body ++ [quote] ++ after) _ := .token (.string quoted encodes)
    simp only [List.reverse_nil, List.nil_append] at same
    simpa [Pass.string, same, encodes.unescape_closed] using scans
  · have read := encodes.unescape [] loose
    simp only [List.reverse_nil, List.nil_append] at read same
    have scans := Scans.token (p := p) (Denotes.openString quoted encodes loose)
    simpa [Pass.string, same, read] using scans

theorem scans_regex {rest : List Char} (allowed : p.regexAllowed = true)
    (noPair : BeginsNoPair '/' rest) (noComment : OpensNoComment rest) :
    Scans p ('/' :: rest) (.ok (p.regex rest)) := by
  obtain ⟨pattern, text, encodes, ⟨after, rfl, same⟩ | ⟨tail, loose, rfl, same⟩⟩ :=
    escapedUntil_encodes '/' [] rest
  · have nonempty : pattern ≠ [] := by
      rintro rfl
      exact (noComment '/' rfl).1 rfl
    rw [BeginsNoPair, head?_append_of_ne_nil nonempty] at noPair
    rw [OpensNoComment, head?_append_of_ne_nil nonempty] at noComment
    obtain ⟨flags, after, rfl, inside, ends⟩ := exists_maximal_run Lexeme.isFlag after
    obtain ⟨taken, left⟩ := takeWhile_of_ends inside ends
    have scans := Scans.token (p := p) (.regex allowed nonempty noComment noPair encodes inside ends)
    simp only [List.reverse_nil, List.nil_append] at same
    simpa [Pass.regex, same, Lexeme.flags, taken, left] using scans
  · have scans := Scans.token (p := p) (.openRegex allowed noComment noPair encodes loose)
    simp only [List.reverse_nil, List.nil_append] at same
    simpa [Pass.regex, same, Lexeme.flags] using scans

theorem scans_radix {mark : Char} {base : Nat} (marked : base? mark = some base)
    (rest : List Char) : Scans p ('0' :: mark :: rest) (p.radix base '0' mark rest) := by
  obtain ⟨digits, after, rfl, inside, ends⟩ :=
    exists_maximal_run (fun c => (Lexeme.digitValue? base c).isSome) rest
  obtain ⟨taken, left⟩ := takeWhile_of_ends inside ends
  simp only [radix, Lexeme.digitsIn, taken, left]
  split
  · rename_i noDigits
    obtain rfl : digits = [] := List.isEmpty_iff.mp noDigits
    exact .malformed marked ends
  · rename_i notEmpty
    exact .token (.radix marked (mt List.isEmpty_iff.mpr notEmpty) inside ends)

theorem scans_decimal {c : Char} {rest : List Char} (digit : c.isDigit = true)
    (noBase : c = '0' → ∀ d ∈ rest.head?, base? d = none) :
    Scans p (c :: rest) (.ok (p.decimal (c :: rest))) := by
  obtain ⟨others, begins⟩ : ∃ others, (Lexeme.decimal (c :: rest)).1 = c :: others := by
    simp [Lexeme.decimal, digitRun, digit]
  have whole := Lexeme.decimal_append (c :: rest)
  unfold Pass.decimal
  generalize reaches : Lexeme.decimal (c :: rest) = parts at begins whole
  obtain ⟨lexeme, after⟩ := parts
  obtain rfl : lexeme = c :: others := begins
  obtain rfl : others ++ after = rest := (List.cons.inj whole).2
  exact .token (.decimal digit noBase reaches)

theorem scans_number {c : Char} (digit : c.isDigit = true) (rest : List Char) :
    Scans p (c :: rest) (p.number c rest) := by
  unfold number
  split
  · split
    · rename_i mark digits _ base marked
      obtain ⟨rfl, marked⟩ : c = '0' ∧ base? mark = some base := by simpa using marked
      exact scans_radix p marked digits
    · rename_i unmarked
      refine scans_decimal p digit ?_
      rintro rfl d ⟨⟩
      simpa using unmarked
  · exact scans_decimal p digit (by simp)

theorem scans_word {c : Char} (starts : Lexeme.isWordStart c = true) (rest : List Char) :
    Scans p (c :: rest) (.ok (p.word (c :: rest))) := by
  have scans := Scans.token (p := p)
    (.word (isWord_takeWhile starts rest) (endsWord_dropWhile (c :: rest)))
  rwa [List.takeWhile_append_dropWhile] at scans

theorem scans_symbolOrWord {c : Char} {rest : List Char}
    (plain : c ∉ [' ', '\t', '\r', '\n', '"', '\'', Lexeme.backtick])
    (digit : c.isDigit = false) (noComment : c = '/' → OpensNoComment rest) :
    Scans p (c :: rest) (p.symbolOrWord c rest) := by
  -- With no pair there, what is left is the same whether or not another character follows.
  have unpaired : BeginsNoPair c rest → Scans p (c :: rest)
      (if c = '/' ∧ p.regexAllowed then .ok (p.regex rest) else p.singleOrWord c rest) := by
    intro noPair
    split
    · rename_i slash
      obtain ⟨rfl, allowed⟩ := slash
      exact scans_regex p allowed noPair (noComment rfl)
    · rename_i divides
      unfold singleOrWord
      split
      · rename_i s single
        refine .token (denotes_single single noPair fun slash => ⟨?_, noComment slash⟩)
        exact Bool.of_not_eq_true fun allowed => divides ⟨slash, allowed⟩
      · rename_i noSymbol
        split
        · rename_i starts
          exact scans_word p starts rest
        · rename_i starts
          exact .unknown ⟨plain, digit, Bool.of_not_eq_true starts,
            Symbol.single?_eq_none_iff.mp noSymbol, noPair⟩
  unfold symbolOrWord
  split
  · split
    · rename_i s pair
      exact .token (denotes_pair pair)
    · rename_i noPair
      refine unpaired ?_
      rintro d ⟨⟩
      exact Symbol.pair?_eq_none_iff.mp noPair
  · exact unpaired (by simp [BeginsNoPair])

theorem scans_lineComment (rest : List Char) :
    Scans p ('/' :: '/' :: rest) (.ok (p.skip (Lexeme.lineComment ('/' :: '/' :: rest)).1
      (Lexeme.lineComment ('/' :: '/' :: rest)).2)) := by
  obtain ⟨text, after, rfl, inside, ends⟩ := exists_maximal_run (· ≠ '\n') rest
  have all : ∀ c ∈ '/' :: '/' :: text, decide (c ≠ '\n') = true :=
    List.forall_mem_cons.mpr ⟨rfl, List.forall_mem_cons.mpr ⟨rfl, inside⟩⟩
  obtain ⟨taken, left⟩ := takeWhile_of_ends all ends
  have noFeed : '\n' ∉ text := fun member => absurd (inside _ member) (by decide)
  rw [← List.cons_append, ← List.cons_append]
  simp only [Lexeme.lineComment, taken, left]
  exact .trivia (.line noFeed fun c first => by simpa using ends c first)

theorem scans_blockComment (rest : List Char) :
    Scans p ('/' :: '*' :: rest) (.ok (p.skip (Lexeme.blockComment ['*', '/'] rest).1
      (Lexeme.blockComment ['*', '/'] rest).2)) := by
  obtain ⟨text, unclosed, ⟨after, rfl, same⟩ | ⟨rfl, same⟩⟩ := blockComment_cases ['*', '/'] rest
  · have scans : Scans p ('/' :: '*' :: text ++ ['*', '/'] ++ after) _ := .trivia (.block unclosed)
    simpa [same] using scans
  · have scans := Scans.trivia (p := p) (.openBlock unclosed)
    simpa [same] using scans

/-- A step over ordinary text does what a rule says. -/
theorem scans_codeStep (c : Char) (rest : List Char) : Scans p (c :: rest) (p.codeStep c rest) := by
  unfold codeStep
  split
  · rename_i space
    exact .trivia (.space space)
  rename_i noSpace
  split
  · rename_i newline
    rw [newline]
    exact .token .newline
  rename_i noNewline
  split
  · rename_i quoted
    exact scans_string p quoted rest
  rename_i unquoted
  split
  · rename_i opens
    subst opens
    exact .template
  rename_i noTemplate
  split
  · rename_i digit
    exact scans_number p digit rest
  rename_i noDigit
  split
  · exact scans_lineComment p _
  · exact scans_blockComment p _
  · rename_i noLine noBlock
    refine scans_symbolOrWord p ?_ (Bool.of_not_eq_true noDigit) ?_
    · simp only [not_or] at noSpace unquoted
      simp [noSpace, noNewline, unquoted, noTemplate]
    · rintro rfl d first
      obtain ⟨others, rfl⟩ := List.head?_eq_some_iff.mp first
      refine ⟨?_, ?_⟩
      · rintro rfl
        exact noLine _ rfl rfl
      · rintro rfl
        exact noBlock _ rfl rfl

/-! ## Each rule is followed -/

variable {p}

theorem codeStep_eq_skip {lexeme after : List Char} (trivia : IsTrivia lexeme after) :
    ∃ c rest, lexeme ++ after = c :: rest ∧ p.codeStep c rest = .ok (p.skip lexeme after) := by
  cases trivia with
  | space space => exact ⟨_, _, rfl, if_pos space⟩
  | @line text _ noFeed ends =>
      refine ⟨'/', '/' :: (text ++ after), rfl, ?_⟩
      have all : ∀ c ∈ '/' :: '/' :: text, decide (c ≠ '\n') = true := by
        simp only [List.forall_mem_cons]
        exact ⟨rfl, rfl, fun c member => decide_eq_true fun is => noFeed (is ▸ member)⟩
      have stops : ∀ c ∈ after.head?, decide (c ≠ '\n') = false := by simpa using ends
      obtain ⟨taken, left⟩ := takeWhile_of_ends all stops
      rw [List.cons_append, List.cons_append] at taken left
      simp only [codeStep, Lexeme.lineComment, taken, left]
      rfl
  | @block text _ unclosed =>
      have reaches := blockComment_closed unclosed ['*', '/'] after
      refine ⟨'/', '*' :: (text ++ '*' :: '/' :: after), by simp, ?_⟩
      simp [codeStep, Lexeme.backtick, reaches]
  | @openBlock text unclosed =>
      have reaches := blockComment_open unclosed ['*', '/']
      refine ⟨'/', '*' :: text, by simp, ?_⟩
      simp [codeStep, Lexeme.backtick, reaches]

theorem codeStep_of_isDigit {c : Char} (digit : c.isDigit = true) (rest : List Char) :
    p.codeStep c rest = p.number c rest := by
  have differs : ∀ d, d.isDigit = false → c ≠ d := by
    rintro d other rfl
    cases digit.symm.trans other
  have noTemplate : c ≠ Lexeme.backtick := differs _ (by decide)
  simp [codeStep, differs ' ', differs '\t', differs '\r', differs '\n', differs '"', differs '\'',
    noTemplate, digit]

theorem number_eq_decimal {c : Char} {rest : List Char}
    (noBase : c = '0' → ∀ d ∈ rest.head?, base? d = none) :
    p.number c rest = .ok (p.decimal (c :: rest)) := by
  cases rest with
  | nil => rfl
  | cons d rest =>
      have noMark : (if c = '0' then base? d else none) = none := by
        split
        · rename_i zero
          exact noBase zero d rfl
        · rfl
      simp only [number, noMark]

theorem codeStep_of_quote {quote : Char} (quoted : quote = '"' ∨ quote = '\'') (rest : List Char) :
    p.codeStep quote rest = .ok (p.string quote rest) := by
  obtain rfl | rfl := quoted <;> rfl

theorem codeStep_of_regex {rest : List Char} (allowed : p.regexAllowed = true)
    (noPair : BeginsNoPair '/' rest) (noComment : OpensNoComment rest) :
    p.codeStep '/' rest = .ok (p.regex rest) := by
  rw [codeStep_eq_symbolOrWord (by decide) (by decide) fun _ => noComment]
  cases rest with
  | nil => simp [symbolOrWord, allowed]
  | cons d rest =>
      have unpaired := Symbol.pair?_eq_none_iff.mpr (noPair d rfl)
      simp [symbolOrWord, allowed, unpaired]

theorem codeStep_eq_take {kind : TokenKind} {lexeme after : List Char}
    (denotes : Denotes p.regexAllowed kind lexeme after) :
    ∃ c rest, lexeme ++ after = c :: rest ∧ p.codeStep c rest = .ok (p.take kind lexeme after) := by
  cases denotes with
  | newline => exact ⟨_, _, rfl, rfl⟩
  | word isWord ends =>
      obtain ⟨c, others, rfl, starts, inside⟩ := isWord
      have all : ∀ d ∈ c :: others, Lexeme.isWordPart d = true :=
        List.forall_mem_cons.mpr ⟨Lexeme.isWordPart_of_isWordStart starts, inside⟩
      obtain ⟨taken, left⟩ := takeWhile_of_ends all ends
      refine ⟨c, others ++ after, rfl, ?_⟩
      rw [codeStep_eq_word starts, Pass.word, Lexeme.word, ← List.cons_append, taken, left]
  | @symbol s _ noPair divides =>
      obtain ⟨c, spelled, single⟩ | ⟨c, d, spelled, pair⟩ := s.spelling_cases
      · rw [spelled]
        refine ⟨c, after, rfl, codeStep_eq_single single (fun d first => ?_) ?_⟩
        · exact Symbol.pair?_eq_none_iff.mpr (noPair c spelled d first)
        · rintro rfl
          cases single
          exact divides rfl
      · rw [spelled]
        exact ⟨c, d :: after, rfl, codeStep_eq_pair pair⟩
  | @decimal c others _ digit noBase reaches =>
      refine ⟨c, others ++ after, rfl, ?_⟩
      rw [codeStep_of_isDigit digit, number_eq_decimal noBase, Pass.decimal, ← List.cons_append, reaches]
  | @radix mark base digits _ marked nonempty inside ends =>
      obtain ⟨taken, left⟩ := takeWhile_of_ends inside ends
      refine ⟨'0', mark :: (digits ++ after), rfl, ?_⟩
      rw [codeStep_of_isDigit rfl]
      simp [number, marked, radix, Lexeme.digitsIn, taken, left, nonempty]
  | @string quote body text _ quoted encodes =>
      have other : quote ≠ '\\' := by rintro rfl; simp at quoted
      refine ⟨quote, body ++ quote :: after, by simp, ?_⟩
      rw [codeStep_of_quote quoted, Pass.string, encodes.escapedUntil_closed other]
      simp [encodes.unescape_closed]
  | @openString quote body text tail quoted encodes loose =>
      have other : quote ≠ '\\' := by rintro rfl; simp at quoted
      have read := encodes.unescape [] loose
      refine ⟨quote, body ++ tail, by simp, ?_⟩
      rw [codeStep_of_quote quoted, Pass.string, encodes.escapedUntil_open other [] loose]
      simp [read]
  | @regex pattern text flags _ allowed nonempty noComment noPair encodes inside ends =>
      obtain ⟨taken, left⟩ := takeWhile_of_ends inside ends
      have scanned := encodes.escapedUntil_closed (by decide) [] (flags ++ after)
      refine ⟨'/', pattern ++ '/' :: (flags ++ after), by simp, ?_⟩
      rw [codeStep_of_regex allowed]
      · simp [Pass.regex, scanned, Lexeme.flags, taken, left]
      · rwa [BeginsNoPair, head?_append_of_ne_nil nonempty]
      · rwa [OpensNoComment, head?_append_of_ne_nil nonempty]
  | @openRegex pattern text tail allowed noComment noPair encodes loose =>
      have scanned := encodes.escapedUntil_open (by decide) [] loose
      refine ⟨'/', pattern ++ tail, by simp, ?_⟩
      rw [codeStep_of_regex allowed noPair noComment]
      simp [Pass.regex, scanned, Lexeme.flags]

/-- Where a rule applies, a step does what it says. -/
theorem Scans.codeStep {text : List Char} {o : Except LexError Pass} (scans : Scans p text o) :
    ∃ c rest, text = c :: rest ∧ p.codeStep c rest = o := by
  cases scans with
  | trivia trivia => exact codeStep_eq_skip trivia
  | token denotes => exact codeStep_eq_take denotes
  | template => exact ⟨_, _, rfl, rfl⟩
  | @unknown c after strange =>
      refine ⟨c, after, rfl, ?_⟩
      have noSymbol := Symbol.single?_eq_none_iff.mpr strange.symbol
      have noSlash : c ≠ '/' := by
        rintro rfl
        cases noSymbol
      rw [codeStep_eq_symbolOrWord strange.plain strange.digit fun slash => absurd slash noSlash]
      cases after with
      | nil => simp [symbolOrWord, noSlash, singleOrWord, noSymbol, strange.word]
      | cons d after =>
          have unpaired := Symbol.pair?_eq_none_iff.mpr (strange.pair d rfl)
          simp [symbolOrWord, noSlash, unpaired, singleOrWord, noSymbol, strange.word]
  | @malformed mark base after marked ends =>
      obtain ⟨taken, left⟩ := takeWhile_of_ends (q := fun c => (Lexeme.digitValue? base c).isSome)
        (List.forall_mem_nil _) ends
      refine ⟨'0', mark :: after, rfl, ?_⟩
      rw [codeStep_of_isDigit rfl]
      rw [List.nil_append] at taken left
      simp [number, marked, radix, Lexeme.digitsIn, taken]

end Lexer.Pass

end MinangScript
