import MinangScript.Project
import MinangScript.Proofs.Lexer.Rows
import MinangScript.Proofs.Machine.CallLimit
import MinangScript.Proofs.Machine.Outlook
import MinangScript.Proofs.Parser.Pieces
import MinangScript.Proofs.Text.Replace

/-! # The program of a new project

The name of a project is put between quotes as it is. So the program greets what its name reads as
in a string literal, and that is the name itself only as long as nothing in it has a meaning there
and the place of the version does not occur in it. A name with a quote in it need not give a
program at all.
-/

namespace MinangScript

namespace Project

/-! ## The text of the program -/

/-- What stands in front of the name, up to the quote. -/
def opening : List Piece :=
  [.comment " Salamat datang di MinangScript!", .feed, .feed,
   .word "cetak", .space, .string "Salamat datang ka ", .space, .symbol '+' .plus, .space]

/-- What stands behind the name, from the quote on. -/
def closing (version : String) : List Piece :=
  [.feed, .feed,
   .word "buek", .space, .word "namo", .space, .symbol '=' .assign, .space,
     .string "MinangScript", .feed,
   .word "ambiak", .space, .word "versi", .space, .symbol '=' .assign, .space,
     .string version, .feed,
   .word "tagak", .space, .word "filosofi", .space, .symbol '=' .assign, .space,
     .string "Gotong Royong", .feed, .feed,
   .word "karojo", .space, .word "sambutan", .symbol '(' .leftParen, .word "nama",
     .symbol ')' .rightParen, .space, .symbol '\x7b' .leftBrace, .feed,
   .space, .space, .space, .space, .word "jadi", .space, .string "Salamat datang, ", .space,
     .symbol '+' .plus, .space, .word "nama", .space, .symbol '+' .plus, .space,
     .string "! Mari bergotong royong.", .feed,
   .symbol '\x7d' .rightBrace, .feed, .feed,
   .word "cetak", .space, .word "sambutan", .symbol '(' .leftParen, .word "namo",
     .symbol ')' .rightParen, .feed]

/-- The name as it stands in the program. -/
def written (name : String) : String :=
  replaceAll name versionMark version

theorem toList_written (name : String) :
    (written name).toList = replaceFrom versionMark.toList version.toList 0 name.toList := by
  rw [written, replaceAll, String.toList_ofList]

theorem toList_pattern : pattern.toList =
    Piece.text opening ++ '"' :: (nameMark.toList ++ '"' :: Piece.text (closing versionMark)) := by
  unfold pattern
  repeat rw [String.toList_append]
  decide +kernel

/-- Replacing goes on separately in front of the quotes, between them and behind them. -/
theorem replaceFrom_quoted {mark replacement : List Char} (nonempty : mark ≠ []) (other : '"' ∉ mark)
    (before between behind : List Char) :
    replaceFrom mark replacement 0 (before ++ '"' :: (between ++ '"' :: behind)) =
      replaceFrom mark replacement 0 before ++ '"' :: (replaceFrom mark replacement 0 between ++
        '"' :: replaceFrom mark replacement 0 behind) := by
  rw [replaceFrom_split other nonempty, replaceFrom_split other nonempty]

theorem toList_sample (name : String) :
    (sample name).toList = Piece.text opening ++ '"' :: ((written name).toList ++
      '"' :: Piece.text (closing version)) := by
  have filled : replaceFrom nameMark.toList name.toList 0 nameMark.toList = name.toList := by
    have opens : replaceFrom nameMark.toList name.toList 0 (nameMark.toList ++ []) = _ :=
      replaceFrom_opens (by decide +kernel) []
    simpa [replaceFrom] using opens
  have named : (replaceAll pattern nameMark name).toList =
      Piece.text opening ++ '"' :: (name.toList ++ '"' :: Piece.text (closing versionMark)) := by
    rw [replaceAll, String.toList_ofList, toList_pattern,
      replaceFrom_quoted (by decide +kernel) (by decide +kernel), filled,
      replaceFrom_of_absent (by decide +kernel), replaceFrom_of_absent (by decide +kernel)]
  have versioned : replaceFrom versionMark.toList version.toList 0
      (Piece.text (closing versionMark)) = Piece.text (closing version) := by decide +kernel
  rw [sample, replaceAll, String.toList_ofList, named,
    replaceFrom_quoted (by decide +kernel) (by decide +kernel), versioned,
    replaceFrom_of_absent (by decide +kernel), toList_written]

/-! ## The tokens of the program -/

/-- The kinds of tokens of the statement that greets the project. -/
def greetingKinds (text : String) : List TokenKind :=
  [.newline, .newline, .keyword .printWord, .string "Salamat datang ka ", .symbol .plus,
   .string text]

/-- The kinds of tokens of the declarations. -/
def namesKinds : List TokenKind :=
  [.newline, .keyword .varWord, .identifier "namo", .symbol .assign, .string "MinangScript",
   .newline, .keyword .letWord, .identifier "versi", .symbol .assign, .string version,
   .newline, .keyword .constWord, .identifier "filosofi", .symbol .assign,
   .string "Gotong Royong"]

/-- The kinds of tokens of the function. -/
def speechKinds : List TokenKind :=
  [.newline, .keyword .functionWord, .identifier "sambutan", .symbol .leftParen,
   .identifier "nama", .symbol .rightParen, .symbol .leftBrace, .newline,
   .keyword .returnWord, .string "Salamat datang, ", .symbol .plus, .identifier "nama",
   .symbol .plus, .string "! Mari bergotong royong.", .newline, .symbol .rightBrace]

/-- The kinds of tokens of the statement that prints what the function makes. -/
def callKinds : List TokenKind :=
  [.newline, .keyword .printWord, .identifier "sambutan", .symbol .leftParen, .identifier "namo",
   .symbol .rightParen]

/-- The kinds of tokens of the program. -/
def kinds (text : String) : List TokenKind :=
  greetingKinds text ++ .newline :: namesKinds ++ .newline :: speechKinds ++
    .newline :: callKinds ++ [.newline, .endOfText]

/-- If the name is the body of a string literal, the tokens around it are always the same. -/
theorem tokenize_sample {name : String} {text : List Char}
    (encodes : Encodes '"' (written name).toList text) :
    ∃ tokens, tokenize (sample name) = .ok tokens ∧
      tokens.map Token.kind = kinds (String.ofList text) := by
  have opens := Piece.lexes_text (show Piece.areApart opening = true by decide +kernel)
  have closes := Piece.lexes_text (show Piece.areApart (closing version) = true by decide +kernel)
  have named : Lexes ('"' :: ((written name).toList ++ ['"'])) [.string (String.ofList text)]
      fun _ => True := .string encodes
  have joint : ∀ after, ∀ p ∈ opening.getLast?, p.Ends after := fun after p last d _ => by
    obtain rfl : Piece.space = p := Option.some.inj last
    rfl
  have whole := opens.append (named.append closes fun _ _ => trivial) fun after _ => joint _
  have same : Piece.text opening ++ ('"' :: ((written name).toList ++ ['"']) ++
      Piece.text (closing version)) = (sample name).toList := by simp [toList_sample]
  rw [same] at whole
  obtain ⟨tokens, read, all⟩ := whole.tokenize fun piece _ d first => nomatch first
  exact ⟨tokens, read, all⟩

/-! ## The tree of the program -/

section Parse

variable (place : Nat → Position) (text : String)

def greeting : Program :=
  ⟨[.print (.binary (.literal (.string "Salamat datang ka ")) .add (.literal (.string text)))]⟩

def names : Program :=
  ⟨[.declare .varDecl ⟨"namo", place 2⟩ (some (.literal (.string "MinangScript"))),
    .declare .letDecl ⟨"versi", place 7⟩ (some (.literal (.string version))),
    .declare .constDecl ⟨"filosofi", place 12⟩ (some (.literal (.string "Gotong Royong")))]⟩

def speech : Program :=
  ⟨[.function ⟨"sambutan", place 2⟩ [⟨"nama", place 4⟩]
    [.result (some (.binary (.binary (.literal (.string "Salamat datang, ")) .add
      (.ident ⟨"nama", place 11⟩)) .add (.literal (.string "! Mari bergotong royong."))))]]⟩

def call : Program :=
  ⟨[.print (.call (.ident ⟨"sambutan", place 2⟩) [.ident ⟨"namo", place 4⟩])]⟩

theorem parse_greeting :
    parseTokens (Parser.placed place (greetingKinds text)) = .ok (greeting text) := rfl

theorem parse_names : parseTokens (Parser.placed place namesKinds) = .ok (names place) := rfl

theorem parse_speech : parseTokens (Parser.placed place speechKinds) = .ok (speech place) := rfl

theorem parse_call : parseTokens (Parser.placed place callKinds) = .ok (call place) := rfl

/-- The program of a project whose name reads as the given text. -/
def tree : Program :=
  ⟨(greeting text).body ++ (names fun n => place (n + 7)).body ++
    (speech fun n => place (n + 23)).body ++ (call fun n => place (n + 40)).body⟩

theorem parse_placed : parseTokens (Parser.placed place (kinds text)) = .ok (tree place text) := by
  have noEnd₁ : .endOfText ∉ greetingKinds text := by simp [greetingKinds]
  have noEnd₂ : .endOfText ∉ namesKinds := by simp [namesKinds]
  have noEnd₃ : .endOfText ∉ speechKinds := by simp [speechKinds]
  have noEnd₄ : .endOfText ∉ callKinds := by simp [callKinds]
  have two := Parser.parse_placed_pieces noEnd₁ noEnd₂ (parse_greeting place text)
    (parse_names fun n => place (n + 7))
  have three := Parser.parse_placed_pieces (by simp [noEnd₁, noEnd₂]) noEnd₃ two
    (parse_speech fun n => place (n + 23))
  have four := Parser.parse_placed_pieces (by simp [noEnd₁, noEnd₂, noEnd₃]) noEnd₄ three
    (parse_call fun n => place (n + 40))
  exact Parser.parse_placed_closed (by simp [noEnd₁, noEnd₂, noEnd₃, noEnd₄]) four

/-- What the program of a project prints whose name reads as the given text. -/
def greetings : List (Channel × String) :=
  [(.log, "Salamat datang ka " ++ text),
   (.log, "Salamat datang, MinangScript! Mari bergotong royong.")]

/-- Both greetings are printed, whatever the places in the program and whichever the scoping. -/
theorem runs_tree (limit : Nat) (scoping : Scoping) :
    ∃ value machine,
      Eval.Runs (limit + 1) (tree place text) (.start scoping) (.done value machine) ∧
      machine.journal.lines = greetings text := by
  obtain ⟨value, machine, ran, lines⟩ : ∃ value machine,
      Eval.program (limit + 1) 12 (tree place text) (.start scoping) = .done value machine ∧
      machine.journal.lines = greetings text := by
    cases scoping with
    | dynamic => exact ⟨_, _, rfl, rfl⟩
    | lexical => exact ⟨_, _, rfl, rfl⟩
  exact ⟨value, machine, ⟨nofun, 12, ran⟩, lines⟩

end Parse

/-! ## What a new project prints -/

/-- The program of a new project in the directory can be read and run, and prints a greeting of the
    given text and then the greeting of its function. -/
def Greets (directory greeted : String) (limit : Nat) (scoping : Scoping) : Prop :=
  ∃ program value machine,
    (readProgram (mainPath directory) (sample (nameOf directory))).outcome = .ok program ∧
    Eval.Runs limit program (.start scoping) (.done value machine) ∧
    machine.journal.lines = greetings greeted

/-- Nothing in the name has a meaning in the program. -/
structure IsPlainName (name : String) : Prop where
  noQuote : '"' ∉ name.toList
  noEscape : '\\' ∉ name.toList
  noMark : ¬ versionMark.toList <:+: name.toList

theorem written_of_absent {name : String} (absent : ¬ versionMark.toList <:+: name.toList) :
    written name = name :=
  String.toList_inj.mp (by rw [toList_written, replaceFrom_of_absent absent])

theorem IsPlainName.encodes {name : String} (plain : IsPlainName name) :
    Encodes '"' (written name).toList name.toList := by
  rw [written_of_absent plain.noMark]
  exact .of_plain fun c member =>
    ⟨fun is => plain.noQuote (is ▸ member), fun is => plain.noEscape (is ▸ member)⟩

/-- Filling in the version and reading escapes both make a text shorter. -/
theorem eq_name_iff {name : String} {text : List Char}
    (encodes : Encodes '"' (written name).toList text) :
    text = name.toList ↔ IsPlainName name := by
  constructor
  · -- The name is as long as what it reads as, so nothing in it can have got shorter.
    rintro rfl
    obtain ⟨least, less⟩ := encodes.length
    have shorter : version.toList.length < versionMark.toList.length := by decide +kernel
    obtain ⟨_, less'⟩ := length_replaceFrom shorter name.toList
    rw [← toList_written] at less'
    have noMark : ¬ versionMark.toList <:+: name.toList := fun present =>
      absurd (less' present) (Nat.not_lt.mpr least)
    rw [written_of_absent noMark] at encodes less
    have noEscape : '\\' ∉ name.toList := fun escapes => Nat.lt_irrefl _ (less escapes)
    exact ⟨encodes.noMark noEscape, noEscape, noMark⟩
  · intro plain
    rw [written_of_absent plain.noMark] at encodes
    exact encodes.eq_of_plain plain.noEscape

theorem greets_of_encodes {directory : String} {text : List Char}
    (encodes : Encodes '"' (written (nameOf directory)).toList text) (limit : Nat)
    (scoping : Scoping) : Greets directory (String.ofList text) (limit + 1) scoping := by
  obtain ⟨tokens, read, all⟩ := tokenize_sample encodes
  obtain ⟨place, places⟩ := Parser.exists_placed tokens
  rw [places, all] at read
  obtain ⟨value, machine, runs, lines⟩ := runs_tree place (String.ofList text) limit scoping
  refine ⟨tree place (String.ofList text), value, machine, ?_, runs, lines⟩
  rw [readProgram_outcome]
  exact Parser.parse_eq_ok_iff.mpr ⟨_, read, parse_placed place _⟩

/-- A program greets with one text only. -/
theorem Greets.unique {directory greeted greeted' : String} {limit : Nat} {scoping : Scoping}
    (greets : Greets directory greeted limit scoping)
    (greets' : Greets directory greeted' limit scoping) : greeted = greeted' := by
  obtain ⟨p, value, machine, read, runs, lines⟩ := greets
  obtain ⟨p', value', machine', read', runs', lines'⟩ := greets'
  obtain rfl : p = p' := Except.ok.inj (read.symm.trans read')
  obtain ⟨rfl, rfl⟩ := Outcome.done.inj (runs'.unique runs)
  simpa [greetings] using lines.symm.trans lines'

/-- Whenever the name is the body of a string literal, the program greets what it reads as; and then
    it greets the name itself just if nothing in the name has a meaning. -/
theorem new_project_greets {directory name : String} (named : Path.fileName? directory = some name)
    (limit : Nat) (scoping : Scoping) :
    (IsPlainName name → Greets directory name (limit + 1) scoping) ∧
      ∀ text, Encodes '"' (written name).toList text →
        Greets directory (String.ofList text) (limit + 1) scoping ∧
        (Greets directory name (limit + 1) scoping ↔ IsPlainName name) := by
  have is : nameOf directory = name := by rw [nameOf, named, Option.getD_some]
  subst is
  have plainly : IsPlainName (nameOf directory) →
      Greets directory (nameOf directory) (limit + 1) scoping := fun plain => by
    simpa using greets_of_encodes plain.encodes limit scoping
  refine ⟨plainly, fun text encodes => ?_⟩
  have greets := greets_of_encodes encodes limit scoping
  refine ⟨greets, fun greetsName => (eq_name_iff encodes).mp ?_, plainly⟩
  rw [← greets.unique greetsName, String.toList_ofList]

theorem new_project_greets_plain_name :
    Path.fileName? "rumah/kampuang" = some "kampuang" ∧ IsPlainName "kampuang" ∧
      Greets "rumah/kampuang" "kampuang" 1 .dynamic := by
  have named : Path.fileName? "rumah/kampuang" = some "kampuang" := by decide +kernel
  have plain : IsPlainName "kampuang" :=
    { noQuote := by decide +kernel
      noEscape := by decide +kernel
      noMark := by decide +kernel }
  exact ⟨named, plain, (new_project_greets named 0 .dynamic).1 plain⟩

/-- A quote in the name closes the string before its time, and what is behind it has no meaning. -/
theorem quoted_name_gives_no_program :
    Path.fileName? "a\"&b" = some "a\"&b" ∧
      ∀ greeted limit scoping, ¬ Greets "a\"&b" greeted limit scoping := by
  have named : Path.fileName? "a\"&b" = some "a\"&b" := by decide +kernel
  have lexes := Piece.lexes_text (show Piece.areApart (opening ++ [.string "a"]) = true by
    decide +kernel)
  have is : (sample "a\"&b").toList = Piece.text (opening ++ [.string "a"]) ++
      '&' :: 'b' :: '"' :: Piece.text (closing version) := by
    have same : (written "a\"&b").toList = ['a', '"', '&', 'b'] := by decide +kernel
    rw [toList_sample, same]
    simp [Piece.text, Piece.chars]
  obtain ⟨e, refused⟩ := lexes.refused is (fun piece last d _ => by
    obtain rfl : Piece.string "a" = piece := Option.some.inj last
    rfl) fun p => ⟨_, rfl⟩
  refine ⟨named, ?_⟩
  rintro greeted limit scoping ⟨program, value, machine, read, -⟩
  rw [nameOf, named, Option.getD_some, readProgram_outcome, parse, refused] at read
  cases read

end Project

end MinangScript
