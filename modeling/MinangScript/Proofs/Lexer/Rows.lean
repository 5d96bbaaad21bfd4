import MinangScript.Proofs.Lexer.Grammar

/-! # Texts lexeme by lexeme

A text that is put together from lexemes is read as these lexemes, as long as none of them runs on
into the next. For a few simple kinds of lexemes that can be computed.
-/

namespace MinangScript

namespace Lexes

variable {fit : List Char → Prop}

theorem feed : Lexes ['\n'] [.newline] fit :=
  of_step fun p after _ => by simp [Lexer.Pass.codeStep]

theorem comment {text : List Char} (oneLine : '\n' ∉ text) :
    Lexes ('/' :: '/' :: text) [] fun after => ∀ d ∈ after.head?, d = '\n' := by
  intro p after mode whole ends
  have inside : ∀ c ∈ '/' :: '/' :: text, decide (c ≠ '\n') = true := by
    simp only [List.forall_mem_cons, decide_eq_true_eq]
    exact ⟨by decide, by decide, fun c member is => oneLine (is ▸ member)⟩
  obtain ⟨taken, left⟩ := @takeWhile_of_ends _ _ after inside fun d first => by
    simp [ends d first]
  have comment : Lexeme.lineComment ('/' :: '/' :: (text ++ after)) = ('/' :: '/' :: text, after) :=
    Prod.ext taken left
  have step : p.codeStep '/' ('/' :: (text ++ after)) =
      .ok (p.skip ('/' :: '/' :: text) after) := by
    simp [Lexer.Pass.codeStep, Lexeme.backtick, comment]
  exact ⟨_, ⟨fun ends => ends.after_step mode whole step, mode, rfl⟩, rfl⟩

/-- A string literal is read as what its body encodes, wherever it stands. -/
theorem string {body text : List Char} (encodes : Encodes '"' body text) :
    Lexes ('"' :: (body ++ ['"'])) [.string (String.ofList text)] fit := by
  refine of_step fun p after _ => ?_
  have step : ∀ rest, p.codeStep '"' rest = .ok (p.string '"' rest) := fun rest => by
    simp [Lexer.Pass.codeStep]
  rw [step, Lexer.Pass.string, List.append_assoc, List.singleton_append,
    encodes.escapedUntil_closed (by decide)]
  simp [encodes.unescape_closed]

end Lexes

/-- A lexeme of a simple kind. -/
inductive Piece where
  | space
  | feed
  | comment (text : String)
  | word (name : String)
  | symbol (c : Char) (s : Symbol)
  /-- A string without escapes. -/
  | string (text : String)

namespace Piece

/-- How the lexeme is written. -/
def chars : Piece → List Char
  | space => [' ']
  | feed => ['\n']
  | comment text => '/' :: '/' :: text.toList
  | word name => name.toList
  | symbol c _ => [c]
  | string text => '"' :: (text.toList ++ ['"'])

/-- What the lexeme is read as. -/
def kinds : Piece → List TokenKind
  | space => []
  | feed => [.newline]
  | comment _ => []
  | word name => [.ofWord name]
  | symbol _ s => [.symbol s]
  | string text => [.string text]

/-- Whether the lexeme is one of its kind. -/
def isSound : Piece → Bool
  | space | feed => true
  | comment text => text.toList.all (· ≠ '\n')
  | word name =>
    match name.toList with
    | [] => false
    | c :: others => Lexeme.isWordStart c && others.all Lexeme.isWordPart
  | symbol c s => Symbol.single? c = some s ∧ c ≠ '/'
  | string text => text.toList.all fun c => c ≠ '"' ∧ c ≠ '\\'

/-- Whether the lexeme ends in front of a character. -/
def endsBefore (d : Char) : Piece → Bool
  | space | feed | string _ => true
  | comment _ => d = '\n'
  | word _ => Lexeme.isWordPart d = false
  | symbol c _ => Symbol.pair? c d = none

/-- What comes after does not continue the lexeme. -/
def Ends (p : Piece) (after : List Char) : Prop :=
  ∀ d ∈ after.head?, p.endsBefore d = true

theorem lexes {p : Piece} (sound : p.isSound = true) : Lexes p.chars p.kinds p.Ends := by
  cases p with
  | space => exact .space
  | feed => exact .feed
  | comment text =>
      have oneLine : '\n' ∉ text.toList := fun member => by
        simpa using List.all_eq_true.mp sound _ member
      exact (Lexes.comment oneLine).mono fun after ends d first => by
        simpa [endsBefore] using ends d first
  | word name =>
      have word : IsWord name.toList := by
        rw [isSound] at sound
        split at sound
        · cases sound
        · rename_i c others is
          rw [Bool.and_eq_true, List.all_eq_true] at sound
          exact ⟨c, others, is, sound⟩
      exact (Lexes.word word rfl).mono fun after ends d first => by
        simpa [endsBefore] using ends d first
  | symbol c s =>
      obtain ⟨single, other⟩ : Symbol.single? c = some s ∧ c ≠ '/' := by
        simpa [isSound] using sound
      exact (Lexes.symbol single other).mono fun after ends d first => by
        simpa [endsBefore] using ends d first
  | string text =>
      have plain : ∀ c ∈ text.toList, c ≠ '"' ∧ c ≠ '\\' := by simpa [isSound] using sound
      have lexes : Lexes ('"' :: (text.toList ++ ['"'])) [.string (String.ofList text.toList)]
          (string text).Ends := .string (.of_plain plain)
      rwa [String.ofList_toList] at lexes

theorem chars_ne_nil {p : Piece} (sound : p.isSound = true) : p.chars ≠ [] := by
  cases p with
  | word name =>
      intro empty
      rw [isSound, show name.toList = [] from empty] at sound
      cases sound
  | space | feed | comment | symbol | string => exact List.cons_ne_nil _ _

/-- The text that is put together from pieces. -/
def text (pieces : List Piece) : List Char :=
  pieces.flatMap chars

/-- Whether all pieces are sound and none of them runs on into the next. -/
def areApart : List Piece → Bool
  | [] => true
  | p :: rest => p.isSound && (text rest).head?.all (p.endsBefore ·) && areApart rest

/-- What comes after the last piece must not continue it. -/
theorem lexes_text {pieces : List Piece} (apart : areApart pieces = true) :
    Lexes (text pieces) (pieces.flatMap kinds)
      fun after => ∀ p ∈ pieces.getLast?, p.Ends after := by
  induction pieces with
  | nil => exact .nil
  | cons p rest ih =>
      rw [areApart, Bool.and_eq_true, Bool.and_eq_true] at apart
      obtain ⟨⟨sound, ends⟩, others⟩ := apart
      cases rest with
      | nil => simpa [text] using lexes sound
      | cons q more =>
          have nonempty : q.chars ≠ [] := by
            rw [areApart, Bool.and_eq_true, Bool.and_eq_true] at others
            exact chars_ne_nil others.1.1
          obtain ⟨c, behind, is⟩ : ∃ c behind, text (q :: more) = c :: behind :=
            List.exists_cons_of_ne_nil (by simp [text, nonempty])
          have joint : ∀ after, p.Ends (text (q :: more) ++ after) := by
            intro after d first
            rw [is] at ends first
            obtain rfl : c = d := Option.some.inj first
            exact ends
          exact (lexes sound).append (ih others) fun after _ => joint after

end Piece

end MinangScript
