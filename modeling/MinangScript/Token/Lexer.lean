import MinangScript.Token.Basic
import MinangScript.Token.Lexeme

/-! # From text to tokens

A pass walks over a text one lexeme at a time. Inside a template literal it walks over texts and
interpolations instead; the text of an interpolation gets a pass of its own, as if it were a whole
source text, and its tokens are moved to where the interpolation stands and put between the
markers. Only one decision looks back: whether a slash opens a regex depends on the token before it
in its pass.
-/

namespace MinangScript

/-- Why a text has no tokens. -/
inductive LexError where
  /-- No token begins with this character. -/
  | unexpectedCharacter (c : Char) (position : Position)
  /-- A base mark such as `0x` without a digit after it. -/
  | malformedNumber (text : String) (position : Position)
  deriving Repr, DecidableEq

namespace LexError

def position : LexError → Position
  | unexpectedCharacter _ p => p
  | malformedNumber _ p => p

/-- An error in a text of its own, moved to where that text begins. -/
def shift (base : Position) : LexError → LexError
  | unexpectedCharacter c p => unexpectedCharacter c (p.shift base)
  | malformedNumber text p => malformedNumber text (p.shift base)

def message : LexError → String
  | unexpectedCharacter c p =>
    "unexpected character '" ++ String.singleton c ++ "' at " ++ p.phrase
  | malformedNumber text p =>
    "malformed number literal '" ++ text ++ "' at " ++ p.phrase

end LexError

namespace Lexer

/-- What a pass is reading. -/
inductive Mode where
  /-- Ordinary tokens. -/
  | code
  /-- A template literal, whose present text counts as beginning at `textStart`. -/
  | template (textStart : Position)
  deriving Repr, DecidableEq

/-- A pass under way: what it reads, where it is, and its tokens so far, the latest first. -/
structure Pass where
  mode : Mode
  rest : List Char
  position : Position
  tokens : List Token
  deriving Repr

namespace Pass

def start (text : List Char) (position : Position) : Pass :=
  ⟨.code, text, position, []⟩

/-- Moves on over a lexeme. -/
def skip (p : Pass) (lexeme rest : List Char) : Pass :=
  { p with rest := rest, position := p.position.advanceBy lexeme }

def push (p : Pass) (kind : TokenKind) (position : Position) : Pass :=
  { p with tokens := ⟨kind, position⟩ :: p.tokens }

/-- Moves on over a lexeme that is a token. -/
def take (p : Pass) (kind : TokenKind) (lexeme rest : List Char) : Pass :=
  (p.skip lexeme rest).push kind p.position

/-- Whether a slash opens a regex here. -/
def regexAllowed (p : Pass) : Bool :=
  match p.tokens with
  | [] => true
  | t :: _ => t.kind.opensRegex

/-- A string literal after its opening quote; the end of the text closes it too. -/
def string (p : Pass) (quote : Char) (rest : List Char) : Pass :=
  let (body, after) := Lexeme.escapedUntil (Lexeme.startsWith quote) [] rest
  p.take (.string (String.ofList (Lexeme.unescape [] body)))
    (quote :: body ++ after.take 1) (after.drop 1)

/-- A regex literal after its opening slash; the end of the text closes it too. -/
def regex (p : Pass) (rest : List Char) : Pass :=
  let (body, after) := Lexeme.escapedUntil (Lexeme.startsWith '/') [] rest
  let (flags, after') := Lexeme.flags (after.drop 1)
  p.take (.regex (String.ofList body) (String.ofList flags))
    ('/' :: body ++ after.take 1 ++ flags) after'

/-- The value of digits in another base. It grows digit by digit in floating point arithmetic. -/
def radixValue (base : Nat) (digits : List Char) : Float :=
  digits.foldl (fun v c => v * base.toFloat + ((Lexeme.digitValue? base c).getD 0).toFloat) 0

/-- A number literal in another base, after its mark. -/
def radix (p : Pass) (base : Nat) (zero mark : Char) (rest : List Char) :
    Except LexError Pass :=
  let (digits, after) := Lexeme.digitsIn base rest
  if digits.isEmpty then
    .error (.malformedNumber (String.ofList [zero, mark]) p.position)
  else .ok (p.take (.number (radixValue base digits)) (zero :: mark :: digits) after)

/-- The value of a decimal literal; an exponent without digits does not count. -/
def decimalValue (lexeme : List Char) : Float :=
  match Numeral.scan? lexeme with
  | some (n, _) => n.toFloat false
  | none => 0

def decimal (p : Pass) (text : List Char) : Pass :=
  let (lexeme, after) := Lexeme.decimal text
  p.take (.number (decimalValue lexeme)) lexeme after

def word (p : Pass) (text : List Char) : Pass :=
  let (lexeme, after) := Lexeme.word text
  p.take (.ofWord (String.ofList lexeme)) lexeme after

/-- A symbol of one character, or a word, or nothing known. -/
def singleOrWord (p : Pass) (c : Char) (rest : List Char) : Except LexError Pass :=
  match Symbol.single? c with
  | some s => .ok (p.take (.symbol s) [c] rest)
  | none =>
    if Lexeme.isWordStart c then .ok (p.word (c :: rest))
    else .error (.unexpectedCharacter c p.position)

/-- A symbol, a regex or a word. -/
def symbolOrWord (p : Pass) (c : Char) (rest : List Char) : Except LexError Pass :=
  match rest with
  | d :: rest' =>
    match Symbol.pair? c d with
    | some s => .ok (p.take (.symbol s) [c, d] rest')
    | none =>
      if c = '/' ∧ p.regexAllowed then .ok (p.regex rest) else p.singleOrWord c rest
  | [] =>
    if c = '/' ∧ p.regexAllowed then .ok (p.regex rest) else p.singleOrWord c rest

/-- The base that a mark after a zero stands for. -/
def base? (mark : Char) : Option Nat :=
  match mark with
  | 'x' | 'X' => some 16
  | 'b' | 'B' => some 2
  | 'o' | 'O' => some 8
  | _ => none

def number (p : Pass) (c : Char) (rest : List Char) : Except LexError Pass :=
  match rest with
  | d :: rest' =>
    match if c = '0' then base? d else none with
    | some base => p.radix base c d rest'
    | none => .ok (p.decimal (c :: rest))
  | [] => .ok (p.decimal (c :: rest))

/-- Reads one lexeme of ordinary text, which begins with `c`. -/
def codeStep (p : Pass) (c : Char) (rest : List Char) : Except LexError Pass :=
  if c = ' ' ∨ c = '\t' ∨ c = '\r' then .ok (p.skip [c] rest)
  else if c = '\n' then .ok (p.take .newline [c] rest)
  else if c = '"' ∨ c = '\'' then .ok (p.string c rest)
  else if c = Lexeme.backtick then
    .ok { p.skip [c] rest with mode := .template p.position }
  else if c.isDigit then p.number c rest
  else
    match c, rest with
    | '/', '/' :: _ =>
      let (lexeme, after) := Lexeme.lineComment (c :: rest)
      .ok (p.skip lexeme after)
    | '/', '*' :: rest' =>
      let (lexeme, after) := Lexeme.blockComment ['*', '/'] rest'
      .ok (p.skip lexeme after)
    | _, _ => p.symbolOrWord c rest

/-- A text of a template literal: how it is written, what it reads as, and what comes after. -/
def templateText (p : Pass) : List Char × String × List Char :=
  let (body, after) := Lexeme.escapedUntil Lexeme.endsTemplateText [] p.rest
  (body, String.ofList (Lexeme.unescape [] body), after)

/-- The end of a template literal: its last text, even if empty. The end of the text closes it
too. -/
def closeTemplate (p : Pass) (textStart : Position) (body : List Char) (text : String)
    (after : List Char) : Pass :=
  { (p.skip (body ++ after.take 1) (after.drop 1)).push (.templateText text) textStart with
    mode := .code }

/-- The beginning of an interpolation: the text before it, unless empty, and the marker. -/
def openInterpolation (p : Pass) (textStart : Position) (body : List Char) (text : String)
    (after : List Char) : Pass :=
  let p := p.skip body after
  let p := if text.isEmpty then p else p.push (.templateText text) textStart
  p.take .interpolationStart (after.take 2) (after.drop 2)

/-- The end of an interpolation: the tokens of `inner`, the marker, and what comes after. -/
def closeInterpolation (p : Pass) (inner : List Char) (tokens : List Token)
    (after : List Char) : Pass :=
  let p := { p.skip inner after with tokens := tokens ++ p.tokens }
  let p := p.take .interpolationEnd (after.take 1) (after.drop 1)
  { p with mode := .template p.position }

end Pass

/-- The tokens of a pass, the latest first, or why there are none; and the sizes of the passes
that were finished on the way, the latest first. -/
structure Result where
  outcome : Except LexError Pass
  sizes : List Nat

/-- Runs a pass to its end, in at most `fuel` steps. Each step reads a character or leaves a
template at the end of the text, so the length of the text and two are enough. -/
def run : Nat → List Nat → Pass → Result
  | 0, sizes, p => ⟨.ok p, sizes⟩
  | fuel + 1, sizes, p =>
    match p.mode with
    | .code =>
      match p.rest with
      | [] => ⟨.ok p, sizes⟩
      | c :: rest =>
        match p.codeStep c rest with
        | .error e => ⟨.error e, sizes⟩
        | .ok next => run fuel sizes next
    | .template textStart =>
      let (body, text, after) := p.templateText
      match after with
      | '$' :: '\x7b' :: _ =>
        let opened := p.openInterpolation textStart body text after
        let (inner, after') := Lexeme.interpolation 0 [] opened.rest
        if inner.all isBlank then
          run fuel sizes (opened.closeInterpolation inner [] after')
        else
          match run fuel sizes (Pass.start inner .start) with
          | ⟨.error e, sizes'⟩ => ⟨.error (e.shift opened.position), sizes'⟩
          | ⟨.ok done, sizes'⟩ =>
            let tokens := done.tokens.map (·.shift opened.position)
            run fuel ((tokens.length + 1) :: sizes')
              (opened.closeInterpolation inner tokens after')
      | _ => run fuel sizes (p.closeTemplate textStart body text after)

end Lexer

/-- The outcome of reading a source text: its tokens, and the sizes of all passes, innermost and
earliest first. The sizes count the end of each pass as a token. -/
structure Lexing where
  outcome : Except LexError (List Token)
  sizes : List Nat

def lex (source : String) : Lexing :=
  let text := source.toList
  match Lexer.run (text.length + 2) [] (Lexer.Pass.start text .start) with
  | ⟨.error e, sizes⟩ => ⟨.error e, sizes.reverse⟩
  | ⟨.ok done, sizes⟩ =>
    let tokens := (done.push .endOfText done.position).tokens
    ⟨.ok tokens.reverse, (tokens.length :: sizes).reverse⟩

/-- The tokens of a source text, the last of which is its end. -/
def tokenize (source : String) : Except LexError (List Token) :=
  (lex source).outcome

end MinangScript
