import MinangScript.Number
import MinangScript.Position
import MinangScript.Text.Quoted
import MinangScript.Token.Symbol
import MinangScript.Token.Word

/-! # Tokens

A token is a piece of source text with its meaning already read and the position where it begins.
A template literal is several tokens: its texts, and between a pair of markers the tokens of each
interpolation.
-/

namespace MinangScript

/-- What a token is. -/
inductive TokenKind where
  | newline
  /-- The end of the text. -/
  | endOfText
  | number (value : Float)
  /-- A string literal, its escapes read. -/
  | string (text : String)
  /-- A regex literal, its text as written. -/
  | regex (pattern flags : String)
  /-- A piece of text of a template literal, its escapes read. -/
  | templateText (text : String)
  /-- Where an interpolation begins. -/
  | interpolationStart
  /-- Where an interpolation ends. -/
  | interpolationEnd
  | identifier (name : String)
  /-- A word of the grammar. -/
  | keyword (word : Keyword)
  /-- A word that is set aside. -/
  | reserved (word : Reserved)
  /-- An operator or a delimiter. -/
  | symbol (symbol : Symbol)
  deriving Repr, BEq, Inhabited

namespace TokenKind

/-- What messages call a token of this kind. -/
def name : TokenKind → String
  | newline => "NEWLINE"
  | endOfText => "EOF"
  | number _ => "NUMBER"
  | string _ => "STRING"
  | regex _ _ => "REGEX"
  | templateText _ => "TEMPLATE_STRING"
  | interpolationStart => "TEMPLATE_EXPR_START"
  | interpolationEnd => "TEMPLATE_EXPR_END"
  | identifier _ => "IDENTIFIER"
  | keyword word => word.name
  | reserved word => word.name
  | symbol s => s.name

/-- What a word means: a keyword, a reserved word, or a name. -/
def ofWord (word : String) : TokenKind :=
  match Keyword.ofSpelling? word with
  | some k => keyword k
  | none =>
    match Reserved.ofSpelling? word with
    | some r => reserved r
    | none => identifier word

/-- Whether a slash after this token opens a regex literal rather than dividing. -/
def opensRegex : TokenKind → Bool
  | symbol s =>
    match s with
    | .assign | .leftParen | .comma | .leftBracket | .colon | .equal | .notEqual => true
    | _ => false
  | keyword .returnWord => true
  | _ => false

/-- The name of the kind with the value it carries, as token listings show it. -/
def describe : TokenKind → String
  | number value => "NUMBER " ++ Number.text value
  | string text => "STRING " ++ quoted text
  | templateText text => "TEMPLATE_STRING " ++ quoted text
  | identifier name => "IDENTIFIER " ++ name
  | regex pattern flags => "REGEX /" ++ pattern ++ "/" ++ flags
  | kind => kind.name

end TokenKind

/-- A kind of token at a position. -/
structure Token where
  kind : TokenKind
  position : Position
  deriving Repr, BEq, Inhabited

/-- A token of a text of its own, moved to where that text begins. -/
def Token.shift (t : Token) (base : Position) : Token :=
  { t with position := t.position.shift base }

/-- One line of a token listing. -/
def Token.describe (t : Token) : String :=
  t.kind.describe ++ " (" ++ t.position.text ++ ")"

end MinangScript
