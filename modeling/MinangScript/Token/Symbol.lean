/-! # Symbols

The operators and delimiters of the language, each with its spelling and the name that messages
use for it. No symbol is longer than two characters.
-/

namespace MinangScript

/-- An operator or a delimiter. -/
inductive Symbol where
  | plus | minus | star | slash | percent
  | assign | equal | notEqual | less | greater | atMost | atLeast
  | and | or | not
  | increment | decrement | plusAssign | minusAssign | starAssign | slashAssign
  | power | optionalChain | nullish | arrow
  | leftParen | rightParen | leftBrace | rightBrace | leftBracket | rightBracket
  | comma | semicolon | dot | colon | question | atSign | hash
  deriving Repr, DecidableEq, Inhabited

namespace Symbol

def spelling : Symbol → String
  | plus => "+"
  | minus => "-"
  | star => "*"
  | slash => "/"
  | percent => "%"
  | assign => "="
  | equal => "=="
  | notEqual => "!="
  | less => "<"
  | greater => ">"
  | atMost => "<="
  | atLeast => ">="
  | and => "&&"
  | or => "||"
  | not => "!"
  | increment => "++"
  | decrement => "--"
  | plusAssign => "+="
  | minusAssign => "-="
  | starAssign => "*="
  | slashAssign => "/="
  | power => "**"
  | optionalChain => "?."
  | nullish => "??"
  | arrow => "=>"
  | leftParen => "("
  | rightParen => ")"
  | leftBrace => "\x7b"
  | rightBrace => "\x7d"
  | leftBracket => "["
  | rightBracket => "]"
  | comma => ","
  | semicolon => ";"
  | dot => "."
  | colon => ":"
  | question => "?"
  | atSign => "@"
  | hash => "#"

/-- What messages call the symbol. -/
def name : Symbol → String
  | plus => "PLUS"
  | minus => "MINUS"
  | star => "MULTIPLY"
  | slash => "DIVIDE"
  | percent => "MODULO"
  | assign => "ASSIGN"
  | equal => "EQUAL"
  | notEqual => "NOT_EQUAL"
  | less => "LESS_THAN"
  | greater => "GREATER_THAN"
  | atMost => "LESS_EQUAL"
  | atLeast => "GREATER_EQUAL"
  | and => "AND"
  | or => "OR"
  | not => "NOT"
  | increment => "INCREMENT"
  | decrement => "DECREMENT"
  | plusAssign => "PLUS_ASSIGN"
  | minusAssign => "MINUS_ASSIGN"
  | starAssign => "MULTIPLY_ASSIGN"
  | slashAssign => "DIVIDE_ASSIGN"
  | power => "POWER"
  | optionalChain => "OPTIONAL_CHAIN"
  | nullish => "NULLISH_COALESCING"
  | arrow => "ARROW"
  | leftParen => "LPAREN"
  | rightParen => "RPAREN"
  | leftBrace => "LBRACE"
  | rightBrace => "RBRACE"
  | leftBracket => "LBRACKET"
  | rightBracket => "RBRACKET"
  | comma => "COMMA"
  | semicolon => "SEMICOLON"
  | dot => "DOT"
  | colon => "COLON"
  | question => "QUESTION"
  | atSign => "AT"
  | hash => "HASH"

/-- The symbol of two characters that starts with `a` and ends with `b`. -/
def pair? (a b : Char) : Option Symbol :=
  match a, b with
  | '=', '=' => some equal
  | '!', '=' => some notEqual
  | '<', '=' => some atMost
  | '>', '=' => some atLeast
  | '&', '&' => some and
  | '|', '|' => some or
  | '+', '+' => some increment
  | '-', '-' => some decrement
  | '+', '=' => some plusAssign
  | '-', '=' => some minusAssign
  | '*', '=' => some starAssign
  | '/', '=' => some slashAssign
  | '*', '*' => some power
  | '?', '.' => some optionalChain
  | '?', '?' => some nullish
  | '=', '>' => some arrow
  | _, _ => none

/-- The symbol of one character. -/
def single? (c : Char) : Option Symbol :=
  match c with
  | '+' => some plus
  | '-' => some minus
  | '*' => some star
  | '/' => some slash
  | '%' => some percent
  | '=' => some assign
  | '<' => some less
  | '>' => some greater
  | '!' => some not
  | '(' => some leftParen
  | ')' => some rightParen
  | '\x7b' => some leftBrace
  | '\x7d' => some rightBrace
  | '[' => some leftBracket
  | ']' => some rightBracket
  | ',' => some comma
  | ';' => some semicolon
  | '.' => some dot
  | ':' => some colon
  | '?' => some question
  | '@' => some atSign
  | '#' => some hash
  | _ => none

/-- A symbol found for one character is spelled by it. -/
theorem spelling_of_single? {c : Char} {s : Symbol} (h : single? c = some s) :
    s.spelling.toList = [c] := by
  unfold single? at h
  split at h <;> first | (cases h; decide) | cases h

/-- A symbol found for two characters is spelled by them. -/
theorem spelling_of_pair? {a b : Char} {s : Symbol} (h : pair? a b = some s) :
    s.spelling.toList = [a, b] := by
  unfold pair? at h
  split at h <;> first | (cases h; decide) | cases h

end Symbol

end MinangScript
