import MinangScript.Decimal.Numeral

/-! # Lexemes

How far a token reaches. Each function splits a text into a lexeme at its front and the rest, and
the two together are always the text again; what a lexeme means is read from it afterwards.
-/

namespace MinangScript

namespace Lexeme

/-- The text up to the first place where `stop` holds of what remains, a backslash taking the next
character with it. `seen` is what was passed already, in reverse. -/
def escapedUntil (stop : List Char → Bool) (seen : List Char) :
    List Char → List Char × List Char
  | [] => (seen.reverse, [])
  | c :: rest =>
    if stop (c :: rest) then (seen.reverse, c :: rest)
    else if c = '\\' then
      match rest with
      | [] => ((c :: seen).reverse, [])
      | e :: rest' => escapedUntil stop (e :: c :: seen) rest'
    else escapedUntil stop (c :: seen) rest

def startsWith (c : Char) : List Char → Bool
  | [] => false
  | d :: _ => d == c

/-- The backtick, which opens and closes template literals. -/
def backtick : Char := '\x60'

/-- Whether a text of a template literal ends here: at a backtick or before an interpolation. -/
def endsTemplateText : List Char → Bool
  | '$' :: '\x7b' :: _ => true
  | c :: _ => c == backtick
  | [] => false

/-- What the character after a backslash stands for. -/
def unescapedChar (c : Char) : Char :=
  if c = 'n' then '\n' else if c = 't' then '\t' else if c = 'r' then '\r' else c

/-- Reads the escapes of a text; a backslash with nothing after it is dropped. `seen` is what was
read already, in reverse. -/
def unescape (seen : List Char) : List Char → List Char
  | [] => seen.reverse
  | c :: rest =>
    if c = '\\' then
      match rest with
      | [] => seen.reverse
      | e :: rest' => unescape (unescapedChar e :: seen) rest'
    else unescape (c :: seen) rest

/-- A line comment: everything up to the line feed. -/
def lineComment (text : List Char) : List Char × List Char :=
  (text.takeWhile (· ≠ '\n'), text.dropWhile (· ≠ '\n'))

/-- The rest of a block comment, its closing mark included; without one it reaches to the end. -/
def blockComment (seen : List Char) : List Char → List Char × List Char
  | [] => (seen.reverse, [])
  | '*' :: '/' :: rest => (('/' :: '*' :: seen).reverse, rest)
  | c :: rest => blockComment (c :: seen) rest

/-- The text of an interpolation: up to the brace that closes it, when `depth` more braces are
open inside. -/
def interpolation (depth : Nat) (seen : List Char) : List Char → List Char × List Char
  | [] => (seen.reverse, [])
  | c :: rest =>
    if c = '\x7b' then interpolation (depth + 1) (c :: seen) rest
    else if c = '\x7d' then
      match depth with
      | 0 => (seen.reverse, c :: rest)
      | depth' + 1 => interpolation depth' (c :: seen) rest
    else interpolation depth (c :: seen) rest

/-- The fraction of a decimal literal: a point and digits. -/
def fraction : List Char → List Char × List Char
  | '.' :: rest =>
    let (digits, after) := digitRun rest
    ('.' :: digits, after)
  | text => ([], text)

def sign : List Char → List Char × List Char
  | '+' :: rest => (['+'], rest)
  | '-' :: rest => (['-'], rest)
  | text => ([], text)

/-- The exponent of a decimal literal: its mark, a sign, digits, of which the last two may be
missing. -/
def exponent : List Char → List Char × List Char
  | mark :: rest =>
    if mark = 'e' ∨ mark = 'E' then
      let (signText, afterSign) := sign rest
      let (digits, after) := digitRun afterSign
      (mark :: signText ++ digits, after)
    else ([], mark :: rest)
  | [] => ([], [])

def decimal (text : List Char) : List Char × List Char :=
  let (whole, afterWhole) := digitRun text
  let (point, afterPoint) := fraction afterWhole
  let (power, after) := exponent afterPoint
  (whole ++ point ++ power, after)

def isWordStart (c : Char) : Bool :=
  c.isAlpha || c == '_'

def isWordPart (c : Char) : Bool :=
  c.isAlphanum || c == '_'

def word (text : List Char) : List Char × List Char :=
  (text.takeWhile isWordPart, text.dropWhile isWordPart)

def isFlag (c : Char) : Bool :=
  c == 'g' || c == 'i' || c == 'm' || c == 'u' || c == 'y'

/-- The flags behind a regex literal. -/
def flags (text : List Char) : List Char × List Char :=
  (text.takeWhile isFlag, text.dropWhile isFlag)

/-- The value of a character as a digit in the given base, if it is one. -/
def digitValue? (base : Nat) (c : Char) : Option Nat :=
  let value :=
    if '0' ≤ c ∧ c ≤ '9' then some (c.toNat - '0'.toNat)
    else if 'a' ≤ c ∧ c ≤ 'f' then some (c.toNat - 'a'.toNat + 10)
    else if 'A' ≤ c ∧ c ≤ 'F' then some (c.toNat - 'A'.toNat + 10)
    else none
  value.filter (· < base)

def digitsIn (base : Nat) (text : List Char) : List Char × List Char :=
  (text.takeWhile fun c => (digitValue? base c).isSome,
   text.dropWhile fun c => (digitValue? base c).isSome)

end Lexeme

end MinangScript
