import MinangScript.Json.Basic
import MinangScript.Decimal.Numeral
import MinangScript.Reader
import MinangScript.Token.Lexeme

/-! # Reading JSON

The text is read strictly. A failure tells a line and a column, where the column counts the bytes
since the last line feed; some failures point behind the offending byte and some before it. Arrays
and objects may be nested `Json.maxDepth` deep.

Numbers without fraction and exponent that fit a word of 64 bits are taken as they are. In all
others the digits that fit such a word are scaled by one multiplication or division with a power
of ten, which need not give the nearest double.
-/

namespace MinangScript

namespace Json

/-- Why a text is no document. -/
inductive Problem where
  | endInValue | endInString | endInList | endInObject
  | expectedValue | expectedIdent | invalidNumber | numberOutOfRange
  | controlCharacter | invalidEscape | loneSurrogate | unexpectedEscapeEnd
  | expectedCommaInList | expectedCommaInObject | expectedColon
  | trailingComma | keyNotString | tooDeep | trailingCharacters
  deriving Repr, DecidableEq

def Problem.text : Problem → String
  | endInValue => "EOF while parsing a value"
  | endInString => "EOF while parsing a string"
  | endInList => "EOF while parsing a list"
  | endInObject => "EOF while parsing an object"
  | expectedValue => "expected value"
  | expectedIdent => "expected ident"
  | invalidNumber => "invalid number"
  | numberOutOfRange => "number out of range"
  | controlCharacter => "control character (\\u0000-\\u001F) found while parsing a string"
  | invalidEscape => "invalid escape"
  | loneSurrogate => "lone leading surrogate in hex escape"
  | unexpectedEscapeEnd => "unexpected end of hex escape"
  | expectedCommaInList => "expected `,` or `]`"
  | expectedCommaInObject => "expected `,` or `\x7d`"
  | expectedColon => "expected `:`"
  | trailingComma => "trailing comma"
  | keyNotString => "key must be a string"
  | tooDeep => "recursion limit exceeded"
  | trailingCharacters => "trailing characters"

/-- What remains to be read, and where it stands: its line, and the bytes before it on that line. -/
structure Cursor where
  rest : List Char
  line : Nat
  column : Nat
  deriving Repr, DecidableEq

namespace Cursor

def start (text : List Char) : Cursor :=
  ⟨text, 1, 0⟩

def advance (c : Cursor) : Cursor :=
  match c.rest with
  | [] => c
  | '\n' :: rest => ⟨rest, c.line + 1, 0⟩
  | d :: rest => ⟨rest, c.line, c.column + d.utf8Size⟩

/-- The line and column after so many more bytes, or at the end of the text. -/
def placeAfter (line column : Nat) : List Char → Nat → Nat × Nat
  | [], _ => (line, column)
  | _, 0 => (line, column)
  | d :: rest, bytes =>
    if bytes < d.utf8Size then (line, column + bytes)
    else if d = '\n' then placeAfter (line + 1) 0 rest (bytes - 1)
    else placeAfter line (column + d.utf8Size) rest (bytes - d.utf8Size)

def byteCount (text : List Char) : Nat :=
  text.foldl (fun n c => n + c.utf8Size) 0

end Cursor

/-- A problem and where it was found. -/
structure Error where
  problem : Problem
  line : Nat
  column : Nat
  deriving Repr, DecidableEq

def Error.message (e : Error) : String :=
  e.problem.text ++ " at line " ++ toString e.line ++ " column " ++ toString e.column

abbrev JsonReader := Reader Cursor Error

namespace JsonReader

open Reader (iterate)

/-- How deep arrays and objects may nest. -/
def maxDepth : Nat := 127

/-- Fails behind so many more bytes. -/
def failAfter {α : Type} (bytes : Nat) (problem : Problem) : JsonReader α := fun c =>
  let (line, column) := Cursor.placeAfter c.line c.column c.rest bytes
  .error ⟨problem, line, column⟩

/-- Fails before the next character. -/
def failHere {α : Type} (problem : Problem) : JsonReader α :=
  failAfter 0 problem

/-- Fails behind the first byte of the next character. -/
def failNext {α : Type} (problem : Problem) : JsonReader α :=
  failAfter 1 problem

def peek : JsonReader (Option Char) := do
  return (← get).rest.head?

def skip : JsonReader Unit :=
  modify Cursor.advance

/-- Whether a character may stand between the parts of a document. -/
def isSpace (c : Char) : Bool :=
  c == ' ' || c == '\n' || c == '\t' || c == '\r'

/-- Moves on over characters of which `take` holds, and returns them. -/
def takeWhile (take : Char → Bool) : JsonReader (List Char) := fun c =>
  let taken := c.rest.takeWhile take
  let (line, column) := Cursor.placeAfter c.line c.column taken (Cursor.byteCount taken)
  .ok (taken, ⟨c.rest.dropWhile take, line, column⟩)

/-- The next character that is not space. -/
def nextSolid : JsonReader (Option Char) := do
  let _ ← takeWhile isSpace
  peek

/-- The rest of a word such as `null`, letter by letter. -/
def word : List Char → JsonReader Unit
  | [] => pure ()
  | expected :: rest => do
    match ← peek with
    | none => failHere .endInValue
    | some c =>
      if c = expected then
        skip
        word rest
      else failNext .expectedIdent

/-- The greatest number that fits a word of 64 bits. -/
def maxWord : Nat := Nat.pow 2 64 - 1

def maxExponent : Nat := Nat.pow 2 31 - 1

def digitOf (c : Char) : Nat :=
  c.toNat - '0'.toNat

/-- Takes digits into a number as long as it fits a word; returns it with the digits that were too
many. -/
def fitDigits (significand : Nat) : List Char → Nat × List Char
  | [] => (significand, [])
  | d :: rest =>
    if significand * 10 + digitOf d ≤ maxWord then fitDigits (significand * 10 + digitOf d) rest
    else (significand, d :: rest)

/-- The power of ten nearest to `10 ^ e`. -/
def powerOfTen (e : Nat) : Float :=
  Binary64.toFloat false (Binary64.nearestDecimal 1 e)

/-- Scales a number by a power of ten, in steps if the power is out of range; `none` if the result
is too great. -/
def scale : Nat → Float → Int → Option Float
  | 0, f, _ => some f
  | steps + 1, f, e =>
    if e.natAbs ≤ 308 then
      if 0 ≤ e then
        let scaled := f * powerOfTen e.natAbs
        if scaled.isInf then none else some scaled
      else some (f / powerOfTen e.natAbs)
    else if f == 0 then some f
    else if 0 ≤ e then none
    else scale steps (f / powerOfTen 308) (e + 308)

/-- The number with the given sign, significand and exponent. -/
def fromParts (negative : Bool) (significand : Nat) (exponent : Int) : JsonReader Json := do
  match scale 5 (UInt64.ofNat significand).toFloat exponent with
  | some f => return .float (if negative then -f else f)
  | none => failHere .numberOutOfRange

/-- Reads digits into an exponent; `none` as soon as it is too great. -/
def exponentDigits : Nat → List Char → JsonReader (Option Nat)
  | value, [] => return some value
  | value, d :: rest => do
    skip
    if value * 10 + digitOf d ≤ maxExponent then exponentDigits (value * 10 + digitOf d) rest
    else return none

def digitsAhead : JsonReader (List Char) := do
  return (← get).rest.takeWhile Char.isDigit

/-- A number from its exponent mark on. -/
def exponent (negative : Bool) (significand : Nat) (before : Int) : JsonReader Json := do
  skip
  let sign ← peek
  if sign = some '+' ∨ sign = some '-' then skip
  match ← peek with
  | none => failHere .endInValue
  | some c =>
    if c.isDigit then
      match ← exponentDigits 0 (← digitsAhead) with
      | some size =>
        fromParts negative significand (if sign = some '-' then before - size else before + size)
      | none =>
        if significand ≠ 0 ∧ sign ≠ some '-' then failHere .numberOutOfRange
        else
          let _ ← takeWhile Char.isDigit
          return .float (if negative then -0.0 else 0.0)
    else failNext .invalidNumber

/-- What comes after the digits of a number: an exponent or its end. -/
def numberEnd (negative : Bool) (significand : Nat) (before : Int) : JsonReader Json := do
  let c ← peek
  if c = some 'e' ∨ c = some 'E' then exponent negative significand before
  else fromParts negative significand before

/-- A number from its point on. -/
def fraction (negative : Bool) (significand : Nat) (before : Int) : JsonReader Json := do
  skip
  let digits ← takeWhile Char.isDigit
  if digits.isEmpty then
    match ← peek with
    | none => failNext .endInValue
    | some _ => failNext .invalidNumber
  else
    let (significand, tooMany) := fitDigits significand digits
    numberEnd negative significand (before - ((digits.length - tooMany.length : Nat) : Int))

/-- A whole number that fits a word; negative zero and what is below the least signed word are
floats. -/
def wholeNumber (negative : Bool) (significand : Nat) : Json :=
  if negative then
    if significand = 0 ∨ Nat.pow 2 63 < significand then
      .float (-(UInt64.ofNat significand).toFloat)
    else .integer (-(significand : Int))
  else .integer significand

/-- A number after its sign. -/
def unsigned (negative : Bool) : JsonReader Json := do
  match ← peek with
  | none => failHere .endInValue
  | some first =>
    if ¬ first.isDigit then failNext .invalidNumber
    else
      let digits ←
        if first = '0' then
          skip
          if ((← peek).map Char.isDigit).getD false then failNext .invalidNumber
          pure ['0']
        else takeWhile Char.isDigit
      let (significand, tooMany) := fitDigits 0 digits
      let before : Int := tooMany.length
      match ← peek with
      | some '.' => fraction negative significand before
      | some 'e' | some 'E' => exponent negative significand before
      | _ =>
        if tooMany.isEmpty then return wholeNumber negative significand
        else fromParts negative significand before

def number : JsonReader Json := do
  if (← peek) = some '-' then
    skip
    unsigned true
  else unsigned false

/-- The value of four hexadecimal digits. -/
def hexValue? (digits : List Char) : Option Nat :=
  digits.foldl (fun value c => do
    let value ← value
    let digit ← Lexeme.digitValue? 16 c
    return value * 16 + digit) (some 0)

/-- The four hexadecimal digits of an escape. -/
def hexEscape : JsonReader Nat := do
  let c ← get
  if Cursor.byteCount (c.rest.take 4) < 4 then failAfter 4 .endInString
  else
    match hexValue? (c.rest.take 4) with
    | some value =>
      skip; skip; skip; skip
      return value
    | none => failAfter 4 .invalidEscape

/-- One character of the second half of an escaped pair of surrogates. -/
def pairMark (expected : Char) : JsonReader Unit := do
  match ← peek with
  | none => failHere .endInString
  | some c => if c = expected then skip else failNext .unexpectedEscapeEnd

/-- The character of an escape by number, which may need a second one behind it. -/
def numberEscape : JsonReader Char := do
  let n ← hexEscape
  if 0xDC00 ≤ n ∧ n ≤ 0xDFFF then failHere .loneSurrogate
  else if 0xD800 ≤ n ∧ n ≤ 0xDBFF then
    pairMark '\\'
    pairMark 'u'
    let m ← hexEscape
    if 0xDC00 ≤ m ∧ m ≤ 0xDFFF then
      return Char.ofNat ((n - 0xD800) * 0x400 + (m - 0xDC00) + 0x10000)
    else failHere .loneSurrogate
  else return Char.ofNat n

/-- The character that a letter after a backslash stands for. -/
def shortEscape? (c : Char) : Option Char :=
  match c with
  | '"' => some '"'
  | '\\' => some '\\'
  | '/' => some '/'
  | 'b' => some '\x08'
  | 'f' => some '\x0c'
  | 'n' => some '\n'
  | 'r' => some '\r'
  | 't' => some '\t'
  | _ => none

/-- An escape after its backslash. -/
def escape : JsonReader Char := do
  match ← peek with
  | none => failHere .endInString
  | some 'u' =>
    skip
    numberEscape
  | some c =>
    match shortEscape? c with
    | some value =>
      skip
      return value
    | none => failNext .invalidEscape

/-- The rest of a string after its opening quote. -/
def stringRest (rounds : Nat) : JsonReader String := do
  let chars ←
    iterate (fun (chars : List Char) => do
      match ← peek with
      | none => failHere .endInString
      | some c =>
        if c = '"' then
          skip
          return (chars, false)
        else if c = '\\' then
          skip
          return ((← escape) :: chars, true)
        else if c.toNat < 0x20 then failNext .controlCharacter
        else
          skip
          return (c :: chars, true)) rounds []
  return String.ofList chars.reverse

/-- The items of an array after its opening bracket. -/
def items (item : JsonReader Json) (rounds : Nat) : JsonReader (List Json) := do
  let items ←
    iterate (fun (items : List Json) => do
      match ← nextSolid with
      | none => failNext .endInList
      | some ']' =>
        skip
        return (items, false)
      | some c =>
        if items.isEmpty then return ((← item) :: items, true)
        else if c = ',' then
          skip
          match ← nextSolid with
          | none => failNext .endInValue
          | some ']' => failNext .trailingComma
          | some _ => return ((← item) :: items, true)
        else failNext .expectedCommaInList) rounds []
  return items.reverse

/-- The colon between a key and its value. -/
def colon : JsonReader Unit := do
  match ← nextSolid with
  | none => failNext .endInObject
  | some ':' => skip
  | some _ => failNext .expectedColon

/-- Whether another key follows; moves on to it, or behind the end of the object. -/
def nextKey (first : Bool) : JsonReader Bool := do
  match ← nextSolid with
  | none => failNext .endInObject
  | some '\x7d' =>
    skip
    return false
  | some c =>
    if first then
      if c = '"' then return true else failNext .keyNotString
    else if c = ',' then
      skip
      match ← nextSolid with
      | none => failNext .endInValue
      | some '"' => return true
      | some '\x7d' => failNext .trailingComma
      | some _ => failNext .keyNotString
    else failNext .expectedCommaInObject

/-- The properties of an object after its opening brace. -/
def fields (item : JsonReader Json) (rounds : Nat) : JsonReader (List (String × Json)) := do
  let fields ←
    iterate (fun (fields : List (String × Json)) => do
      if ← nextKey fields.isEmpty then
        skip
        let key ← stringRest rounds
        colon
        return ((key, ← item) :: fields, true)
      else return (fields, false)) rounds []
  return fields.reverse

/-- A document whose items and properties are read by `inner`; without it nothing may be nested. -/
def valueAround (rounds : Nat) (inner : Option (JsonReader Json)) : JsonReader Json := do
  match ← nextSolid with
  | none => failNext .endInValue
  | some '"' =>
    skip
    return .string (← stringRest rounds)
  | some 'n' =>
    skip
    word "ull".toList
    return .null
  | some 't' =>
    skip
    word "rue".toList
    return .bool true
  | some 'f' =>
    skip
    word "alse".toList
    return .bool false
  | some '[' =>
    match inner with
    | none => failNext .tooDeep
    | some item =>
      skip
      return .array (← items item rounds)
  | some '\x7b' =>
    match inner with
    | none => failNext .tooDeep
    | some item =>
      skip
      return .object (← fields item rounds)
  | some c =>
    if c = '-' ∨ c.isDigit then number else failNext .expectedValue

/-- A document in which arrays and objects nest at most `depth` deep. -/
def value (rounds : Nat) : Nat → JsonReader Json
  | 0 => valueAround rounds none
  | depth + 1 => valueAround rounds (some (value rounds depth))

/-- Nothing but space up to the end. -/
def finish : JsonReader Unit := do
  match ← nextSolid with
  | none => pure ()
  | some _ => failNext .trailingCharacters

end JsonReader

/-- The document that a text denotes. Every loop of the reader takes a character a round, so one
round more than there are characters is enough for each. -/
def read (text : String) : Except Error Json := do
  let chars := text.toList
  let reader : JsonReader Json := do
    let value ← JsonReader.value (chars.length + 1) JsonReader.maxDepth
    JsonReader.finish
    return value
  let (value, _) ← reader.run (.start chars)
  return value

end Json

end MinangScript
