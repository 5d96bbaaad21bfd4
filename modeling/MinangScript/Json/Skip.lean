import MinangScript.Json.Reader

/-! # Passing over JSON

A reader that knows which parts of a document it wants passes over the others. A part that is passed
over has to be written like a document, but nothing is made of it: numbers may be out of range,
escapes by number may stand for no character, and brackets may nest to any depth.
-/

namespace MinangScript

namespace Json

inductive Bracket where
  | square | brace
  deriving Repr, DecidableEq

namespace Bracket

/-- The character that closes a bracket. -/
def closing : Bracket → Char
  | square => ']'
  | brace => '\x7d'

/-- What is wrong if the text ends within the bracket. -/
def endProblem : Bracket → Problem
  | square => .endInList
  | brace => .endInObject

/-- What is wrong if neither a comma nor the end of the bracket follows a value. -/
def commaProblem : Bracket → Problem
  | square => .expectedCommaInList
  | brace => .expectedCommaInObject

end Bracket

/-- What may come next in a pass over a document. -/
inductive Stage where
  | value
  /-- The first value in a bracket, or the end of the bracket. -/
  | opened
  /-- A comma or the end of the bracket; nothing if no bracket is open. -/
  | after
  deriving Repr, DecidableEq

namespace JsonReader

open Reader (iterate)

/-- Passes over at least one digit. -/
def passDigits : JsonReader Unit := do
  if (← takeWhile Char.isDigit).isEmpty then failNext .invalidNumber

/-- Passes over the exponent of a number, if there is one. -/
def passExponent : JsonReader Unit := do
  let mark ← peek
  if mark = some 'e' ∨ mark = some 'E' then
    skip
    let sign ← peek
    if sign = some '+' ∨ sign = some '-' then skip
    passDigits

/-- Passes over the fraction of a number, if there is one. -/
def passFraction : JsonReader Unit := do
  if (← peek) = some '.' then
    skip
    passDigits

def passNumber : JsonReader Unit := do
  if (← peek) = some '-' then skip
  if (← peek) = some '0' then
    skip
    if ((← peek).map Char.isDigit).getD false then failNext .invalidNumber
  else passDigits
  passFraction
  passExponent

/-- Passes over the rest of a string after its opening quote. -/
def passString (rounds : Nat) : JsonReader Unit :=
  iterate (fun (_ : Unit) => do
    match ← peek with
    | none => failHere .endInString
    | some '"' =>
      skip
      return ((), false)
    | some '\\' =>
      skip
      if (← peek) = some 'u' then
        skip
        let _ ← hexEscape
      else
        let _ ← escape
      return ((), true)
    | some c =>
      if c.toNat < 0x20 then failNext .controlCharacter
      else
        skip
        return ((), true)) rounds ()

/-- Passes over the key of a property and the colon behind it. -/
def passKey (rounds : Nat) : JsonReader Unit := do
  match ← nextSolid with
  | none => failNext .endInObject
  | some '"' =>
    skip
    passString rounds
    colon
  | some _ => failNext .keyNotString

/-- What has to be passed over in a bracket before a value: in braces its key. -/
def passLead (rounds : Nat) : Bracket → JsonReader Unit
  | .square => pure ()
  | .brace => passKey rounds

/-- Passes over a value, or opens a bracket. -/
def passValue (rounds : Nat) (brackets : List Bracket) : JsonReader (Stage × List Bracket) := do
  match ← nextSolid with
  | none => failNext .endInValue
  | some '[' =>
    skip
    return (.opened, .square :: brackets)
  | some '\x7b' =>
    skip
    return (.opened, .brace :: brackets)
  | some '"' =>
    skip
    passString rounds
    return (.after, brackets)
  | some 'n' =>
    skip
    word "ull".toList
    return (.after, brackets)
  | some 't' =>
    skip
    word "rue".toList
    return (.after, brackets)
  | some 'f' =>
    skip
    word "alse".toList
    return (.after, brackets)
  | some c =>
    if c = '-' ∨ c.isDigit then
      passNumber
      return (.after, brackets)
    else failNext .expectedValue

/-- Goes on after an opened bracket. -/
def passOpened (rounds : Nat) (bracket : Bracket) (outer : List Bracket) :
    JsonReader (Stage × List Bracket) := do
  match ← nextSolid with
  | none => failNext bracket.endProblem
  | some c =>
    if c = bracket.closing then
      skip
      return (.after, outer)
    else
      passLead rounds bracket
      return (.value, bracket :: outer)

/-- Goes on after a value in a bracket. -/
def passAfter (rounds : Nat) (bracket : Bracket) (outer : List Bracket) :
    JsonReader (Stage × List Bracket) := do
  match ← nextSolid with
  | none => failNext bracket.endProblem
  | some c =>
    if c = bracket.closing then
      skip
      return (.after, outer)
    else if c = ',' then
      skip
      passLead rounds bracket
      return (.value, bracket :: outer)
    else failNext bracket.commaProblem

/-- Passes over a document. Each round but those right after an opened bracket takes a character, so
twice as many rounds as characters are enough. -/
def pass (rounds : Nat) : JsonReader Unit := do
  let _ ← iterate (fun (state : Stage × List Bracket) => do
    match state with
    | (.value, brackets) => return (← passValue rounds brackets, true)
    | (.opened, bracket :: outer) => return (← passOpened rounds bracket outer, true)
    | (.after, bracket :: outer) => return (← passAfter rounds bracket outer, true)
    | (_, []) => return (state, false)) (2 * rounds) (.value, [])
  return ()

end JsonReader

end Json

end MinangScript
