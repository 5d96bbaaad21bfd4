import MinangScript.Json.Skip
import MinangScript.Settings.Basic

/-! # Reading settings

Settings are read from a JSON object, or from an array of their values in order. A setting that is
missing has its default. In an object a setting may stand once, and other properties are passed
over. If anything is wrong, all settings have their defaults.
-/

namespace MinangScript

namespace Settings

open Json (JsonReader)
open Json.JsonReader
open Reader (iterate)

/-- A string and nothing else. -/
def stringValue (rounds : Nat) : JsonReader String := do
  if (← nextSolid) = some '"' then
    skip
    stringRest rounds
  else failNext .expectedValue

/-- A truth value and nothing else. -/
def boolValue : JsonReader Bool := do
  match ← nextSolid with
  | some 't' =>
    skip
    word "rue".toList
    return true
  | some 'f' =>
    skip
    word "alse".toList
    return false
  | _ => failNext .expectedValue

/-- A word of 32 bits, written without fraction and exponent. -/
def wordValue : JsonReader UInt32 := do
  match ← nextSolid with
  | none => failNext .endInValue
  | some c =>
    if c = '-' ∨ c.isDigit then
      match ← number with
      | .integer n =>
        if 0 ≤ n ∧ n < UInt32.size then return UInt32.ofNat n.toNat
        else failHere .numberOutOfRange
      | _ => failHere .invalidNumber
    else failNext .expectedValue

/-- A way of scoping by its name. -/
def scopingName (rounds : Nat) : JsonReader Scoping := do
  match Scoping.ofName? (← stringValue rounds) with
  | some scoping => return scoping
  | none => failHere .expectedValue

/-- A way of scoping: its name, or an object with the name as its only key and no value. -/
def scopingValue (rounds : Nat) : JsonReader Scoping := do
  if (← nextSolid) = some '\x7b' then
    skip
    let scoping ← scopingName rounds
    colon
    if (← nextSolid) = some 'n' then
      skip
      word "ull".toList
    else failNext .expectedValue
    if (← nextSolid) = some '\x7d' then
      skip
      return scoping
    else failNext .expectedValue
  else scopingName rounds

def Field.read (rounds : Nat) (s : Settings) : Field → JsonReader Settings
  | .language => return { s with language := ← stringValue rounds }
  | .version => return { s with version := ← stringValue rounds }
  | .culturalValidation => return { s with culturalValidation := ← boolValue }
  | .autoFormat => return { s with autoFormat := ← boolValue }
  | .logLevel => return { s with logLevel := ← stringValue rounds }
  | .scoping => return { s with scoping := ← scopingValue rounds }
  | .maxCallDepth => return { s with maxCallDepth := ← wordValue }

/-- What has been read of an object: whether anything, which settings, and what they are. -/
structure Draft where
  first : Bool := true
  seen : List Field := []
  settings : Settings := {}
  deriving Repr

def property (rounds : Nat) (d : Draft) : JsonReader Draft := do
  let key ← stringValue rounds
  match Field.ofKey? key with
  | some f =>
    if f ∈ d.seen then failHere .expectedValue
    else
      colon
      return ⟨false, f :: d.seen, ← f.read rounds d.settings⟩
  | none =>
    colon
    pass rounds
    return { d with first := false }

/-- Settings from the properties of an object, after its opening brace. -/
def fromProperties (rounds : Nat) : JsonReader Settings := do
  let draft ← iterate (fun (d : Draft) => do
    if ← nextKey d.first then return (← property rounds d, true)
    else return (d, false)) rounds {}
  return draft.settings

/-- Whether another item follows; moves on to it, or stays before the end of the array. -/
def nextItem (first : Bool) : JsonReader Bool := do
  match ← nextSolid with
  | none => failNext .endInList
  | some ']' => return false
  | some c =>
    if first then return true
    else if c = ',' then
      skip
      match ← nextSolid with
      | none => failNext .endInValue
      | some ']' => failNext .trailingComma
      | some _ => return true
    else failNext .expectedCommaInList

/-- The given settings, as far as there are items for them. -/
def fromItems (rounds : Nat) : Bool → List Field → Settings → JsonReader Settings
  | _, [], s => return s
  | first, f :: rest, s => do
    if ← nextItem first then fromItems rounds false rest (← f.read rounds s)
    else return s

/-- Settings in either form. -/
def value (rounds : Nat) : JsonReader Settings := do
  match ← nextSolid with
  | none => failNext .endInValue
  | some '\x7b' =>
    skip
    fromProperties rounds
  | some '[' =>
    skip
    let s ← fromItems rounds true Field.all {}
    if (← nextSolid) = some ']' then
      skip
      return s
    else failNext .trailingCharacters
  | some _ => failNext .expectedValue

/-- The settings that a text tells, or what is wrong with it. -/
def read (text : String) : Except Json.Error Settings := do
  let chars := text.toList
  let reader : JsonReader Settings := do
    let s ← value (chars.length + 1)
    finish
    return s
  let (s, _) ← reader.run (.start chars)
  return s

/-- The settings in a file with the given content, if there is one. -/
def load (content : Option String) : Settings :=
  match content with
  | none => {}
  | some text => (read text).toOption.getD {}

end Settings

end MinangScript
