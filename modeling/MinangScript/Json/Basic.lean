import MinangScript.Decimal.Layout

/-! # JSON documents and their text

A document keeps the properties of an object in order, repeated keys included. It is written
either compactly or indented by two spaces a level.
-/

namespace MinangScript

inductive Json where
  | null
  | bool (value : Bool)
  | integer (value : Int)
  | float (value : Float)
  | string (text : String)
  | array (items : List Json)
  | object (fields : List (String × Json))
  deriving Repr, Inhabited

namespace Json

/-- Numbers in JSON: the shortest digits with a fraction, written out in full while the leading
digit stands between `10 ^ -5` and `10 ^ 15`. What is no finite number is written as null. -/
def layout : Layout where
  plainFrom := -5
  plainBelow := 16
  wholeFraction := true
  exponentPlus := true
  tie := .even
  zero := "0.0"
  negativeZero := "-0.0"
  nan := "null"
  infinity := "null"

def floatText (value : Float) : String :=
  match Binary64.ofFloat value with
  | .infinite _ => "null"
  | double => layout.text double

/-- How one character is written in a string. -/
def escapedChar (c : Char) : List Char :=
  if c = '"' then ['\\', '"']
  else if c = '\\' then ['\\', '\\']
  else if c = '\x08' then ['\\', 'b']
  else if c = '\x0c' then ['\\', 'f']
  else if c = '\n' then ['\\', 'n']
  else if c = '\r' then ['\\', 'r']
  else if c = '\t' then ['\\', 't']
  else if c.toNat < 0x20 then
    ['\\', 'u', '0', '0', Nat.digitChar (c.toNat / 16), Nat.digitChar (c.toNat % 16)]
  else [c]

/-- A string between quotes. -/
def stringText (text : String) : String :=
  String.ofList ('"' :: text.toList.flatMap escapedChar ++ ['"'])

mutual

/-- Appends the compact text of a document to `out`. -/
def writeCompact (out : String) : Json → String
  | null => out ++ "null"
  | bool value => out ++ toString value
  | integer value => out ++ toString value
  | float value => out ++ floatText value
  | string text => out ++ stringText text
  | array items => writeCompactItems (out ++ "[") true items ++ "]"
  | object fields => writeCompactFields (out ++ "\x7b") true fields ++ "\x7d"

/-- Appends items, with commas between them. -/
def writeCompactItems (out : String) (first : Bool) : List Json → String
  | [] => out
  | item :: rest =>
    writeCompactItems (writeCompact (if first then out else out ++ ",") item) false rest

/-- Appends properties, with commas between them. -/
def writeCompactFields (out : String) (first : Bool) : List (String × Json) → String
  | [] => out
  | (key, value) :: rest =>
    writeCompactFields
      (writeCompact ((if first then out else out ++ ",") ++ stringText key ++ ":") value) false rest

end

def compact (j : Json) : String :=
  writeCompact "" j

/-- Starts a new line, indented by two spaces a level. -/
def newLine (depth : Nat) (out : String) : String :=
  out ++ "\n" ++ String.ofList (List.replicate (2 * depth) ' ')

mutual

/-- Appends the indented text of a document, which stands at the given depth, to `out`. -/
def writePretty (depth : Nat) (out : String) : Json → String
  | array items =>
    match items with
    | [] => out ++ "[]"
    | items => newLine depth (writePrettyItems (depth + 1) (out ++ "[") true items) ++ "]"
  | object fields =>
    match fields with
    | [] => out ++ "\x7b\x7d"
    | fields => newLine depth (writePrettyFields (depth + 1) (out ++ "\x7b") true fields) ++ "\x7d"
  | null => out ++ "null"
  | bool value => out ++ toString value
  | integer value => out ++ toString value
  | float value => out ++ floatText value
  | string text => out ++ stringText text

/-- Appends items, each on a line of its own. -/
def writePrettyItems (depth : Nat) (out : String) (first : Bool) : List Json → String
  | [] => out
  | item :: rest =>
    writePrettyItems depth
      (writePretty depth (newLine depth (if first then out else out ++ ",")) item) false rest

/-- Appends properties, each on a line of its own. -/
def writePrettyFields (depth : Nat) (out : String) (first : Bool) :
    List (String × Json) → String
  | [] => out
  | (key, value) :: rest =>
    writePrettyFields depth
      (writePretty depth
        (newLine depth (if first then out else out ++ ",") ++ stringText key ++ ": ") value)
      false rest

end

def pretty (j : Json) : String :=
  writePretty 0 "" j

end Json

end MinangScript
