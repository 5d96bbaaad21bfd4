import MinangScript.Decimal.Layout
import MinangScript.Text.Quoted

/-! # Outlines

An outline is a tree of labelled nodes, the common ground of two ways to show a program: as an
indented dump and as JSON.
-/

namespace MinangScript

/-- A tree of labelled nodes. -/
inductive Outline where
  | number (value : Float)
  | natural (value : Nat)
  | text (value : String)
  | truth (value : Bool)
  /-- An optional part that is not there. -/
  | absent
  /-- An optional part that is there. -/
  | present (part : Outline)
  | list (items : List Outline)
  /-- A node that is only its label. -/
  | label (name : String)
  /-- A labelled node around a single one. -/
  | wrapped (name : String) (part : Outline)
  /-- A node of named parts; its own name goes without saying. -/
  | record (name : String) (fields : List (String × Outline))
  /-- A node of named parts, one of several alternatives that its name tells apart. -/
  | variant (name : String) (fields : List (String × Outline))
  deriving Repr, Inhabited

namespace Outline

/-- Numbers in dumps: the shortest digits with a fraction, written out in full from a ten
thousandth up to below `10 ^ 16`. -/
def layout : Layout where
  plainFrom := -4
  plainBelow := 16
  wholeFraction := true
  exponentPlus := false
  tie := .away
  zero := "0.0"
  negativeZero := "-0.0"
  nan := "NaN"
  infinity := "inf"

/-- Starts a new line, indented by four spaces a level. -/
def newLine (depth : Nat) (out : String) : String :=
  out ++ "\n" ++ String.ofList (List.replicate (4 * depth) ' ')

mutual

/-- Appends the dump of a node, which stands at the given depth, to `out`. -/
def write (depth : Nat) (out : String) : Outline → String
  | number value => out ++ layout.text (Binary64.ofFloat value)
  | natural value => out ++ toString value
  | text value => out ++ quoted value
  | truth value => out ++ toString value
  | absent => out ++ "None"
  | present part =>
    newLine depth (write (depth + 1) (newLine (depth + 1) (out ++ "Some(")) part ++ ",") ++ ")"
  | list items =>
    match items with
    | [] => out ++ "[]"
    | items => newLine depth (writeItems (depth + 1) (out ++ "[") items) ++ "]"
  | label name => out ++ name
  | wrapped name part =>
    newLine depth (write (depth + 1) (newLine (depth + 1) (out ++ name ++ "(")) part ++ ",") ++ ")"
  | record name fields =>
    newLine depth (writeFields (depth + 1) (out ++ name ++ " \x7b") fields) ++ "\x7d"
  | variant name fields =>
    newLine depth (writeFields (depth + 1) (out ++ name ++ " \x7b") fields) ++ "\x7d"

/-- Appends the items of a list, each on a line of its own. -/
def writeItems (depth : Nat) (out : String) : List Outline → String
  | [] => out
  | item :: rest => writeItems depth (write depth (newLine depth out) item ++ ",") rest

/-- Appends named parts, each on a line of its own. -/
def writeFields (depth : Nat) (out : String) : List (String × Outline) → String
  | [] => out
  | (name, part) :: rest =>
    writeFields depth (write depth (newLine depth out ++ name ++ ": ") part ++ ",") rest

end

/-- The indented dump of an outline. -/
def dump (o : Outline) : String :=
  write 0 "" o

end Outline

end MinangScript
