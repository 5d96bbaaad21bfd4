import MinangScript.Value.Basic

/-! # Tables

A table shows the items of an array or the properties of an object, one row each: the index, a
column for every property that some row has, and a column for rows that are no objects. Every cell
is centred in a column that is two wider than its widest cell.
-/

namespace MinangScript

namespace Table

/-- What a row shows. -/
inductive Row where
  | scalar (value : Value)
  | record (fields : List (String × Value))
  deriving Repr

namespace Row

def ofValue : Value → Row
  | .object _ fields => .record fields
  | value => .scalar value

def columns : Row → List String
  | scalar _ => []
  | record fields => fields.map (·.1)

/-- Whether a row needs the column for values. -/
def isScalar : Row → Bool
  | scalar _ => true
  | record _ => false

end Row

/-- The text of a value in a cell. -/
def cell : Value → String
  | .string text => "'" ++ text ++ "'"
  | value => value.text

/-- The rows of a value, with their indices. -/
def rows : Value → List (String × Row)
  | .array _ items => items.mapIdx fun i v => (toString i, Row.ofValue v)
  | .object _ fields => fields.map fun (key, v) => (key, Row.ofValue v)
  | value => [("0", .scalar value)]

/-- Adds those names to a list that are not in it yet. -/
def addNew (known names : List String) : List String :=
  names.foldl (fun known name => if known.contains name then known else known ++ [name]) known

/-- The property columns of rows, in the order of their first appearance. -/
def columns (rows : List (String × Row)) : List String :=
  rows.foldl (fun known (_, row) => addNew known row.columns) []

/-- The cell of a row in a property column. -/
def fieldCell (row : Row) (column : String) : String :=
  match row with
  | .scalar _ => ""
  | .record fields =>
    match fields.find? fun (key, _) => key == column with
    | some (_, value) => cell value
    | none => ""

/-- The cell of a row in the column for values. -/
def valueCell : Row → String
  | .scalar value => cell value
  | .record _ => ""

/-- The header and then the rows, as cells. -/
def grid (rows : List (String × Row)) : List String × List (List String) :=
  let columns := columns rows
  let values := rows.any fun (_, row) => row.isScalar
  let header := "(index)" :: columns ++ (if values then ["Values"] else [])
  let body := rows.map fun (index, row) =>
    index :: columns.map (fieldCell row) ++ (if values then [valueCell row] else [])
  (header, body)

/-- The widths that rows of cells need, column by column. -/
def widths (header : List String) (body : List (List String)) : List Nat :=
  let wider (widths : List Nat) (cells : List String) : List Nat :=
    List.zipWith (fun width c => max width c.length) widths cells
  (body.foldl wider (header.map String.length)).map (· + 2)

/-- A text of blanks or other fill. -/
def fill (c : Char) (count : Nat) : String :=
  String.ofList (List.replicate count c)

/-- A text in the middle of a column; an odd blank goes to the right. -/
def centred (width : Nat) (text : String) : String :=
  let left := (width - text.length) / 2
  fill ' ' left ++ text ++ fill ' ' (width - text.length - left)

def line (widths : List Nat) (cells : List String) : String :=
  "│" ++ String.join (List.zipWith (fun width c => centred width c ++ "│") widths cells)

def rule (left middle right : String) (widths : List Nat) : String :=
  left ++ String.intercalate middle (widths.map (fill '─')) ++ right

def lines (value : Value) : List String :=
  let (header, body) := grid (rows value)
  let widths := widths header body
  rule "┌" "┬" "┐" widths :: line widths header :: rule "├" "┼" "┤" widths
    :: body.map (line widths) ++ [rule "└" "┴" "┘" widths]

def render (value : Value) : String :=
  String.intercalate "\n" (lines value)

end Table

end MinangScript
