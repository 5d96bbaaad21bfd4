/-! # Source positions

A position is a line and a column, both counted from one. A column counts characters, so a
position depends only on the text that stands before it.
-/

namespace MinangScript

/-- A place in a source text: line and column, both from one. -/
structure Position where
  line : Nat
  column : Nat
  deriving Repr, DecidableEq, Inhabited

namespace Position

/-- Where every source text begins. -/
def start : Position := ⟨1, 1⟩

/-- The position that belongs to no text at all. -/
def origin : Position := ⟨0, 0⟩

/-- The position after the character `c`: a line feed starts a new line. -/
def advance (p : Position) (c : Char) : Position :=
  if c = '\n' then ⟨p.line + 1, 1⟩ else ⟨p.line, p.column + 1⟩

/-- The position after all of `text`. -/
def advanceBy (p : Position) (text : List Char) : Position :=
  text.foldl advance p

/-- A position in a text of its own, moved to where that text begins at `base`: the first line
continues the line of `base`, and every later line has its columns already. -/
def shift (p base : Position) : Position :=
  if p.line = 1 then ⟨base.line, base.column + p.column - 1⟩
  else ⟨base.line + p.line - 1, p.column⟩

/-- The short form `line:column`. -/
def text (p : Position) : String :=
  toString p.line ++ ":" ++ toString p.column

/-- The long form, as error messages give it. -/
def phrase (p : Position) : String :=
  "line " ++ toString p.line ++ ", column " ++ toString p.column

theorem advanceBy_append (p : Position) (a b : List Char) :
    p.advanceBy (a ++ b) = (p.advanceBy a).advanceBy b := by
  simp [advanceBy]

end Position

end MinangScript
