/-! # Lines of a text

A line ends at a line feed, and one carriage return before it belongs to the ending. What stands
after the last line feed is a line only if it is not empty.
-/

namespace MinangScript

/-- Drops one carriage return at the end of a line, given in reverse. -/
def dropReturn : List Char → List Char
  | '\r' :: rest => rest
  | line => line

/-- The lines of a text, after those in `done` and when `current` holds the beginning of the
present line; both are kept in reverse. -/
def linesFrom (done : List (List Char)) (current : List Char) : List Char → List (List Char)
  | [] => if current.isEmpty then done.reverse else (current.reverse :: done).reverse
  | '\n' :: rest => linesFrom ((dropReturn current).reverse :: done) [] rest
  | c :: rest => linesFrom done (c :: current) rest

def lines (text : String) : List String :=
  (linesFrom [] [] text.toList).map String.ofList

end MinangScript
