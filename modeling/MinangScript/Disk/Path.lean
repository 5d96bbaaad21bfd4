/-! # Paths

A path is a text in which slashes divide pieces. Empty pieces and single points do not count, except
that a point in front of everything is kept. What is left of a path is always a part of its text, so
a path is shown as it was given.
-/

namespace MinangScript

namespace Path

/-- The pieces of a text between slashes. -/
def split : List Char → List (List Char)
  | [] => [[]]
  | c :: rest =>
    if c = '/' then [] :: split rest
    else
      match split rest with
      | [] => [[c]]
      | piece :: others => (c :: piece) :: others

def pieces (path : String) : List String :=
  (split path.toList).map String.ofList

/-- Whether a piece does not count. -/
def isIdle (piece : String) : Bool :=
  piece == "" || piece == "."

/-- What stands before the pieces of a path: a slash if it starts at the root, or a point. -/
def lead (path : String) : String :=
  match path.toList with
  | '/' :: _ => "/"
  | ['.'] => "."
  | '.' :: '/' :: _ => "."
  | _ => ""

/-- The pieces of a path after its lead, the last first, without idle ones at the end. -/
def trail (path : String) : List String :=
  (pieces (String.ofList (path.toList.drop (lead path).length))).reverse.dropWhile isIdle

/-- The path with the given lead and pieces, which are given the last first. -/
def assemble (lead : String) (trail : List String) : String :=
  lead ++ String.intercalate "/" trail.reverse

/-- A name within a directory. -/
def join (directory name : String) : String :=
  if directory.isEmpty then name
  else if directory.toList.getLast? = some '/' then directory ++ name
  else directory ++ "/" ++ name

def fileName? (path : String) : Option String :=
  match trail path with
  | [] => none
  | last :: _ => if last = ".." then none else some last

/-- The paths of what is around something, from the inside out. -/
def around (lead : String) : List String → List String
  | [] => if lead = "." then [""] else []
  | piece :: rest =>
    if isIdle piece then around lead rest
    else assemble lead (rest.dropWhile isIdle) :: around lead rest

/-- The directories that a path lies in, from the inside out. -/
def ancestors (path : String) : List String :=
  around (lead path) (trail path)

def parent? (path : String) : Option String :=
  (ancestors path).head?

end Path

end MinangScript
