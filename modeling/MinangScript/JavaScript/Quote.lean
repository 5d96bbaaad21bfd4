/-! # String literals of JavaScript

A string is written between double quotes; quotes, backslashes, line feeds, carriage returns and
tabs are escaped, everything else stands as it is.
-/

namespace MinangScript

namespace JavaScript

/-- How one character is written in a string literal. -/
def escapedChar (c : Char) : List Char :=
  if c = '"' then ['\\', '"']
  else if c = '\\' then ['\\', '\\']
  else if c = '\n' then ['\\', 'n']
  else if c = '\r' then ['\\', 'r']
  else if c = '\t' then ['\\', 't']
  else [c]

/-- A text as a string literal. -/
def quote (text : String) : String :=
  String.ofList ('"' :: text.toList.flatMap escapedChar ++ ['"'])

end JavaScript

end MinangScript
