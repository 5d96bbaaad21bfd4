import MinangScript.Text.Printable

/-! # Quoted text

Text between double quotes, shown so that every character can be told apart: quotes, backslashes
and the common controls by a backslash and a letter, other unprintable characters by their number.
-/

namespace MinangScript

/-- The number of a character in hexadecimal, as an escape. -/
def numberEscape (c : Char) : List Char :=
  "\\u\x7b".toList ++ Nat.toDigits 16 c.toNat ++ ['\x7d']

/-- How one character is shown between quotes. -/
def shownChar (c : Char) : List Char :=
  if c = '"' then ['\\', '"']
  else if c = '\\' then ['\\', '\\']
  else if c = '\n' then ['\\', 'n']
  else if c = '\r' then ['\\', 'r']
  else if c = '\t' then ['\\', 't']
  else if c = '\x00' then ['\\', '0']
  else if isPrintable c then [c]
  else numberEscape c

/-- A text between double quotes, with escapes. -/
def quoted (text : String) : String :=
  String.ofList ('"' :: text.toList.flatMap shownChar ++ ['"'])

end MinangScript
