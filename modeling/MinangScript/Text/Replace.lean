/-! # Replacing a part of a text

Every occurrence of a pattern is replaced, from left to right; what has been put in is not looked at
again.
-/

namespace MinangScript

/-- Replaces every occurrence of a pattern after the next `taken` characters, which belong to an
occurrence before. -/
def replaceFrom (pattern replacement : List Char) : Nat → List Char → List Char
  | _, [] => []
  | taken + 1, _ :: rest => replaceFrom pattern replacement taken rest
  | 0, c :: rest =>
    if pattern.isPrefixOf (c :: rest) then
      replacement ++ replaceFrom pattern replacement (pattern.length - 1) rest
    else c :: replaceFrom pattern replacement 0 rest

/-- Replaces every occurrence of a pattern, which is not empty, in a text. -/
def replaceAll (text pattern replacement : String) : String :=
  String.ofList (replaceFrom pattern.toList replacement.toList 0 text.toList)

end MinangScript
