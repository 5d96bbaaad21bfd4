import MinangScript.Journal
import MinangScript.Program.Parser

/-! # Sources

A source is a text with a name. Reading it gives a program and the notes of how it went.
-/

namespace MinangScript

/-- What reading a source gave: a program or an error, and the entries for the journal in order. -/
structure Reading (α : Type) where
  outcome : Except ParseError α
  entries : List Entry

def readTokens (source : String) : Reading (List Token) :=
  let lexing := lex source
  ⟨lexing.outcome.mapError .lex, lexing.sizes.map fun n => .noted (.lexed n)⟩

/-- Reads the program of a source text with the given name. -/
def readProgram (name source : String) : Reading Program :=
  let reading := readTokens source
  match reading.outcome with
  | .error e => ⟨.error e, reading.entries⟩
  | .ok tokens =>
    ⟨(parseTokens tokens).mapError .parse,
     reading.entries ++ [.noted (.source name tokens.length)]⟩

end MinangScript
