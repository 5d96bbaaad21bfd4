import MinangScript.Machine.Evaluator
import MinangScript.Text.Lines
import MinangScript.Version

/-! # Conversations

A conversation goes line by line. A line that begins with a point is a command; any other line is a
source, and all of them run on the same machine. An error is reported and the conversation goes on.
-/

namespace MinangScript

namespace Repl

def prompt : String := "minang> "

def greeting : String :=
  "MinangScript REPL " ++ version ++ "\nType .help for help, .exit to quit\n\n"

def farewell : String := "Salamat tinggal!\n"

def helpText : String :=
  "Commands:\n"
    ++ "  .help            show this help\n"
    ++ "  .exit            leave the REPL\n"
    ++ "  .examples        show example code\n"
    ++ "  .analyze <code>  tokenize and parse <code> without running it\n"
    ++ "\n"
    ++ "Example:\n"
    ++ "  buek namo = \"Minang\"\n"
    ++ "  cetak \"Halo \" + namo\n"
    ++ "  karojo jumlah(a, b) \x7b jadi a + b \x7d\n"

def examplesText : String :=
  "Declarations:\n"
    ++ "  buek namo = \"Siti\"       // var\n"
    ++ "  ambiak umua = 25         // let\n"
    ++ "  tagak batas = 18         // const\n"
    ++ "\n"
    ++ "Functions:\n"
    ++ "  karojo salam(namo) \x7b jadi \"Salamat datang \" + namo \x7d\n"
    ++ "\n"
    ++ "Conditions:\n"
    ++ "  kalau umua >= batas \x7b cetak \"Dewasa\" \x7d lain \x7b cetak \"Mudo\" \x7d\n"
    ++ "\n"
    ++ "Loops:\n"
    ++ "  untuak (ambiak i = 0; i < 3; i++) \x7b cetak i \x7d\n"

/-- What a line asks for. -/
inductive Request where
  | nothing
  | leave
  | help
  | examples
  /-- Look at a source without running it. -/
  | analyze (code : String)
  /-- A command that does not exist. -/
  | unknown (line : String)
  /-- Run a source. -/
  | run (source : String)
  deriving Repr, DecidableEq

/-- Reads a line, of which the blanks on both sides do not count. -/
def Request.ofLine (line : String) : Request :=
  let chars := trim line.toList
  let line := String.ofList chars
  let mark := ".analyze ".toList
  if chars.isEmpty then .nothing
  else if line = ".exit" then .leave
  else if line = ".help" then .help
  else if line = ".examples" then .examples
  else if mark.isPrefixOf chars then .analyze (String.ofList (chars.drop mark.length))
  else if Lexeme.startsWith '.' chars then .unknown line
  else .run line

def errorText (message : String) : String :=
  "error: " ++ message ++ "\n"

/-- What can be said about a source without running it, and the notes of looking at it. -/
def analysis (code : String) : String × List Entry :=
  let reading := readTokens code
  let text :=
    match reading.outcome with
    | .error e => errorText e.message
    | .ok tokens =>
      "tokens: " ++ toString (tokens.length - 1) ++ "\n" ++
        match parseTokens tokens with
        | .error e => errorText e.message
        | .ok program =>
          let kinds := program.body.map Stmt.typeName
          "statements: " ++ toString kinds.length ++ " [" ++ String.intercalate ", " kinds ++ "]\n"
  (text, reading.entries)

/-- The answer to a line: a reply, what went into journals meanwhile, the machine afterwards, and
whether the conversation goes on. -/
structure Answer where
  reply : String
  entries : List Entry
  machine : Machine
  goesOn : Bool
  deriving Repr

/-- Runs a source as a line of a conversation; `none` if the fuel is not enough. -/
def runLine (limit fuel : Nat) (source : String) (m : Machine) : Option Answer :=
  let answer (reply : String) (m' : Machine) : Answer :=
    ⟨reply, .noted (.line source) :: m.journal.since m'.journal, m', true⟩
  match m.run limit fuel source with
  | .done _ m' => some (answer "" m')
  | .failed e m' => some (answer (errorText e.message) m')
  | .outOfFuel => none

/-- Answers a request; `none` if the fuel is not enough. -/
def answer (limit fuel : Nat) (m : Machine) : Request → Option Answer
  | .nothing => some ⟨"", [], m, true⟩
  | .leave => some ⟨"", [], m, false⟩
  | .help => some ⟨helpText, [], m, true⟩
  | .examples => some ⟨examplesText, [], m, true⟩
  | .analyze code =>
    let (text, entries) := analysis code
    some ⟨text, entries, m, true⟩
  | .unknown line => some ⟨"unknown command " ++ line ++ ", try .help\n", [], m, true⟩
  | .run source => runLine limit fuel source m

/-- Something that happens in a conversation, in view of the one who has it or in a journal. -/
inductive Event where
  | said (text : String)
  | entered (entry : Entry)
  deriving Repr, DecidableEq

/-- The text of an event that is part of the conversation itself. -/
def Event.said? : Event → Option String
  | said text => some text
  | entered _ => none

/-- What an answer adds to a conversation. -/
def Answer.events (a : Answer) : List Event :=
  a.entries.map .entered ++ [.said a.reply]

/-- What happens after a prompt, the machine afterwards, and whether there is another prompt. -/
structure Turn where
  events : List Event
  machine : Machine
  goesOn : Bool
  deriving Repr

/-- The turn after a line was typed, or at the end of the input; `none` if the fuel is not enough. -/
def turn (limit fuel : Nat) (m : Machine) : Option String → Option Turn
  | none => some ⟨[.said "\n", .said farewell], m, false⟩
  | some line =>
    (answer limit fuel m (Request.ofLine line)).map fun a =>
      ⟨a.events ++ if a.goesOn then [] else [.said farewell], a.machine, a.goesOn⟩

/-- A conversation over the given lines, after the events in `before`, which are in reverse. It
ends with a request to leave, or with the lines. -/
def talk (limit fuel : Nat) : List String → Machine → List Event → Option (Machine × List Event)
  | [], m, before => do
    let t ← turn limit fuel m none
    return (t.machine, (t.events.reverse ++ .said prompt :: before).reverse)
  | line :: rest, m, before => do
    let t ← turn limit fuel m (some line)
    let before := t.events.reverse ++ .said prompt :: before
    if t.goesOn then talk limit fuel rest t.machine before
    else return (t.machine, before.reverse)

/-- A whole conversation: the machine at its end and what happened, in order; `none` if the fuel is
not enough. -/
def conversation (limit fuel : Nat) (input : String) (m : Machine) :
    Option (Machine × List Event) :=
  talk limit fuel (lines input) m [.said greeting]

end Repl

end MinangScript
