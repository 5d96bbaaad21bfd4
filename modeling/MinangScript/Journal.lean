import MinangScript.Environment
import MinangScript.Text.Quoted

/-! # Journals

A journal is the record of what a program printed and of what happened while it was read and run,
in order. Printed lines go to channels; notes are for diagnosis, have a level, and are shown only
if the level asked for reaches that far.
-/

namespace MinangScript

/-- Where a line is printed. -/
inductive Channel where
  | log | info | debug | warn | error | table
  deriving Repr, DecidableEq, Inhabited

namespace Channel

/-- Whether the channel is for trouble, which is shown apart from ordinary output. -/
def isTrouble : Channel → Bool
  | warn | error => true
  | _ => false

end Channel

/-- How much diagnosis is wanted, or how detailed a note is. -/
inductive LogLevel where
  | off | error | warn | info | debug | trace
  deriving Repr, DecidableEq, Inhabited

namespace LogLevel

def rank : LogLevel → Nat
  | off => 0
  | error => 1
  | warn => 2
  | info => 3
  | debug => 4
  | trace => 5

def name : LogLevel → String
  | off => "OFF"
  | error => "ERROR"
  | warn => "WARN"
  | info => "INFO"
  | debug => "DEBUG"
  | trace => "TRACE"

/-- The level of a given name, in any case. -/
def ofName? (name : String) : Option LogLevel :=
  [off, error, warn, info, debug, trace].find? (·.name == name.map Char.toUpper)

/-- The more detailed of two levels. -/
def max (a b : LogLevel) : LogLevel :=
  if a.rank < b.rank then b else a

/-- Raises a level by a count of requests for more detail. -/
def raise (base : LogLevel) : Nat → LogLevel
  | 0 => base
  | 1 => base.max info
  | 2 => base.max debug
  | _ => trace

end LogLevel

inductive Note where
  /-- A pass over a text gave so many tokens. -/
  | lexed (count : Nat)
  /-- A source was read into so many tokens. -/
  | source (name : String) (tokens : Nat)
  /-- A program of so many statements starts. -/
  | executing (statements : Nat) (scoping : Scoping)
  /-- A function is called. -/
  | call (name : String) (depth : Nat)
  /-- A timer was asked for, though there is none. -/
  | timer
  /-- A program ended with a value. -/
  | result (text : String)
  /-- A line of a conversation is run. -/
  | line (text : String)
  /-- The program of a file starts. -/
  | running (file : String) (statements : Nat)
  /-- A file was written. -/
  | wrote (bytes : Nat) (path : String)
  /-- Where the settings are kept. -/
  | settings (path : Option String)
  deriving Repr, DecidableEq

namespace Note

def level : Note → LogLevel
  | lexed _ | call _ _ => .trace
  | running _ _ | wrote _ _ => .info
  | _ => .debug

/-- The part of the program that a note is about. -/
def target : Note → String
  | lexed _ | source _ _ => "minang::parse"
  | executing _ _ | call _ _ | timer | result _ => "minang::eval"
  | line _ | running _ _ | wrote _ _ | settings _ => "minang::cli"

/-- The words of a note. -/
def message : Note → String
  | lexed count => "lexed " ++ toString count ++ " tokens"
  | source name tokens => name ++ ": " ++ toString tokens ++ " tokens"
  | executing statements scoping =>
    "executing " ++ toString statements ++ " statements ("
      ++ (match scoping with | .dynamic => "Dynamic" | .lexical => "Lexical") ++ " scoping)"
  | call name depth => "call " ++ name ++ " (depth " ++ toString depth ++ ")"
  | timer => "timer builtin called without an event loop"
  | result text => "result: " ++ text
  | line text => "repl line: " ++ text
  | running file statements => "running " ++ file ++ " (" ++ toString statements ++ " statements)"
  | wrote bytes path => "wrote " ++ toString bytes ++ " bytes to " ++ path
  | settings none => "config: None"
  | settings (some path) => "config: Some(" ++ quoted path ++ ")"

/-- A note as a line of diagnosis. -/
def text (n : Note) : String :=
  "[" ++ n.level.name ++ "][" ++ n.target ++ "] " ++ n.message

end Note

/-- An entry of a journal. -/
inductive Entry where
  /-- A line was printed. -/
  | printed (channel : Channel) (text : String)
  /-- Something happened. -/
  | noted (note : Note)
  deriving Repr, DecidableEq

/-- A printed line, if the entry is one. -/
def Entry.printed? : Entry → Option (Channel × String)
  | printed channel text => some (channel, text)
  | noted _ => none

/-- A journal: its entries, the latest first. -/
structure Journal where
  latest : List Entry
  deriving Repr, DecidableEq, Inhabited

namespace Journal

def empty : Journal := ⟨[]⟩

def add (j : Journal) (e : Entry) : Journal :=
  ⟨e :: j.latest⟩

/-- Adds entries in order. -/
def addAll (j : Journal) (entries : List Entry) : Journal :=
  ⟨entries.reverse ++ j.latest⟩

/-- The entries in order. -/
def entries (j : Journal) : List Entry :=
  j.latest.reverse

/-- The entries that a journal has more than an earlier one, in order. -/
def since (earlier j : Journal) : List Entry :=
  (j.latest.take (j.latest.length - earlier.latest.length)).reverse

/-- The printed lines in order. -/
def lines (j : Journal) : List (Channel × String) :=
  j.entries.filterMap Entry.printed?

def channel (j : Journal) (c : Channel) : List String :=
  j.lines.filterMap fun (d, text) => if d = c then some text else none

/-- All printed lines, each ended by a line feed. -/
def text (j : Journal) : String :=
  String.join (j.lines.map fun (_, text) => text ++ "\n")

end Journal

end MinangScript
