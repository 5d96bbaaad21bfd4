import MinangScript.CommandLine.Arguments
import MinangScript.CommandLine.Report
import MinangScript.JavaScript.Wrapped
import MinangScript.Program.Outline
import MinangScript.Project
import MinangScript.Repl
import MinangScript.Settings.Reader

/-! # Performing commands

Commands run on any disk. Before a command its settings are loaded; the level of diagnosis is taken
from the surroundings, or else from the settings, and raised by the arguments.
-/

namespace MinangScript

namespace CommandLine

/-- What is around the program: the home directory, the level of diagnosis that is asked for by
name, and the text that is typed in. -/
structure Surroundings where
  home : Option String := none
  logLevel : Option String := none
  input : String := ""
  deriving Repr, DecidableEq

/-- A part of a command that uses a disk within `m`; it keeps what it wrote, the latest first. -/
abbrev Action (m : Type → Type) := ExceptT Stop (StateT (List Output) m)

namespace Action

variable {m : Type → Type} [Monad m]

def write (stream : Stream) (text : String) : Action m Unit :=
  modify (⟨stream, text⟩ :: ·)

/-- Writes a line to the results. -/
def say (line : String) : Action m Unit :=
  write .results (line ++ "\n")

def fail {α : Type} (f : Failure) : Action m α :=
  throw (.failed f)

/-- A result, or a failure made from an error. -/
def lift {ε α : Type} (failure : ε → Failure) : Except ε α → Action m α
  | .ok value => pure value
  | .error e => fail (failure e)

/-- The result of an operation on the disk, or a failure made from its error. -/
def onDisk {α : Type} (failure : DiskError → Failure) (operation : m (Except DiskError α)) :
    Action m α := do
  lift failure (← liftM operation)

/-- Writes an entry of a journal: printed lines always, notes as far as the level asks for them. -/
def enter (level : LogLevel) : Entry → Action m Unit
  | .printed channel text =>
    write (if channel.isTrouble then .trouble else .results) (text ++ "\n")
  | .noted note =>
    if note.level.rank ≤ level.rank then write .trouble (note.text ++ "\n") else pure ()

def enterAll (level : LogLevel) (entries : List Entry) : Action m Unit :=
  entries.forM (enter level)

/-- What came of an action: its report. -/
def report (action : Action m Unit) : m Report := do
  let (result, outputs) ← action.run []
  return match result with
    | .ok () => ⟨.done, outputs.reverse⟩
    | .error (.failed f) =>
      ⟨.failed f, (⟨.trouble, "error: " ++ f.message ++ "\n"⟩ :: outputs).reverse⟩
    | .error .outOfFuel => ⟨.outOfFuel, outputs.reverse⟩

end Action

/-- What commands depend on besides their arguments. -/
structure Circumstances (m : Type → Type) where
  disk : Disk m
  settings : Settings
  /-- Where the settings are kept. -/
  settingsPath : Option String
  level : LogLevel
  input : String
  /-- How much a program may run. -/
  fuel : Nat

section Commands

variable {m : Type → Type} [Monad m]

open MinangScript.CommandLine.Action

def readSource (c : Circumstances m) (file : String) : Action m String := do
  let source ← onDisk (.cannotRead file) (c.disk.readText file)
  if maxSourceSize < source.utf8ByteSize then fail (.sourceTooLong source.utf8ByteSize)
  else return source

/-- The result of reading a source, with its notes written. -/
def finishReading {α : Type} (c : Circumstances m) (reading : Reading α) : Action m α := do
  enterAll c.level reading.entries
  lift .parse reading.outcome

/-- The program in a file. -/
def readFile (c : Circumstances m) (file : String) : Action m Program := do
  finishReading c (readProgram file (← readSource c file))

def runFile (c : Circumstances m) (file : String) (scoping : Scoping) : Action m Unit := do
  let program ← readFile c file
  enter c.level (.noted (.running file program.body.length))
  match Eval.program c.settings.maxCallDepth.toNat c.fuel program (Machine.start scoping) with
  | .done _ machine => enterAll c.level machine.journal.entries
  | .failed e machine =>
    enterAll c.level machine.journal.entries
    fail (.runtime e)
  | .outOfFuel => throw .outOfFuel

def Wrapping.code (p : Program) : Wrapping → Except JavaScript.UnsupportedNode String
  | bare => return (← JavaScript.program p) ++ "\n"
  | module name => JavaScript.strictModule p name
  | helpers => JavaScript.withHelpers p

/-- Writes the code of the program in a file to another file. -/
def buildFile (c : Circumstances m) (input output : String) (wrapping : Wrapping) :
    Action m Unit := do
  let program ← readFile c input
  let code ← lift .unsupportedNode (wrapping.code program)
  onDisk (.cannotWrite output) (c.disk.writeText output code)
  enter c.level (.noted (.wrote code.utf8ByteSize output))
  say ("Built " ++ input ++ " -> " ++ output)

def showProgram (c : Circumstances m) (file : String) (format : Format) : Action m Unit := do
  let outline := (← readFile c file).outline
  match format with
  | .pretty => say outline.dump
  | .json => say outline.toJson.pretty

def showTokens (c : Circumstances m) (file : String) : Action m Unit := do
  let tokens ← finishReading c (readTokens (← readSource c file))
  tokens.forM fun t => say t.describe

/-- Reads the program in a file and says how many statements it has. -/
def checkFile (c : Circumstances m) (file : String) : Action m Unit := do
  let program ← readFile c file
  say (file ++ ": ok (" ++ toString program.body.length ++ " statements)")

def showEvent (level : LogLevel) : Repl.Event → Action m Unit
  | .said text => write .results text
  | .entered entry => enter level entry

/-- Has a conversation over the text that is typed in. -/
def converse (c : Circumstances m) : Action m Unit := do
  match Repl.conversation c.settings.maxCallDepth.toNat c.fuel c.input
      (Machine.start c.settings.scoping) with
  | some (_, events) => events.forM (showEvent c.level)
  | none => throw .outOfFuel

def createProject (c : Circumstances m) (directory : String) : Action m Unit := do
  let main := Project.mainPath directory
  if ← liftM (c.disk.isPresent main) then fail (.projectExists main)
  onDisk (.cannotCreateProject directory) (c.disk.ensureAll directory)
  onDisk .cannotWriteProject
    (c.disk.writeText main (Project.sample (Project.nameOf directory)))
  say ("Created project " ++ directory)
  say ("Run it with: minang run " ++ main)

def saveSettings (c : Circumstances m) (settings : Settings) (path : String) : Action m Unit := do
  match Path.parent? path with
  | some directory => onDisk (.cannotCreateSettings directory) (c.disk.ensureAll directory)
  | none => pure ()
  onDisk (.cannotWriteSettings path) (c.disk.writeText path settings.fileText)

/-- Shows the settings, after setting them anew if asked to. -/
def configure (c : Circumstances m) (init : Bool) (language : Option String) : Action m Unit := do
  let settings : Settings := if init then {} else c.settings
  let settings ← match language with
    | some language => lift .unsupportedLanguage (settings.setLanguage language)
    | none => pure settings
  if init ∨ language.isSome then
    match c.settingsPath with
    | none => fail .noSettingsPath
    | some path =>
      saveSettings c settings path
      say ("Saved " ++ path)
  say settings.text

def Command.perform (c : Circumstances m) : Command → Action m Unit
  | run file lexical => runFile c file (if lexical then .lexical else c.settings.scoping)
  | build input output wrapping => buildFile c input output wrapping
  | parse file format => showProgram c file format
  | tokens file => showTokens c file
  | check file => checkFile c file
  | repl => converse c
  | new directory => createProject c directory
  | config init language => configure c init language

/-- Where settings are kept if nothing else is asked for. -/
def usualSettingsPath (home : String) : String :=
  Path.join (Path.join home ".minangscript") "config.json"

/-- The settings at a path; the defaults if they cannot be read or there is no path. -/
def loadSettings (disk : Disk m) : Option String → m Settings
  | none => pure {}
  | some path => do return Settings.load (← disk.readText path).toOption

/-- Loads the settings and finds out what else the command depends on. -/
def prepare (disk : Disk m) (around : Surroundings) (fuel : Nat) (i : Invocation) :
    m (Circumstances m) := do
  let path := i.settings.or (around.home.map usualSettingsPath)
  let settings ← loadSettings disk path
  let base := (around.logLevel.bind LogLevel.ofName?).getD settings.level
  return ⟨disk, settings, path, base.raise i.verbose, around.input, fuel⟩

def Invocation.perform (disk : Disk m) (around : Surroundings) (fuel : Nat) (i : Invocation) :
    m Report := do
  let c ← prepare disk around fuel i
  Action.report do
    enter c.level (.noted (.settings c.settingsPath))
    i.command.perform c

end Commands

def versionText : String :=
  "minang " ++ version ++ "\n"

/-- A summary of the use. Its words are of this library's choosing, and nothing depends on them: what counts
is that there is one, and to which stream it goes. -/
def usageText : String :=
  "Usage: minang [-v...] [--config PATH] COMMAND\n"
    ++ "\n"
    ++ "Commands:\n"
    ++ "  run FILE [--lexical-scope]\n"
    ++ "  build INPUT OUTPUT [--module NAME | --runtime]\n"
    ++ "  parse FILE [--format pretty|json]\n"
    ++ "  tokens FILE\n"
    ++ "  check FILE\n"
    ++ "  repl\n"
    ++ "  new DIRECTORY\n"
    ++ "  config [--init] [--language NAME]\n"

/-- The report if no command is performed. -/
def EarlyEnd.report : EarlyEnd → Report
  | help => ⟨.done, [⟨.results, usageText⟩]⟩
  | version => ⟨.done, [⟨.results, versionText⟩]⟩
  | misuse => ⟨.misused, [⟨.trouble, usageText⟩]⟩

/-- Reads the arguments and performs what they tell. -/
def use {m : Type → Type} [Monad m] (disk : Disk m) (around : Surroundings) (fuel : Nat)
    (arguments : List String) : m Report :=
  match readArguments arguments with
  | .ok i => i.perform disk around fuel
  | .error e => pure e.report

end CommandLine

end MinangScript
