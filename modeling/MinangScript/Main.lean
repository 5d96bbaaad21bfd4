import MinangScript.CommandLine.Perform

/-! # The program

Connects the command line with the real disk, the surroundings of the process and its streams.
-/

namespace MinangScript

namespace CommandLine

/-- The cause of a failure that the system reports. -/
def causeOf : IO.Error → DiskError
  | .noFileOrDirectory _ _ _ => .notFound
  | .alreadyExists _ _ _ => .alreadyExists
  | .inappropriateType _ code details =>
    if code = 20 then .notDirectory
    else if code = 21 then .isDirectory
    else .other details
  | e => .other (toString e)

/-- The result of an operation of the system, or the cause of its failure. -/
def attempt {α : Type} (operation : IO α) : IO (Except DiskError α) := do
  try
    return .ok (← operation)
  catch e => return .error (causeOf e)

/-- Whether something can be opened. A path that ends in a point can be opened only if it leads to
a directory. -/
def canOpen (path : String) : IO Bool := do
  return (← attempt (IO.FS.Handle.mk path .read)).isOk

def readTextFile (path : String) : IO (Except DiskError String) := do
  match ← attempt (IO.FS.readBinFile path) with
  | .error e => return .error e
  | .ok bytes =>
    match String.fromUTF8? bytes with
    | some text => return .ok text
    | none => return .error .notText

def realDisk : Disk IO where
  readText := readTextFile
  writeText path text := attempt (IO.FS.writeBinFile path text.toUTF8)
  makeDirectory path := attempt (IO.FS.createDir path)
  isDirectory path := canOpen (path ++ "/.")
  isPresent := canOpen

/-- Writes what a report holds, and gives its exit code. -/
def deliver (r : Report) : IO UInt32 := do
  let out ← IO.getStdout
  let err ← IO.getStderr
  for o in r.outputs do
    match o.stream with
    | .results => out.putStr o.text
    | .trouble => err.putStr o.text
  out.flush
  return UInt32.ofNat (r.ending.code?.getD 1)

def deliverEvents (c : Circumstances IO) (events : List Repl.Event) : IO Unit := do
  let _ ← deliver (← Action.report (events.forM (showEvent c.level)))

/-- Takes turns until a line asks to leave or there are no more. -/
partial def takeTurns (c : Circumstances IO) (machine : Machine) : IO Unit := do
  deliverEvents c [.said Repl.prompt]
  let line ← (← IO.getStdin).getLine
  let typed := if line.isEmpty then none else some line
  match Repl.turn c.settings.maxCallDepth.toNat c.fuel machine typed with
  | none => pure ()
  | some turn =>
    deliverEvents c turn.events
    if turn.goesOn then takeTurns c turn.machine

/-- Has a conversation with whoever types. -/
def converseLive (around : Surroundings) (i : Invocation) : IO UInt32 := do
  let c ← prepare realDisk around Machine.ampleFuel i
  deliverEvents c [.entered (.noted (.settings c.settingsPath)), .said Repl.greeting]
  takeTurns c (Machine.start c.settings.scoping)
  return 0

end CommandLine

end MinangScript

open MinangScript CommandLine in
def main (arguments : List String) : IO UInt32 := do
  let home ← IO.getEnv "HOME"
  let profile ← IO.getEnv "USERPROFILE"
  let around : Surroundings := { home := home.or profile, logLevel := ← IO.getEnv "MINANG_LOG" }
  match readArguments arguments with
  | .ok ⟨verbose, settings, .repl⟩ => converseLive around ⟨verbose, settings, .repl⟩
  | _ => deliver (← use realDisk around Machine.ampleFuel arguments)
