import MinangScript.Disk.Basic
import MinangScript.JavaScript.Emit
import MinangScript.Machine.Evaluator
import MinangScript.Settings.Basic

/-! # Reports of commands

A command writes to two streams, one for its results and one for trouble and diagnosis, and it ends
well or with a failure. What it wrote before a failure stays written.
-/

namespace MinangScript

namespace CommandLine

inductive Stream where
  | results | trouble
  deriving Repr, DecidableEq

/-- A piece of what a command writes. -/
structure Output where
  stream : Stream
  text : String
  deriving Repr, DecidableEq

/-- How long the text of a source may be, in bytes. -/
def maxSourceSize : Nat := 1000000

inductive Failure where
  | cannotRead (path : String) (e : DiskError)
  | sourceTooLong (bytes : Nat)
  | parse (e : ParseError)
  | runtime (e : RuntimeError)
  | unsupportedNode (e : JavaScript.UnsupportedNode)
  | cannotWrite (path : String) (e : DiskError)
  | projectExists (path : String)
  | cannotCreateProject (directory : String) (e : DiskError)
  | cannotWriteProject (e : DiskError)
  | unsupportedLanguage (e : Settings.UnsupportedLanguage)
  | noSettingsPath
  | cannotCreateSettings (directory : String) (e : DiskError)
  | cannotWriteSettings (path : String) (e : DiskError)
  deriving Repr

def Failure.message : Failure → String
  | cannotRead path e => "cannot read '" ++ path ++ "': " ++ e.message
  | sourceTooLong bytes =>
    "source file exceeds " ++ toString (maxSourceSize / 1000000) ++ "MB limit ("
      ++ toString bytes ++ " bytes)"
  | parse e => e.message
  | runtime e => e.message
  | unsupportedNode e => e.message
  | cannotWrite path e => "cannot write '" ++ path ++ "': " ++ e.message
  | projectExists path => path ++ " already exists"
  | cannotCreateProject directory e => "cannot create " ++ directory ++ ": " ++ e.message
  | cannotWriteProject e => e.message
  | unsupportedLanguage e => e.message
  | noSettingsPath => "no config path: set HOME or pass --config"
  | cannotCreateSettings directory e => "failed to create " ++ directory ++ ": " ++ e.message
  | cannotWriteSettings path e => "failed to write " ++ path ++ ": " ++ e.message

/-- Why a command stops before its end. -/
inductive Stop where
  | failed (f : Failure)
  | outOfFuel
  deriving Repr

/-- How a use of the command line ends. -/
inductive Ending where
  | done
  | failed (f : Failure)
  | misused
  /-- The fuel was not enough. -/
  | outOfFuel
  deriving Repr

/-- The exit code, if there is an end. -/
def Ending.code? : Ending → Option Nat
  | done => some 0
  | failed _ => some 1
  | misused => some 2
  | outOfFuel => none

/-- What a use of the command line did: how it ended, and what it wrote in order. -/
structure Report where
  ending : Ending
  outputs : List Output
  deriving Repr

end CommandLine

end MinangScript
