import MinangScript.Disk.Path

/-! # Disks

A disk holds files and directories. What a program can do with a disk is given by a few operations,
so that it can run on a tree of files in memory as well as on a real disk.
-/

namespace MinangScript

/-- Why an operation on a disk failed. -/
inductive DiskError where
  | notFound
  | alreadyExists
  | notDirectory
  | isDirectory
  | nameTooLong
  /-- The bytes of a file are no text. -/
  | notText
  /-- Any other failure, in the words of the system. -/
  | other (message : String)
  deriving Repr, DecidableEq, Inhabited

def DiskError.message : DiskError → String
  | notFound => "No such file or directory (os error 2)"
  | alreadyExists => "File exists (os error 17)"
  | notDirectory => "Not a directory (os error 20)"
  | isDirectory => "Is a directory (os error 21)"
  | nameTooLong => "File name too long (os error 36)"
  | notText => "stream did not contain valid UTF-8"
  | other message => message

/-- The operations on a disk within computations of `m`. -/
structure Disk (m : Type → Type) where
  readText : String → m (Except DiskError String)
  /-- Writes a text to a file, which need not exist. -/
  writeText : String → String → m (Except DiskError Unit)
  /-- Makes a directory in one that exists. -/
  makeDirectory : String → m (Except DiskError Unit)
  isDirectory : String → m Bool
  /-- Whether a path leads to anything. -/
  isPresent : String → m Bool

namespace Disk

variable {m : Type → Type} [Monad m]

/-- Makes a directory unless it exists. -/
def ensureDirectory (disk : Disk m) (path : String) : m (Except DiskError Unit) := do
  match ← disk.makeDirectory path with
  | .ok () => return .ok ()
  | .error e => if ← disk.isDirectory path then return .ok () else return .error e

/-- Makes a directory unless it exists, and before it those around it as far as they are missing. -/
def ensureWithin (disk : Disk m) (path : String) : List String → m (Except DiskError Unit)
  | [] => if path.isEmpty then return .ok () else disk.ensureDirectory path
  | outer :: others => do
    match ← disk.makeDirectory path with
    | .ok () => return .ok ()
    | .error .notFound =>
      match ← disk.ensureWithin outer others with
      | .ok () => disk.ensureDirectory path
      | .error e => return .error e
    | .error e => if ← disk.isDirectory path then return .ok () else return .error e

/-- Makes a directory and all around it as far as they are missing. -/
def ensureAll (disk : Disk m) (path : String) : m (Except DiskError Unit) :=
  disk.ensureWithin path (Path.ancestors path)

end Disk

end MinangScript
