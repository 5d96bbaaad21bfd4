import MinangScript.Disk.Basic

/-! # Trees of files

A disk in memory. Files and directories are found by the names on the way from the root, which is
also where paths start, whether or not they begin with a slash. All pieces of a path but the last
have to lead through directories that exist; two points lead one directory up, and at the root they
lead nowhere.
-/

namespace MinangScript

/-- What a name in a directory stands for. -/
inductive FileNode where
  | file (bytes : ByteArray)
  | directory
  deriving Inhabited

/-- The names on the way from the root, the last first. -/
abbrev Location := List String

/-- A tree of files: what is at which location. The root is a directory and is not listed. -/
structure FileTree where
  nodes : List (Location × FileNode)
  deriving Inhabited

namespace FileTree

def empty : FileTree := ⟨[]⟩

def get? (t : FileTree) (place : Location) : Option FileNode :=
  match place with
  | [] => some .directory
  | place => t.nodes.lookup place

def put (t : FileTree) (place : Location) (node : FileNode) : FileTree :=
  ⟨(place, node) :: t.nodes.filter fun entry => entry.1 != place⟩

/-- How many bytes a name may have. -/
def maxName : Nat := 255

/-- How many bytes a path may have. -/
def maxPath : Nat := 4095

/-- What a single piece leads to from a directory, which need not exist. -/
def follow (directory : Location) (piece : String) : Except DiskError Location :=
  if Path.isIdle piece then .ok directory
  else if piece = ".." then .ok directory.tail
  else if maxName < piece.utf8ByteSize then .error .nameTooLong
  else .ok (piece :: directory)

/-- Goes from a directory into the next. -/
def enter (t : FileTree) (directory : Location) (piece : String) : Except DiskError Location := do
  let next ← follow directory piece
  match t.get? next with
  | none => .error .notFound
  | some (.file _) => .error .notDirectory
  | some .directory => .ok next

/-- The end of a path: the directory in which its last piece stands, that piece, and whether
a slash follows, so that only a directory can be meant. -/
structure Target where
  directory : Location
  name : String
  slash : Bool
  deriving Repr, DecidableEq

/-- Whether the last piece leads to a directory by itself. -/
def Target.isDots (target : Target) : Bool :=
  target.name == "." || target.name == ".."

/-- Follows a path up to its last piece. -/
def target (t : FileTree) (path : String) : Except DiskError Target :=
  if path.isEmpty then .error .notFound
  else if maxPath < path.utf8ByteSize then .error .nameTooLong
  else
    let pieces := Path.pieces path
    let slash := pieces.getLast? == some ""
    match (pieces.filter (· ≠ "")).reverse with
    | [] => .ok ⟨[], ".", slash⟩
    | last :: before => do
      let directory ← before.reverse.foldlM t.enter []
      return ⟨directory, last, slash⟩

/-- What a path leads to, and where it is. -/
def find (t : FileTree) (path : String) : Except DiskError FileNode := do
  let target ← t.target path
  let place ← follow target.directory target.name
  match t.get? place with
  | none => .error .notFound
  | some (.file bytes) => if target.slash then .error .notDirectory else .ok (.file bytes)
  | some .directory => .ok .directory

def read (t : FileTree) (path : String) : Except DiskError ByteArray := do
  match ← t.find path with
  | .file bytes => return bytes
  | .directory => .error .isDirectory

def readText (t : FileTree) (path : String) : Except DiskError String := do
  match String.fromUTF8? (← t.read path) with
  | some text => return text
  | none => .error .notText

/-- Writes bytes to a file. A path that ends with a slash or with points cannot be a file. -/
def write (t : FileTree) (path : String) (bytes : ByteArray) : Except DiskError FileTree := do
  let target ← t.target path
  if target.isDots ∨ target.slash then .error .isDirectory
  else
    let place ← follow target.directory target.name
    match t.get? place with
    | some .directory => .error .isDirectory
    | _ => return t.put place (.file bytes)

/-- Makes a directory in one that exists. -/
def makeDirectory (t : FileTree) (path : String) : Except DiskError FileTree := do
  let target ← t.target path
  if target.isDots then .error .alreadyExists
  else
    let place ← follow target.directory target.name
    match t.get? place with
    | some _ => .error .alreadyExists
    | none => return t.put place .directory

def isDirectory (t : FileTree) (path : String) : Bool :=
  match t.find path with
  | .ok .directory => true
  | _ => false

def isPresent (t : FileTree) (path : String) : Bool :=
  (t.find path).isOk

/-- Changes a tree unless there is an error. -/
def update (change : FileTree → Except DiskError FileTree) :
    StateM FileTree (Except DiskError Unit) := fun t =>
  match change t with
  | .ok t' => (.ok (), t')
  | .error e => (.error e, t)

/-- A tree of files as a disk. -/
def disk : Disk (StateM FileTree) where
  readText path := return (← get).readText path
  writeText path text := update (·.write path text.toUTF8)
  makeDirectory path := update (·.makeDirectory path)
  isDirectory path := return (← get).isDirectory path
  isPresent path := return (← get).isPresent path

end FileTree

end MinangScript
