import MinangScript.Bindings
import MinangScript.Value.Basic

/-! # Environments

The variables of a running program: the global ones, and a frame of local ones for every call
under way. Which frames a name is looked up in depends on the scoping.
-/

namespace MinangScript

/-- Which frames are visible. -/
inductive Scoping where
  /-- All frames, the innermost first, then the global variables. -/
  | dynamic
  /-- The innermost frame, then the global variables. -/
  | lexical
  deriving Repr, DecidableEq, Inhabited

/-- The variables of a running program; the innermost frame comes first. -/
structure Environment where
  globals : Bindings Value
  frames : List (Bindings Value)
  scoping : Scoping
  deriving Repr, Inhabited

namespace Environment

def empty (scoping : Scoping) : Environment :=
  ⟨[], [], scoping⟩

/-- The value of a name in the innermost of several frames that has it. -/
def lookup? (name : String) : List (Bindings Value) → Option Value
  | [] => none
  | frame :: rest =>
    match frame.get? name with
    | some value => some value
    | none => lookup? name rest

/-- The frames in which names are looked up. -/
def visible (e : Environment) : List (Bindings Value) :=
  match e.scoping with
  | .dynamic => e.frames
  | .lexical => e.frames.take 1

def get? (e : Environment) (name : String) : Option Value :=
  match lookup? name e.visible with
  | some value => some value
  | none => e.globals.get? name

/-- Writes a name in the innermost of several frames that has it, if one does. -/
def update? (name : String) (value : Value) :
    List (Bindings Value) → Option (List (Bindings Value))
  | [] => none
  | frame :: rest =>
    if frame.has name then some (frame.put name value :: rest)
    else (update? name value rest).map (frame :: ·)

/-- Writes a name where it is visible, or else as a global variable. -/
def set (e : Environment) (name : String) (value : Value) : Environment :=
  let updated :=
    match e.scoping with
    | .dynamic => update? name value e.frames
    | .lexical =>
      match e.frames with
      | [] => none
      | frame :: rest => (update? name value [frame]).map (· ++ rest)
  match updated with
  | some frames => { e with frames := frames }
  | none => { e with globals := e.globals.put name value }

/-- Opens a frame. -/
def push (e : Environment) (frame : Bindings Value) : Environment :=
  { e with frames := frame :: e.frames }

/-- Closes the innermost frame, if there is one. -/
def pop (e : Environment) : Environment :=
  { e with frames := e.frames.tail }

def depth (e : Environment) : Nat :=
  e.frames.length

end Environment

end MinangScript
