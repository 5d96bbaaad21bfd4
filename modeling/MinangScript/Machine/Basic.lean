import MinangScript.Builtin
import MinangScript.Program.Basic

/-! # The machine

The state in which programs run: variables, functions, the depth of calls and the journal. A
computation on the machine ends with a value or an error, in both cases with a machine, or it runs
out of the fuel it was given.
-/

namespace MinangScript

/-- Why a program stops. -/
inductive RuntimeError where
  | undefinedVariable (id : Ident)
  | undefinedFunction (name : String)
  | undefinedProperty (object property : String)
  /-- What is called is neither a name nor a property. -/
  | notCallable (kind : String)
  | arity (name : String) (expected found : Nat)
  | notNumeric (value : String)
  | divisionByZero
  | callDepth (limit : Nat)
  deriving Repr, DecidableEq

def RuntimeError.message : RuntimeError → String
  | undefinedVariable id => "undefined variable '" ++ id.name ++ "' at " ++ id.position.phrase
  | undefinedFunction name => "function '" ++ name ++ "' is not defined"
  | undefinedProperty object property =>
    "property '" ++ property ++ "' not found on '" ++ object ++ "'"
  | notCallable kind => "only identifiers and member expressions can be called, found " ++ kind
  | arity name expected found =>
    "function '" ++ name ++ "' expects " ++ toString expected ++ " argument(s), got "
      ++ toString found
  | notNumeric value => "cannot convert " ++ value ++ " to a number"
  | divisionByZero => "division by zero"
  | callDepth limit =>
    "maximum call depth exceeded (limit: " ++ toString limit ++ " calls)"

/-- How a statement ends: with a value, or on its way out of a function or a loop. -/
inductive Signal where
  | value (v : Value)
  | result (v : Value)
  | breakLoop
  | continueLoop
  deriving Repr, Inhabited

namespace Signal

def toValue : Signal → Value
  | value v => v
  | result v => v
  | breakLoop | continueLoop => .null

def isResult : Signal → Bool
  | result _ => true
  | _ => false

end Signal

/-- An entry of the table of functions. -/
inductive Function where
  | builtin (b : Builtin)
  | user (params : List String) (body : List Stmt)
  deriving Repr, Inhabited

/-- The parameters that a function shows. -/
def Function.params? : Function → Option (List String)
  | builtin _ => none
  | user params _ => some params

/-- The state in which programs run. -/
structure Machine where
  env : Environment
  functions : Bindings Function
  /-- The number of calls under way. -/
  depth : Nat
  journal : Journal
  /-- The first tag that was not given out yet. -/
  nextTag : Nat
  deriving Repr, Inhabited

namespace Machine

/-- The machine before any program ran. -/
def start (scoping : Scoping) : Machine where
  env := Builtin.constants.foldl (fun e (name, value) => e.set name value) (.empty scoping)
  functions := Builtin.all.map fun b => (b.name, .builtin b)
  depth := 0
  journal := .empty
  nextTag := 0

def assign (m : Machine) (name : String) (value : Value) : Machine :=
  { m with env := m.env.set name value }

/-- Declares a function, in place of one of the same name. -/
def declare (m : Machine) (name : String) (f : Function) : Machine :=
  { m with functions := m.functions.put name f }

def record (m : Machine) (e : Entry) : Machine :=
  { m with journal := m.journal.add e }

def recordAll (m : Machine) (entries : List Entry) : Machine :=
  { m with journal := m.journal.addAll entries }

/-- The machine inside a call of the function `name`, whose parameters are bound to arguments. -/
def enter (m : Machine) (name : String) (params : List String) (args : List Value) : Machine :=
  { m with
    env := m.env.push (Bindings.ofPairs (params.zip args))
    depth := m.depth + 1
    journal := m.journal.add (.noted (.call name (m.depth + 1))) }

/-- The machine back outside of a call. -/
def leave (m : Machine) : Machine :=
  { m with env := m.env.pop, depth := m.depth - 1 }

/-- The function of a given name, as a value. -/
def functionValue? (m : Machine) (name : String) : Option Value :=
  (m.functions.get? name).map fun f => .function name f.params?

/-- The value of a name: a variable, or else a function. -/
def lookup (m : Machine) (id : Ident) : Except RuntimeError Value :=
  match m.env.get? id.name with
  | some value => .ok value
  | none =>
    match m.functionValue? id.name with
    | some value => .ok value
    | none => .error (.undefinedVariable id)

/-- The function that a property names, with the parameters it shows. Properties exist only on
functions; one that is unknown fails when it is called. -/
def method (m : Machine) (object : Expr) (property : Ident) :
    Except RuntimeError (String × Option (List String)) :=
  match object with
  | .ident id =>
    let dotted := id.name ++ "." ++ property.name
    match m.functions.get? dotted with
    | some f => .ok (dotted, f.params?)
    | none =>
      if m.functions.has id.name then .ok (dotted, none)
      else .error (.undefinedProperty id.name property.name)
  | other => .error (.undefinedProperty other.typeName property.name)

/-- The name of the function that a call means. -/
def callee (m : Machine) : Expr → Except RuntimeError String
  | .ident id =>
    if m.functions.has id.name then .ok id.name
    else
      match m.env.get? id.name with
      | some (.function name _) => .ok name
      | _ => .error (.undefinedFunction id.name)
  | .member object property => (m.method object property).map (·.1)
  | other => .error (.notCallable other.typeName)

end Machine

/-- How a computation on the machine ends. -/
inductive Outcome (ε α : Type) where
  | done (value : α) (machine : Machine)
  | failed (error : ε) (machine : Machine)
  /-- The fuel was not enough to tell. -/
  | outOfFuel
  deriving Repr

/-- A computation on the machine. -/
def Eval (α : Type) := Machine → Outcome RuntimeError α

namespace Eval

@[always_inline, inline]
protected def pure {α : Type} (value : α) : Eval α :=
  fun m => .done value m

@[always_inline, inline]
protected def bind {α β : Type} (x : Eval α) (f : α → Eval β) : Eval β := fun m =>
  match x m with
  | .done value m' => f value m'
  | .failed e m' => .failed e m'
  | .outOfFuel => .outOfFuel

@[always_inline]
instance : Monad Eval where
  pure := Eval.pure
  bind := Eval.bind

def fail {α : Type} (e : RuntimeError) : Eval α :=
  fun m => .failed e m

/-- Cannot go on for lack of fuel. -/
def stuck {α : Type} : Eval α :=
  fun _ => .outOfFuel

@[inline]
def change (f : Machine → Machine) : Eval Unit :=
  fun m => .done () (f m)

@[inline]
def ask {α : Type} (f : Machine → Except RuntimeError α) : Eval α := fun m =>
  match f m with
  | .ok value => .done value m
  | .error e => .failed e m

/-- Takes what does not need the machine. -/
@[inline]
def lift {α : Type} (x : Except RuntimeError α) : Eval α :=
  ask fun _ => x

/-- A tag that was not given out before. -/
@[inline]
def freshTag : Eval Nat :=
  fun m => .done m.nextTag { m with nextTag := m.nextTag + 1 }

end Eval

end MinangScript
