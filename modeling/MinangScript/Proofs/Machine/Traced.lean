import MinangScript.Proofs.Machine.Induction
import MinangScript.Proofs.Program.Nodes

/-! # Runs moment by moment

The evaluator says how a run ends, and not what happens on the way. Here it is once more with the
moments that a run goes through: every evaluation of a statement or an expression, and for every call
whether it is admitted, when it is counted, when its frame is open and when it is about to be taken
from the count again. A call is taken apart here into its steps, of which the evaluator makes one:
built-in functions and calls with the wrong number of arguments are counted too, for as long as they
are looked at, but no frame is opened for them. That the runs are the same is shown elsewhere.
-/

namespace MinangScript

/-- What is decided about a call before anything of it runs. -/
inductive Verdict where
  /-- There is no function of that name. -/
  | unknown
  /-- There is one, but no more calls may be under way. -/
  | refused
  | admitted
  deriving DecidableEq

/-- A moment of a run, with the machine as it is then. -/
inductive Moment where
  /-- A statement or an expression is about to be evaluated. -/
  | evaluating (node : Node) (m : Machine)
  /-- A function was called by its name, and it was decided whether the call is admitted. -/
  | called (name : String) (verdict : Verdict) (m : Machine)
  /-- An admitted call has been counted. -/
  | counted (m : Machine)
  /-- A built-in function is about to run. -/
  | serving (b : Builtin) (m : Machine)
  /-- A frame has been opened, and the body of a function is about to run in it. -/
  | entered (m : Machine)
  /-- A call is over and is about to be taken from the count. -/
  | closing (m : Machine)

namespace Machine

/-- Counts a call. -/
def count (m : Machine) : Machine :=
  { m with depth := m.depth + 1 }

/-- Takes a call from the count. -/
def uncount (m : Machine) : Machine :=
  { m with depth := m.depth - 1 }

/-- Opens the frame of a call that was counted. -/
def openFrame (m : Machine) (name : String) (params : List String) (args : List Value) : Machine :=
  { m with
    env := m.env.push (Bindings.ofPairs (params.zip args))
    journal := m.journal.add (.noted (.call name m.depth)) }

/-- Closes the innermost frame. -/
def closeFrame (m : Machine) : Machine :=
  { m with env := m.env.pop }

end Machine

namespace Outcome

variable {ε α : Type}

/-- The machine that the computation left, if it came to an end. -/
def machine? : Outcome ε α → Option Machine
  | done _ m | failed _ m => some m
  | outOfFuel => none

/-- The outcome with its machine changed. -/
def onMachine (f : Machine → Machine) : Outcome ε α → Outcome ε α
  | done value m => done value (f m)
  | failed e m => failed e (f m)
  | outOfFuel => outOfFuel

end Outcome

/-- A computation on the machine that tells the moments it goes through. -/
def Traced (α : Type) := Machine → Outcome RuntimeError α × List Moment

namespace Traced

open Eval (ask change lift freshTag callBuiltin)

variable {α β : Type}

protected def pure (value : α) : Traced α :=
  fun m => (.done value m, [])

protected def bind (x : Traced α) (f : α → Traced β) : Traced β := fun m =>
  match x m with
  | (.done value m', moments) => ((f value m').1, moments ++ (f value m').2)
  | (.failed e m', moments) => (.failed e m', moments)
  | (.outOfFuel, moments) => (.outOfFuel, moments)

instance : Monad Traced where
  pure := Traced.pure
  bind := Traced.bind

/-- A computation no moment of which is told. -/
def quiet (x : Eval α) : Traced α :=
  fun m => (x m, [])

/-- Cannot go on for lack of fuel. -/
def stuck : Traced α :=
  quiet Eval.stuck

/-- Tells a moment. -/
def tell (moment : Machine → Moment) : Traced Unit :=
  fun m => (.done () m, [moment m])

/-- Changes the machine behind a computation, whether it failed or not, after telling the moments
`before` the change. -/
def ensuring (x : Traced α) (before : Machine → List Moment) (tidy : Machine → Machine) :
    Traced α := fun m =>
  let (o, moments) := x m
  (o.onMachine tidy, moments ++ o.machine?.elim [] before)

/-- Runs a function whose call was counted, when `run` runs the body of a function. -/
def invoke (run : List Stmt → Traced Signal) (name : String) (args : List Value) :
    Function → Traced Value
  | .builtin b =>
    if args.length ≠ b.arity then quiet (Eval.fail (.arity b.name b.arity args.length))
    else do
      tell (.serving b)
      quiet (callBuiltin b args)
  | .user params body =>
    if args.length ≠ params.length then
      quiet (Eval.fail (.arity name params.length args.length))
    else do
      quiet (change (·.openFrame name params args))
      tell .entered
      match ← ensuring (run body) (fun _ => []) Machine.closeFrame with
      | .result v => pure v
      | _ => pure .null

/-- Calls the function of a given name, when `run` runs the body of a function. -/
def callWith (limit : Nat) (run : List Stmt → Traced Signal) (name : String) (args : List Value) :
    Traced Value := fun m =>
  match m.functions.get? name with
  | none => (.failed (.undefinedFunction name) m, [.called name .unknown m])
  | some f =>
    if limit ≤ m.depth then (.failed (.callDepth limit) m, [.called name .refused m])
    else counting f m
where
  counting (f : Function) : Traced Value := do
    tell (.called name .admitted)
    quiet (change Machine.count)
    tell .counted
    ensuring (invoke run name args f) (fun m => [.closing m]) Machine.uncount

mutual

/-- Evaluates an expression, when at most `limit` calls may be under way at a time. -/
def expr (limit : Nat) : Nat → Expr → Traced Value
  | 0, _ => stuck
  | fuel + 1, e => do
    tell (.evaluating (.expr e))
    match e with
    | .literal value => quiet (Eval.literal value)
    | .ident id => quiet (ask (·.lookup id))
    | .assign target value => do
      let v ← expr limit fuel value
      quiet (change (·.assign target.name v))
      pure v
    | .binary left op right => do
      let l ← expr limit fuel left
      let r ← expr limit fuel right
      quiet (lift (op.apply l r))
    | .unary op operand => do
      let v ← expr limit fuel operand
      quiet (lift (op.apply v))
    | .call callee args => do
      let values ← exprs limit fuel args
      let name ← quiet (ask (·.callee callee))
      call limit fuel name values
    | .member object property =>
      quiet (ask fun m => (m.method object property).map fun (name, params) => .function name params)
    | .array items => do
      let values ← exprs limit fuel items
      let tag ← quiet freshTag
      pure (.array tag values)
    | .object properties => do
      let values ← fields limit fuel properties []
      let tag ← quiet freshTag
      pure (.object tag values)

/-- Evaluates expressions in order. -/
def exprs (limit : Nat) : Nat → List Expr → Traced (List Value)
  | 0, _ => stuck
  | _ + 1, [] => pure []
  | fuel + 1, e :: rest => do
    let v ← expr limit fuel e
    let vs ← exprs limit fuel rest
    pure (v :: vs)

/-- Evaluates the properties of an object in order, after those in `done`. -/
def fields (limit : Nat) : Nat → List (String × Expr) → Bindings Value → Traced (Bindings Value)
  | 0, _, _ => stuck
  | _ + 1, [], done => pure done
  | fuel + 1, (key, e) :: rest, done => do
    let v ← expr limit fuel e
    fields limit fuel rest (done.put key v)

/-- Calls the function of a given name. -/
def call (limit : Nat) : Nat → String → List Value → Traced Value
  | 0, _, _ => stuck
  | fuel + 1, name, args => callWith limit (fun body => block limit fuel body .null) name args

/-- Runs statements in order, until one of them ends with more than a value. -/
def block (limit : Nat) : Nat → List Stmt → Value → Traced Signal
  | 0, _, _ => stuck
  | _ + 1, [], last => pure (.value last)
  | fuel + 1, s :: rest, _ => do
    match ← stmt limit fuel s with
    | .value v => block limit fuel rest v
    | signal => pure signal

/-- Runs a statement. -/
def stmt (limit : Nat) : Nat → Stmt → Traced Signal
  | 0, _ => stuck
  | fuel + 1, s => do
    tell (.evaluating (.stmt s))
    match s with
    | .declare _ name init => do
      let v ← optional limit fuel init
      quiet (change (·.assign name.name v))
      pure (.value v)
    | .function name params body => do
      quiet (change (·.declare name.name (.user (params.map (·.name)) body)))
      pure (.value .null)
    | .conditional cond body other => do
      let c ← expr limit fuel cond
      if c.truthy then block limit fuel body .null
      else
        match other with
        | some alternative => stmt limit fuel alternative
        | none => pure (.value .null)
    | .whileLoop cond body => whileLoop limit fuel cond body .null
    | .forLoop init cond update body => do
      match ← initializer limit fuel init with
      | .result v => pure (.result v)
      | _ => forLoop limit fuel cond update body .null
    | .result value => do
      let v ← optional limit fuel value
      pure (.result v)
    | .breakLoop => pure .breakLoop
    | .continueLoop => pure .continueLoop
    | .print arg => do
      let v ← expr limit fuel arg
      quiet (change (·.record (.printed .log v.text)))
      pure (.value v)
    | .block body => block limit fuel body .null
    | .expr value => do
      let v ← expr limit fuel value
      pure (.value v)

/-- Evaluates an expression that may be missing, in which case its value is null. -/
def optional (limit : Nat) : Nat → Option Expr → Traced Value
  | 0, _ => stuck
  | _ + 1, none => pure .null
  | fuel + 1, some e => expr limit fuel e

/-- Runs the initializer of a for loop, which may be missing. -/
def initializer (limit : Nat) : Nat → Option Stmt → Traced Signal
  | 0, _ => stuck
  | _ + 1, none => pure (.value .null)
  | fuel + 1, some s => stmt limit fuel s

/-- Runs a while loop, whose body last had the value `last`. -/
def whileLoop (limit : Nat) : Nat → Expr → List Stmt → Value → Traced Signal
  | 0, _, _, _ => stuck
  | fuel + 1, cond, body, last => do
    let c ← expr limit fuel cond
    if c.truthy then
      match ← block limit fuel body .null with
      | .breakLoop => pure (.value last)
      | .result v => pure (.result v)
      | .continueLoop => whileLoop limit fuel cond body last
      | .value v => whileLoop limit fuel cond body v
    else pure (.value last)

/-- Evaluates the condition of a for loop; a missing one holds. -/
def condition (limit : Nat) : Nat → Option Expr → Traced Bool
  | 0, _ => stuck
  | _ + 1, none => pure true
  | fuel + 1, some e => do
    let c ← expr limit fuel e
    pure c.truthy

/-- Runs a for loop after its initializer, whose body last had the value `last`. -/
def forLoop (limit : Nat) :
    Nat → Option Expr → Option Expr → List Stmt → Value → Traced Signal
  | 0, _, _, _, _ => stuck
  | fuel + 1, cond, update, body, last => do
    let holds ← condition limit fuel cond
    if holds then
      match ← block limit fuel body .null with
      | .breakLoop => pure (.value last)
      | .result v => pure (.result v)
      | .continueLoop => do
        let _ ← optional limit fuel update
        forLoop limit fuel cond update body last
      | .value v => do
        let _ ← optional limit fuel update
        forLoop limit fuel cond update body v
    else pure (.value last)

end

/-- Runs the statements of a program in order. -/
def statements (limit fuel : Nat) : List Stmt → Value → Traced Value
  | [], last => pure last
  | s :: rest, last => do
    match ← stmt limit fuel s with
    | .result v => pure v
    | .value v => statements limit fuel rest v
    | .breakLoop | .continueLoop => statements limit fuel rest last

/-- Runs a program. -/
def program (limit fuel : Nat) (p : Program) : Traced Value := do
  quiet (change fun m => m.record (.noted (.executing p.body.length m.env.scoping)))
  statements limit fuel p.body .null

end Traced

end MinangScript
