import MinangScript.Machine.Basic
import MinangScript.Source

/-! # Running programs

Every step of the evaluation uses up fuel, so that it always comes to an end; more fuel than a
run needs changes nothing about it. Both operands of an operator are always evaluated, and a
function or a method is looked up only when its arguments have been.
-/

namespace MinangScript

/-- The number that a value reads as. -/
def Value.toNumber (v : Value) : Except RuntimeError Float :=
  match v.toNumber? with
  | some n => .ok n
  | none => .error (.notNumeric v.describe)

/-- Applies an operation to two numbers, of which the left one is read first. -/
def BinaryOp.onNumbers (f : Float → Float → Value) (left right : Value) :
    Except RuntimeError Value := do
  let a ← left.toNumber
  let b ← right.toNumber
  return f a b

/-- Divides; the right operand is looked at first. -/
def BinaryOp.divide (left right : Value) : Except RuntimeError Value := do
  let b ← right.toNumber
  if b == 0 then throw .divisionByZero
  let a ← left.toNumber
  return .number (a / b)

/-- The sum of two numbers, or the joined texts of any other two values. -/
def BinaryOp.plus : Value → Value → Value
  | .number a, .number b => .number (a + b)
  | left, right => .string (left.text ++ right.text)

def BinaryOp.apply (op : BinaryOp) (left right : Value) : Except RuntimeError Value :=
  match op with
  | .or => .ok (.bool (left.truthy || right.truthy))
  | .and => .ok (.bool (left.truthy && right.truthy))
  | .eq => .ok (.bool (left.same right))
  | .ne => .ok (.bool (!left.same right))
  | .lt => onNumbers (fun a b => .bool (a < b)) left right
  | .le => onNumbers (fun a b => .bool (a ≤ b)) left right
  | .gt => onNumbers (fun a b => .bool (a > b)) left right
  | .ge => onNumbers (fun a b => .bool (a ≥ b)) left right
  | .add => .ok (plus left right)
  | .sub => onNumbers (fun a b => .number (a - b)) left right
  | .mul => onNumbers (fun a b => .number (a * b)) left right
  | .div => divide left right
  | .mod => onNumbers (fun a b => .number (Number.remainder a b)) left right

def UnaryOp.apply (op : UnaryOp) (operand : Value) : Except RuntimeError Value :=
  match op with
  | .not => .ok (.bool (!operand.truthy))
  | .neg => operand.toNumber.map fun n => .number (-n)

namespace Eval

/-- The value of a literal; a regex is a new one every time. -/
def literal : Literal → Eval Value
  | .number value => pure (.number value)
  | .string text => pure (.string text)
  | .bool value => pure (.bool value)
  | .null => pure .null
  | .regex pattern flags => do
    let tag ← freshTag
    pure (.regex tag pattern flags)

def callBuiltin (b : Builtin) (args : List Value) : Eval Value := fun m =>
  if args.length ≠ b.arity then .failed (.arity b.name b.arity args.length) m
  else
    let reply := b.call args m.nextTag
    .done reply.value { m.recordAll reply.entries with nextTag := reply.tag }

/-- Leaves a call with what its body ended with. -/
def leaving : Outcome RuntimeError Signal → Outcome RuntimeError Value
  | .done (.result v) m => .done v m.leave
  | .done _ m => .done .null m.leave
  | .failed e m => .failed e m.leave
  | .outOfFuel => .outOfFuel

mutual

/-- Evaluates an expression, when at most `limit` calls may be under way at a time. -/
def expr (limit : Nat) : Nat → Expr → Eval Value
  | 0, _ => stuck
  | fuel + 1, e =>
    match e with
    | .literal value => literal value
    | .ident id => ask (·.lookup id)
    | .assign target value => do
      let v ← expr limit fuel value
      change (·.assign target.name v)
      pure v
    | .binary left op right => do
      let l ← expr limit fuel left
      let r ← expr limit fuel right
      lift (op.apply l r)
    | .unary op operand => do
      let v ← expr limit fuel operand
      lift (op.apply v)
    | .call callee args => do
      let values ← exprs limit fuel args
      let name ← ask (·.callee callee)
      call limit fuel name values
    | .member object property =>
      ask fun m => (m.method object property).map fun (name, params) => .function name params
    | .array items => do
      let values ← exprs limit fuel items
      let tag ← freshTag
      pure (.array tag values)
    | .object properties => do
      let values ← fields limit fuel properties []
      let tag ← freshTag
      pure (.object tag values)

def exprs (limit : Nat) : Nat → List Expr → Eval (List Value)
  | 0, _ => stuck
  | _ + 1, [] => pure []
  | fuel + 1, e :: rest => do
    let v ← expr limit fuel e
    let vs ← exprs limit fuel rest
    pure (v :: vs)

/-- Evaluates the properties of an object in order, after those in `done`. -/
def fields (limit : Nat) : Nat → List (String × Expr) → Bindings Value → Eval (Bindings Value)
  | 0, _, _ => stuck
  | _ + 1, [], done => pure done
  | fuel + 1, (key, e) :: rest, done => do
    let v ← expr limit fuel e
    fields limit fuel rest (done.put key v)

def call (limit : Nat) : Nat → String → List Value → Eval Value
  | 0, _, _ => stuck
  | fuel + 1, name, args => fun m =>
    match m.functions.get? name with
    | none => .failed (.undefinedFunction name) m
    | some f =>
      if limit ≤ m.depth then .failed (.callDepth limit) m
      else
        match f with
        | .builtin b => callBuiltin b args m
        | .user params body =>
          if args.length ≠ params.length then
            .failed (.arity name params.length args.length) m
          else leaving (block limit fuel body .null (m.enter name params args))

/-- Runs statements in order, until one of them ends with more than a value. -/
def block (limit : Nat) : Nat → List Stmt → Value → Eval Signal
  | 0, _, _ => stuck
  | _ + 1, [], last => pure (.value last)
  | fuel + 1, s :: rest, _ => do
    match ← stmt limit fuel s with
    | .value v => block limit fuel rest v
    | signal => pure signal

def stmt (limit : Nat) : Nat → Stmt → Eval Signal
  | 0, _ => stuck
  | fuel + 1, s =>
    match s with
    | .declare _ name init => do
      let v ← optional limit fuel init
      change (·.assign name.name v)
      pure (.value v)
    | .function name params body => do
      change (·.declare name.name (.user (params.map (·.name)) body))
      pure (.value .null)
    | .conditional cond body other => do
      let c ← expr limit fuel cond
      if c.truthy then block limit fuel body .null
      else
        match other with
        | some alternative => stmt limit fuel alternative
        | none => pure (.value .null)
    | .whileLoop cond body => whileLoop limit fuel cond body .null
    | .forLoop init cond update body => do
      match ← initializer limit fuel init with
      | .result v => pure (.result v)
      | _ => forLoop limit fuel cond update body .null
    | .result value => do
      let v ← optional limit fuel value
      pure (.result v)
    | .breakLoop => pure .breakLoop
    | .continueLoop => pure .continueLoop
    | .print arg => do
      let v ← expr limit fuel arg
      change (·.record (.printed .log v.text))
      pure (.value v)
    | .block body => block limit fuel body .null
    | .expr value => do
      let v ← expr limit fuel value
      pure (.value v)

/-- Evaluates an expression that may be missing, in which case its value is null. -/
def optional (limit : Nat) : Nat → Option Expr → Eval Value
  | 0, _ => stuck
  | _ + 1, none => pure .null
  | fuel + 1, some e => expr limit fuel e

/-- Runs the initializer of a for loop, which may be missing. -/
def initializer (limit : Nat) : Nat → Option Stmt → Eval Signal
  | 0, _ => stuck
  | _ + 1, none => pure (.value .null)
  | fuel + 1, some s => stmt limit fuel s

/-- Runs a while loop, whose body last had the value `last`. -/
def whileLoop (limit : Nat) : Nat → Expr → List Stmt → Value → Eval Signal
  | 0, _, _, _ => stuck
  | fuel + 1, cond, body, last => do
    let c ← expr limit fuel cond
    if c.truthy then
      match ← block limit fuel body .null with
      | .breakLoop => pure (.value last)
      | .result v => pure (.result v)
      | .continueLoop => whileLoop limit fuel cond body last
      | .value v => whileLoop limit fuel cond body v
    else pure (.value last)

/-- Evaluates the condition of a for loop; a missing one holds. -/
def condition (limit : Nat) : Nat → Option Expr → Eval Bool
  | 0, _ => stuck
  | _ + 1, none => pure true
  | fuel + 1, some e => do
    let c ← expr limit fuel e
    pure c.truthy

/-- Runs a for loop after its initializer, whose body last had the value `last`. -/
def forLoop (limit : Nat) :
    Nat → Option Expr → Option Expr → List Stmt → Value → Eval Signal
  | 0, _, _, _, _ => stuck
  | fuel + 1, cond, update, body, last => do
    let holds ← condition limit fuel cond
    if holds then
      match ← block limit fuel body .null with
      | .breakLoop => pure (.value last)
      | .result v => pure (.result v)
      | .continueLoop => do
        let _ ← optional limit fuel update
        forLoop limit fuel cond update body last
      | .value v => do
        let _ ← optional limit fuel update
        forLoop limit fuel cond update body v
    else pure (.value last)

end

/-- Runs the statements of a program in order. A signal to leave or repeat a loop means nothing
here; the value of the last statement that had one is the value of all. -/
def statements (limit fuel : Nat) : List Stmt → Value → Eval Value
  | [], last => pure last
  | s :: rest, last => do
    match ← stmt limit fuel s with
    | .result v => pure v
    | .value v => statements limit fuel rest v
    | .breakLoop | .continueLoop => statements limit fuel rest last

def program (limit fuel : Nat) (p : Program) : Eval Value := do
  change fun m => m.record (.noted (.executing p.body.length m.env.scoping))
  statements limit fuel p.body .null

end Eval

/-- Why a source did not run to its end. -/
inductive RunError where
  | parse (error : ParseError)
  | runtime (error : RuntimeError)
  deriving Repr

def RunError.message : RunError → String
  | parse e => e.message
  | runtime e => e.message

namespace Machine

/-- More fuel than any run that ends in practice can use. -/
def ampleFuel : Nat := Nat.pow 10 18

/-- How many calls may be under way at a time, unless something else is asked for. -/
def defaultCallLimit : Nat := 1000

/-- The name of a source that is no file. -/
def inputName : String := "<input>"

/-- Reads a source text and runs its program. -/
def run (limit fuel : Nat) (source : String) (m : Machine) : Outcome RunError Value :=
  let reading := readProgram inputName source
  let m := m.recordAll reading.entries
  match reading.outcome with
  | .error e => .failed (.parse e) m
  | .ok program =>
    match Eval.program limit fuel program m with
    | .done value m' => .done value (m'.record (.noted (.result value.text)))
    | .failed e m' => .failed (.runtime e) m'
    | .outOfFuel => .outOfFuel

end Machine

end MinangScript
