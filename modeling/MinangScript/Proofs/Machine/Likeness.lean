import MinangScript.Proofs.Machine.Discipline
import MinangScript.Proofs.Machine.Simulation

/-! # Machines that are alike to a program

A program learns of the variables only what reading a name tells it, and it never reads the journal.
Machines whose environments answer alike, now and after every write and call, and that have the rest
in common up to the notes in their journals, are therefore the same to every program.
-/

namespace MinangScript

/-- A relation between environments that reading cannot tell apart and that writing keeps. What is
    around a call may be forgotten inside of it, as long as the relation is back after the call. -/
structure Likeness (ι : Type) where
  Alike : ι → Environment → Environment → Prop
  get? : ∀ {i e e'}, Alike i e e' → ∀ name, e'.get? name = e.get? name
  set : ∀ {i e e'}, Alike i e e' → ∀ name value, Alike i (e.set name value) (e'.set name value)
  call : ∀ {i e e'}, Alike i e e' → ∀ frame, ∃ j, Alike j (e.push frame) (e'.push frame) ∧
    ∀ {inside inside'}, Alike j inside inside' → Alike i inside.pop inside'.pop

namespace Likeness

variable {ι : Type}

/-- Machines with environments that are alike. -/
structure OnMachines (L : Likeness ι) (i : ι) (m m' : Machine) : Prop where
  env : L.Alike i m.env m'.env
  functions : m'.functions = m.functions
  depth : m'.depth = m.depth
  nextTag : m'.nextTag = m.nextTag
  lines : m'.journal.lines = m.journal.lines

namespace OnMachines

variable {L : Likeness ι} {i : ι} {m m' : Machine}

theorem lookup (alike : L.OnMachines i m m') (id : Ident) : m'.lookup id = m.lookup id := by
  simp only [Machine.lookup, Machine.functionValue?, L.get? alike.env, alike.functions]

theorem method (alike : L.OnMachines i m m') (object : Expr) (property : Ident) :
    m'.method object property = m.method object property := by
  simp only [Machine.method, alike.functions]

theorem callee (alike : L.OnMachines i m m') (callee : Expr) :
    m'.callee callee = m.callee callee := by
  cases callee with
  | ident id => simp only [Machine.callee, L.get? alike.env, alike.functions]
  | member object property => simp only [Machine.callee, alike.method]
  | assign | binary | unary | call | literal | array | object => rfl

theorem assign (alike : L.OnMachines i m m') (name : String) (value : Value) :
    L.OnMachines i (m.assign name value) (m'.assign name value) :=
  { alike with env := L.set alike.env name value }

theorem declare (alike : L.OnMachines i m m') (name : String) (f : Function) :
    L.OnMachines i (m.declare name f) (m'.declare name f) :=
  { alike with functions := by simp only [Machine.declare, alike.functions] }

/-- Of two notes either may be told; a line has to be the same line. -/
theorem record (alike : L.OnMachines i m m') {e e' : Entry} (same : e'.printed? = e.printed?) :
    L.OnMachines i (m.record e) (m'.record e') :=
  { alike with lines := by simp only [Machine.record, Journal.lines_add, alike.lines, same] }

theorem reply (alike : L.OnMachines i m m') (entries : List Entry) (tag : Nat) :
    L.OnMachines i { m.recordAll entries with nextTag := tag }
      { m'.recordAll entries with nextTag := tag } :=
  { alike with
    nextTag := rfl
    lines := by simp only [Machine.recordAll, Journal.lines_addAll, alike.lines] }

/-- Inside a call the environments are alike in a way that gives the former likeness back. -/
theorem enter (alike : L.OnMachines i m m') (name : String) (params : List String)
    (args : List Value) :
    ∃ j, L.OnMachines j (m.enter name params args) (m'.enter name params args) ∧
      ∀ {inside inside'}, L.OnMachines j inside inside' →
        L.OnMachines i inside.leave inside'.leave := by
  obtain ⟨j, inside, back⟩ := L.call alike.env (Bindings.ofPairs (params.zip args))
  refine ⟨j, ?_, fun later => ?_⟩
  · exact
      { alike with
        env := inside
        depth := by simp only [Machine.enter, alike.depth]
        lines := by simp only [Machine.enter, Journal.lines_add, Entry.printed?, alike.lines] }
  · exact
      { later with
        env := back later.env
        depth := by simp only [Machine.leave, later.depth] }

end OnMachines

open Eval

theorem agree_freshTag (L : Likeness ι) (i : ι) : Agree (L.OnMachines i) freshTag freshTag := by
  intro m m' alike
  simp only [freshTag, alike.nextTag]
  exact .done (alike.reply [] _)

theorem agree_callBuiltin (L : Likeness ι) (i : ι) (b : Builtin) (args : List Value) :
    Agree (L.OnMachines i) (callBuiltin b args) (callBuiltin b args) := by
  intro m m' alike
  unfold callBuiltin
  split
  · exact .failed alike
  · rw [alike.nextTag]
    exact .done (alike.reply _ _)

theorem agree_callWith (L : Likeness ι) {run run' : List Stmt → Eval Signal} {limit : Nat}
    (bodies : ∀ j body, Agree (L.OnMachines j) (run body) (run' body)) (i : ι) (name : String)
    (args : List Value) :
    Agree (L.OnMachines i) (callWith limit run name args) (callWith limit run' name args) := by
  intro m m' alike
  simp only [callWith, alike.functions, alike.depth]
  cases m.functions.get? name with
  | none => exact .failed alike
  | some f =>
      dsimp only
      split
      · exact .failed alike
      cases f with
      | builtin b => exact L.agree_callBuiltin i b args alike
      | user params body =>
          dsimp only
          split
          · exact .failed alike
          · obtain ⟨j, inside, back⟩ := alike.enter name params args
            exact (bodies j body inside).leaving back

/-- The same code on two machines that are alike. -/
def bothMachines (L : Likeness ι) (limit : Nat) : Simulation ι where
  limit := limit
  limit' := limit
  Sim := fun i => Agree (L.OnMachines i)
  Allowed := fun _ _ => True
  Sound := fun _ => True
  pure := agree_pure
  fail := agree_fail
  bind := .bind
  lookup := fun _ => agree_ask fun alike => alike.lookup _
  callee := fun _ => agree_ask fun alike => alike.callee _
  method := fun object property f => agree_ask fun alike => by rw [alike.method]
  assign := fun value _ => agree_change fun alike => alike.assign _ value
  declare := fun name _ => agree_change fun alike => alike.declare name _
  print := fun text => agree_change fun alike => alike.record rfl
  announce := fun count => agree_change fun alike => alike.record rfl
  freshTag := L.agree_freshTag _
  call := fun name args bodies =>
    L.agree_callWith
      (fun j body => @bodies j body (fun _ _ => trivial) fun _ _ => trivial) _ name args

theorem all (L : Likeness ι) (limit fuel : Nat) : (L.bothMachines limit).All fuel fuel := by
  have all := ((L.bothMachines limit).all_stuck fun _ => .outOfFuel).more fuel
  rwa [Nat.zero_add] at all

theorem agree_expr (L : Likeness ι) (i : ι) (limit fuel : Nat) (e : Expr) :
    Agree (L.OnMachines i) (expr limit fuel e) (expr limit fuel e) :=
  (L.all limit fuel).expr fun _ _ => trivial

theorem agree_stmt (L : Likeness ι) (i : ι) (limit fuel : Nat) (s : Stmt) :
    Agree (L.OnMachines i) (stmt limit fuel s) (stmt limit fuel s) :=
  (L.all limit fuel).stmt (fun _ _ => trivial) fun _ _ => trivial

theorem agree_block (L : Likeness ι) (i : ι) (limit fuel : Nat) (body : List Stmt) (last : Value) :
    Agree (L.OnMachines i) (block limit fuel body last) (block limit fuel body last) :=
  (L.all limit fuel).block last (fun _ _ => trivial) fun _ _ => trivial

end Likeness

end MinangScript
