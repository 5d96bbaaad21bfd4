import MinangScript.Machine.Evaluator

/-! # What every evaluation does to the machine

The functions of the evaluator call each other in many ways, but they change the machine in a few
ways only: a variable is written, a function declared, entries are added to the journal, a tag is
given out, and a call enters a function and leaves it again. A relation between machines that
allows each of these, and that can be composed, relates the machine before any evaluation to the
machine after it, whether the evaluation ends with a value or with an error.
-/

namespace MinangScript

/-- A computation came to an end, with a value or an error, and left the given machine. -/
def Outcome.EndsIn {ε α : Type} : Outcome ε α → Machine → Prop
  | done _ m, m' => m = m'
  | failed _ m, m' => m = m'
  | outOfFuel, _ => False

namespace Eval

variable {α β : Type} {R : Machine → Machine → Prop}

/-- A relation between machines that holds across all that an evaluation can do in one step. A call
    is one step: what holds from the inside of the call to its end holds from before it to after. -/
structure Stable (R : Machine → Machine → Prop) : Prop where
  refl : ∀ m, R m m
  trans : ∀ {a b c}, R a b → R b c → R a c
  assign : ∀ m name value, R m (m.assign name value)
  declare : ∀ m name f, R m (m.declare name f)
  record : ∀ m entries tag, R m { m.recordAll entries with nextTag := tag }
  call : ∀ {m m' name params args}, R (m.enter name params args) m' → R m m'.leave

/-- Wherever the computation ends, the relation holds from the start to there. -/
def Obeys (R : Machine → Machine → Prop) (x : Eval α) : Prop :=
  ∀ m m', (x m).EndsIn m' → R m m'

theorem Stable.recordOne (stable : Stable R) (m : Machine) (e : Entry) : R m (m.record e) :=
  stable.record m [e] m.nextTag

theorem Stable.obeys_pure (stable : Stable R) (value : α) : Obeys R (pure value : Eval α) := by
  intro m m' ends
  obtain rfl : m = m' := ends
  exact stable.refl m

theorem Stable.obeys_bind (stable : Stable R) {x : Eval α} {f : α → Eval β} (first : Obeys R x)
    (next : ∀ value, Obeys R (f value)) : Obeys R (x >>= f) := by
  intro m m' ends
  simp only [bind, Eval.bind] at ends
  cases ran : x m with
  | done value mid =>
      have before : R m mid := first m mid (by rw [ran]; rfl)
      rw [ran] at ends
      exact stable.trans before (next value mid m' ends)
  | failed e mid =>
      rw [ran] at ends
      exact first m m' (by rw [ran]; exact ends)
  | outOfFuel =>
      rw [ran] at ends
      exact ends.elim

theorem obeys_stuck : Obeys R (stuck : Eval α) := by
  intro m m' ends
  exact ends.elim

theorem obeys_change {f : Machine → Machine} (changed : ∀ m, R m (f m)) :
    Obeys R (change f) := by
  intro m m' ends
  obtain rfl : f m = m' := ends
  exact changed m

theorem Stable.obeys_ask (stable : Stable R) (f : Machine → Except RuntimeError α) :
    Obeys R (ask f) := by
  intro m m' ends
  simp only [ask] at ends
  cases answer : f m with
  | ok value =>
      rw [answer] at ends
      obtain rfl : m = m' := ends
      exact stable.refl m
  | error e =>
      rw [answer] at ends
      obtain rfl : m = m' := ends
      exact stable.refl m

theorem Stable.obeys_freshTag (stable : Stable R) : Obeys R freshTag := by
  intro m m' ends
  obtain rfl : { m with nextTag := m.nextTag + 1 } = m' := ends
  exact stable.record m [] (m.nextTag + 1)

theorem Stable.obeys_literal (stable : Stable R) (value : Literal) : Obeys R (literal value) := by
  cases value with
  | number | string | bool | null => exact stable.obeys_pure _
  | regex pattern flags =>
      exact stable.obeys_bind stable.obeys_freshTag fun _ => stable.obeys_pure _

theorem Stable.obeys_callBuiltin (stable : Stable R) (b : Builtin) (args : List Value) :
    Obeys R (callBuiltin b args) := by
  intro m m' ends
  unfold callBuiltin at ends
  split at ends
  · obtain rfl : m = m' := ends
    exact stable.refl m
  · obtain rfl := ends
    exact stable.record m _ _

/-- A call leaves by the same way whether its body ended or failed. -/
theorem leaving_endsIn {o : Outcome RuntimeError Signal} {m' : Machine}
    (ends : (leaving o).EndsIn m') : ∃ inside, o.EndsIn inside ∧ m' = inside.leave := by
  cases o with
  | done signal inside =>
      refine ⟨inside, rfl, ?_⟩
      cases signal <;> exact ends.symm
  | failed e inside => exact ⟨inside, rfl, ends.symm⟩
  | outOfFuel => exact ends.elim

/-- Calls the function of a given name, when `run` runs the body of a function. -/
def callWith (limit : Nat) (run : List Stmt → Eval Signal) (name : String) (args : List Value) :
    Eval Value := fun m =>
  match m.functions.get? name with
  | none => .failed (.undefinedFunction name) m
  | some f =>
    if limit ≤ m.depth then .failed (.callDepth limit) m
    else
      match f with
      | .builtin b => callBuiltin b args m
      | .user params body =>
        if args.length ≠ params.length then .failed (.arity name params.length args.length) m
        else leaving (run body (m.enter name params args))

theorem call_succ (limit fuel : Nat) (name : String) (args : List Value) :
    call limit (fuel + 1) name args =
      callWith limit (fun body => block limit fuel body .null) name args := rfl

/-- The only step that changes the frames. -/
theorem Stable.obeys_callWith (stable : Stable R) {run : List Stmt → Eval Signal}
    (bodies : ∀ body, Obeys R (run body)) (limit : Nat) (name : String) (args : List Value) :
    Obeys R (callWith limit run name args) := by
  intro m m' ends
  simp only [callWith] at ends
  cases found : m.functions.get? name with
  | none =>
      rw [found] at ends
      obtain rfl : m = m' := ends
      exact stable.refl m
  | some f =>
      simp only [found] at ends
      split at ends
      · obtain rfl : m = m' := ends
        exact stable.refl m
      · cases f with
        | builtin b => exact stable.obeys_callBuiltin b args m m' ends
        | user params body =>
            simp only at ends
            split at ends
            · obtain rfl : m = m' := ends
              exact stable.refl m
            · obtain ⟨inside, reached, rfl⟩ := leaving_endsIn ends
              exact stable.call (bodies body _ inside reached)

/-- All functions of the evaluator obey a relation, as long as they have this much fuel. -/
structure AllObey (R : Machine → Machine → Prop) (limit fuel : Nat) : Prop where
  expr : ∀ e, Obeys R (expr limit fuel e)
  exprs : ∀ es, Obeys R (exprs limit fuel es)
  fields : ∀ properties done, Obeys R (fields limit fuel properties done)
  call : ∀ name args, Obeys R (call limit fuel name args)
  block : ∀ body last, Obeys R (block limit fuel body last)
  stmt : ∀ s, Obeys R (stmt limit fuel s)
  optional : ∀ e, Obeys R (Eval.optional limit fuel e)
  initializer : ∀ s, Obeys R (initializer limit fuel s)
  whileLoop : ∀ cond body last, Obeys R (whileLoop limit fuel cond body last)
  condition : ∀ cond, Obeys R (condition limit fuel cond)
  forLoop : ∀ cond update body last, Obeys R (forLoop limit fuel cond update body last)

namespace AllObey

variable {limit fuel : Nat}

theorem expr_step (stable : Stable R) (ih : AllObey R limit fuel) (e : Expr) :
    Obeys R (Eval.expr limit (fuel + 1) e) := by
  cases e with
  | literal value => exact stable.obeys_literal value
  | ident id => exact stable.obeys_ask _
  | assign target value =>
      refine stable.obeys_bind (ih.expr value) fun v => ?_
      refine stable.obeys_bind (obeys_change fun m => ?_) fun _ => stable.obeys_pure v
      exact stable.assign m target.name v
  | binary left op right =>
      refine stable.obeys_bind (ih.expr left) fun l => ?_
      exact stable.obeys_bind (ih.expr right) fun r => stable.obeys_ask _
  | unary op operand => exact stable.obeys_bind (ih.expr operand) fun v => stable.obeys_ask _
  | call callee args =>
      refine stable.obeys_bind (ih.exprs args) fun values => ?_
      exact stable.obeys_bind (stable.obeys_ask _) fun name => ih.call name values
  | member object property => exact stable.obeys_ask _
  | array items =>
      refine stable.obeys_bind (ih.exprs items) fun values => ?_
      exact stable.obeys_bind stable.obeys_freshTag fun _ => stable.obeys_pure _
  | object properties =>
      refine stable.obeys_bind (ih.fields properties []) fun values => ?_
      exact stable.obeys_bind stable.obeys_freshTag fun _ => stable.obeys_pure _

theorem exprs_step (stable : Stable R) (ih : AllObey R limit fuel) (es : List Expr) :
    Obeys R (Eval.exprs limit (fuel + 1) es) := by
  cases es with
  | nil => exact stable.obeys_pure _
  | cons e rest =>
      refine stable.obeys_bind (ih.expr e) fun v => ?_
      exact stable.obeys_bind (ih.exprs rest) fun vs => stable.obeys_pure _

theorem fields_step (stable : Stable R) (ih : AllObey R limit fuel)
    (properties : List (String × Expr)) (done : Bindings Value) :
    Obeys R (Eval.fields limit (fuel + 1) properties done) := by
  cases properties with
  | nil => exact stable.obeys_pure _
  | cons property rest => exact stable.obeys_bind (ih.expr property.2) fun v => ih.fields rest _

theorem call_step (stable : Stable R) (ih : AllObey R limit fuel) (name : String)
    (args : List Value) : Obeys R (Eval.call limit (fuel + 1) name args) := by
  rw [call_succ]
  exact stable.obeys_callWith (fun body => ih.block body .null) limit name args

theorem block_step (stable : Stable R) (ih : AllObey R limit fuel) (body : List Stmt)
    (last : Value) : Obeys R (Eval.block limit (fuel + 1) body last) := by
  cases body with
  | nil => exact stable.obeys_pure _
  | cons s rest =>
      refine stable.obeys_bind (ih.stmt s) fun signal => ?_
      cases signal with
      | value v => exact ih.block rest v
      | result | breakLoop | continueLoop => exact stable.obeys_pure _

theorem stmt_step (stable : Stable R) (ih : AllObey R limit fuel) (s : Stmt) :
    Obeys R (Eval.stmt limit (fuel + 1) s) := by
  cases s with
  | declare kind name init =>
      refine stable.obeys_bind (ih.optional init) fun v => ?_
      refine stable.obeys_bind (obeys_change fun m => ?_) fun _ => stable.obeys_pure _
      exact stable.assign m name.name v
  | function name params body =>
      refine stable.obeys_bind (obeys_change fun m => ?_) fun _ => stable.obeys_pure _
      exact stable.declare m name.name _
  | conditional cond body other =>
      refine stable.obeys_bind (ih.expr cond) fun c => ?_
      split
      · exact ih.block body .null
      · cases other with
        | none => exact stable.obeys_pure _
        | some alternative => exact ih.stmt alternative
  | whileLoop cond body => exact ih.whileLoop cond body .null
  | forLoop init cond update body =>
      refine stable.obeys_bind (ih.initializer init) fun signal => ?_
      cases signal with
      | result v => exact stable.obeys_pure _
      | value | breakLoop | continueLoop => exact ih.forLoop cond update body .null
  | result value => exact stable.obeys_bind (ih.optional value) fun v => stable.obeys_pure _
  | breakLoop | continueLoop => exact stable.obeys_pure _
  | print arg =>
      refine stable.obeys_bind (ih.expr arg) fun v => ?_
      refine stable.obeys_bind (obeys_change fun m => ?_) fun _ => stable.obeys_pure _
      exact stable.recordOne m _
  | block body => exact ih.block body .null
  | expr value => exact stable.obeys_bind (ih.expr value) fun v => stable.obeys_pure _

theorem optional_step (stable : Stable R) (ih : AllObey R limit fuel) (e : Option Expr) :
    Obeys R (Eval.optional limit (fuel + 1) e) := by
  cases e with
  | none => exact stable.obeys_pure _
  | some e => exact ih.expr e

theorem initializer_step (stable : Stable R) (ih : AllObey R limit fuel) (s : Option Stmt) :
    Obeys R (Eval.initializer limit (fuel + 1) s) := by
  cases s with
  | none => exact stable.obeys_pure _
  | some s => exact ih.stmt s

theorem whileLoop_step (stable : Stable R) (ih : AllObey R limit fuel) (cond : Expr)
    (body : List Stmt) (last : Value) :
    Obeys R (Eval.whileLoop limit (fuel + 1) cond body last) := by
  refine stable.obeys_bind (ih.expr cond) fun c => ?_
  split
  · refine stable.obeys_bind (ih.block body .null) fun signal => ?_
    cases signal with
    | breakLoop | result => exact stable.obeys_pure _
    | continueLoop => exact ih.whileLoop cond body last
    | value v => exact ih.whileLoop cond body v
  · exact stable.obeys_pure _

theorem condition_step (stable : Stable R) (ih : AllObey R limit fuel) (cond : Option Expr) :
    Obeys R (Eval.condition limit (fuel + 1) cond) := by
  cases cond with
  | none => exact stable.obeys_pure _
  | some e => exact stable.obeys_bind (ih.expr e) fun c => stable.obeys_pure _

theorem forLoop_step (stable : Stable R) (ih : AllObey R limit fuel) (cond update : Option Expr)
    (body : List Stmt) (last : Value) :
    Obeys R (Eval.forLoop limit (fuel + 1) cond update body last) := by
  refine stable.obeys_bind (ih.condition cond) fun holds => ?_
  split
  · refine stable.obeys_bind (ih.block body .null) fun signal => ?_
    cases signal with
    | breakLoop | result => exact stable.obeys_pure _
    | continueLoop =>
        exact stable.obeys_bind (ih.optional update) fun _ => ih.forLoop cond update body last
    | value v =>
        exact stable.obeys_bind (ih.optional update) fun _ => ih.forLoop cond update body v
  · exact stable.obeys_pure _

end AllObey

/-- Whatever the fuel, the whole evaluator obeys a stable relation. -/
theorem Stable.allObey (stable : Stable R) (limit fuel : Nat) : AllObey R limit fuel := by
  induction fuel with
  | zero =>
      constructor
      all_goals
        intros
        exact obeys_stuck
  | succ fuel ih =>
      exact
        { expr := ih.expr_step stable
          exprs := ih.exprs_step stable
          fields := ih.fields_step stable
          call := ih.call_step stable
          block := ih.block_step stable
          stmt := ih.stmt_step stable
          optional := ih.optional_step stable
          initializer := ih.initializer_step stable
          whileLoop := ih.whileLoop_step stable
          condition := ih.condition_step stable
          forLoop := ih.forLoop_step stable }

theorem Stable.obeys_statements (stable : Stable R) (limit fuel : Nat) (body : List Stmt)
    (last : Value) : Obeys R (statements limit fuel body last) := by
  induction body generalizing last with
  | nil => exact stable.obeys_pure last
  | cons s rest ih =>
      refine stable.obeys_bind ((stable.allObey limit fuel).stmt s) fun signal => ?_
      cases signal with
      | result v => exact stable.obeys_pure v
      | value v => exact ih v
      | breakLoop | continueLoop => exact ih last

theorem Stable.obeys_program (stable : Stable R) (limit fuel : Nat) (p : Program) :
    Obeys R (program limit fuel p) := by
  refine stable.obeys_bind (obeys_change fun m => ?_) fun _ => ?_
  · exact stable.recordOne m _
  · exact stable.obeys_statements limit fuel p.body .null

/-- A source that cannot be read leaves only notes; any other source runs its program. -/
theorem Stable.run (stable : Stable R) {limit fuel : Nat} {source : String} {m m' : Machine}
    (ends : (m.run limit fuel source).EndsIn m') : R m m' := by
  have noted : ∀ entries, R m (m.recordAll entries) := fun entries =>
    stable.record m entries m.nextTag
  simp only [Machine.run] at ends
  split at ends
  · obtain rfl := ends
    exact noted _
  · rename_i program _
    refine stable.trans (noted (readProgram Machine.inputName source).entries) ?_
    have obeyed := stable.obeys_program limit fuel program
    split at ends
    · rename_i value after ran
      obtain rfl := ends
      exact stable.trans (obeyed _ after (by rw [ran]; rfl)) (stable.recordOne after _)
    · rename_i e after ran
      obtain rfl := ends
      exact obeyed _ _ (by rw [ran]; rfl)
    · exact ends.elim

end Eval

end MinangScript
