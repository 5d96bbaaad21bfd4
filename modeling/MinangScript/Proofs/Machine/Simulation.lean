import MinangScript.Proofs.Machine.Induction
import MinangScript.Proofs.Program.Names

/-! # Two evaluations side by side

The same code is run twice, with limits and fuel that may differ, on machines that may differ too.
What the two runs have to do with each other is a relation between computations. If it holds of the
few things that the evaluator does to the machine and passes through sequencing, then it holds of
every piece of code. The relation may depend on where the runs are, which is an index that only
calls change, and it may hold only as long as the code keeps to certain names.
-/

namespace MinangScript

namespace Eval

/-- A relation between the computations of two runs that everything the evaluator does keeps. -/
structure Simulation (ι : Type) where
  limit : Nat
  limit' : Nat
  Sim : ι → ∀ {α : Type}, Eval α → Eval α → Prop
  /-- The names that code may look up or write. -/
  Allowed : ι → String → Prop
  /-- The functions that may be declared. -/
  Sound : Declaration → Prop
  pure : ∀ {i} {α : Type} (value : α), Sim i (Pure.pure value) (Pure.pure value)
  fail : ∀ {i} {α : Type} (e : RuntimeError), Sim i (Eval.fail e : Eval α) (Eval.fail e)
  bind : ∀ {i} {α β : Type} {x x' : Eval α} {f f' : α → Eval β},
    Sim i x x' → (∀ value, Sim i (f value) (f' value)) → Sim i (x >>= f) (x' >>= f')
  lookup : ∀ {i id}, Allowed i id.name → Sim i (ask (·.lookup id)) (ask (·.lookup id))
  callee : ∀ {i callee}, (∀ x ∈ callee.calleeNames, Allowed i x) →
    Sim i (ask (·.callee callee)) (ask (·.callee callee))
  method : ∀ {i} object property (f : String × Option (List String) → Value),
    Sim i (ask fun m => (m.method object property).map f)
      (ask fun m => (m.method object property).map f)
  assign : ∀ {i name} value, Allowed i name →
    Sim i (change (·.assign name value)) (change (·.assign name value))
  declare : ∀ {i params body} name, Sound (params, body) →
    Sim i (change (·.declare name (.user params body)))
      (change (·.declare name (.user params body)))
  print : ∀ {i} text,
    Sim i (change (·.record (.printed .log text))) (change (·.record (.printed .log text)))
  announce : ∀ {i} count,
    Sim i (change fun m => m.record (.noted (.executing count m.env.scoping)))
      (change fun m => m.record (.noted (.executing count m.env.scoping)))
  freshTag : ∀ {i}, Sim i freshTag freshTag
  call : ∀ {i} {run run' : List Stmt → Eval Signal} name args,
    (∀ {j body}, (∀ x ∈ Stmt.mentionsEach body, Allowed j x) →
      (∀ d ∈ Stmt.declarationsEach body, Sound d) → Sim j (run body) (run' body)) →
    Sim i (callWith limit run name args) (callWith limit' run' name args)

namespace Simulation

variable {ι : Type} (S : Simulation ι) {i : ι} {fuel fuel' : Nat}

theorem lift {α : Type} (x : Except RuntimeError α) : S.Sim i (Eval.lift x) (Eval.lift x) := by
  cases x with
  | ok value => exact S.pure value
  | error e => exact S.fail e

theorem literal (value : Literal) : S.Sim i (Eval.literal value) (Eval.literal value) := by
  cases value with
  | number | string | bool | null => exact S.pure _
  | regex pattern flags => exact S.bind S.freshTag fun tag => S.pure _

/-- The relation holds of all functions of the evaluator, as long as they have this much fuel. -/
structure All (fuel fuel' : Nat) : Prop where
  expr : ∀ {i e}, (∀ x ∈ e.mentions, S.Allowed i x) →
    S.Sim i (Eval.expr S.limit fuel e) (Eval.expr S.limit' fuel' e)
  exprs : ∀ {i es}, (∀ x ∈ Expr.mentionsEach es, S.Allowed i x) →
    S.Sim i (Eval.exprs S.limit fuel es) (Eval.exprs S.limit' fuel' es)
  fields : ∀ {i properties} done, (∀ x ∈ Expr.mentionsProperties properties, S.Allowed i x) →
    S.Sim i (Eval.fields S.limit fuel properties done) (Eval.fields S.limit' fuel' properties done)
  call : ∀ {i} name args,
    S.Sim i (Eval.call S.limit fuel name args) (Eval.call S.limit' fuel' name args)
  block : ∀ {i body} last, (∀ x ∈ Stmt.mentionsEach body, S.Allowed i x) →
    (∀ d ∈ Stmt.declarationsEach body, S.Sound d) →
    S.Sim i (Eval.block S.limit fuel body last) (Eval.block S.limit' fuel' body last)
  stmt : ∀ {i s}, (∀ x ∈ s.mentions, S.Allowed i x) → (∀ d ∈ s.declarations, S.Sound d) →
    S.Sim i (Eval.stmt S.limit fuel s) (Eval.stmt S.limit' fuel' s)
  optional : ∀ {i e}, (∀ x ∈ Expr.mentionsOptional e, S.Allowed i x) →
    S.Sim i (Eval.optional S.limit fuel e) (Eval.optional S.limit' fuel' e)
  initializer : ∀ {i s}, (∀ x ∈ Stmt.mentionsOptional s, S.Allowed i x) →
    (∀ d ∈ Stmt.declarationsOptional s, S.Sound d) →
    S.Sim i (Eval.initializer S.limit fuel s) (Eval.initializer S.limit' fuel' s)
  whileLoop : ∀ {i cond body} last, (∀ x ∈ cond.mentions, S.Allowed i x) →
    (∀ x ∈ Stmt.mentionsEach body, S.Allowed i x) →
    (∀ d ∈ Stmt.declarationsEach body, S.Sound d) →
    S.Sim i (Eval.whileLoop S.limit fuel cond body last)
      (Eval.whileLoop S.limit' fuel' cond body last)
  condition : ∀ {i cond}, (∀ x ∈ Expr.mentionsOptional cond, S.Allowed i x) →
    S.Sim i (Eval.condition S.limit fuel cond) (Eval.condition S.limit' fuel' cond)
  forLoop : ∀ {i cond update body} last, (∀ x ∈ Expr.mentionsOptional cond, S.Allowed i x) →
    (∀ x ∈ Expr.mentionsOptional update, S.Allowed i x) →
    (∀ x ∈ Stmt.mentionsEach body, S.Allowed i x) →
    (∀ d ∈ Stmt.declarationsEach body, S.Sound d) →
    S.Sim i (Eval.forLoop S.limit fuel cond update body last)
      (Eval.forLoop S.limit' fuel' cond update body last)

namespace All

variable {S}

theorem expr_step (ih : S.All fuel fuel') {e : Expr} (names : ∀ x ∈ e.mentions, S.Allowed i x) :
    S.Sim i (Eval.expr S.limit (fuel + 1) e) (Eval.expr S.limit' (fuel' + 1) e) := by
  cases e with
  | literal value => exact S.literal value
  | ident id =>
      simp only [Expr.mentions, List.forall_mem_singleton] at names
      exact S.lookup names
  | assign target value =>
      simp only [Expr.mentions, List.forall_mem_cons] at names
      refine S.bind (ih.expr names.2) fun v => ?_
      exact S.bind (S.assign v names.1) fun _ => S.pure v
  | binary left op right =>
      simp only [Expr.mentions, List.forall_mem_append] at names
      refine S.bind (ih.expr names.1) fun l => ?_
      exact S.bind (ih.expr names.2) fun r => S.lift _
  | unary op operand =>
      simp only [Expr.mentions] at names
      exact S.bind (ih.expr names) fun v => S.lift _
  | call callee args =>
      simp only [Expr.mentions, List.forall_mem_append] at names
      refine S.bind (ih.exprs names.2) fun values => ?_
      exact S.bind (S.callee names.1) fun name => ih.call name values
  | member object property => exact S.method object property _
  | array items =>
      simp only [Expr.mentions] at names
      refine S.bind (ih.exprs names) fun values => ?_
      exact S.bind S.freshTag fun tag => S.pure _
  | object properties =>
      simp only [Expr.mentions] at names
      refine S.bind (ih.fields [] names) fun values => ?_
      exact S.bind S.freshTag fun tag => S.pure _

theorem exprs_step (ih : S.All fuel fuel') {es : List Expr}
    (names : ∀ x ∈ Expr.mentionsEach es, S.Allowed i x) :
    S.Sim i (Eval.exprs S.limit (fuel + 1) es) (Eval.exprs S.limit' (fuel' + 1) es) := by
  cases es with
  | nil => exact S.pure _
  | cons e rest =>
      simp only [Expr.mentionsEach, List.forall_mem_append] at names
      refine S.bind (ih.expr names.1) fun v => ?_
      exact S.bind (ih.exprs names.2) fun vs => S.pure _

theorem fields_step (ih : S.All fuel fuel') {properties : List (String × Expr)}
    (done : Bindings Value) (names : ∀ x ∈ Expr.mentionsProperties properties, S.Allowed i x) :
    S.Sim i (Eval.fields S.limit (fuel + 1) properties done)
      (Eval.fields S.limit' (fuel' + 1) properties done) := by
  cases properties with
  | nil => exact S.pure done
  | cons property rest =>
      simp only [Expr.mentionsProperties, List.forall_mem_append] at names
      exact S.bind (ih.expr names.1) fun v => ih.fields _ names.2

theorem call_step (ih : S.All fuel fuel') (name : String) (args : List Value) :
    S.Sim i (Eval.call S.limit (fuel + 1) name args)
      (Eval.call S.limit' (fuel' + 1) name args) := by
  rw [call_succ, call_succ]
  exact S.call name args fun names declared => ih.block .null names declared

theorem block_step (ih : S.All fuel fuel') {body : List Stmt} (last : Value)
    (names : ∀ x ∈ Stmt.mentionsEach body, S.Allowed i x)
    (declared : ∀ d ∈ Stmt.declarationsEach body, S.Sound d) :
    S.Sim i (Eval.block S.limit (fuel + 1) body last)
      (Eval.block S.limit' (fuel' + 1) body last) := by
  cases body with
  | nil => exact S.pure _
  | cons s rest =>
      simp only [Stmt.mentionsEach, Stmt.declarationsEach, List.forall_mem_append] at names declared
      refine S.bind (ih.stmt names.1 declared.1) fun signal => ?_
      cases signal with
      | value v => exact ih.block v names.2 declared.2
      | result | breakLoop | continueLoop => exact S.pure _

theorem stmt_step (ih : S.All fuel fuel') {s : Stmt} (names : ∀ x ∈ s.mentions, S.Allowed i x)
    (declared : ∀ d ∈ s.declarations, S.Sound d) :
    S.Sim i (Eval.stmt S.limit (fuel + 1) s) (Eval.stmt S.limit' (fuel' + 1) s) := by
  cases s with
  | declare kind name init =>
      simp only [Stmt.mentions, List.forall_mem_cons] at names
      refine S.bind (ih.optional names.2) fun v => ?_
      exact S.bind (S.assign v names.1) fun _ => S.pure _
  | function name params body =>
      simp only [Stmt.declarations, List.forall_mem_cons] at declared
      exact S.bind (S.declare name.name declared.1) fun _ => S.pure _
  | conditional cond body other =>
      simp only [Stmt.mentions, Stmt.declarations, List.forall_mem_append] at names declared
      refine S.bind (ih.expr names.1.1) fun c => ?_
      split
      · exact ih.block .null names.1.2 declared.1
      · cases other with
        | none => exact S.pure _
        | some alternative => exact ih.stmt names.2 declared.2
  | whileLoop cond body =>
      simp only [Stmt.mentions, Stmt.declarations, List.forall_mem_append] at names declared
      exact ih.whileLoop .null names.1 names.2 declared
  | forLoop init cond update body =>
      simp only [Stmt.mentions, Stmt.declarations, List.forall_mem_append] at names declared
      obtain ⟨⟨⟨first, second⟩, third⟩, inside⟩ := names
      refine S.bind (ih.initializer first declared.1) fun signal => ?_
      cases signal with
      | result v => exact S.pure _
      | value | breakLoop | continueLoop =>
          exact ih.forLoop .null second third inside declared.2
  | result value =>
      simp only [Stmt.mentions] at names
      exact S.bind (ih.optional names) fun v => S.pure _
  | breakLoop | continueLoop => exact S.pure _
  | print arg =>
      simp only [Stmt.mentions] at names
      refine S.bind (ih.expr names) fun v => ?_
      exact S.bind (S.print v.text) fun _ => S.pure _
  | block body =>
      simp only [Stmt.mentions, Stmt.declarations] at names declared
      exact ih.block .null names declared
  | expr value =>
      simp only [Stmt.mentions] at names
      exact S.bind (ih.expr names) fun v => S.pure _

theorem optional_step (ih : S.All fuel fuel') {e : Option Expr}
    (names : ∀ x ∈ Expr.mentionsOptional e, S.Allowed i x) :
    S.Sim i (Eval.optional S.limit (fuel + 1) e) (Eval.optional S.limit' (fuel' + 1) e) := by
  cases e with
  | none => exact S.pure _
  | some e => exact ih.expr names

theorem initializer_step (ih : S.All fuel fuel') {s : Option Stmt}
    (names : ∀ x ∈ Stmt.mentionsOptional s, S.Allowed i x)
    (declared : ∀ d ∈ Stmt.declarationsOptional s, S.Sound d) :
    S.Sim i (Eval.initializer S.limit (fuel + 1) s)
      (Eval.initializer S.limit' (fuel' + 1) s) := by
  cases s with
  | none => exact S.pure _
  | some s => exact ih.stmt names declared

theorem whileLoop_step (ih : S.All fuel fuel') {cond : Expr} {body : List Stmt} (last : Value)
    (before : ∀ x ∈ cond.mentions, S.Allowed i x)
    (names : ∀ x ∈ Stmt.mentionsEach body, S.Allowed i x)
    (declared : ∀ d ∈ Stmt.declarationsEach body, S.Sound d) :
    S.Sim i (Eval.whileLoop S.limit (fuel + 1) cond body last)
      (Eval.whileLoop S.limit' (fuel' + 1) cond body last) := by
  refine S.bind (ih.expr before) fun c => ?_
  split
  · refine S.bind (ih.block .null names declared) fun signal => ?_
    cases signal with
    | breakLoop | result => exact S.pure _
    | continueLoop => exact ih.whileLoop last before names declared
    | value v => exact ih.whileLoop v before names declared
  · exact S.pure _

theorem condition_step (ih : S.All fuel fuel') {cond : Option Expr}
    (names : ∀ x ∈ Expr.mentionsOptional cond, S.Allowed i x) :
    S.Sim i (Eval.condition S.limit (fuel + 1) cond)
      (Eval.condition S.limit' (fuel' + 1) cond) := by
  cases cond with
  | none => exact S.pure _
  | some e => exact S.bind (ih.expr names) fun c => S.pure _

theorem forLoop_step (ih : S.All fuel fuel') {cond update : Option Expr} {body : List Stmt}
    (last : Value) (before : ∀ x ∈ Expr.mentionsOptional cond, S.Allowed i x)
    (after : ∀ x ∈ Expr.mentionsOptional update, S.Allowed i x)
    (names : ∀ x ∈ Stmt.mentionsEach body, S.Allowed i x)
    (declared : ∀ d ∈ Stmt.declarationsEach body, S.Sound d) :
    S.Sim i (Eval.forLoop S.limit (fuel + 1) cond update body last)
      (Eval.forLoop S.limit' (fuel' + 1) cond update body last) := by
  refine S.bind (ih.condition before) fun holds => ?_
  split
  · refine S.bind (ih.block .null names declared) fun signal => ?_
    cases signal with
    | breakLoop | result => exact S.pure _
    | continueLoop =>
        refine S.bind (ih.optional after) fun _ => ?_
        exact ih.forLoop last before after names declared
    | value v =>
        refine S.bind (ih.optional after) fun _ => ?_
        exact ih.forLoop v before after names declared
  · exact S.pure _

theorem step (ih : S.All fuel fuel') : S.All (fuel + 1) (fuel' + 1) where
  expr := ih.expr_step
  exprs := ih.exprs_step
  fields := ih.fields_step
  call := ih.call_step
  block := ih.block_step
  stmt := ih.stmt_step
  optional := ih.optional_step
  initializer := ih.initializer_step
  whileLoop := ih.whileLoop_step
  condition := ih.condition_step
  forLoop := ih.forLoop_step

/-- Equal additions of fuel change nothing about the relation. -/
theorem more (base : S.All 0 fuel') (fuel : Nat) : S.All fuel (fuel' + fuel) := by
  induction fuel with
  | zero => exact base
  | succ fuel ih => exact ih.step

end All

/-- What a run without fuel is related to, whatever the code. -/
theorem all_zero (gaveUp : ∀ {i} {α : Type} (x : Eval α), S.Sim i stuck x) : S.All 0 fuel := by
  constructor
  all_goals
    intros
    exact gaveUp _

/-- Two runs without fuel. -/
theorem all_stuck (gaveUp : ∀ {i} {α : Type}, S.Sim i (stuck : Eval α) stuck) : S.All 0 0 := by
  constructor
  all_goals
    intros
    exact gaveUp

theorem statements (all : S.All fuel fuel') {body : List Stmt} (last : Value)
    (names : ∀ x ∈ Stmt.mentionsEach body, S.Allowed i x)
    (declared : ∀ d ∈ Stmt.declarationsEach body, S.Sound d) :
    S.Sim i (Eval.statements S.limit fuel body last)
      (Eval.statements S.limit' fuel' body last) := by
  induction body generalizing last with
  | nil => exact S.pure last
  | cons s rest ih =>
      simp only [Stmt.mentionsEach, Stmt.declarationsEach, List.forall_mem_append] at names declared
      refine S.bind (all.stmt names.1 declared.1) fun signal => ?_
      cases signal with
      | result v => exact S.pure v
      | value v => exact ih v names.2 declared.2
      | breakLoop | continueLoop => exact ih last names.2 declared.2

theorem program (all : S.All fuel fuel') {p : Program}
    (names : ∀ x ∈ Stmt.mentionsEach p.body, S.Allowed i x)
    (declared : ∀ d ∈ Stmt.declarationsEach p.body, S.Sound d) :
    S.Sim i (Eval.program S.limit fuel p) (Eval.program S.limit' fuel' p) :=
  S.bind (S.announce p.body.length) fun _ => S.statements all .null names declared

end Simulation

/-! ## Machines side by side

Often the runs stay in step: they begin on machines that are related, and end alike on machines that
are related again.
-/

section Agreement

variable {α β : Type} {R : Machine → Machine → Prop}

/-- Two outcomes with the same value or the same error, on related machines. -/
inductive Matches (R : Machine → Machine → Prop) :
    Outcome RuntimeError α → Outcome RuntimeError α → Prop where
  | done {m m' : Machine} {value : α} (related : R m m') :
      Matches R (.done value m) (.done value m')
  | failed {m m' : Machine} {e : RuntimeError} (related : R m m') :
      Matches R (.failed e m) (.failed e m')
  | outOfFuel : Matches R .outOfFuel .outOfFuel

def Agree (R : Machine → Machine → Prop) (x x' : Eval α) : Prop :=
  ∀ {m m'}, R m m' → Matches R (x m) (x' m')

theorem Matches.mono {R' : Machine → Machine → Prop} {o o' : Outcome RuntimeError α}
    (matching : Matches R o o') (weaker : ∀ {m m'}, R m m' → R' m m') : Matches R' o o' := by
  cases matching with
  | done related => exact .done (weaker related)
  | failed related => exact .failed (weaker related)
  | outOfFuel => exact .outOfFuel

theorem Matches.leaving {R' : Machine → Machine → Prop} {o o' : Outcome RuntimeError Signal}
    (matching : Matches R o o') (left : ∀ {m m'}, R m m' → R' m.leave m'.leave) :
    Matches R' (leaving o) (leaving o') := by
  cases matching with
  | @done _ _ signal related =>
      cases signal with
      | value | result | breakLoop | continueLoop => exact .done (left related)
  | failed related => exact .failed (left related)
  | outOfFuel => exact .outOfFuel

theorem agree_pure (value : α) : Agree R (pure value) (pure value) :=
  fun related => .done related

theorem agree_fail (e : RuntimeError) : Agree R (fail e : Eval α) (fail e) :=
  fun related => .failed related

theorem Agree.bind {x x' : Eval α} {f f' : α → Eval β} (first : Agree R x x')
    (next : ∀ value, Agree R (f value) (f' value)) : Agree R (x >>= f) (x' >>= f') := by
  intro m m' related
  have begun := first related
  simp only [Bind.bind, Eval.bind]
  generalize x m = o at begun ⊢
  generalize x' m' = o' at begun ⊢
  cases begun with
  | done related => exact next _ related
  | failed related => exact .failed related
  | outOfFuel => exact .outOfFuel

theorem agree_ask {f : Machine → Except RuntimeError α}
    (same : ∀ {m m'}, R m m' → f m' = f m) : Agree R (ask f) (ask f) := by
  intro m m' related
  simp only [ask, same related]
  cases f m with
  | ok value => exact .done related
  | error e => exact .failed related

theorem agree_change {f : Machine → Machine} (kept : ∀ {m m'}, R m m' → R (f m) (f m')) :
    Agree R (change f) (change f) :=
  fun related => .done (kept related)

end Agreement

end Eval

end MinangScript
