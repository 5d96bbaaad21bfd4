import MinangScript.Proofs.Environment.Names
import MinangScript.Proofs.Machine.Errors
import MinangScript.Proofs.Machine.Induction
import MinangScript.Proofs.Program.Nodes

/-! # What running code can come to

Code is good if all its nodes are, whatever that means for a node. Only declarations change the table
of functions, so as long as only good code runs, the table holds built-in functions and functions
that good code declared, and what is called is good code again. Three things follow together, in one
induction on the fuel: the table stays like that, a variable that is missing is one that good code
names, and if good code has no loops and its functions are not too large, then the fuel is
sufficient that its size and the calls it can still make ask for.
-/

namespace MinangScript

/-- Whether the node is a loop. -/
def Node.isLoop : Node → Bool
  | .stmt (.whileLoop _ _) => true
  | .stmt (.forLoop _ _ _ _) => true
  | _ => false

/-- The error names a variable only if good code looks it up. -/
def RuntimeError.Fair (Good : Node → Prop) (e : RuntimeError) : Prop :=
  ∀ id, e = .undefinedVariable id → Good (.expr (.ident id))

theorem RuntimeError.Plain.fair {Good : Node → Prop} {e : RuntimeError} (plain : e.Plain) :
    e.Fair Good :=
  fun id is => absurd is (plain.missing id)

/-- Every entry of the table is the built-in function of its name, or good code declared it. -/
def Bindings.Stocked (Good : Node → Prop) (table : Bindings Function) : Prop :=
  ∀ name, table.get? name = (Builtin.ofName? name).map .builtin ∨
    ∃ id params body, id.name = name ∧
      table.get? name = some (.user (params.map (·.name)) body) ∧
      ∀ n ∈ (Stmt.function id params body).nodes, Good n

section Table

variable {Good : Node → Prop} {table : Bindings Function}

theorem Machine.stocked_start (scoping : Scoping) : (start scoping).functions.Stocked Good := by
  intro name
  refine .inl ?_
  simp only [start, Builtin.ofName?]
  induction Builtin.all with
  | nil => rfl
  | cons b rest ih =>
      by_cases same : b.name = name
      · simp [Bindings.get?, same]
      · simpa [Bindings.get?, same] using ih

theorem Bindings.Stocked.declare (stocked : table.Stocked Good) {id : Ident} {params : List Ident}
    {body : List Stmt} (good : ∀ n ∈ (Stmt.function id params body).nodes, Good n) :
    (table.put id.name (.user (params.map (·.name)) body)).Stocked Good := by
  intro name
  rw [Bindings.get?_put]
  split
  · rename_i same
    exact .inr ⟨id, params, body, same, rfl, good⟩
  · exact stocked name

/-- What a call runs is the body of a good declaration. -/
theorem Bindings.Stocked.user (stocked : table.Stocked Good) {name : String} {params : List String}
    {body : List Stmt} (found : table.get? name = some (.user params body)) :
    ∃ id ids, ∀ n ∈ (Stmt.function id ids body).nodes, Good n := by
  obtain builtin | ⟨id, ids, body', -, declared, good⟩ := stocked name
  · rw [found] at builtin
    cases ofName : Builtin.ofName? name <;> rw [ofName] at builtin <;> cases builtin
  · rw [found] at declared
    cases declared
    exact ⟨id, ids, good⟩

end Table

namespace Eval

variable {α β : Type} {Good : Node → Prop} {bound limit depth fuel : Nat} {covered : Prop}

/-- The outcome is one of good code at the given depth of calls. If it is `covered`, the fuel was
    enough. -/
def EndedWell (Good : Node → Prop) (depth : Nat) (covered : Prop) :
    Outcome RuntimeError α → Prop
  | .done _ m => m.functions.Stocked Good ∧ m.depth = depth
  | .failed e m => (m.functions.Stocked Good ∧ m.depth = depth) ∧ e.Fair Good
  | .outOfFuel => ¬covered

/-- The computation ends as good code does, wherever good code can have led. -/
def EndsWell (Good : Node → Prop) (depth : Nat) (covered : Prop) (x : Eval α) : Prop :=
  ∀ m, m.functions.Stocked Good → m.depth = depth → EndedWell Good depth covered (x m)

/-- Good code has no loops and no function larger than `bound`, and the fuel is more than code of this
    size and all calls that may still be nested in it can use up. -/
structure Covers (Good : Node → Prop) (bound limit depth size fuel : Nat) : Prop where
  loopFree : ∀ n, Good n → n.isLoop = false
  small : ∀ {id params body}, Good (.stmt (.function id params body)) → sizeOf body ≤ bound
  enough : size + (limit - depth) * (bound + 1) < fuel

theorem Covers.mono {whole part : Nat} (covers : Covers Good bound limit depth whole fuel)
    (smaller : part ≤ whole) : Covers Good bound limit depth part fuel :=
  { covers with enough := Nat.lt_of_le_of_lt (Nat.add_le_add_right smaller _) covers.enough }

/-- A call leaves fuel for the body of a function one level deeper. -/
theorem Covers.inside (covers : Covers Good bound limit depth 0 (fuel + 1)) (free : depth < limit)
    {size : Nat} (small : size ≤ bound) : Covers Good bound limit (depth + 1) size fuel :=
  { covers with
    enough := by
      have enough := covers.enough
      have calls : limit - depth = (limit - (depth + 1)) + 1 := by omega
      rw [calls, Nat.succ_mul] at enough
      omega }

/-! ## Single steps -/

theorem EndsWell.mono {covered' : Prop} {x : Eval α} (ends : EndsWell Good depth covered x)
    (weaker : covered' → covered) : EndsWell Good depth covered' x := by
  intro m stocked deep
  have ended := ends m stocked deep
  cases ran : x m with
  | done value mid =>
      rw [ran] at ended
      exact ended
  | failed e mid =>
      rw [ran] at ended
      exact ended
  | outOfFuel =>
      rw [ran] at ended
      exact fun holds => ended (weaker holds)

/-- A part of covered code is covered with a step less of fuel. -/
theorem EndsWell.part {x : Eval α} {whole part : Nat}
    (ends : EndsWell Good depth (Covers Good bound limit depth part fuel) x)
    (smaller : part < whole) :
    EndsWell Good depth (Covers Good bound limit depth whole (fuel + 1)) x :=
  ends.mono fun covers =>
    { covers with
      enough := by
        have enough := covers.enough
        omega }

theorem EndsWell.bind {x : Eval α} {f : α → Eval β} (first : EndsWell Good depth covered x)
    (next : ∀ value, EndsWell Good depth covered (f value)) :
    EndsWell Good depth covered (x >>= f) := by
  intro m stocked deep
  have ended := first m stocked deep
  simp only [Bind.bind, Eval.bind]
  cases ran : x m with
  | done value mid =>
      rw [ran] at ended
      exact next value mid ended.1 ended.2
  | failed e mid =>
      rw [ran] at ended
      exact ended
  | outOfFuel =>
      rw [ran] at ended
      exact ended

theorem endsWell_pure (value : α) : EndsWell Good depth covered (pure value : Eval α) :=
  fun _ stocked deep => ⟨stocked, deep⟩

theorem endsWell_stuck (uncovered : ¬covered) :
    EndsWell Good depth covered (stuck : Eval α) :=
  fun _ _ _ => uncovered

/-- A change that declares nothing and stays at its depth. -/
theorem endsWell_change {f : Machine → Machine} (functions : ∀ m, (f m).functions = m.functions)
    (same : ∀ m, (f m).depth = m.depth) : EndsWell Good depth covered (change f) := by
  intro m stocked deep
  refine ⟨?_, (same m).trans deep⟩
  intro name
  rw [functions m]
  exact stocked name

theorem endsWell_assign (name : String) (value : Value) :
    EndsWell Good depth covered (change (·.assign name value)) :=
  endsWell_change (fun _ => rfl) fun _ => rfl

theorem endsWell_record (entry : Machine → Entry) :
    EndsWell Good depth covered (change fun m => m.record (entry m)) :=
  endsWell_change (fun _ => rfl) fun _ => rfl

theorem endsWell_declare {id : Ident} {params : List Ident} {body : List Stmt}
    (good : ∀ n ∈ (Stmt.function id params body).nodes, Good n) :
    EndsWell Good depth covered
      (change (·.declare id.name (.user (params.map (·.name)) body))) :=
  fun _ stocked deep => ⟨stocked.declare good, deep⟩

theorem endsWell_ask {f : Machine → Except RuntimeError α}
    (fair : ∀ m e, f m = .error e → e.Fair Good) : EndsWell Good depth covered (ask f) := by
  intro m stocked deep
  simp only [ask]
  cases answer : f m with
  | ok value => exact ⟨stocked, deep⟩
  | error e => exact ⟨⟨stocked, deep⟩, fair m e answer⟩

theorem endsWell_freshTag : EndsWell Good depth covered freshTag :=
  fun _ stocked deep => ⟨stocked, deep⟩

theorem endsWell_literal (value : Literal) : EndsWell Good depth covered (literal value) := by
  cases value with
  | number | string | bool | null => exact endsWell_pure _
  | regex pattern flags => exact endsWell_freshTag.bind fun _ => endsWell_pure _

/-- Only a name that is looked up can be missing as a variable. -/
theorem endsWell_lookup {id : Ident} (good : Good (.expr (.ident id))) :
    EndsWell Good depth covered (ask (·.lookup id)) := by
  refine endsWell_ask fun m e failed => ?_
  obtain rfl := Machine.eq_of_lookup failed
  intro other same
  cases same
  exact good

theorem endsWell_method (object : Expr) (property : Ident)
    (f : String × Option (List String) → α) :
    EndsWell Good depth covered (ask fun m => (m.method object property).map f) :=
  endsWell_ask fun _ _ failed => (Machine.plain_of_map_method failed).fair

theorem endsWell_callee (callee : Expr) :
    EndsWell Good depth covered (ask (·.callee callee)) :=
  endsWell_ask fun _ _ failed => (Machine.plain_of_callee failed).fair

theorem endsWell_binaryOp (op : BinaryOp) (left right : Value) :
    EndsWell Good depth covered (lift (op.apply left right)) :=
  endsWell_ask fun _ _ failed => (BinaryOp.plain_of_apply failed).fair

theorem endsWell_unaryOp (op : UnaryOp) (operand : Value) :
    EndsWell Good depth covered (lift (op.apply operand)) :=
  endsWell_ask fun _ _ failed => (UnaryOp.plain_of_apply failed).fair

theorem endsWell_callBuiltin (b : Builtin) (args : List Value) :
    EndsWell Good depth covered (callBuiltin b args) := by
  intro m stocked deep
  unfold callBuiltin
  split
  · exact ⟨⟨stocked, deep⟩, nofun⟩
  · exact ⟨stocked, deep⟩

theorem EndedWell.leaving {o : Outcome RuntimeError Signal}
    (ended : EndedWell Good (depth + 1) covered o) : EndedWell Good depth covered (leaving o) := by
  have left : ∀ m : Machine, m.functions.Stocked Good ∧ m.depth = depth + 1 →
      m.leave.functions.Stocked Good ∧ m.leave.depth = depth := by
    intro m inside
    refine ⟨inside.1, ?_⟩
    simp only [Machine.leave, inside.2, Nat.add_sub_cancel]
  cases o with
  | done signal m =>
      cases signal with
      | value | result | breakLoop | continueLoop => exact left m ended
  | failed e m => exact ⟨left m ended.1, ended.2⟩
  | outOfFuel => exact ended

/-- The body of a function is good code, and it is covered if the call is. -/
theorem endsWell_callWith {run : List Stmt → Eval Signal}
    (bodies : ∀ {depth body}, (∀ n ∈ Stmt.nodesEach body, Good n) →
      EndsWell Good depth (Covers Good bound limit depth (sizeOf body) fuel) (run body))
    (name : String) (args : List Value) :
    EndsWell Good depth (Covers Good bound limit depth 0 (fuel + 1))
      (callWith limit run name args) := by
  intro m stocked deep
  unfold callWith
  cases found : m.functions.get? name with
  | none => exact ⟨⟨stocked, deep⟩, nofun⟩
  | some f =>
      dsimp only
      split
      · exact ⟨⟨stocked, deep⟩, nofun⟩
      · rename_i free
        cases f with
        | builtin b => exact endsWell_callBuiltin b args m stocked deep
        | user params body =>
            dsimp only
            split
            · exact ⟨⟨stocked, deep⟩, nofun⟩
            · obtain ⟨id, ids, good⟩ := stocked.user found
              simp only [Stmt.nodes, List.forall_mem_cons] at good
              refine EndedWell.leaving ?_
              have inside : (m.enter name params args).depth = depth + 1 := congrArg (· + 1) deep
              refine (bodies good.2).mono (fun covers => ?_) _ stocked inside
              exact covers.inside (by omega) (covers.small good.1)

/-! ## The evaluator -/

/-- All functions of the evaluator end as good code does, as long as they have this much fuel. What is
    said of loops does not cover their fuel. -/
structure AllEndWell (Good : Node → Prop) (bound limit fuel : Nat) : Prop where
  expr : ∀ {depth e}, (∀ n ∈ e.nodes, Good n) →
    EndsWell Good depth (Covers Good bound limit depth (sizeOf e) fuel) (expr limit fuel e)
  exprs : ∀ {depth es}, (∀ n ∈ Expr.nodesEach es, Good n) →
    EndsWell Good depth (Covers Good bound limit depth (sizeOf es) fuel) (exprs limit fuel es)
  fields : ∀ {depth properties} done, (∀ n ∈ Expr.nodesProperties properties, Good n) →
    EndsWell Good depth (Covers Good bound limit depth (sizeOf properties) fuel)
      (fields limit fuel properties done)
  call : ∀ {depth} name args,
    EndsWell Good depth (Covers Good bound limit depth 0 fuel) (call limit fuel name args)
  block : ∀ {depth body} last, (∀ n ∈ Stmt.nodesEach body, Good n) →
    EndsWell Good depth (Covers Good bound limit depth (sizeOf body) fuel)
      (block limit fuel body last)
  stmt : ∀ {depth s}, (∀ n ∈ s.nodes, Good n) →
    EndsWell Good depth (Covers Good bound limit depth (sizeOf s) fuel) (stmt limit fuel s)
  optional : ∀ {depth e}, (∀ n ∈ Expr.nodesOptional e, Good n) →
    EndsWell Good depth (Covers Good bound limit depth (sizeOf e) fuel)
      (Eval.optional limit fuel e)
  initializer : ∀ {depth s}, (∀ n ∈ Stmt.nodesOptional s, Good n) →
    EndsWell Good depth False (initializer limit fuel s)
  whileLoop : ∀ {depth cond body} last, (∀ n ∈ cond.nodes, Good n) →
    (∀ n ∈ Stmt.nodesEach body, Good n) →
    EndsWell Good depth False (whileLoop limit fuel cond body last)
  condition : ∀ {depth cond}, (∀ n ∈ Expr.nodesOptional cond, Good n) →
    EndsWell Good depth False (condition limit fuel cond)
  forLoop : ∀ {depth cond update body} last, (∀ n ∈ Expr.nodesOptional cond, Good n) →
    (∀ n ∈ Expr.nodesOptional update, Good n) → (∀ n ∈ Stmt.nodesEach body, Good n) →
    EndsWell Good depth False (forLoop limit fuel cond update body last)

namespace AllEndWell

theorem zero : AllEndWell Good bound limit 0 := by
  have uncovered : ∀ {depth size}, ¬Covers Good bound limit depth size 0 :=
    fun covers => Nat.not_lt_zero _ covers.enough
  constructor
  all_goals
    intros
    refine endsWell_stuck ?_
    first
      | exact uncovered
      | exact not_false

theorem expr_step (ih : AllEndWell Good bound limit fuel) {e : Expr}
    (good : ∀ n ∈ e.nodes, Good n) :
    EndsWell Good depth (Covers Good bound limit depth (sizeOf e) (fuel + 1))
      (Eval.expr limit (fuel + 1) e) := by
  cases e with
  | literal value => exact endsWell_literal value
  | ident id => exact endsWell_lookup (good _ (Expr.mem_nodes_self _))
  | assign target value =>
      simp only [Expr.nodes, List.forall_mem_cons] at good
      refine ((ih.expr good.2).part (by simp +arith)).bind fun v => ?_
      exact (endsWell_assign target.name v).bind fun _ => endsWell_pure v
  | binary left op right =>
      simp only [Expr.nodes, List.forall_mem_cons, List.forall_mem_append] at good
      refine ((ih.expr good.2.1).part (by simp +arith)).bind fun l => ?_
      refine ((ih.expr good.2.2).part (by simp +arith)).bind fun r => ?_
      exact endsWell_binaryOp op l r
  | unary op operand =>
      simp only [Expr.nodes, List.forall_mem_cons] at good
      refine ((ih.expr good.2).part (by simp +arith)).bind fun v => ?_
      exact endsWell_unaryOp op v
  | call callee args =>
      simp only [Expr.nodes, List.forall_mem_cons, List.forall_mem_append] at good
      refine ((ih.exprs good.2.2).part (by simp +arith)).bind fun values => ?_
      refine (endsWell_callee callee).bind fun name => ?_
      exact (ih.call name values).part (by simp +arith)
  | member object property => exact endsWell_method object property _
  | array items =>
      simp only [Expr.nodes, List.forall_mem_cons] at good
      refine ((ih.exprs good.2).part (by simp +arith)).bind fun values => ?_
      exact endsWell_freshTag.bind fun _ => endsWell_pure _
  | object properties =>
      simp only [Expr.nodes, List.forall_mem_cons] at good
      refine ((ih.fields [] good.2).part (by simp +arith)).bind fun values => ?_
      exact endsWell_freshTag.bind fun _ => endsWell_pure _

theorem exprs_step (ih : AllEndWell Good bound limit fuel) {es : List Expr}
    (good : ∀ n ∈ Expr.nodesEach es, Good n) :
    EndsWell Good depth (Covers Good bound limit depth (sizeOf es) (fuel + 1))
      (Eval.exprs limit (fuel + 1) es) := by
  cases es with
  | nil => exact endsWell_pure _
  | cons e rest =>
      simp only [Expr.nodesEach, List.forall_mem_append] at good
      refine ((ih.expr good.1).part (by simp +arith)).bind fun v => ?_
      exact ((ih.exprs good.2).part (by simp +arith)).bind fun vs => endsWell_pure _

theorem fields_step (ih : AllEndWell Good bound limit fuel) {properties : List (String × Expr)}
    (done : Bindings Value) (good : ∀ n ∈ Expr.nodesProperties properties, Good n) :
    EndsWell Good depth (Covers Good bound limit depth (sizeOf properties) (fuel + 1))
      (Eval.fields limit (fuel + 1) properties done) := by
  cases properties with
  | nil => exact endsWell_pure done
  | cons property rest =>
      obtain ⟨key, e⟩ := property
      simp only [Expr.nodesProperties, List.forall_mem_append] at good
      refine ((ih.expr good.1).part (by simp +arith)).bind fun v => ?_
      exact (ih.fields _ good.2).part (by simp +arith)

theorem block_step (ih : AllEndWell Good bound limit fuel) {body : List Stmt} (last : Value)
    (good : ∀ n ∈ Stmt.nodesEach body, Good n) :
    EndsWell Good depth (Covers Good bound limit depth (sizeOf body) (fuel + 1))
      (Eval.block limit (fuel + 1) body last) := by
  cases body with
  | nil => exact endsWell_pure _
  | cons s rest =>
      simp only [Stmt.nodesEach, List.forall_mem_append] at good
      refine ((ih.stmt good.1).part (by simp +arith)).bind fun signal => ?_
      cases signal with
      | value v =>
          exact (ih.block v good.2).part (by simp +arith)
      | result | breakLoop | continueLoop => exact endsWell_pure _

theorem stmt_step (ih : AllEndWell Good bound limit fuel) {s : Stmt}
    (good : ∀ n ∈ s.nodes, Good n) :
    EndsWell Good depth (Covers Good bound limit depth (sizeOf s) (fuel + 1))
      (Eval.stmt limit (fuel + 1) s) := by
  cases s with
  | declare kind name init =>
      simp only [Stmt.nodes, List.forall_mem_cons] at good
      refine ((ih.optional good.2).part (by simp +arith)).bind fun v => ?_
      exact (endsWell_assign name.name v).bind fun _ => endsWell_pure _
  | function name params body =>
      exact (endsWell_declare good).bind fun _ => endsWell_pure _
  | conditional cond body other =>
      simp only [Stmt.nodes, List.forall_mem_cons, List.forall_mem_append] at good
      obtain ⟨-, ⟨goodCond, goodBody⟩, goodOther⟩ := good
      refine ((ih.expr goodCond).part (by simp +arith)).bind fun c => ?_
      split
      · exact (ih.block .null goodBody).part (by simp +arith)
      · cases other with
        | none => exact endsWell_pure _
        | some alternative =>
            exact (ih.stmt goodOther).part (by simp +arith)
  | whileLoop cond body =>
      simp only [Stmt.nodes, List.forall_mem_cons, List.forall_mem_append] at good
      refine (ih.whileLoop .null good.2.1 good.2.2).mono fun covers => ?_
      exact Bool.noConfusion (covers.loopFree _ good.1)
  | forLoop init cond update body =>
      simp only [Stmt.nodes, List.forall_mem_cons, List.forall_mem_append] at good
      obtain ⟨isLoop, ⟨⟨goodInit, goodCond⟩, goodUpdate⟩, goodBody⟩ := good
      have loop : EndsWell Good depth False
          (Eval.stmt limit (fuel + 1) (.forLoop init cond update body)) := by
        refine (ih.initializer goodInit).bind fun signal => ?_
        cases signal with
        | result v => exact endsWell_pure _
        | value | breakLoop | continueLoop =>
            exact ih.forLoop .null goodCond goodUpdate goodBody
      exact loop.mono fun covers => Bool.noConfusion (covers.loopFree _ isLoop)
  | result value =>
      simp only [Stmt.nodes, List.forall_mem_cons] at good
      exact ((ih.optional good.2).part (by simp +arith)).bind fun v =>
        endsWell_pure _
  | breakLoop | continueLoop => exact endsWell_pure _
  | print arg =>
      simp only [Stmt.nodes, List.forall_mem_cons] at good
      refine ((ih.expr good.2).part (by simp +arith)).bind fun v => ?_
      exact (endsWell_record _).bind fun _ => endsWell_pure _
  | block body =>
      simp only [Stmt.nodes, List.forall_mem_cons] at good
      exact (ih.block .null good.2).part (by simp +arith)
  | expr value =>
      simp only [Stmt.nodes, List.forall_mem_cons] at good
      exact ((ih.expr good.2).part (by simp +arith)).bind fun v => endsWell_pure _

theorem optional_step (ih : AllEndWell Good bound limit fuel) {e : Option Expr}
    (good : ∀ n ∈ Expr.nodesOptional e, Good n) :
    EndsWell Good depth (Covers Good bound limit depth (sizeOf e) (fuel + 1))
      (Eval.optional limit (fuel + 1) e) := by
  cases e with
  | none => exact endsWell_pure _
  | some e =>
      exact (ih.expr good).part (by simp +arith)

theorem initializer_step (ih : AllEndWell Good bound limit fuel) {s : Option Stmt}
    (good : ∀ n ∈ Stmt.nodesOptional s, Good n) :
    EndsWell Good depth False (Eval.initializer limit (fuel + 1) s) := by
  cases s with
  | none => exact endsWell_pure _
  | some s => exact (ih.stmt good).mono False.elim

theorem whileLoop_step (ih : AllEndWell Good bound limit fuel) {cond : Expr} {body : List Stmt}
    (last : Value) (goodCond : ∀ n ∈ cond.nodes, Good n)
    (goodBody : ∀ n ∈ Stmt.nodesEach body, Good n) :
    EndsWell Good depth False (Eval.whileLoop limit (fuel + 1) cond body last) := by
  refine ((ih.expr goodCond).mono False.elim).bind fun c => ?_
  split
  · refine ((ih.block .null goodBody).mono False.elim).bind fun signal => ?_
    cases signal with
    | breakLoop | result => exact endsWell_pure _
    | continueLoop => exact ih.whileLoop last goodCond goodBody
    | value v => exact ih.whileLoop v goodCond goodBody
  · exact endsWell_pure _

theorem condition_step (ih : AllEndWell Good bound limit fuel) {cond : Option Expr}
    (good : ∀ n ∈ Expr.nodesOptional cond, Good n) :
    EndsWell Good depth False (Eval.condition limit (fuel + 1) cond) := by
  cases cond with
  | none => exact endsWell_pure _
  | some e => exact ((ih.expr good).mono False.elim).bind fun c => endsWell_pure _

theorem forLoop_step (ih : AllEndWell Good bound limit fuel) {cond update : Option Expr}
    {body : List Stmt} (last : Value) (goodCond : ∀ n ∈ Expr.nodesOptional cond, Good n)
    (goodUpdate : ∀ n ∈ Expr.nodesOptional update, Good n)
    (goodBody : ∀ n ∈ Stmt.nodesEach body, Good n) :
    EndsWell Good depth False (Eval.forLoop limit (fuel + 1) cond update body last) := by
  have updated : EndsWell Good depth False (Eval.optional limit fuel update) :=
    (ih.optional goodUpdate).mono False.elim
  refine (ih.condition goodCond).bind fun holds => ?_
  split
  · refine ((ih.block .null goodBody).mono False.elim).bind fun signal => ?_
    cases signal with
    | breakLoop | result => exact endsWell_pure _
    | continueLoop => exact updated.bind fun _ => ih.forLoop last goodCond goodUpdate goodBody
    | value v => exact updated.bind fun _ => ih.forLoop v goodCond goodUpdate goodBody
  · exact endsWell_pure _

end AllEndWell

/-- Whatever the fuel, the evaluator ends good code well. -/
theorem allEndWell (Good : Node → Prop) (bound limit fuel : Nat) :
    AllEndWell Good bound limit fuel := by
  induction fuel with
  | zero => exact .zero
  | succ fuel ih =>
      exact
        { expr := ih.expr_step
          exprs := ih.exprs_step
          fields := ih.fields_step
          call := endsWell_callWith (ih.block .null)
          block := ih.block_step
          stmt := ih.stmt_step
          optional := ih.optional_step
          initializer := ih.initializer_step
          whileLoop := ih.whileLoop_step
          condition := ih.condition_step
          forLoop := ih.forLoop_step }

theorem endsWell_statements {body : List Stmt} (good : ∀ n ∈ Stmt.nodesEach body, Good n)
    (last : Value) :
    EndsWell Good depth (Covers Good bound limit depth (sizeOf body) fuel)
      (statements limit fuel body last) := by
  induction body generalizing last with
  | nil => exact endsWell_pure last
  | cons s rest ih =>
      simp only [Stmt.nodesEach, List.forall_mem_append] at good
      have later : sizeOf rest ≤ sizeOf (s :: rest) := by simp +arith
      have first : EndsWell Good depth (Covers Good bound limit depth (sizeOf (s :: rest)) fuel)
          (stmt limit fuel s) :=
        ((allEndWell Good bound limit fuel).stmt good.1).mono fun covers =>
          covers.mono (by simp +arith)
      refine first.bind fun signal => ?_
      cases signal with
      | result v => exact endsWell_pure v
      | value v => exact (ih good.2 v).mono fun covers => covers.mono later
      | breakLoop | continueLoop =>
          exact (ih good.2 last).mono fun covers => covers.mono later

theorem endsWell_program {p : Program} (good : ∀ n ∈ p.nodes, Good n) :
    EndsWell Good depth (Covers Good bound limit depth (sizeOf p.body) fuel)
      (program limit fuel p) :=
  (endsWell_record _).bind fun _ => endsWell_statements good .null

end Eval

/-! ## Sources -/

theorem readProgram_outcome (name source : String) :
    (readProgram name source).outcome = parse source := by
  unfold readProgram readTokens parse tokenize
  dsimp only
  cases (lex source).outcome <;> rfl

/-- If a source denotes only good code, running it leaves only good code in the table, and names only
    variables that good code looks up. -/
theorem Machine.run_endsWell {Good : Node → Prop} {limit fuel : Nat} {source : String} {m : Machine}
    (good : ∀ p, parse source = .ok p → ∀ n ∈ p.nodes, Good n) (stocked : m.functions.Stocked Good) :
    (∀ m', (m.run limit fuel source).EndsIn m' → m'.functions.Stocked Good) ∧
      ∀ e m', m.run limit fuel source = .failed (.runtime e) m' → e.Fair Good := by
  simp only [Machine.run, readProgram_outcome]
  cases read : parse source with
  | error e =>
      refine ⟨fun m' ends => ?_, fun e' m' failed => ?_⟩
      · obtain rfl := ends
        exact stocked
      · cases failed
  | ok p =>
      have program : Eval.EndsWell Good m.depth (Eval.Covers Good 0 limit m.depth _ fuel)
        (Eval.program limit fuel p) := Eval.endsWell_program (good p read)
      have ended := program (m.recordAll (readProgram inputName source).entries) stocked rfl
      dsimp only
      cases ran : Eval.program limit fuel p (m.recordAll (readProgram inputName source).entries) with
      | done value after =>
          rw [ran] at ended
          refine ⟨fun m' ends => ?_, fun e' m' failed => ?_⟩
          · obtain rfl := ends
            exact ended.1
          · cases failed
      | failed e after =>
          rw [ran] at ended
          refine ⟨fun m' ends => ?_, fun e' m' failed => ?_⟩
          · obtain rfl := ends
            exact ended.1.1
          · cases failed
            exact ended.2
      | outOfFuel => exact ⟨fun m' ends => absurd ends id, fun e' m' failed => by cases failed⟩

end MinangScript
