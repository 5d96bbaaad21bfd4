import MinangScript.Proofs.Machine.Contents
import MinangScript.Proofs.Machine.LoopFree
import MinangScript.Proofs.Machine.Moments

/-! # The values that runs can reach

A run that begins with well-formed values comes to no others: not in a variable, not as the result, and
not at any moment in between. Values that wait, such as the left operand of an operator or the arguments
of a call, were well formed when they were made, and the table of functions only grows meanwhile. So what
is shown of a computation is shown for every table that has at least the names it had when the
computation was set up. A function that a variable holds under a name without a point is therefore always
there to be called.
-/

namespace MinangScript

/-! ## Computations -/

/-- What is asked of the results of a computation, given the table of functions at its end. -/
structure Shape (α : Type) where
  Fits : Bindings Function → α → Prop
  mono : ∀ {table later value}, Fits table value → table.names ⊆ later.names → Fits later value

namespace Shape

/-- Nothing is asked. -/
def any {α : Type} : Shape α where
  Fits := fun _ _ => True
  mono := fun _ _ => trivial

def value : Shape Value where
  Fits := fun table v => v.WellFormed table
  mono := Value.WellFormed.mono

def values : Shape (List Value) where
  Fits := fun table vs => ∀ v ∈ vs, v.WellFormed table
  mono := fun formed grows v member => (formed v member).mono grows

def fields : Shape (Bindings Value) where
  Fits := fun table b => b.names.Nodup ∧ b.Each (·.WellFormed table)
  mono := fun formed grows =>
    ⟨formed.1, fun entry member => (formed.2 entry member).mono grows⟩

def signal : Shape Signal where
  Fits := fun table s => s.toValue.WellFormed table
  mono := Value.WellFormed.mono

end Shape

namespace Traced

open Eval (ask change lift freshTag callBuiltin)

variable {α β : Type} {S : Shape α} {table : Bindings Function} {limit fuel : Nat}

/-- A run goes through well-formed machines only, in which no name of the table is lost, and what it
    ends with is as asked: a value that fits, or an error that is honest. -/
structure Formed (S : Shape α) (table : Bindings Function)
    (r : Outcome RuntimeError α × List Moment) : Prop where
  moments : ∀ moment ∈ r.2, moment.machine.WellFormed
  ended : ∀ m, r.1.EndsIn m → m.WellFormed ∧ table.names ⊆ m.functions.names
  fits : ∀ v m, r.1 = .done v m → S.Fits m.functions v
  honest : ∀ e m, r.1 = .failed e m → e.Honest m.functions

/-- The computation does so from every well-formed machine that has the names of the table. -/
def Forms (S : Shape α) (table : Bindings Function) (x : Traced α) : Prop :=
  ∀ m, m.WellFormed → table.names ⊆ m.functions.names → Formed S m.functions (x m)

theorem Forms.mono {later : Bindings Function} {x : Traced α} (forms : Forms S table x)
    (grows : table.names ⊆ later.names) : Forms S later x :=
  fun m formed has => forms m formed (List.Subset.trans grows has)

theorem Forms.bind {S' : Shape β} {x : Traced α} {f : α → Traced β} (first : Forms S table x)
    (next : ∀ value later, table.names ⊆ later.names → S.Fits later value →
      Forms S' later (f value)) : Forms S' table (x >>= f) := by
  intro m formed has
  have before := first m formed has
  change Formed S' m.functions (Traced.bind x f m)
  unfold Traced.bind
  generalize x m = r at before ⊢
  obtain ⟨o, moments⟩ := r
  cases o with
  | done value mid =>
      obtain ⟨midFormed, kept⟩ := before.ended mid rfl
      have later := next value mid.functions (List.Subset.trans has kept)
        (before.fits value mid rfl) mid midFormed (List.Subset.refl _)
      refine ⟨List.forall_mem_append.mpr ⟨before.moments, later.moments⟩, fun m' ends => ?_,
        later.fits, later.honest⟩
      obtain ⟨formed', kept'⟩ := later.ended m' ends
      exact ⟨formed', List.Subset.trans kept kept'⟩
  | failed e mid =>
      refine ⟨before.moments, before.ended, nofun, fun e' m' failed => ?_⟩
      cases failed
      exact before.honest e mid rfl
  | outOfFuel => exact ⟨before.moments, nofun, nofun, nofun⟩

/-! ### Single steps -/

theorem forms_pure {value : α} (fits : S.Fits table value) : Forms S table (pure value) := by
  intro m formed has
  refine ⟨List.forall_mem_nil _, fun m' same => same ▸ ⟨formed, List.Subset.refl _⟩,
    fun v m' done => ?_, nofun⟩
  cases done
  exact S.mono fits has

theorem forms_stuck : Forms S table (stuck : Traced α) :=
  fun _ _ _ => ⟨List.forall_mem_nil _, nofun, nofun, nofun⟩

theorem forms_fail {e : RuntimeError} (honest : ∀ names, e.Honest names) :
    Forms S table (quiet (Eval.fail e)) := by
  intro m formed has
  refine ⟨List.forall_mem_nil _, fun m' same => same ▸ ⟨formed, List.Subset.refl _⟩, nofun,
    fun e' m' failed => ?_⟩
  cases failed
  exact honest _

theorem forms_tell {moment : Machine → Moment} (now : ∀ m, (moment m).machine = m) :
    Forms .any table (tell moment) := by
  intro m formed has
  refine ⟨List.forall_mem_singleton.mpr ?_, fun m' same => same ▸ ⟨formed, List.Subset.refl _⟩,
    fun _ _ _ => trivial, nofun⟩
  rw [now m]
  exact formed

theorem forms_change {f : Machine → Machine}
    (changed : ∀ m, m.WellFormed → table.names ⊆ m.functions.names → (f m).WellFormed)
    (kept : ∀ m, m.functions.names ⊆ (f m).functions.names) :
    Forms .any table (quiet (change f)) := by
  intro m formed has
  exact ⟨List.forall_mem_nil _, fun m' same => same ▸ ⟨changed m formed has, kept m⟩,
    fun _ _ _ => trivial, nofun⟩

theorem forms_assign (name : String) {v : Value} (valueFormed : v.WellFormed table) :
    Forms .any table (quiet (change (·.assign name v))) :=
  forms_change (fun _ formed has => formed.assign name (valueFormed.mono has))
    fun _ => List.Subset.refl _

theorem forms_declare (name : String) (f : Function) :
    Forms .any table (quiet (change (·.declare name f))) :=
  forms_change (fun _ formed _ => formed.declare name f)
    fun m => m.functions.names_subset_put name f

theorem forms_record (entry : Machine → Entry) :
    Forms .any table (quiet (change fun m => m.record (entry m))) :=
  forms_change (fun _ formed _ => formed) fun _ => List.Subset.refl _

theorem forms_ask {f : Machine → Except RuntimeError α}
    (fits : ∀ m v, m.WellFormed → f m = .ok v → S.Fits m.functions v)
    (honest : ∀ m e, f m = .error e → e.Honest m.functions) : Forms S table (quiet (ask f)) := by
  intro m formed has
  have unchanged : ∀ m', (ask f m).EndsIn m' →
      m'.WellFormed ∧ m.functions.names ⊆ m'.functions.names := by
    intro m' ends
    simp only [ask] at ends
    split at ends <;> obtain rfl : m = m' := ends <;> exact ⟨formed, List.Subset.refl _⟩
  refine ⟨List.forall_mem_nil _, unchanged, fun v m' done => ?_, fun e m' failed => ?_⟩
  · simp only [quiet, ask] at done
    split at done
    · rename_i answer
      cases done
      exact fits m v formed answer
    · cases done
  · simp only [quiet, ask] at failed
    split at failed
    · cases failed
    · rename_i answer
      cases failed
      exact honest m e answer

/-- A value with a tag that is given out for it. -/
theorem forms_tagged {f : Nat → α} (fits : ∀ tag, S.Fits table (f tag)) :
    Forms S table (quiet fun m => .done (f m.nextTag) { m with nextTag := m.nextTag + 1 }) := by
  intro m formed has
  refine ⟨List.forall_mem_nil _, fun m' same => same ▸ ⟨formed, List.Subset.refl _⟩,
    fun v m' done => ?_, nofun⟩
  cases done
  exact S.mono (fits _) has

theorem forms_freshTag : Forms .any table (quiet freshTag) :=
  forms_tagged (f := id) fun _ => trivial

theorem forms_literal (value : Literal) : Forms .value table (quiet (Eval.literal value)) := by
  cases value with
  | number value => exact forms_pure (Value.wellFormed_number value)
  | string text => exact forms_pure (Value.wellFormed_string text)
  | bool value => exact forms_pure (Value.wellFormed_bool value)
  | null => exact forms_pure Value.wellFormed_null
  | regex pattern flags =>
      exact forms_tagged (f := (Value.regex · pattern flags)) fun _ => Value.wellFormed_regex _ _ _

theorem forms_lookup (id : Ident) : Forms .value table (quiet (ask (·.lookup id))) := by
  refine forms_ask (fun m v formed found => formed.lookup found) fun m e failed => ?_
  rw [Machine.eq_of_lookup failed]
  exact nofun

theorem forms_member (object : Expr) (property : Ident) :
    Forms .value table
      (quiet (ask fun m => (m.method object property).map fun (name, params) =>
        .function name params)) := by
  refine forms_ask (fun m v _ found => ?_) fun m e failed => Machine.honest_of_map_method failed
  cases answer : m.method object property with
  | error e =>
      rw [answer] at found
      cases found
  | ok target =>
      rw [answer] at found
      cases found
      exact Value.wellFormed_function.mpr (Machine.knows_method answer)

theorem forms_callee (callee : Expr) : Forms .any table (quiet (ask (·.callee callee))) :=
  forms_ask (fun _ _ _ _ => trivial) fun _ _ failed => Machine.honest_of_callee failed

theorem forms_binaryOp (op : BinaryOp) (left right : Value) :
    Forms .value table (quiet (lift (op.apply left right))) :=
  forms_ask (fun _ _ _ is => BinaryOp.wellFormed_of_apply is)
    fun _ _ failed => (BinaryOp.arithmetic_of_apply failed).honest

theorem forms_unaryOp (op : UnaryOp) (operand : Value) :
    Forms .value table (quiet (lift (op.apply operand))) :=
  forms_ask (fun _ _ _ is => UnaryOp.wellFormed_of_apply is)
    fun _ _ failed => (UnaryOp.arithmetic_of_apply failed).honest

theorem forms_evaluating (node : Node) {x : Traced α} (forms : Forms S table x) :
    Forms S table (do tell (.evaluating node); x) :=
  (forms_tell fun _ => rfl).bind fun _ _ grows _ => forms.mono grows

/-! ### Calls -/

section Calls

variable {run : List Stmt → Traced Signal} {name : String} {args : List Value}

theorem forms_callBuiltin (b : Builtin) (args : List Value) :
    Forms .value table (quiet (callBuiltin b args)) := by
  intro m formed has
  by_cases fits : args.length = b.arity
  · simp only [quiet, callBuiltin, if_neg (not_not_intro fits)]
    refine ⟨List.forall_mem_nil _, fun m' same => same ▸ ⟨formed, List.Subset.refl _⟩, ?_, ?_⟩
    · rintro v m' ⟨⟩
      exact Builtin.wellFormed_call b args _
    · rintro e m' ⟨⟩
  · simp only [quiet, callBuiltin, if_pos fits]
    have honest : ∀ names, (RuntimeError.arity b.name b.arity args.length).Honest names := by
      rintro names name ⟨⟩
    exact forms_fail honest m formed has

/-- A change of the machine behind a computation that neither writes a variable nor declares. -/
theorem Forms.ensuring {x : Traced α} {before : Machine → List Moment} {tidy : Machine → Machine}
    (forms : Forms S table x)
    (told : ∀ m : Machine, m.WellFormed → ∀ moment ∈ before m, moment.machine.WellFormed)
    (tidied : ∀ m : Machine, m.WellFormed → (tidy m).WellFormed)
    (same : ∀ m, (tidy m).functions = m.functions) :
    Forms S table (ensuring x before tidy) := by
  intro m formed has
  obtain ⟨moments, ended, fits, honest⟩ := forms m formed has
  unfold Traced.ensuring
  generalize x m = r at *
  obtain ⟨o, earlier⟩ := r
  cases o with
  | done v mid =>
      obtain ⟨midFormed, kept⟩ := ended mid rfl
      refine ⟨List.forall_mem_append.mpr ⟨moments, told mid midFormed⟩, fun m' is => ?_,
        fun v' m' done => ?_, nofun⟩
      · exact is ▸ ⟨tidied mid midFormed, same mid ▸ kept⟩
      · cases done
        exact same mid ▸ fits v mid rfl
  | failed e mid =>
      obtain ⟨midFormed, kept⟩ := ended mid rfl
      refine ⟨List.forall_mem_append.mpr ⟨moments, told mid midFormed⟩, fun m' is => ?_, nofun,
        fun e' m' failed => ?_⟩
      · exact is ▸ ⟨tidied mid midFormed, same mid ▸ kept⟩
      · cases failed
        exact same mid ▸ honest e mid rfl
  | outOfFuel =>
      exact ⟨List.forall_mem_append.mpr ⟨moments, List.forall_mem_nil _⟩, nofun, nofun, nofun⟩

/-- The body of a function runs in a frame of well-formed arguments. -/
theorem forms_invoke (f : Function) (argsFormed : ∀ v ∈ args, v.WellFormed table)
    (bodies : ∀ body, Forms .signal table (run body)) :
    Forms .value table (invoke run name args f) := by
  unfold invoke
  cases f with
  | builtin b =>
      dsimp only
      split
      · exact forms_fail fun _ => nofun
      · exact (forms_tell fun _ => rfl).bind fun _ _ _ _ => forms_callBuiltin b args
  | user params body =>
      dsimp only
      split
      · exact forms_fail fun _ => nofun
      have opened : Forms .any table (quiet (change (·.openFrame name params args))) :=
        forms_change (fun m formed has => formed.openFrame name params fun v member =>
          (argsFormed v member).mono has) fun _ => List.Subset.refl _
      refine opened.bind fun _ later grows _ => (forms_tell fun _ => rfl).bind fun _ later' grows' _ => ?_
      have ran : Forms .signal later' (ensuring (run body) (fun _ => []) Machine.closeFrame) :=
        ((bodies body).mono (List.Subset.trans grows grows')).ensuring
          (fun _ _ => List.forall_mem_nil _) (fun _ formed => formed.closeFrame) fun _ => rfl
      refine ran.bind fun signal _ _ formed => ?_
      cases signal with
      | result v => exact forms_pure formed
      | value | breakLoop | continueLoop => exact forms_pure Value.wellFormed_null

theorem forms_counting (f : Function) (argsFormed : ∀ v ∈ args, v.WellFormed table)
    (bodies : ∀ body, Forms .signal table (run body)) :
    Forms .value table (callWith.counting run name args f) := by
  unfold callWith.counting
  have counted : ∀ {table}, Forms .any table (quiet (change Machine.count)) :=
    forms_change (fun _ formed _ => formed) fun _ => List.Subset.refl _
  refine (forms_tell fun _ => rfl).bind fun _ _ first _ => counted.bind fun _ _ second _ => ?_
  refine (forms_tell fun _ => rfl).bind fun _ _ third _ => ?_
  have grows := List.Subset.trans first (List.Subset.trans second third)
  exact ((forms_invoke f argsFormed bodies).mono grows).ensuring
    (fun _ formed => List.forall_mem_singleton.mpr formed) (fun _ formed => formed) fun _ => rfl

theorem forms_callWith (argsFormed : ∀ v ∈ args, v.WellFormed table)
    (bodies : ∀ body, Forms .signal table (run body)) (name : String) :
    Forms .value table (callWith limit run name args) := by
  intro m formed has
  have failed : ∀ e : RuntimeError, e.Honest m.functions → ∀ verdict,
      Formed .value m.functions (.failed e m, [.called name verdict m]) := by
    intro e honest verdict
    refine ⟨List.forall_mem_singleton.mpr formed,
      fun m' same => same ▸ ⟨formed, List.Subset.refl _⟩, nofun, fun e' m' is => ?_⟩
    cases is
    exact honest
  unfold callWith
  cases found : m.functions.get? name with
  | none =>
      refine failed _ ?_ .unknown
      rintro missing ⟨⟩
      exact Bindings.get?_eq_none_iff.mp found
  | some f =>
      dsimp only
      split
      · exact failed (.callDepth limit) nofun .refused
      · exact forms_counting f argsFormed bodies m formed has

end Calls

/-! ### The evaluator -/

/-- With this much fuel, all functions of the evaluator come to well-formed values only. -/
structure AllForm (limit fuel : Nat) : Prop where
  expr : ∀ {table} e, Forms .value table (expr limit fuel e)
  exprs : ∀ {table} es, Forms .values table (exprs limit fuel es)
  fields : ∀ {table done} properties, Shape.fields.Fits table done →
    Forms .fields table (fields limit fuel properties done)
  call : ∀ {table args} name, Shape.values.Fits table args →
    Forms .value table (call limit fuel name args)
  block : ∀ {table last} body, last.WellFormed table →
    Forms .signal table (block limit fuel body last)
  stmt : ∀ {table} s, Forms .signal table (stmt limit fuel s)
  optional : ∀ {table} e, Forms .value table (Traced.optional limit fuel e)
  initializer : ∀ {table} s, Forms .signal table (initializer limit fuel s)
  whileLoop : ∀ {table last} cond body, last.WellFormed table →
    Forms .signal table (whileLoop limit fuel cond body last)
  condition : ∀ {table} cond, Forms .any table (condition limit fuel cond)
  forLoop : ∀ {table last} cond update body, last.WellFormed table →
    Forms .signal table (forLoop limit fuel cond update body last)

namespace AllForm

theorem zero : AllForm limit 0 := by
  constructor <;> intros <;> exact forms_stuck

theorem expr_step (ih : AllForm limit fuel) (e : Expr) :
    Forms .value table (Traced.expr limit (fuel + 1) e) := by
  refine forms_evaluating (.expr e) ?_
  cases e with
  | literal value => exact forms_literal value
  | ident id => exact forms_lookup id
  | assign target value =>
      refine (ih.expr value).bind fun v later _ formed => ?_
      exact (forms_assign target.name formed).bind fun _ _ grows _ => forms_pure (formed.mono grows)
  | binary left op right =>
      exact (ih.expr left).bind fun l _ _ _ => (ih.expr right).bind fun r _ _ _ =>
        forms_binaryOp op l r
  | unary op operand => exact (ih.expr operand).bind fun v _ _ _ => forms_unaryOp op v
  | call callee args =>
      refine (ih.exprs args).bind fun values _ _ formed => ?_
      exact (forms_callee callee).bind fun name _ grows _ =>
        ih.call name (Shape.values.mono formed grows)
  | member object property => exact forms_member object property
  | array items =>
      refine (ih.exprs items).bind fun values _ _ formed => ?_
      refine forms_freshTag.bind fun tag _ grows _ => forms_pure ?_
      exact Value.wellFormed_array.mpr (Shape.values.mono formed grows)
  | object properties =>
      have noFields : Shape.fields.Fits table [] := ⟨List.nodup_nil, List.forall_mem_nil _⟩
      refine (ih.fields properties noFields).bind fun values _ _ formed => ?_
      refine forms_freshTag.bind fun tag _ grows _ => forms_pure ?_
      exact Value.wellFormed_object.mpr (Shape.fields.mono formed grows)

theorem exprs_step (ih : AllForm limit fuel) (es : List Expr) :
    Forms .values table (Traced.exprs limit (fuel + 1) es) := by
  cases es with
  | nil => exact forms_pure (List.forall_mem_nil _)
  | cons e rest =>
      refine (ih.expr e).bind fun v _ _ formed => ?_
      refine (ih.exprs rest).bind fun vs _ grows others => forms_pure ?_
      exact List.forall_mem_cons.mpr ⟨formed.mono grows, others⟩

/-- A property takes the place of one with the same key, so no key comes up twice. -/
theorem fields_step (ih : AllForm limit fuel) {done : Bindings Value}
    (properties : List (String × Expr)) (formed : Shape.fields.Fits table done) :
    Forms .fields table (Traced.fields limit (fuel + 1) properties done) := by
  cases properties with
  | nil => exact forms_pure formed
  | cons property rest =>
      obtain ⟨key, e⟩ := property
      refine (ih.expr e).bind fun v later grows valueFormed => ih.fields rest ?_
      obtain ⟨distinct, each⟩ := Shape.fields.mono formed grows
      exact ⟨Bindings.nodup_names_put distinct key v, each.put key valueFormed⟩

theorem call_step (ih : AllForm limit fuel) {args : List Value} (name : String)
    (formed : Shape.values.Fits table args) :
    Forms .value table (Traced.call limit (fuel + 1) name args) :=
  forms_callWith formed (fun body => ih.block body Value.wellFormed_null) name

theorem block_step (ih : AllForm limit fuel) {last : Value} (body : List Stmt)
    (formed : last.WellFormed table) :
    Forms .signal table (Traced.block limit (fuel + 1) body last) := by
  cases body with
  | nil => exact forms_pure formed
  | cons s rest =>
      refine (ih.stmt s).bind fun signal _ _ formed => ?_
      cases signal with
      | value v => exact ih.block rest formed
      | result | breakLoop | continueLoop => exact forms_pure formed

theorem stmt_step (ih : AllForm limit fuel) (s : Stmt) :
    Forms .signal table (Traced.stmt limit (fuel + 1) s) := by
  have nothing : ∀ {table}, Value.null.WellFormed table := Value.wellFormed_null
  refine forms_evaluating (.stmt s) ?_
  cases s with
  | declare kind name init =>
      refine (ih.optional init).bind fun v _ _ formed => ?_
      exact (forms_assign name.name formed).bind fun _ _ grows _ => forms_pure (formed.mono grows)
  | function name params body =>
      exact (forms_declare name.name _).bind fun _ _ _ _ => forms_pure nothing
  | conditional cond body other =>
      refine (ih.expr cond).bind fun c _ _ _ => ?_
      split
      · exact ih.block body nothing
      · cases other with
        | none => exact forms_pure nothing
        | some alternative => exact ih.stmt alternative
  | whileLoop cond body => exact ih.whileLoop cond body nothing
  | forLoop init cond update body =>
      refine (ih.initializer init).bind fun signal _ _ formed => ?_
      cases signal with
      | result v => exact forms_pure formed
      | value | breakLoop | continueLoop => exact ih.forLoop cond update body nothing
  | result value => exact (ih.optional value).bind fun v _ _ formed => forms_pure formed
  | breakLoop | continueLoop => exact forms_pure nothing
  | print arg =>
      refine (ih.expr arg).bind fun v _ _ formed => ?_
      exact (forms_record _).bind fun _ _ grows _ => forms_pure (formed.mono grows)
  | block body => exact ih.block body nothing
  | expr value => exact (ih.expr value).bind fun v _ _ formed => forms_pure formed

theorem optional_step (ih : AllForm limit fuel) (e : Option Expr) :
    Forms .value table (Traced.optional limit (fuel + 1) e) := by
  cases e with
  | none => exact forms_pure Value.wellFormed_null
  | some e => exact ih.expr e

theorem initializer_step (ih : AllForm limit fuel) (s : Option Stmt) :
    Forms .signal table (Traced.initializer limit (fuel + 1) s) := by
  cases s with
  | none => exact forms_pure Value.wellFormed_null
  | some s => exact ih.stmt s

theorem whileLoop_step (ih : AllForm limit fuel) {last : Value} (cond : Expr) (body : List Stmt)
    (formed : last.WellFormed table) :
    Forms .signal table (Traced.whileLoop limit (fuel + 1) cond body last) := by
  refine (ih.expr cond).bind fun c _ first _ => ?_
  split
  · refine (ih.block body Value.wellFormed_null).bind fun signal _ second inside => ?_
    have formed' := (formed.mono first).mono second
    cases signal with
    | breakLoop => exact forms_pure formed'
    | result v => exact forms_pure inside
    | continueLoop => exact ih.whileLoop cond body formed'
    | value v => exact ih.whileLoop cond body inside
  · exact forms_pure (formed.mono first)

theorem condition_step (ih : AllForm limit fuel) (cond : Option Expr) :
    Forms .any table (Traced.condition limit (fuel + 1) cond) := by
  cases cond with
  | none => exact forms_pure trivial
  | some e => exact (ih.expr e).bind fun _ _ _ _ => forms_pure trivial

theorem forLoop_step (ih : AllForm limit fuel) {last : Value} (cond update : Option Expr)
    (body : List Stmt) (formed : last.WellFormed table) :
    Forms .signal table (Traced.forLoop limit (fuel + 1) cond update body last) := by
  refine (ih.condition cond).bind fun holds _ first _ => ?_
  split
  · refine (ih.block body Value.wellFormed_null).bind fun signal _ second inside => ?_
    have formed' := (formed.mono first).mono second
    cases signal with
    | breakLoop => exact forms_pure formed'
    | result v => exact forms_pure inside
    | continueLoop =>
        exact (ih.optional update).bind fun _ _ grows _ =>
          ih.forLoop cond update body (formed'.mono grows)
    | value v =>
        exact (ih.optional update).bind fun _ _ grows _ =>
          ih.forLoop cond update body (Value.WellFormed.mono inside grows)
  · exact forms_pure (formed.mono first)

end AllForm

/-- Whatever the fuel, the evaluator comes to well-formed values only. -/
theorem allForm (limit fuel : Nat) : AllForm limit fuel := by
  induction fuel with
  | zero => exact .zero
  | succ fuel ih =>
      exact
        { expr := ih.expr_step
          exprs := ih.exprs_step
          fields := ih.fields_step
          call := ih.call_step
          block := ih.block_step
          stmt := ih.stmt_step
          optional := ih.optional_step
          initializer := ih.initializer_step
          whileLoop := ih.whileLoop_step
          condition := ih.condition_step
          forLoop := ih.forLoop_step }

theorem forms_statements {last : Value} (body : List Stmt) (formed : last.WellFormed table) :
    Forms .value table (statements limit fuel body last) := by
  induction body generalizing last table with
  | nil => exact forms_pure formed
  | cons s rest ih =>
      refine ((allForm limit fuel).stmt s).bind fun signal _ grows inside => ?_
      cases signal with
      | result v => exact forms_pure inside
      | value v => exact ih inside
      | breakLoop | continueLoop => exact ih (formed.mono grows)

theorem forms_program (p : Program) : Forms .value table (program limit fuel p) :=
  (forms_record _).bind fun _ _ _ _ => forms_statements p.body Value.wellFormed_null

end Traced

/-! ## Calls through variables -/

theorem Machine.callee_of_variable {m : Machine} (formed : m.WellFormed) {id : Ident}
    {name : String} {params : Option (List String)}
    (held : m.env.get? id.name = some (.function name params)) (plain : '.' ∉ name.toList) :
    ∃ target, m.callee (.ident id) = .ok target ∧ target ∈ m.functions.names := by
  have known := Value.wellFormed_function.mp (Environment.Each.get? formed held)
  by_cases own : m.functions.has id.name = true
  · refine ⟨id.name, ?_, Bindings.has_eq_true_iff.mp own⟩
    simp only [Machine.callee, if_pos own]
  · refine ⟨name, ?_, known.mem_of_no_point plain⟩
    simp only [Machine.callee, if_neg own, held]

namespace Eval

variable {limit fuel : Nat}

/-- Wherever the calls of an identifier with these arguments are evaluated from `now`: if, once the
    arguments are, the identifier is a variable that holds a function whose name has no point, then the
    call is one of a function in the table, and nothing in it says that this function is missing. -/
def FindsFunction (limit : Nat) (id : Ident) (args : List Expr) (now : Machine) : Prop :=
  ∀ fuel values mid name params, exprs limit fuel args now = .done values mid →
    mid.env.get? id.name = some (.function name params) → '.' ∉ name.toList →
    ∃ target, mid.callee (.ident id) = .ok target ∧ target ∈ mid.functions.names ∧
      expr limit (fuel + 1) (.call (.ident id) args) now = call limit fuel target values mid ∧
      ∀ m', call limit fuel target values mid ≠ .failed (.undefinedFunction target) m'

theorem finds_function {now : Machine} (formed : now.WellFormed)
    (inStep : now.env.frames.length = now.depth ∧ now.depth ≤ limit) (id : Ident)
    (args : List Expr) : FindsFunction limit id args now := by
  intro fuel values mid name params ran held plain
  -- The evaluation of the arguments, and from where it ends the call, as the trace tells of them.
  have steady : now.Steady .any limit now.depth now.depth := ⟨trivial, rfl, inStep.1, inStep.2⟩
  have shows : Traced.Shows .any limit now.depth (Traced.exprs limit fuel args)
      (exprs limit fuel args) := (Traced.allShow .any limit fuel).exprs fun _ _ => trivial
  have shown := shows now steady
  have traced : (Traced.exprs limit fuel args now).1 = .done values mid := shown.same.trans ran
  have argsFormed := (Traced.allForm limit fuel).exprs args now formed
    (List.Subset.refl now.functions.names)
  have midFormed : mid.WellFormed := (argsFormed.ended mid (by rw [traced]; rfl)).1
  obtain ⟨target, resolved, present⟩ := Machine.callee_of_variable midFormed held plain
  refine ⟨target, resolved, present, ?_, fun m' failed => ?_⟩
  · simp only [expr, Bind.bind, Eval.bind, ran, ask, resolved]
  · have shown' := (Traced.allShow .any limit fuel).call target values mid
      (shown.ended mid (by rw [ran]; rfl))
    have called := (Traced.allForm limit fuel).call target (argsFormed.fits values mid traced) mid
      midFormed (List.Subset.refl mid.functions.names)
    rw [← shown'.same] at failed
    have kept := (called.ended m' (by rw [failed]; rfl)).2
    exact called.honest _ m' failed target rfl (kept present)

/-! ## Sessions -/

theorem RunsAll.kept {programs : List Program} {m last : Machine}
    (runs : RunsAll limit programs m last) : Machine.Kept m last := by
  induction runs with
  | nil => exact .refl _
  | cons runs ends _ ih =>
      obtain ⟨-, fuel, rfl⟩ := runs
      exact (Machine.Kept.stable.obeys_program limit fuel _ _ _ ends).trans ih

/-- A run from outside of all calls, as the trace tells of it. -/
theorem program_formed {m : Machine} (formed : m.WellFormed) (noFrames : m.env.frames = [])
    (noCalls : m.depth = 0) (fuel : Nat) (p : Program) :
    (Traced.program limit fuel p m).1 = program limit fuel p m ∧
      (∀ moment ∈ (Traced.program limit fuel p m).2,
        moment.InStep limit ∧ moment.machine.WellFormed) ∧
      (∀ m', (program limit fuel p m).EndsIn m' → m'.WellFormed) ∧
      ∀ v m', program limit fuel p m = .done v m' → v.WellFormed m'.functions := by
  have steady : m.Steady .any limit 0 0 := ⟨trivial, noCalls, by rw [noFrames]; rfl, Nat.zero_le _⟩
  have shows : Traced.Shows .any limit 0 (Traced.program limit fuel p) (program limit fuel p) :=
    Traced.shows_program fun _ _ => trivial
  have forms : Traced.Forms .value m.functions (Traced.program limit fuel p) := Traced.forms_program p
  obtain ⟨same, -, sound, -⟩ := shows m steady
  obtain ⟨moments, ended, fits, -⟩ := forms m formed (List.Subset.refl m.functions.names)
  rw [same] at ended fits
  exact ⟨same, fun moment member => ⟨(sound moment member).inStep, moments moment member⟩,
    fun m' ends => (ended m' ends).1, fits⟩

theorem RunsAll.wellFormed {programs : List Program} {m last : Machine}
    (runs : RunsAll limit programs m last) (formed : m.WellFormed) (noFrames : m.env.frames = [])
    (noCalls : m.depth = 0) : last.WellFormed := by
  induction runs with
  | nil => exact formed
  | cons runs ends _ ih =>
      obtain ⟨-, fuel, rfl⟩ := runs
      obtain ⟨-, -, ended, -⟩ := program_formed formed noFrames noCalls fuel _
      have kept := Machine.Kept.stable.obeys_program limit fuel _ _ _ ends
      obtain ⟨noFrames', noCalls'⟩ := kept.outside noFrames noCalls
      exact ih (ended _ ends) noFrames' noCalls'

/-- Whatever programs ran on a new machine, and however they ended, the values of its global variables
    are well formed, the value of the next run is and stays so in every later run, and a call through a
    variable that holds a function without a point in its name finds a function. -/
theorem reachable_values_are_well_formed {limit : Nat} {scoping : Scoping}
    {programs : List Program} {m : Machine} (runs : RunsAll limit programs (.start scoping) m) :
    (∀ name v, (name, v) ∈ m.env.globals → v.WellFormed m.functions) ∧
    ∀ fuel p,
      (∀ v m', program limit fuel p m = .done v m' →
        ∀ rest last, RunsAll limit rest m' last → v.WellFormed last.functions) ∧
      (Traced.program limit fuel p m).1 = program limit fuel p m ∧
      ∀ id args now, .evaluating (.expr (.call (.ident id) args)) now ∈
        (Traced.program limit fuel p m).2 → FindsFunction limit id args now := by
  have noFrames : (Machine.start scoping).env.frames = [] := by cases scoping <;> rfl
  have formed := runs.wellFormed (Machine.wellFormed_start scoping) noFrames rfl
  obtain ⟨noFrames', noCalls'⟩ := runs.kept.outside noFrames rfl
  refine ⟨fun name v member => formed.globals (name, v) member, fun fuel p => ?_⟩
  obtain ⟨same, moments, -, fits⟩ := program_formed formed noFrames' noCalls' fuel p
  refine ⟨fun v m' done rest last later => ?_, same, fun id args now member => ?_⟩
  · exact (fits v m' done).mono later.kept.functions
  · obtain ⟨inStep, nowFormed⟩ := moments _ member
    exact finds_function nowFormed inStep id args

/-- Declares a function whose result has a key twice, the second time with a method that does not exist,
    keeps it in a variable, and fails. -/
def heldFunction : Program :=
  let named (name : String) : Ident := ⟨name, .origin⟩
  let twice : Expr := .object
    [("k", .ident (named "a")), ("k", .member (.ident (named "cetak")) (named "baru"))]
  ⟨[.function (named "f") [named "a"] [.result (some twice)],
    .declare .varDecl (named "g") (some (.ident (named "f"))),
    .expr (.call (.ident (named "h")) [])]⟩

/-- Calls the function through the variable, with itself as the argument. -/
def heldCall : Program :=
  let g : Expr := .ident ⟨"g", .origin⟩
  ⟨[.expr (.call g [g])]⟩

theorem reachable_values_are_well_formed_held_function :
    let g : Ident := ⟨"g", .origin⟩
    ∃ m tag m' now, RunsAll 5 [heldFunction] (.start .lexical) m ∧
      ("g", .function "f" (some ["a"])) ∈ m.env.globals ∧
      (Value.function "f" (some ["a"])).WellFormed m.functions ∧
      program 5 20 heldCall m = .done (.object tag [("k", .function "cetak.baru" none)]) m' ∧
      (Value.object tag [("k", .function "cetak.baru" none)]).WellFormed m'.functions ∧
      .evaluating (.expr (.call (.ident g) [.ident g])) now ∈ (Traced.program 5 20 heldCall m).2 ∧
      FindsFunction 5 g [.ident g] now := by
  intro g
  obtain ⟨m, failed, held, ⟨tag, m', done⟩, now, i, called⟩ : ∃ m,
      program 5 20 heldFunction (.start .lexical) = .failed (.undefinedFunction "h") m ∧
      m.env.globals[2]? = some ("g", .function "f" (some ["a"])) ∧
      (∃ tag m', program 5 20 heldCall m =
        .done (.object tag [("k", .function "cetak.baru" none)]) m') ∧
      ∃ now i, (Traced.program 5 20 heldCall m).2[i]? =
        some (.evaluating (.expr (.call (.ident g) [.ident g])) now) :=
    ⟨_, rfl, rfl, ⟨_, _, rfl⟩, _, 1, rfl⟩
  have ends : Runs 5 heldFunction (.start .lexical) (.failed (.undefinedFunction "h") m) :=
    ⟨nofun, 20, failed⟩
  have runs : RunsAll 5 [heldFunction] (.start .lexical) m := .cons ends rfl .nil
  obtain ⟨globals, next⟩ := reachable_values_are_well_formed runs
  obtain ⟨results, -, calls⟩ := next 20 heldCall
  have member := List.mem_of_getElem? held
  have moment := List.mem_of_getElem? called
  exact ⟨m, tag, m', now, runs, member, globals _ _ member, done, results _ _ done [] m' .nil,
    moment, calls _ _ _ moment⟩

end Eval

end MinangScript
