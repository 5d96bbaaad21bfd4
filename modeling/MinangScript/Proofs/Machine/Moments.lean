import MinangScript.Proofs.Machine.Outlook
import MinangScript.Proofs.Machine.Traced

/-! # What holds at every moment of a run

The traced evaluator and the evaluator come to the same end, and whatever the trace tells of is as it
should be: as many frames are open as calls are counted, except between the two steps of beginning or
ending a call, never more of either than the limit, and the table of functions has only what good
code put there. The induction is on the fuel, as always; each function of the evaluator is set beside
its traced counterpart, and what holds before a step holds behind it.
-/

namespace MinangScript

/-- What is known of the table of functions as long as only good code runs: good code declares only
    functions with which it still holds, and what the table then has to call is good code again. -/
structure Stock where
  Good : Node → Prop
  Holds : Bindings Function → Prop
  declare : ∀ {table id params body}, Holds table →
    (∀ n ∈ (Stmt.function id params body).nodes, Good n) →
    Holds (table.put id.name (.user (params.map (·.name)) body))
  body : ∀ {table name params body}, Holds table → table.get? name = some (.user params body) →
    ∀ n ∈ Stmt.nodesEach body, Good n

namespace Stock

/-- All code is good, and nothing is known of the table. -/
def any : Stock where
  Good := fun _ => True
  Holds := fun _ => True
  declare := fun _ _ => trivial
  body := fun _ _ _ _ => trivial

/-- The table holds only built-in functions and those that good code declared. -/
def ofGood (Good : Node → Prop) : Stock where
  Good := Good
  Holds := fun table => table.Stocked Good
  declare := fun stocked good => stocked.declare good
  body := by
    intro table name params body stocked found
    obtain ⟨id, ids, good⟩ := stocked.user found
    simp only [Stmt.nodes, List.forall_mem_cons] at good
    exact good.2

end Stock

namespace Machine

/-- Only good code is in the table, so many calls are counted, which the limit allows, and so many
    frames are open. -/
structure Steady (S : Stock) (limit calls frames : Nat) (m : Machine) : Prop where
  stocked : S.Holds m.functions
  counted : m.depth = calls
  opened : m.env.frames.length = frames
  within : calls ≤ limit

namespace Steady

variable {S : Stock} {limit depth calls frames : Nat} {m m' : Machine}

theorem inStep (steady : m.Steady S limit depth depth) :
    m.env.frames.length = m.depth ∧ m.depth ≤ limit := by
  rw [steady.counted]
  exact ⟨steady.opened, steady.within⟩

theorem inStep_counted (steady : m.Steady S limit (depth + 1) depth) :
    m.env.frames.length + 1 = m.depth ∧ m.depth ≤ limit := by
  rw [steady.counted, steady.opened]
  exact ⟨rfl, steady.within⟩

/-- A change that declares nothing, counts no call and opens no frame. -/
theorem of_eq (steady : m.Steady S limit calls frames)
    (sameTable : m'.functions = m.functions) (sameDepth : m'.depth = m.depth)
    (sameFrames : m'.env.frames.length = m.env.frames.length) :
    m'.Steady S limit calls frames where
  stocked := sameTable ▸ steady.stocked
  counted := sameDepth.trans steady.counted
  opened := sameFrames.trans steady.opened
  within := steady.within

theorem declare (steady : m.Steady S limit calls frames) {id : Ident} {params : List Ident}
    {body : List Stmt} (good : ∀ n ∈ (Stmt.function id params body).nodes, S.Good n) :
    (m.declare id.name (.user (params.map (·.name)) body)).Steady S limit calls frames :=
  { steady with stocked := S.declare steady.stocked good }

theorem count (steady : m.Steady S limit calls frames) (free : calls < limit) :
    m.count.Steady S limit (calls + 1) frames :=
  { steady with counted := congrArg (· + 1) steady.counted, within := free }

theorem uncount (steady : m.Steady S limit (calls + 1) frames) :
    m.uncount.Steady S limit calls frames :=
  { steady with
    counted := by simp only [Machine.uncount, steady.counted, Nat.add_sub_cancel]
    within := Nat.le_of_succ_le steady.within }

theorem openFrame (steady : m.Steady S limit calls frames) (name : String)
    (params : List String) (args : List Value) :
    (m.openFrame name params args).Steady S limit calls (frames + 1) :=
  { steady with opened := congrArg (· + 1) steady.opened }

theorem closeFrame (steady : m.Steady S limit calls (frames + 1)) :
    m.closeFrame.Steady S limit calls frames :=
  { steady with
    opened := by
      simp only [Machine.closeFrame, Environment.pop, List.length_tail, steady.opened,
        Nat.add_sub_cancel] }

end Steady

end Machine

namespace Outcome

variable {ε α : Type} {o : Outcome ε α} {m : Machine} {f : Machine → Machine}

theorem machine?_eq_some_iff : o.machine? = some m ↔ o.EndsIn m := by
  cases o <;> simp [machine?, EndsIn]

theorem endsIn_onMachine_iff :
    (o.onMachine f).EndsIn m ↔ ∃ before, o.EndsIn before ∧ f before = m := by
  cases o <;> simp [onMachine, EndsIn]

theorem onMachine_fails_iff {e : ε} :
    (∃ m, o.onMachine f = failed e m) ↔ ∃ m, o = failed e m := by
  cases o <;> simp [onMachine]

end Outcome

namespace Moment

/-- The machine at the moment. -/
def machine : Moment → Machine
  | evaluating _ m | called _ _ m | counted m | serving _ m | entered m | closing m => m

/-- As many frames are open as calls are counted, and one less while a call is counted for which no
    frame is open. No more calls are counted than the limit allows. -/
def InStep (limit : Nat) : Moment → Prop
  | evaluating _ m | called _ _ m | entered m => m.env.frames.length = m.depth ∧ m.depth ≤ limit
  | counted m | serving _ m | closing m => m.env.frames.length + 1 = m.depth ∧ m.depth ≤ limit

/-- A call is refused exactly if its function exists and the limit is reached. -/
def Judged (limit : Nat) : Moment → Prop
  | called name verdict m =>
    verdict = .refused ↔ m.functions.has name = true ∧ m.depth = limit
  | _ => True

/-- What is shown of every moment. -/
structure Sound (S : Stock) (limit : Nat) (moment : Moment) : Prop where
  inStep : moment.InStep limit
  judged : moment.Judged limit
  stocked : S.Holds moment.machine.functions

end Moment

/-- Some call among the moments is refused. -/
def Refusal (moments : List Moment) : Prop :=
  ∃ name m, Moment.called name .refused m ∈ moments

theorem refusal_append {first second : List Moment} :
    Refusal (first ++ second) ↔ Refusal first ∨ Refusal second := by
  simp only [Refusal, List.mem_append, exists_or]

namespace Traced

open Eval (ask change lift freshTag callBuiltin)

variable {α β : Type} {S : Stock} {limit depth fuel : Nat}

/-- A traced run ends like the run without a trace, in a machine as it should be, its moments are
    sound, and it is stopped for too many calls exactly if it refused one. -/
structure Shown (S : Stock) (limit : Nat) (Ends : Machine → Prop)
    (r : Outcome RuntimeError α × List Moment) (o : Outcome RuntimeError α) : Prop where
  same : r.1 = o
  ended : ∀ m, o.EndsIn m → Ends m
  sound : ∀ moment ∈ r.2, moment.Sound S limit
  stopped : ∀ l, (∃ m, o = .failed (.callDepth l) m) ↔ l = limit ∧ Refusal r.2

/-- The computation with a trace shows what the one without does. -/
def Shows (S : Stock) (limit depth : Nat) (t : Traced α) (x : Eval α) : Prop :=
  ∀ m, m.Steady S limit depth depth → Shown S limit (Machine.Steady S limit depth depth) (t m) (x m)

/-! ## Single steps -/

theorem Shows.bind {t : Traced α} {x : Eval α} {f : α → Traced β} {g : α → Eval β}
    (first : Shows S limit depth t x)
    (next : ∀ value, Shows S limit depth (f value) (g value)) :
    Shows S limit depth (t >>= f) (x >>= g) := by
  intro m steady
  have shown := first m steady
  change Shown S limit _ (Traced.bind t f m) (Eval.bind x g m)
  unfold Traced.bind Eval.bind
  generalize t m = r, x m = o' at shown ⊢
  obtain ⟨o, moments⟩ := r
  obtain ⟨rfl, ended, sound, stopped⟩ := shown
  cases o with
  | done value mid =>
      have later := next value mid (ended mid rfl)
      have noRefusal : ¬Refusal moments := fun refusal =>
        nomatch (stopped limit).mpr ⟨rfl, refusal⟩
      refine ⟨later.same, later.ended, ?_, fun l => ?_⟩
      · exact List.forall_mem_append.mpr ⟨sound, later.sound⟩
      · rw [later.stopped l, refusal_append]
        simp only [noRefusal, false_or]
  | failed e mid =>
      refine ⟨rfl, fun m' ends => ended m' ends, sound, fun l => ?_⟩
      rw [← stopped l]
      simp
  | outOfFuel => exact ⟨rfl, nofun, sound, fun l => by rw [← stopped l]; simp⟩

theorem shows_quiet {x : Eval α}
    (keeps : ∀ m m', m.Steady S limit depth depth → (x m).EndsIn m' → m'.Steady S limit depth depth)
    (plain : ∀ m e m', x m = .failed e m' → ∀ l, e ≠ .callDepth l) :
    Shows S limit depth (quiet x) x := by
  intro m steady
  refine ⟨rfl, fun m' ends => keeps m m' steady ends, List.forall_mem_nil _, fun l => ⟨?_, ?_⟩⟩
  · rintro ⟨m', failed⟩
    exact absurd rfl (plain m _ m' failed l)
  · rintro ⟨-, name, m', member⟩
    cases member

theorem shows_pure (value : α) : Shows S limit depth (pure value) (pure value) := by
  refine shows_quiet (fun m m' steady ends => ?_) fun m e m' failed => ?_
  · obtain rfl : m = m' := ends
    exact steady
  · cases failed

theorem shows_stuck : Shows S limit depth (stuck : Traced α) Eval.stuck :=
  shows_quiet nofun nofun

theorem shows_change {f : Machine → Machine}
    (keeps : ∀ m, m.Steady S limit depth depth → (f m).Steady S limit depth depth) :
    Shows S limit depth (quiet (change f)) (change f) := by
  refine shows_quiet (fun m m' steady ends => ?_) fun m e m' failed => ?_
  · obtain rfl : f m = m' := ends
    exact keeps m steady
  · cases failed

theorem shows_assign (name : String) (value : Value) :
    Shows S limit depth (quiet (change (·.assign name value)))
      (change (·.assign name value)) := by
  refine shows_change fun m steady => steady.of_eq rfl rfl ?_
  simpa [Machine.assign] using congrArg List.length (m.env.set_frame_names name value)

theorem shows_record (entry : Machine → Entry) :
    Shows S limit depth (quiet (change fun m => m.record (entry m)))
      (change fun m => m.record (entry m)) :=
  shows_change fun _ steady => steady.of_eq rfl rfl rfl

theorem shows_ask {f : Machine → Except RuntimeError α}
    (plain : ∀ m e, f m = .error e → ∀ l, e ≠ .callDepth l) :
    Shows S limit depth (quiet (ask f)) (ask f) := by
  refine shows_quiet (fun m m' steady ends => ?_) fun m e m' failed => ?_
  · simp only [ask] at ends
    split at ends <;> obtain rfl : m = m' := ends <;> exact steady
  · simp only [ask] at failed
    split at failed
    · cases failed
    · rename_i e' answer
      cases failed
      exact plain m e answer

/-- A value with a tag that is given out for it. -/
theorem shows_tagged (f : Nat → α) :
    Shows S limit depth
      (quiet fun m => .done (f m.nextTag) { m with nextTag := m.nextTag + 1 })
      fun m => .done (f m.nextTag) { m with nextTag := m.nextTag + 1 } := by
  refine shows_quiet (fun m m' steady ends => ?_) nofun
  obtain rfl : { m with nextTag := m.nextTag + 1 } = m' := ends
  exact steady.of_eq rfl rfl rfl

theorem shows_freshTag : Shows S limit depth (quiet freshTag) freshTag :=
  shows_tagged id

theorem shows_literal (value : Literal) :
    Shows S limit depth (quiet (Eval.literal value)) (Eval.literal value) := by
  cases value with
  | number | string | bool | null => exact shows_pure _
  | regex pattern flags => exact shows_tagged (Value.regex · pattern flags)

/-- Telling that something is about to be evaluated changes nothing about it. -/
theorem shows_evaluating (node : Node) {t : Traced α} {x : Eval α}
    (shows : Shows S limit depth t x) :
    Shows S limit depth (do tell (.evaluating node); t) x := by
  intro m steady
  obtain ⟨same, ended, sound, stopped⟩ := shows m steady
  refine ⟨same, ended, List.forall_mem_cons.mpr ⟨?_, sound⟩, fun l => ?_⟩
  · exact ⟨steady.inStep, trivial, steady.stocked⟩
  · rw [stopped l]
    simp [Refusal, Bind.bind, Traced.bind, tell]

/-! ## Calls -/

section Calls

variable {run : List Stmt → Traced Signal} {name : String} {args : List Value} {m : Machine}

theorem counting_moments {f : Function} :
    (callWith.counting run name args f m).2 =
      .called name .admitted m :: .counted m.count :: ((invoke run name args f m.count).2 ++
        (invoke run name args f m.count).1.machine?.elim [] fun m => [.closing m]) := rfl

/-- A call that is admitted is counted while its function runs. -/
theorem shown_counting {f : Function} {o : Outcome RuntimeError Value}
    (steady : m.Steady S limit depth depth) (free : depth < limit)
    (invoked : Shown S limit (Machine.Steady S limit (depth + 1) depth)
      (invoke run name args f m.count) o) :
    Shown S limit (Machine.Steady S limit depth depth) (callWith.counting run name args f m)
      (o.onMachine Machine.uncount) := by
  obtain ⟨rfl, ended, sound, stopped⟩ := invoked
  have counted := steady.count free
  have admitted : (Moment.called name .admitted m).Judged limit := by
    refine ⟨nofun, fun full => absurd full.2 ?_⟩
    rw [steady.counted]
    exact Nat.ne_of_lt free
  refine ⟨rfl, fun m' ends => ?_, ?_, fun l => ?_⟩
  · obtain ⟨before, left, rfl⟩ := Outcome.endsIn_onMachine_iff.mp ends
    exact (ended before left).uncount
  · rw [counting_moments]
    refine List.forall_mem_cons.mpr ⟨⟨steady.inStep, admitted, steady.stocked⟩, ?_⟩
    refine List.forall_mem_cons.mpr ⟨⟨counted.inStep_counted, trivial, counted.stocked⟩, ?_⟩
    refine List.forall_mem_append.mpr ⟨sound, ?_⟩
    cases left : (invoke run name args f m.count).1.machine? with
    | none => exact List.forall_mem_nil _
    | some before =>
        have closing := ended before (Outcome.machine?_eq_some_iff.mp left)
        exact List.forall_mem_singleton.mpr ⟨closing.inStep_counted, trivial, closing.stocked⟩
  · rw [Outcome.onMachine_fails_iff, stopped l, counting_moments]
    cases (invoke run name args f m.count).1.machine? <;> simp [Refusal]

theorem shown_failed {Ends : Machine → Prop} {e : RuntimeError} (ends : Ends m)
    (plain : ∀ l, e ≠ .callDepth l) :
    Shown S limit Ends (.failed e m, []) (.failed e m : Outcome RuntimeError α) := by
  refine ⟨rfl, fun m' same => same ▸ ends, List.forall_mem_nil _, fun l => ⟨?_, ?_⟩⟩
  · rintro ⟨m', failed⟩
    cases failed
    exact absurd rfl (plain l)
  · rintro ⟨-, name, m', member⟩
    cases member

theorem shown_invoke_builtin (b : Builtin) (steady : m.Steady S limit (depth + 1) depth) :
    Shown S limit (Machine.Steady S limit (depth + 1) depth)
      (invoke run name args (.builtin b) m) (callBuiltin b args m) := by
  by_cases fits : args.length = b.arity
  · have served : invoke run name args (.builtin b) m = (callBuiltin b args m, [.serving b m]) := by
      rw [invoke, if_neg (not_not_intro fits)]
      rfl
    rw [served, callBuiltin, if_neg (not_not_intro fits)]
    refine ⟨rfl, fun m' ends => ?_, ?_, fun l => by simp [Refusal]⟩
    · obtain rfl := ends
      exact steady.of_eq rfl rfl rfl
    · exact List.forall_mem_singleton.mpr ⟨steady.inStep_counted, trivial, steady.stocked⟩
  · rw [invoke, if_pos fits, callBuiltin, if_pos fits]
    exact shown_failed steady nofun

/-- What a call makes of the end of the body. -/
def answered : Outcome RuntimeError Signal → Outcome RuntimeError Value
  | .done (.result v) m => .done v m
  | .done _ m => .done .null m
  | .failed e m => .failed e m
  | .outOfFuel => .outOfFuel

theorem invoke_user {params : List String} {body : List Stmt} (fits : args.length = params.length) :
    invoke run name args (.user params body) m =
      (answered ((run body (m.openFrame name params args)).1.onMachine Machine.closeFrame),
        .entered (m.openFrame name params args) :: (run body (m.openFrame name params args)).2) := by
  rw [invoke, if_neg (not_not_intro fits)]
  simp only [Bind.bind, Traced.bind, quiet, tell, change, ensuring]
  obtain ⟨o, moments⟩ := run body (m.openFrame name params args)
  cases o with
  | done signal inside =>
      cases signal <;> simp [answered, Outcome.onMachine, Outcome.machine?, Pure.pure, Traced.pure]
  | failed e inside => simp [answered, Outcome.onMachine, Outcome.machine?]
  | outOfFuel => simp [answered, Outcome.onMachine, Outcome.machine?]

theorem endsIn_answered_iff {o : Outcome RuntimeError Signal} :
    (answered o).EndsIn m ↔ o.EndsIn m := by
  cases o with
  | done signal inside => cases signal <;> rfl
  | failed | outOfFuel => rfl

theorem answered_fails_iff {o : Outcome RuntimeError Signal} {e : RuntimeError} :
    (∃ m, answered o = .failed e m) ↔ ∃ m, o = .failed e m := by
  cases o with
  | done signal inside => cases signal <;> simp [answered]
  | failed | outOfFuel => simp [answered]

/-- The body of a function runs in a frame of its own, which is closed however it ends. -/
theorem shown_invoke_user {params : List String} {body : List Stmt} {x : Eval Signal}
    (steady : m.Steady S limit (depth + 1) depth) (fits : args.length = params.length)
    (shows : Shows S limit (depth + 1) (run body) x) :
    Shown S limit (Machine.Steady S limit (depth + 1) depth)
      (invoke run name args (.user params body) m)
      (answered ((x (m.openFrame name params args)).onMachine Machine.closeFrame)) := by
  have opened := steady.openFrame name params args
  obtain ⟨same, ended, sound, stopped⟩ := shows _ opened
  rw [invoke_user fits, same]
  refine ⟨rfl, fun m' ends => ?_, ?_, fun l => ?_⟩
  · obtain ⟨inside, left, rfl⟩ :=
      Outcome.endsIn_onMachine_iff.mp (endsIn_answered_iff.mp ends)
    exact (ended inside left).closeFrame
  · exact List.forall_mem_cons.mpr ⟨⟨opened.inStep, trivial, opened.stocked⟩, sound⟩
  · rw [answered_fails_iff, Outcome.onMachine_fails_iff, stopped l]
    simp [Refusal]

theorem leaving_eq (o : Outcome RuntimeError Signal) :
    Eval.leaving o = (answered (o.onMachine Machine.closeFrame)).onMachine Machine.uncount := by
  cases o with
  | done signal inside => cases signal <;> rfl
  | failed | outOfFuel => rfl

/-- That a call is counted makes no difference to a built-in function. -/
theorem callBuiltin_eq (b : Builtin) (args : List Value) (m : Machine) :
    callBuiltin b args m = (callBuiltin b args m.count).onMachine Machine.uncount := by
  unfold callBuiltin
  split <;> rfl

/-- The steps of an admitted call come to the same as the one step that the evaluator makes. -/
theorem shown_admitted {run' : List Stmt → Eval Signal} {f : Function}
    (found : m.functions.get? name = some f) (steady : m.Steady S limit depth depth)
    (free : depth < limit)
    (bodies : ∀ {depth body}, (∀ n ∈ Stmt.nodesEach body, S.Good n) →
      Shows S limit depth (run body) (run' body)) :
    Shown S limit (Machine.Steady S limit depth depth) (callWith.counting run name args f m)
      (Eval.callWith limit run' name args m) := by
  have counted := steady.count free
  have admitted : ¬limit ≤ m.depth := by
    rw [steady.counted]
    exact Nat.not_le_of_lt free
  simp only [Eval.callWith, found, if_neg admitted]
  cases f with
  | builtin b =>
      dsimp only
      rw [callBuiltin_eq]
      exact shown_counting steady free (shown_invoke_builtin b counted)
  | user params body =>
      dsimp only
      split
      · rename_i wrong
        have failed : invoke run name args (.user params body) m.count =
            (.failed (.arity name params.length args.length) m.count, []) := by
          rw [invoke, if_pos wrong]
          rfl
        refine shown_counting steady free (o := .failed _ m.count) ?_
        rw [failed]
        exact shown_failed counted nofun
      · rename_i fits
        have good := S.body steady.stocked found
        rw [leaving_eq]
        exact shown_counting steady free
          (shown_invoke_user counted (Decidable.not_not.mp fits) (bodies good))

theorem shows_callWith {run' : List Stmt → Eval Signal}
    (bodies : ∀ {depth body}, (∀ n ∈ Stmt.nodesEach body, S.Good n) →
      Shows S limit depth (run body) (run' body)) (name : String) (args : List Value) :
    Shows S limit depth (callWith limit run name args) (Eval.callWith limit run' name args) := by
  intro m steady
  unfold callWith
  cases found : m.functions.get? name with
  | none =>
      have unknown : (Moment.called name .unknown m).Judged limit :=
        ⟨nofun, fun full => by simp [Bindings.has, found] at full⟩
      simp only [Eval.callWith, found]
      refine ⟨rfl, fun m' same => same ▸ steady, ?_, fun l => by simp [Refusal]⟩
      exact List.forall_mem_singleton.mpr ⟨steady.inStep, unknown, steady.stocked⟩
  | some f =>
      dsimp only
      split
      · rename_i full
        have reached : m.depth = limit := Nat.le_antisymm steady.inStep.2 full
        have refused : (Moment.called name .refused m).Judged limit :=
          ⟨fun _ => ⟨by simp [Bindings.has, found], reached⟩, fun _ => rfl⟩
        simp only [Eval.callWith, found, if_pos full]
        refine ⟨rfl, fun m' same => same ▸ steady, ?_, fun l => ?_⟩
        · exact List.forall_mem_singleton.mpr ⟨steady.inStep, refused, steady.stocked⟩
        · simp [Refusal, eq_comm]
      · rename_i free
        rw [steady.counted, Nat.not_le] at free
        exact shown_admitted found steady free bodies

end Calls

/-! ## The evaluator -/

/-- With this much fuel, all functions of the evaluator show on good code what they do. -/
structure AllShow (S : Stock) (limit fuel : Nat) : Prop where
  expr : ∀ {depth e}, (∀ n ∈ e.nodes, S.Good n) →
    Shows S limit depth (expr limit fuel e) (Eval.expr limit fuel e)
  exprs : ∀ {depth es}, (∀ n ∈ Expr.nodesEach es, S.Good n) →
    Shows S limit depth (exprs limit fuel es) (Eval.exprs limit fuel es)
  fields : ∀ {depth properties} done, (∀ n ∈ Expr.nodesProperties properties, S.Good n) →
    Shows S limit depth (fields limit fuel properties done)
      (Eval.fields limit fuel properties done)
  call : ∀ {depth} name args,
    Shows S limit depth (call limit fuel name args) (Eval.call limit fuel name args)
  block : ∀ {depth body} last, (∀ n ∈ Stmt.nodesEach body, S.Good n) →
    Shows S limit depth (block limit fuel body last) (Eval.block limit fuel body last)
  stmt : ∀ {depth s}, (∀ n ∈ s.nodes, S.Good n) →
    Shows S limit depth (stmt limit fuel s) (Eval.stmt limit fuel s)
  optional : ∀ {depth e}, (∀ n ∈ Expr.nodesOptional e, S.Good n) →
    Shows S limit depth (Traced.optional limit fuel e) (Eval.optional limit fuel e)
  initializer : ∀ {depth s}, (∀ n ∈ Stmt.nodesOptional s, S.Good n) →
    Shows S limit depth (initializer limit fuel s) (Eval.initializer limit fuel s)
  whileLoop : ∀ {depth cond body} last, (∀ n ∈ cond.nodes, S.Good n) →
    (∀ n ∈ Stmt.nodesEach body, S.Good n) →
    Shows S limit depth (whileLoop limit fuel cond body last)
      (Eval.whileLoop limit fuel cond body last)
  condition : ∀ {depth cond}, (∀ n ∈ Expr.nodesOptional cond, S.Good n) →
    Shows S limit depth (condition limit fuel cond) (Eval.condition limit fuel cond)
  forLoop : ∀ {depth cond update body} last, (∀ n ∈ Expr.nodesOptional cond, S.Good n) →
    (∀ n ∈ Expr.nodesOptional update, S.Good n) → (∀ n ∈ Stmt.nodesEach body, S.Good n) →
    Shows S limit depth (forLoop limit fuel cond update body last)
      (Eval.forLoop limit fuel cond update body last)

namespace AllShow

theorem zero : AllShow S limit 0 := by
  constructor <;> intros <;> exact shows_stuck

theorem expr_step (ih : AllShow S limit fuel) {e : Expr} (good : ∀ n ∈ e.nodes, S.Good n) :
    Shows S limit depth (Traced.expr limit (fuel + 1) e) (Eval.expr limit (fuel + 1) e) := by
  refine shows_evaluating (.expr e) ?_
  cases e with
  | literal value => exact shows_literal value
  | ident id =>
      refine shows_ask fun m e failed => ?_
      rw [Machine.eq_of_lookup failed]
      exact nofun
  | assign target value =>
      simp only [Expr.nodes, List.forall_mem_cons] at good
      refine (ih.expr good.2).bind fun v => ?_
      exact (shows_assign target.name v).bind fun _ => shows_pure v
  | binary left op right =>
      simp only [Expr.nodes, List.forall_mem_cons, List.forall_mem_append] at good
      refine (ih.expr good.2.1).bind fun l => (ih.expr good.2.2).bind fun r => ?_
      exact shows_ask fun _ _ failed => (BinaryOp.plain_of_apply failed).refused
  | unary op operand =>
      simp only [Expr.nodes, List.forall_mem_cons] at good
      refine (ih.expr good.2).bind fun v => ?_
      exact shows_ask fun _ _ failed => (UnaryOp.plain_of_apply failed).refused
  | call callee args =>
      simp only [Expr.nodes, List.forall_mem_cons, List.forall_mem_append] at good
      refine (ih.exprs good.2.2).bind fun values => Shows.bind ?_ fun name => ih.call name values
      exact shows_ask fun _ _ failed => (Machine.plain_of_callee failed).refused
  | member object property =>
      exact shows_ask fun _ _ failed => (Machine.plain_of_map_method failed).refused
  | array items =>
      simp only [Expr.nodes, List.forall_mem_cons] at good
      refine (ih.exprs good.2).bind fun values => ?_
      exact shows_freshTag.bind fun _ => shows_pure _
  | object properties =>
      simp only [Expr.nodes, List.forall_mem_cons] at good
      refine (ih.fields [] good.2).bind fun values => ?_
      exact shows_freshTag.bind fun _ => shows_pure _

theorem exprs_step (ih : AllShow S limit fuel) {es : List Expr}
    (good : ∀ n ∈ Expr.nodesEach es, S.Good n) :
    Shows S limit depth (Traced.exprs limit (fuel + 1) es)
      (Eval.exprs limit (fuel + 1) es) := by
  cases es with
  | nil => exact shows_pure _
  | cons e rest =>
      simp only [Expr.nodesEach, List.forall_mem_append] at good
      exact (ih.expr good.1).bind fun v => (ih.exprs good.2).bind fun vs => shows_pure _

theorem fields_step (ih : AllShow S limit fuel) {properties : List (String × Expr)}
    (done : Bindings Value) (good : ∀ n ∈ Expr.nodesProperties properties, S.Good n) :
    Shows S limit depth (Traced.fields limit (fuel + 1) properties done)
      (Eval.fields limit (fuel + 1) properties done) := by
  cases properties with
  | nil => exact shows_pure done
  | cons property rest =>
      obtain ⟨key, e⟩ := property
      simp only [Expr.nodesProperties, List.forall_mem_append] at good
      exact (ih.expr good.1).bind fun v => ih.fields _ good.2

theorem block_step (ih : AllShow S limit fuel) {body : List Stmt} (last : Value)
    (good : ∀ n ∈ Stmt.nodesEach body, S.Good n) :
    Shows S limit depth (Traced.block limit (fuel + 1) body last)
      (Eval.block limit (fuel + 1) body last) := by
  cases body with
  | nil => exact shows_pure _
  | cons s rest =>
      simp only [Stmt.nodesEach, List.forall_mem_append] at good
      refine (ih.stmt good.1).bind fun signal => ?_
      cases signal with
      | value v => exact ih.block v good.2
      | result | breakLoop | continueLoop => exact shows_pure _

theorem stmt_step (ih : AllShow S limit fuel) {s : Stmt} (good : ∀ n ∈ s.nodes, S.Good n) :
    Shows S limit depth (Traced.stmt limit (fuel + 1) s) (Eval.stmt limit (fuel + 1) s) := by
  refine shows_evaluating (.stmt s) ?_
  cases s with
  | declare kind name init =>
      simp only [Stmt.nodes, List.forall_mem_cons] at good
      refine (ih.optional good.2).bind fun v => ?_
      exact (shows_assign name.name v).bind fun _ => shows_pure _
  | function name params body =>
      exact (shows_change fun m steady => steady.declare good).bind fun _ => shows_pure _
  | conditional cond body other =>
      simp only [Stmt.nodes, List.forall_mem_cons, List.forall_mem_append] at good
      obtain ⟨-, ⟨goodCond, goodBody⟩, goodOther⟩ := good
      refine (ih.expr goodCond).bind fun c => ?_
      split
      · exact ih.block .null goodBody
      · cases other with
        | none => exact shows_pure _
        | some alternative => exact ih.stmt goodOther
  | whileLoop cond body =>
      simp only [Stmt.nodes, List.forall_mem_cons, List.forall_mem_append] at good
      exact ih.whileLoop .null good.2.1 good.2.2
  | forLoop init cond update body =>
      simp only [Stmt.nodes, List.forall_mem_cons, List.forall_mem_append] at good
      obtain ⟨-, ⟨⟨goodInit, goodCond⟩, goodUpdate⟩, goodBody⟩ := good
      refine (ih.initializer goodInit).bind fun signal => ?_
      cases signal with
      | result v => exact shows_pure _
      | value | breakLoop | continueLoop => exact ih.forLoop .null goodCond goodUpdate goodBody
  | result value =>
      simp only [Stmt.nodes, List.forall_mem_cons] at good
      exact (ih.optional good.2).bind fun v => shows_pure _
  | breakLoop | continueLoop => exact shows_pure _
  | print arg =>
      simp only [Stmt.nodes, List.forall_mem_cons] at good
      refine (ih.expr good.2).bind fun v => ?_
      exact (shows_record _).bind fun _ => shows_pure _
  | block body =>
      simp only [Stmt.nodes, List.forall_mem_cons] at good
      exact ih.block .null good.2
  | expr value =>
      simp only [Stmt.nodes, List.forall_mem_cons] at good
      exact (ih.expr good.2).bind fun v => shows_pure _

theorem optional_step (ih : AllShow S limit fuel) {e : Option Expr}
    (good : ∀ n ∈ Expr.nodesOptional e, S.Good n) :
    Shows S limit depth (Traced.optional limit (fuel + 1) e)
      (Eval.optional limit (fuel + 1) e) := by
  cases e with
  | none => exact shows_pure _
  | some e => exact ih.expr good

theorem initializer_step (ih : AllShow S limit fuel) {s : Option Stmt}
    (good : ∀ n ∈ Stmt.nodesOptional s, S.Good n) :
    Shows S limit depth (Traced.initializer limit (fuel + 1) s)
      (Eval.initializer limit (fuel + 1) s) := by
  cases s with
  | none => exact shows_pure _
  | some s => exact ih.stmt good

theorem whileLoop_step (ih : AllShow S limit fuel) {cond : Expr} {body : List Stmt}
    (last : Value) (goodCond : ∀ n ∈ cond.nodes, S.Good n)
    (goodBody : ∀ n ∈ Stmt.nodesEach body, S.Good n) :
    Shows S limit depth (Traced.whileLoop limit (fuel + 1) cond body last)
      (Eval.whileLoop limit (fuel + 1) cond body last) := by
  refine (ih.expr goodCond).bind fun c => ?_
  split
  · refine (ih.block .null goodBody).bind fun signal => ?_
    cases signal with
    | breakLoop | result => exact shows_pure _
    | continueLoop => exact ih.whileLoop last goodCond goodBody
    | value v => exact ih.whileLoop v goodCond goodBody
  · exact shows_pure _

theorem condition_step (ih : AllShow S limit fuel) {cond : Option Expr}
    (good : ∀ n ∈ Expr.nodesOptional cond, S.Good n) :
    Shows S limit depth (Traced.condition limit (fuel + 1) cond)
      (Eval.condition limit (fuel + 1) cond) := by
  cases cond with
  | none => exact shows_pure _
  | some e => exact (ih.expr good).bind fun c => shows_pure _

theorem forLoop_step (ih : AllShow S limit fuel) {cond update : Option Expr}
    {body : List Stmt} (last : Value) (goodCond : ∀ n ∈ Expr.nodesOptional cond, S.Good n)
    (goodUpdate : ∀ n ∈ Expr.nodesOptional update, S.Good n)
    (goodBody : ∀ n ∈ Stmt.nodesEach body, S.Good n) :
    Shows S limit depth (Traced.forLoop limit (fuel + 1) cond update body last)
      (Eval.forLoop limit (fuel + 1) cond update body last) := by
  refine (ih.condition goodCond).bind fun holds => ?_
  split
  · refine (ih.block .null goodBody).bind fun signal => ?_
    cases signal with
    | breakLoop | result => exact shows_pure _
    | continueLoop =>
        exact (ih.optional goodUpdate).bind fun _ => ih.forLoop last goodCond goodUpdate goodBody
    | value v =>
        exact (ih.optional goodUpdate).bind fun _ => ih.forLoop v goodCond goodUpdate goodBody
  · exact shows_pure _

end AllShow

/-- Whatever the fuel, the traced evaluator shows what the evaluator does with good code. -/
theorem allShow (S : Stock) (limit fuel : Nat) : AllShow S limit fuel := by
  induction fuel with
  | zero => exact .zero
  | succ fuel ih =>
      exact
        { expr := ih.expr_step
          exprs := ih.exprs_step
          fields := ih.fields_step
          call := shows_callWith (ih.block .null)
          block := ih.block_step
          stmt := ih.stmt_step
          optional := ih.optional_step
          initializer := ih.initializer_step
          whileLoop := ih.whileLoop_step
          condition := ih.condition_step
          forLoop := ih.forLoop_step }

theorem shows_statements {body : List Stmt} (good : ∀ n ∈ Stmt.nodesEach body, S.Good n)
    (last : Value) :
    Shows S limit depth (statements limit fuel body last)
      (Eval.statements limit fuel body last) := by
  induction body generalizing last with
  | nil => exact shows_pure last
  | cons s rest ih =>
      simp only [Stmt.nodesEach, List.forall_mem_append] at good
      refine ((allShow S limit fuel).stmt good.1).bind fun signal => ?_
      cases signal with
      | result v => exact shows_pure v
      | value v => exact ih good.2 v
      | breakLoop | continueLoop => exact ih good.2 last

theorem shows_program {p : Program} (good : ∀ n ∈ p.nodes, S.Good n) :
    Shows S limit depth (program limit fuel p) (Eval.program limit fuel p) :=
  (shows_record _).bind fun _ => shows_statements good .null

end Traced

end MinangScript
