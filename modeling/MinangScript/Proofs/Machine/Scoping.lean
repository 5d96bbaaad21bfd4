import MinangScript.Proofs.Environment.Names
import MinangScript.Proofs.Machine.Discipline
import MinangScript.Proofs.Machine.Simulation

/-! # When scoping does not matter

Under dynamic scoping a function sees the parameters of its callers, and under lexical scoping it
does not. A function whose own body mentions no parameter of any other function cannot tell: each of
its names is bound by its own frame, which is the innermost, or by no frame at all. If all functions
of a program are like that, its runs under the two scopings stay in step.
-/

namespace MinangScript

namespace Environment

/-- Whichever frame is asked for the name, the answer is that of the innermost one. -/
def Settles (e : Environment) (name : String) : Prop :=
  match e.frames with
  | [] => True
  | frame :: rest => name ∈ frame.names ∨ ∀ other ∈ frame :: rest, name ∉ other.names

variable {name : String} {frames : List (Bindings Value)}

theorem lookup?_eq_none (free : ∀ frame ∈ frames, name ∉ frame.names) :
    lookup? name frames = none := by
  induction frames with
  | nil => rfl
  | cons frame rest ih =>
      obtain ⟨here, elsewhere⟩ := List.forall_mem_cons.mp free
      rw [lookup?, Bindings.get?_eq_none_iff.mpr here]
      exact ih elsewhere

theorem update?_eq_none (free : ∀ frame ∈ frames, name ∉ frame.names) (value : Value) :
    update? name value frames = none := by
  induction frames with
  | nil => rfl
  | cons frame rest ih =>
      obtain ⟨here, elsewhere⟩ := List.forall_mem_cons.mp free
      rw [← Bindings.has_eq_true_iff] at here
      rw [update?, if_neg here, ih elsewhere, Option.map_none]

variable {e : Environment}

theorem Settles.get?_lexical (settles : e.Settles name) (scoping : e.scoping = .dynamic) :
    { e with scoping := .lexical }.get? name = e.get? name := by
  obtain ⟨globals, frames, _⟩ := e
  obtain rfl := scoping
  cases frames with
  | nil => rfl
  | cons frame rest =>
      simp only [get?, visible, List.take_succ_cons, List.take_zero, lookup?]
      obtain bound | free := settles
      · obtain ⟨value, found⟩ := Option.isSome_iff_exists.mp (Bindings.has_eq_true_iff.mpr bound)
        simp only [found]
      · obtain ⟨here, elsewhere⟩ := List.forall_mem_cons.mp free
        simp only [Bindings.get?_eq_none_iff.mpr here, lookup?_eq_none elsewhere]

theorem Settles.set_lexical (settles : e.Settles name) (scoping : e.scoping = .dynamic)
    (value : Value) :
    { e with scoping := .lexical }.set name value =
      { e.set name value with scoping := .lexical } := by
  obtain ⟨globals, frames, _⟩ := e
  obtain rfl := scoping
  cases frames with
  | nil => rfl
  | cons frame rest =>
      simp only [set]
      obtain bound | free := settles
      · have bound := Bindings.has_eq_true_iff.mpr bound
        simp only [update?, bound, if_true, Option.map_some, List.singleton_append]
      · have alone : ∀ other ∈ [frame], name ∉ other.names :=
          List.forall_mem_singleton.mpr (free frame List.mem_cons_self)
        simp only [update?_eq_none free, update?_eq_none alone, Option.map_none]

end Environment

namespace Program

/-- The functions that are declared in a program, at any depth. -/
def declarations (p : Program) : List Declaration :=
  Stmt.declarationsEach p.body

/-- What the body of a function mentions is a parameter of its own or of no function. -/
def KeepsToItsParams (p : Program) : Prop :=
  ∀ d ∈ p.declarations, ∀ x ∈ Stmt.mentionsEach d.2, x ∈ d.1 ∨ ∀ other ∈ p.declarations, x ∉ other.1

instance (p : Program) : Decidable p.KeepsToItsParams :=
  inferInstanceAs (Decidable (∀ d ∈ p.declarations, ∀ x ∈ Stmt.mentionsEach d.2,
    x ∈ d.1 ∨ ∀ other ∈ p.declarations, x ∉ other.1))

end Program

namespace Eval

variable {p : Program}

/-- The same machine under both scopings, where `names` are the names that the frames bind, the
    innermost first. Notes tell the scoping, so the journals have only their lines in common. -/
structure InStep (p : Program) (names : List (List String)) (m m' : Machine) : Prop where
  dynamic : m.env.scoping = .dynamic
  lexical : m'.env = { m.env with scoping := .lexical }
  frames : m.env.frames.map Bindings.names = names
  params : ∀ bound ∈ names, ∀ x ∈ bound, ∃ d ∈ p.declarations, x ∈ d.1
  functions : m'.functions = m.functions
  declared : ∀ {name params body}, m.functions.get? name = some (.user params body) →
    (params, body) ∈ p.declarations
  depth : m'.depth = m.depth
  nextTag : m'.nextTag = m.nextTag
  lines : m'.journal.lines = m.journal.lines

/-- A name is bound by the innermost frame, or it is no parameter. Outside of all calls any name
    will do. -/
def Tells (p : Program) (names : List (List String)) (x : String) : Prop :=
  match names with
  | [] => True
  | bound :: _ => x ∈ bound ∨ ∀ d ∈ p.declarations, x ∉ d.1

namespace InStep

variable {names : List (List String)} {m m' : Machine}

theorem settles (inStep : InStep p names m m') {x : String} (tells : Tells p names x) :
    m.env.Settles x := by
  have frames := inStep.frames
  have params := inStep.params
  unfold Environment.Settles
  cases all : m.env.frames with
  | nil => trivial
  | cons frame rest =>
      rw [all, List.map_cons] at frames
      subst frames
      refine Or.imp_right (fun free => ?_) tells
      intro other member bound
      have listed : other.names ∈ frame.names :: rest.map Bindings.names :=
        List.mem_map_of_mem member
      obtain ⟨d, declared, isParam⟩ := params _ listed x bound
      exact free d declared isParam

theorem get? (inStep : InStep p names m m') {x : String} (tells : Tells p names x) :
    m'.env.get? x = m.env.get? x := by
  rw [inStep.lexical]
  exact (inStep.settles tells).get?_lexical inStep.dynamic

theorem lookup (inStep : InStep p names m m') {id : Ident} (tells : Tells p names id.name) :
    m'.lookup id = m.lookup id := by
  simp only [Machine.lookup, Machine.functionValue?, inStep.get? tells, inStep.functions]

theorem method (inStep : InStep p names m m') (object : Expr) (property : Ident) :
    m'.method object property = m.method object property := by
  simp only [Machine.method, inStep.functions]

theorem callee (inStep : InStep p names m m') {callee : Expr}
    (tells : ∀ x ∈ callee.calleeNames, Tells p names x) : m'.callee callee = m.callee callee := by
  cases callee with
  | ident id =>
      simp only [Expr.calleeNames, List.forall_mem_singleton] at tells
      simp only [Machine.callee, inStep.get? tells, inStep.functions]
  | member object property => simp only [Machine.callee, inStep.method]
  | assign | binary | unary | call | literal | array | object => rfl

theorem assign (inStep : InStep p names m m') {x : String} (tells : Tells p names x)
    (value : Value) : InStep p names (m.assign x value) (m'.assign x value) :=
  { inStep with
    dynamic := by simpa [Machine.assign] using inStep.dynamic
    lexical := by
      simp only [Machine.assign, inStep.lexical]
      exact (inStep.settles tells).set_lexical inStep.dynamic value
    frames := (m.env.set_frame_names x value).trans inStep.frames }

theorem declare (inStep : InStep p names m m') {params : List String} {body : List Stmt}
    (sound : (params, body) ∈ p.declarations) (name : String) :
    InStep p names (m.declare name (.user params body)) (m'.declare name (.user params body)) :=
  { inStep with
    functions := by simp only [Machine.declare, inStep.functions]
    declared := by
      intro other params' body' found
      simp only [Machine.declare, Bindings.get?_put] at found
      split at found
      · cases found
        exact sound
      · exact inStep.declared found }

theorem record (inStep : InStep p names m m') {e e' : Entry} (same : e'.printed? = e.printed?) :
    InStep p names (m.record e) (m'.record e') :=
  { inStep with
    lines := by simp only [Machine.record, Journal.lines_add, inStep.lines, same] }

theorem recordAll (inStep : InStep p names m m') (entries : List Entry) :
    InStep p names (m.recordAll entries) (m'.recordAll entries) :=
  { inStep with
    lines := by simp only [Machine.recordAll, Journal.lines_addAll, inStep.lines] }

theorem giveTag (inStep : InStep p names m m') (tag : Nat) :
    InStep p names { m with nextTag := tag } { m' with nextTag := tag } :=
  { inStep with nextTag := rfl }

theorem enter (inStep : InStep p names m m') {params : List String} {body : List Stmt}
    (sound : (params, body) ∈ p.declarations) {args : List Value}
    (arity : args.length = params.length) (name : String) :
    InStep p ((Bindings.ofPairs (params.zip args)).names :: names)
      (m.enter name params args) (m'.enter name params args) :=
  { inStep with
    lexical := by simp only [Machine.enter, Environment.push, inStep.lexical]
    frames := by simp only [Machine.enter, Environment.push, List.map_cons, inStep.frames]
    params := by
      refine List.forall_mem_cons.mpr ⟨fun x bound => ⟨_, sound, ?_⟩, inStep.params⟩
      rw [Bindings.mem_names_ofPairs, List.map_fst_zip (Nat.le_of_eq arity.symm)] at bound
      exact bound
    depth := by simp only [Machine.enter, inStep.depth]
    lines := by
      simp only [Machine.enter, Journal.lines_add, Entry.printed?, inStep.lines] }

theorem leave {bound : List String} (inStep : InStep p (bound :: names) m m') :
    InStep p names m.leave m'.leave :=
  { inStep with
    lexical := by simp only [Machine.leave, Environment.pop, inStep.lexical]
    frames := by
      simp only [Machine.leave, Environment.pop, List.map_tail, inStep.frames, List.tail_cons]
    params := (List.forall_mem_cons.mp inStep.params).2
    depth := by simp only [Machine.leave, inStep.depth] }

theorem freshTag : Agree (InStep p names) freshTag freshTag := by
  intro m m' inStep
  simp only [Eval.freshTag, inStep.nextTag]
  exact .done (inStep.giveTag _)

theorem callBuiltin (inStep : InStep p names m m') (b : Builtin) (args : List Value) :
    Matches (InStep p names) (callBuiltin b args m) (callBuiltin b args m') := by
  unfold Eval.callBuiltin
  split
  · exact .failed inStep
  · rw [inStep.nextTag]
    exact .done ((inStep.recordAll _).giveTag _)

/-- The body of a declared function tells its names apart from the frame of its call. -/
theorem callWith (keeps : p.KeepsToItsParams) {run run' : List Stmt → Eval Signal} {limit : Nat}
    (bodies : ∀ {names body}, (∀ x ∈ Stmt.mentionsEach body, Tells p names x) →
      (∀ d ∈ Stmt.declarationsEach body, d ∈ p.declarations) →
      Agree (InStep p names) (run body) (run' body)) (name : String) (args : List Value) :
    Agree (InStep p names) (callWith limit run name args) (callWith limit run' name args) := by
  intro m m' inStep
  simp only [Eval.callWith, inStep.functions, inStep.depth]
  cases found : m.functions.get? name with
  | none => exact .failed inStep
  | some f =>
      dsimp only
      split
      · exact .failed inStep
      cases f with
      | builtin b => exact inStep.callBuiltin b args
      | user params body =>
          dsimp only
          split
          · exact .failed inStep
          · rename_i arity
            have arity : args.length = params.length := Decidable.not_not.mp arity
            have sound := inStep.declared found
            refine (bodies ?_ ?_ (inStep.enter sound arity name)).leaving InStep.leave
            · intro x mentioned
              refine (keeps _ sound x mentioned).imp_left fun own => ?_
              rwa [Bindings.mem_names_ofPairs, List.map_fst_zip (Nat.le_of_eq arity.symm)]
            · exact fun d inside => Stmt.declarationsEach_trans inside sound

theorem start : InStep p [] (.start .dynamic) (.start .lexical) where
  dynamic := rfl
  lexical := rfl
  frames := rfl
  params := by simp
  functions := rfl
  declared := by
    intro name params body found
    have listed := Bindings.mem_of_get? found
    simp [Machine.start] at listed
  depth := rfl
  nextTag := rfl
  lines := rfl

end InStep

/-- A run under dynamic scoping and one under lexical scoping. -/
def bothScopings (keeps : p.KeepsToItsParams) (limit : Nat) : Simulation (List (List String)) where
  limit := limit
  limit' := limit
  Sim := fun names => Agree (InStep p names)
  Allowed := Tells p
  Sound := fun d => d ∈ p.declarations
  pure := agree_pure
  fail := agree_fail
  bind := .bind
  lookup := fun tells => agree_ask fun inStep => inStep.lookup tells
  callee := fun tells => agree_ask fun inStep => inStep.callee tells
  method := fun object property f => agree_ask fun inStep => by rw [inStep.method]
  assign := fun value tells => agree_change fun inStep => inStep.assign tells value
  declare := fun name sound => agree_change fun inStep => inStep.declare sound name
  print := fun text => agree_change fun inStep => inStep.record rfl
  announce := fun count => agree_change fun inStep => inStep.record rfl
  freshTag := InStep.freshTag
  call := fun name args bodies => InStep.callWith keeps bodies name args

/-- If no function mentions a parameter of another one, a program has the same value or error, prints
    the same lines and leaves the same global variables under both scopings. -/
theorem scoping_does_not_matter {p : Program} (keeps : p.KeepsToItsParams) (limit fuel : Nat) :
    Matches (fun m m' => m'.journal.lines = m.journal.lines ∧ m'.env.globals = m.env.globals)
      (program limit fuel p (.start .dynamic)) (program limit fuel p (.start .lexical)) := by
  have all := ((bothScopings keeps limit).all_stuck fun _ => .outOfFuel).more fuel
  rw [Nat.zero_add] at all
  have agree : Agree (InStep p []) (program limit fuel p) (program limit fuel p) :=
    (bothScopings keeps limit).program (i := []) all (fun _ _ => trivial) fun _ declared => declared
  refine (agree InStep.start).mono fun inStep => ⟨inStep.lines, ?_⟩
  rw [inStep.lexical]

/-- One function prints its parameter; another one copies its own to a variable and calls the first
    with that. -/
def ownParams : Program :=
  let named (name : String) : Ident := ⟨name, .origin⟩
  ⟨[.function (named "f") [named "a"] [.print (.ident (named "a"))],
    .function (named "g") [named "b"]
      [.declare .letDecl (named "c") (some (.ident (named "b"))),
       .expr (.call (.ident (named "f")) [.ident (named "c")])],
    .expr (.call (.ident (named "g")) [.literal (.string "x")])]⟩

theorem scoping_does_not_matter_own_params :
    ownParams.KeepsToItsParams ∧ ∃ m m', program 2 20 ownParams (.start .dynamic) = .done .null m ∧
      program 2 20 ownParams (.start .lexical) = .done .null m' ∧
      m.journal.lines = [(.log, "x")] ∧ m'.journal.lines = m.journal.lines ∧
      m'.env.globals = m.env.globals := by
  have keeps : ownParams.KeepsToItsParams := by decide
  obtain ⟨m, first, lines⟩ : ∃ m, program 2 20 ownParams (.start .dynamic) = .done .null m ∧
      m.journal.lines = [(.log, "x")] := ⟨_, rfl, rfl⟩
  have matching := scoping_does_not_matter keeps 2 20
  rw [first] at matching
  generalize second : program 2 20 ownParams (.start .lexical) = o at matching
  cases matching with
  | done related => exact ⟨keeps, m, _, first, rfl, lines, related⟩

end Eval

end MinangScript
