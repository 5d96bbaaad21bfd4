import MinangScript.Proofs.Environment.Names
import MinangScript.Proofs.Machine.Induction

/-! # The discipline of the machine

Whatever a program does and however it ends, the calls it made are over afterwards: the depth is
what it was, every frame that was open is open and binds the names it bound, and nothing that had
a name has lost it. Output is only ever added. A session that begins outside of all calls is
therefore outside of all calls after every one of its runs.
-/

namespace MinangScript

theorem Journal.lines_addAll (j : Journal) (entries : List Entry) :
    (j.addAll entries).lines = j.lines ++ entries.filterMap Entry.printed? := by
  simp only [lines, Journal.entries, addAll, List.reverse_append, List.reverse_reverse,
    List.filterMap_append]

theorem Journal.lines_add (j : Journal) (e : Entry) :
    (j.add e).lines = j.lines ++ e.printed?.toList := by
  have added : (j.add e).lines = j.lines ++ [e].filterMap Entry.printed? := j.lines_addAll [e]
  rw [added, List.filterMap_cons, List.filterMap_nil]
  cases e.printed? <;> rfl

namespace Machine

/-- What is the same in `m'` as in `m`, and what of `m` is still there. -/
structure Kept (m m' : Machine) : Prop where
  scoping : m'.env.scoping = m.env.scoping
  depth : m'.depth = m.depth
  frames : m'.env.frames.map Bindings.names = m.env.frames.map Bindings.names
  globals : m.env.globals.names ⊆ m'.env.globals.names
  functions : m.functions.names ⊆ m'.functions.names
  lines : m.journal.lines <+: m'.journal.lines

namespace Kept

theorem refl (m : Machine) : Kept m m where
  scoping := rfl
  depth := rfl
  frames := rfl
  globals := List.Subset.refl _
  functions := List.Subset.refl _
  lines := List.prefix_rfl

theorem trans {a b c : Machine} (first : Kept a b) (next : Kept b c) : Kept a c where
  scoping := next.scoping.trans first.scoping
  depth := next.depth.trans first.depth
  frames := next.frames.trans first.frames
  globals := List.Subset.trans first.globals next.globals
  functions := List.Subset.trans first.functions next.functions
  lines := first.lines.trans next.lines

theorem assign (m : Machine) (name : String) (value : Value) : Kept m (m.assign name value) where
  scoping := m.env.set_scoping name value
  depth := rfl
  frames := m.env.set_frame_names name value
  globals := m.env.globals_subset_set name value
  functions := List.Subset.refl _
  lines := List.prefix_rfl

theorem declare (m : Machine) (name : String) (f : Function) : Kept m (m.declare name f) where
  scoping := rfl
  depth := rfl
  frames := rfl
  globals := List.Subset.refl _
  functions := m.functions.names_subset_put name f
  lines := List.prefix_rfl

theorem lines_addAll (j : Journal) (entries : List Entry) :
    j.lines <+: (j.addAll entries).lines := by
  rw [j.lines_addAll]
  exact List.prefix_append _ _

theorem record (m : Machine) (entries : List Entry) (tag : Nat) :
    Kept m { m.recordAll entries with nextTag := tag } where
  scoping := rfl
  depth := rfl
  frames := rfl
  globals := List.Subset.refl _
  functions := List.Subset.refl _
  lines := lines_addAll m.journal entries

/-- The frame of a call lies on top of those that were open before, so leaving uncovers them. -/
theorem call {m m' : Machine} {name : String} {params : List String} {args : List Value}
    (inside : Kept (m.enter name params args) m') : Kept m m'.leave where
  scoping := inside.scoping
  depth := by
    have entered : m'.depth = m.depth + 1 := inside.depth
    simp only [leave, entered, Nat.add_sub_cancel]
  frames := by
    have covered := congrArg List.tail inside.frames
    simpa only [leave, Environment.pop, enter, Environment.push, List.map_tail, List.map_cons,
      List.tail_cons] using covered
  globals := inside.globals
  functions := inside.functions
  lines := by
    have noted : m.journal.lines <+: (m.enter name params args).journal.lines :=
      lines_addAll m.journal [_]
    exact noted.trans inside.lines

theorem stable : Eval.Stable Kept where
  refl := refl
  trans := trans
  assign := assign
  declare := declare
  record := record
  call := call

end Kept

/-- What a session can ask of its machine: to run a source text or a program, or to call a function
    of the table. -/
inductive Request where
  | source (text : String)
  | program (p : Program)
  | call (name : String) (args : List Value)

/-- A request is over, with a value or an error, and left the machine `m'`. -/
def Served (limit fuel : Nat) (m : Machine) (request : Request) (m' : Machine) : Prop :=
  match request with
  | .source text => (m.run limit fuel text).EndsIn m'
  | .program p => (Eval.program limit fuel p m).EndsIn m'
  | .call name args => (Eval.call limit fuel name args m).EndsIn m'

/-- The machines that a session can have: each request begins where the one before it ended. -/
inductive Session (limit : Nat) (first : Machine) : Machine → Prop where
  | opened : Session limit first first
  | served {fuel : Nat} {m m' : Machine} (request : Request) :
      Session limit first m → Served limit fuel m request m' → Session limit first m'

theorem Kept.of_served {limit fuel : Nat} {m m' : Machine} {request : Request}
    (served : Served limit fuel m request m') : Kept m m' := by
  cases request with
  | source text => exact Kept.stable.run served
  | program p => exact Kept.stable.obeys_program limit fuel p m m' served
  | call name args => exact (Kept.stable.allObey limit fuel).call name args m m' served

theorem Kept.of_session {limit : Nat} {first m : Machine} (session : Session limit first m) :
    Kept first m := by
  induction session with
  | opened => exact Kept.refl first
  | served request _ served ih => exact ih.trans (Kept.of_served served)

theorem Kept.outside {m m' : Machine} (kept : Kept m m') (noFrames : m.env.frames = [])
    (noCalls : m.depth = 0) : m'.env.frames = [] ∧ m'.depth = 0 := by
  have names := kept.frames
  rw [noFrames, List.map_nil, List.map_eq_nil_iff] at names
  exact ⟨names, kept.depth.trans noCalls⟩

/-- However an evaluation ends, by a value, a signal or an error, the machine has kept its depth,
    its frames with their names, its global names, its functions and its output; and a session
    that begins outside of all calls is outside of all calls after every request. -/
theorem evaluation_keeps_discipline (limit : Nat) :
    (∀ fuel p m m', (Eval.program limit fuel p m).EndsIn m' → Kept m m') ∧
    (∀ fuel s m m', (Eval.stmt limit fuel s m).EndsIn m' → Kept m m') ∧
    (∀ fuel e m m', (Eval.expr limit fuel e m).EndsIn m' → Kept m m') ∧
    (∀ fuel name args m m', (Eval.call limit fuel name args m).EndsIn m' → Kept m m') ∧
    (∀ first m, Session limit first m → first.env.frames = [] → first.depth = 0 →
      m.env.frames = [] ∧ m.depth = 0) := by
  have obeyed := Kept.stable.allObey limit
  refine ⟨Kept.stable.obeys_program limit, fun fuel => (obeyed fuel).stmt,
    fun fuel => (obeyed fuel).expr, fun fuel => (obeyed fuel).call, ?_⟩
  intro first m session noFrames noCalls
  exact (Kept.of_session session).outside noFrames noCalls

/-- Declares a function that calls a missing one, and calls it. -/
def failingCall : Program :=
  let named (name : String) : Ident := ⟨name, .origin⟩
  ⟨[.function (named "f") [named "a"] [.result (some (.call (.ident (named "g")) []))],
    .expr (.call (.ident (named "f")) [.literal .null])]⟩

theorem evaluation_keeps_discipline_failing_call :
    ∃ m, Eval.program 1 9 failingCall (start .dynamic) = .failed (.undefinedFunction "g") m ∧
      Kept (start .dynamic) m ∧ m.env.frames = [] ∧ m.depth = 0 := by
  obtain ⟨program, -, -, -, session⟩ := evaluation_keeps_discipline 1
  obtain ⟨m, failed⟩ : ∃ m, Eval.program 1 9 failingCall (start .dynamic) =
      .failed (.undefinedFunction "g") m := ⟨_, rfl⟩
  have ends : (Eval.program 1 9 failingCall (start .dynamic)).EndsIn m := by
    rw [failed]
    rfl
  have served : Served 1 9 (start .dynamic) (.program failingCall) m := ends
  exact ⟨m, failed, program 9 failingCall _ m ends,
    session _ m (.served _ .opened served) rfl rfl⟩

end Machine

end MinangScript
