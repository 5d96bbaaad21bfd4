import MinangScript.Proofs.Machine.Discipline
import MinangScript.Proofs.Machine.Simulation

/-! # The limit on calls

A limit on the calls that may be under way only ever cuts a run short. A run that did not reach it
is the same under every higher limit, and a run that did reach it has printed the beginning of what
the run under a higher limit prints. Since a run is cut short by a lack of fuel as well, the first
thing to see is that fuel only does that: with more of it a run that came to an end comes to the
same end.
-/

namespace MinangScript

namespace Eval

variable {α β : Type}

/-! ## More fuel -/

/-- Where the first computation came to an end, the second one comes to the same end. -/
def GoesOn (x x' : Eval α) : Prop :=
  ∀ m, x m = .outOfFuel ∨ x' m = x m

theorem GoesOn.refl (x : Eval α) : GoesOn x x :=
  fun _ => .inr rfl

theorem GoesOn.bind {x x' : Eval α} {f f' : α → Eval β} (first : GoesOn x x')
    (next : ∀ value, GoesOn (f value) (f' value)) : GoesOn (x >>= f) (x' >>= f') := by
  intro m
  simp only [Bind.bind, Eval.bind]
  obtain gaveUp | same := first m
  · exact .inl (by rw [gaveUp])
  rw [same]
  cases x m with
  | done value mid => exact next value mid
  | failed e mid => exact .inr rfl
  | outOfFuel => exact .inl rfl

theorem GoesOn.callWith {limit : Nat} {run run' : List Stmt → Eval Signal}
    (bodies : ∀ body, GoesOn (run body) (run' body)) (name : String) (args : List Value) :
    GoesOn (callWith limit run name args) (callWith limit run' name args) := by
  intro m
  simp only [Eval.callWith]
  cases m.functions.get? name with
  | none => exact .inr rfl
  | some f =>
      cases f with
      | builtin b => exact .inr rfl
      | user params body =>
          dsimp only
          split
          · exact .inr rfl
          split
          · exact .inr rfl
          · obtain gaveUp | same := bodies body (m.enter name params args)
            · exact .inl (by rw [gaveUp]; rfl)
            · exact .inr (by rw [same])

/-- A run and a run with more fuel. -/
def moreFuel (limit : Nat) : Simulation Unit where
  limit := limit
  limit' := limit
  Sim := fun _ => GoesOn
  Allowed := fun _ _ => True
  Sound := fun _ => True
  pure := fun _ => .refl _
  fail := fun _ => .refl _
  bind := .bind
  lookup := fun _ => .refl _
  callee := fun _ => .refl _
  method := fun _ _ _ => .refl _
  assign := fun _ _ => .refl _
  declare := fun _ _ => .refl _
  print := fun _ => .refl _
  announce := fun _ => .refl _
  freshTag := .refl _
  call := fun name args bodies =>
    .callWith (fun body => @bodies () body (fun _ _ => trivial) fun _ _ => trivial) name args

theorem moreFuel_all {fuel fuel' : Nat} (le : fuel ≤ fuel') (limit : Nat) :
    (moreFuel limit).All fuel fuel' := by
  obtain ⟨extra, rfl⟩ := Nat.exists_eq_add_of_le' le
  have base : (moreFuel limit).All 0 extra := (moreFuel limit).all_zero fun _ _ => .inl rfl
  exact base.more fuel

theorem program_goesOn {fuel fuel' : Nat} (le : fuel ≤ fuel') (limit : Nat) (p : Program) :
    GoesOn (program limit fuel p) (program limit fuel' p) :=
  (moreFuel limit).program (i := ()) (moreFuel_all le limit) (fun _ _ => trivial) fun _ _ => trivial

theorem expr_goesOn {fuel fuel' : Nat} (le : fuel ≤ fuel') (limit : Nat) (e : Expr) :
    GoesOn (expr limit fuel e) (expr limit fuel' e) :=
  (moreFuel_all le limit).expr (i := ()) fun _ _ => trivial

theorem stmt_goesOn {fuel fuel' : Nat} (le : fuel ≤ fuel') (limit : Nat) (s : Stmt) :
    GoesOn (stmt limit fuel s) (stmt limit fuel' s) :=
  (moreFuel_all le limit).stmt (i := ()) (fun _ _ => trivial) fun _ _ => trivial

/-- A program comes to an end, whatever fuel that takes. -/
def Runs (limit : Nat) (p : Program) (m : Machine) (o : Outcome RuntimeError Value) : Prop :=
  o ≠ .outOfFuel ∧ ∃ fuel, program limit fuel p m = o

theorem Runs.eventually {limit : Nat} {p : Program} {m : Machine} {o : Outcome RuntimeError Value}
    (runs : Runs limit p m o) : ∃ fuel, ∀ fuel', fuel ≤ fuel' → program limit fuel' p m = o := by
  obtain ⟨ended, fuel, rfl⟩ := runs
  refine ⟨fuel, fun fuel' le => ?_⟩
  obtain gaveUp | same := program_goesOn le limit p m
  · exact absurd gaveUp ended
  · exact same

theorem Runs.unique {limit : Nat} {p : Program} {m : Machine} {o o' : Outcome RuntimeError Value}
    (runs : Runs limit p m o) (runs' : Runs limit p m o') : o' = o := by
  obtain ⟨fuel, all⟩ := runs.eventually
  obtain ⟨fuel', all'⟩ := runs'.eventually
  rw [← all (max fuel fuel') (Nat.le_max_left ..), ← all' (max fuel fuel') (Nat.le_max_right ..)]

/-! ## A higher limit -/

/-- The second outcome is the same, or the limit stopped the first run, and then whatever the second
    one comes to has all the lines that were printed until then. -/
def Outlasts (o o' : Outcome RuntimeError α) : Prop :=
  o' = o ∨ ∃ n mid, o = .failed (.callDepth n) mid ∧
    ∀ m', o'.EndsIn m' → mid.journal.lines <+: m'.journal.lines

def Raises (x x' : Eval α) : Prop :=
  ∀ m, Outlasts (x m) (x' m)

theorem Raises.refl (x : Eval α) : Raises x x :=
  fun _ => .inl rfl

/-- Whatever the second run still does after the first one was stopped can only add lines. -/
theorem Raises.bind {x x' : Eval α} {f f' : α → Eval β} (first : Raises x x')
    (next : ∀ value, Raises (f value) (f' value)) (kept : ∀ value, Obeys Machine.Kept (f' value)) :
    Raises (x >>= f) (x' >>= f') := by
  intro m
  simp only [Bind.bind, Eval.bind]
  obtain same | ⟨n, mid, stopped, more⟩ := first m
  · rw [same]
    cases x m with
    | done value mid => exact next value mid
    | failed e mid => exact .inl rfl
    | outOfFuel => exact .inl rfl
  · refine .inr ⟨n, mid, by rw [stopped], fun m' ends => ?_⟩
    cases ran : x' m with
    | done value later =>
        rw [ran] at ends more
        exact (more later rfl).trans (kept value later m' ends).lines
    | failed e later =>
        rw [ran] at ends more
        exact more m' ends
    | outOfFuel =>
        rw [ran] at ends
        exact ends.elim

theorem Outlasts.leaving {o o' : Outcome RuntimeError Signal} (inside : Outlasts o o') :
    Outlasts (leaving o) (leaving o') := by
  obtain rfl | ⟨n, mid, rfl, more⟩ := inside
  · exact .inl rfl
  · refine .inr ⟨n, mid.leave, rfl, fun m' ends => ?_⟩
    obtain ⟨later, reached, rfl⟩ := leaving_endsIn ends
    exact more later reached

theorem Raises.callWith {limit limit' : Nat} (raised : limit ≤ limit')
    {run run' : List Stmt → Eval Signal} (bodies : ∀ body, Raises (run body) (run' body))
    (kept : ∀ body, Obeys Machine.Kept (run' body)) (name : String) (args : List Value) :
    Raises (callWith limit run name args) (callWith limit' run' name args) := by
  intro m
  cases found : m.functions.get? name with
  | none => exact .inl (by simp only [Eval.callWith, found])
  | some f =>
      by_cases reached : limit ≤ m.depth
      · refine .inr ⟨limit, m, by simp only [Eval.callWith, found, reached, if_true], ?_⟩
        intro m' ends
        exact (Machine.Kept.stable.obeys_callWith kept limit' name args m m' ends).lines
      · have free : ¬ limit' ≤ m.depth := fun le => reached (Nat.le_trans raised le)
        simp only [Eval.callWith, found, reached, free, if_false]
        cases f with
        | builtin b => exact .inl rfl
        | user params body =>
            dsimp only
            split
            · exact .inl rfl
            · exact (bodies body _).leaving

/-- A run and a run under a higher limit. -/
def higherLimit {limit limit' : Nat} (raised : limit ≤ limit') : Simulation Unit where
  limit := limit
  limit' := limit'
  Sim := fun _ _ x x' => Raises x x' ∧ Obeys Machine.Kept x'
  Allowed := fun _ _ => True
  Sound := fun _ => True
  pure := fun value => ⟨.refl _, Machine.Kept.stable.obeys_pure value⟩
  fail := fun e => ⟨.refl _, Machine.Kept.stable.obeys_ask fun _ => .error e⟩
  bind := fun first next =>
    ⟨first.1.bind (fun value => (next value).1) fun value => (next value).2,
      Machine.Kept.stable.obeys_bind first.2 fun value => (next value).2⟩
  lookup := fun _ => ⟨.refl _, Machine.Kept.stable.obeys_ask _⟩
  callee := fun _ => ⟨.refl _, Machine.Kept.stable.obeys_ask _⟩
  method := fun _ _ _ => ⟨.refl _, Machine.Kept.stable.obeys_ask _⟩
  assign := fun _ _ => ⟨.refl _, obeys_change fun m => .assign m _ _⟩
  declare := fun _ _ => ⟨.refl _, obeys_change fun m => .declare m _ _⟩
  print := fun _ => ⟨.refl _, obeys_change fun m => Machine.Kept.stable.recordOne m _⟩
  announce := fun _ => ⟨.refl _, obeys_change fun m => Machine.Kept.stable.recordOne m _⟩
  freshTag := ⟨.refl _, Machine.Kept.stable.obeys_freshTag⟩
  call := fun name args bodies =>
    have each := fun body => @bodies () body (fun _ _ => trivial) fun _ _ => trivial
    ⟨.callWith raised (fun body => (each body).1) (fun body => (each body).2) name args,
      Machine.Kept.stable.obeys_callWith (fun body => (each body).2) _ name args⟩

theorem program_raises {limit limit' : Nat} (raised : limit ≤ limit') (fuel : Nat) (p : Program) :
    Raises (program limit fuel p) (program limit' fuel p) := by
  have base : (higherLimit raised).All 0 0 :=
    (higherLimit raised).all_stuck ⟨.refl _, obeys_stuck⟩
  have all := base.more fuel
  rw [Nat.zero_add] at all
  exact ((higherLimit raised).program (i := ()) all (fun _ _ => trivial) fun _ _ => trivial).1

/-- A run that was not stopped by the limit on calls is the same run under a higher limit, and the
    lines of one that was are the first lines of every run under a higher limit. -/
theorem raising_the_limit_keeps_runs {limit limit' : Nat} (raised : limit ≤ limit') {p : Program}
    {m : Machine} {o : Outcome RuntimeError Value} (runs : Runs limit p m o) :
    ((∀ n stopped, o ≠ .failed (.callDepth n) stopped) →
      Runs limit' p m o ∧ ∀ o', Runs limit' p m o' → o' = o) ∧
    (∀ n stopped, o = .failed (.callDepth n) stopped → ∀ o' m', Runs limit' p m o' →
      o'.EndsIn m' → stopped.journal.lines <+: m'.journal.lines) := by
  obtain ⟨fuel, all⟩ := runs.eventually
  constructor
  · intro free
    have same : program limit' fuel p m = o := by
      obtain same | ⟨n, stopped, reached, -⟩ := program_raises raised fuel p m
      · rw [same, all fuel (Nat.le_refl fuel)]
      · exact absurd ((all fuel (Nat.le_refl fuel)).symm.trans reached) (free n stopped)
    have runs' : Runs limit' p m o := ⟨runs.1, fuel, same⟩
    exact ⟨runs', fun o' other => runs'.unique other⟩
  · rintro n stopped rfl o' m' runs' ends
    obtain ⟨fuel', all'⟩ := runs'.eventually
    -- Both runs are looked at with fuel enough for either.
    have here := all (max fuel fuel') (Nat.le_max_left ..)
    have there := all' (max fuel fuel') (Nat.le_max_right ..)
    obtain same | ⟨n', stopped', reached, more⟩ := program_raises raised (max fuel fuel') p m
    · rw [here, there] at same
      subst same
      obtain rfl : stopped = m' := ends
      exact List.prefix_rfl
    · rw [here] at reached
      rw [there] at more
      cases reached
      exact more m' ends

/-- Declares a function that prints a line and then does what is given, and calls it. -/
def printingCall (more : List Stmt) : Program :=
  let named (name : String) : Ident := ⟨name, .origin⟩
  ⟨[.function (named "f") [] (.print (.literal (.string "x")) :: more),
    .expr (.call (.ident (named "f")) [])]⟩

theorem raising_the_limit_keeps_runs_recursion :
    let again : List Stmt := [.expr (.call (.ident ⟨"f", .origin⟩) [])]
    (∃ m, Runs 1 (printingCall []) (.start .lexical) (.done .null m) ∧
      Runs 2 (printingCall []) (.start .lexical) (.done .null m)) ∧
    ∃ m m', Runs 1 (printingCall again) (.start .dynamic) (.failed (.callDepth 1) m) ∧
      Runs 2 (printingCall again) (.start .dynamic) (.failed (.callDepth 2) m') ∧
      m.journal.lines <+: m'.journal.lines := by
  intro again
  obtain ⟨m, ended⟩ : ∃ m, Runs 1 (printingCall []) (.start .lexical) (.done .null m) :=
    ⟨_, nofun, 9, rfl⟩
  obtain ⟨stopped, first⟩ :
      ∃ m, Runs 1 (printingCall again) (.start .dynamic) (.failed (.callDepth 1) m) :=
    ⟨_, nofun, 9, rfl⟩
  obtain ⟨m', second⟩ :
      ∃ m, Runs 2 (printingCall again) (.start .dynamic) (.failed (.callDepth 2) m) :=
    ⟨_, nofun, 19, rfl⟩
  refine ⟨⟨m, ended, ?_⟩, stopped, m', first, second, ?_⟩
  · exact ((raising_the_limit_keeps_runs (by decide) ended).1 nofun).1
  · exact (raising_the_limit_keeps_runs (by decide) first).2 1 stopped rfl _ m' second rfl

end Eval

end MinangScript
