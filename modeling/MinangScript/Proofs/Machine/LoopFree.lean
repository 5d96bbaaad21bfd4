import MinangScript.Proofs.Machine.CallLimit
import MinangScript.Proofs.Machine.Outlook

/-! # Programs without loops

A program without loops can only go on by calling functions, and the calls that may be under way at
a time are limited. The fuel that it needs is therefore bounded by its size and, for every call that
may still be nested, by the size of the largest function that any program of the session declares.
Which functions call which, and which of them take the place of others, does not matter for that.
-/

namespace MinangScript

/-- No statement of the program is a loop, wherever it stands. -/
def Program.LoopFree (p : Program) : Prop :=
  ∀ n ∈ p.nodes, n.isLoop = false

instance (p : Program) : Decidable p.LoopFree :=
  inferInstanceAs (Decidable (∀ n ∈ p.nodes, n.isLoop = false))

/-- Among finitely many nodes one declares the largest function. -/
theorem Node.exists_bound (nodes : List Node) :
    ∃ bound, ∀ {id params body}, Node.stmt (.function id params body) ∈ nodes →
      sizeOf body ≤ bound := by
  induction nodes with
  | nil => exact ⟨0, fun member => absurd member List.not_mem_nil⟩
  | cons n rest ih =>
      obtain ⟨bound, small⟩ := ih
      refine ⟨bound + sizeOf n, fun member => ?_⟩
      obtain rfl | member := List.mem_cons.mp member
      · simp +arith
      · exact Nat.le_add_right_of_le (small member)

namespace Eval

/-- Programs that run one after the other on one machine, each of which comes to an end, with a value
    or with an error. -/
inductive RunsAll (limit : Nat) : List Program → Machine → Machine → Prop where
  | nil {m : Machine} : RunsAll limit [] m m
  | cons {p : Program} {rest : List Program} {m m' last : Machine}
      {o : Outcome RuntimeError Value} :
      Runs limit p m o → o.EndsIn m' → RunsAll limit rest m' last → RunsAll limit (p :: rest) m last

variable {Good : Node → Prop} {bound limit : Nat} {m : Machine}

/-- A program of good code comes to an end, and leaves a machine on which the next one does. -/
theorem exists_run (loopFree : ∀ n, Good n → n.isLoop = false)
    (small : ∀ {id params body}, Good (.stmt (.function id params body)) → sizeOf body ≤ bound)
    {p : Program} (good : ∀ n ∈ p.nodes, Good n) (stocked : m.functions.Stocked Good) :
    ∃ o m', Runs limit p m o ∧ o.EndsIn m' ∧ m'.functions.Stocked Good := by
  obtain ⟨fuel, enough⟩ : ∃ fuel, sizeOf p.body + (limit - m.depth) * (bound + 1) < fuel :=
    ⟨_, Nat.lt_succ_self _⟩
  have covers : Covers Good bound limit m.depth (sizeOf p.body) fuel := ⟨loopFree, small, enough⟩
  have ended : EndedWell Good m.depth (Covers Good bound limit m.depth (sizeOf p.body) fuel)
      (program limit fuel p m) := endsWell_program good m stocked rfl
  cases ran : program limit fuel p m with
  | done value m' =>
      rw [ran] at ended
      exact ⟨.done value m', m', ⟨nofun, fuel, ran⟩, rfl, ended.1⟩
  | failed e m' =>
      rw [ran] at ended
      exact ⟨.failed e m', m', ⟨nofun, fuel, ran⟩, rfl, ended.1.1⟩
  | outOfFuel =>
      rw [ran] at ended
      exact absurd covers ended

theorem exists_runsAll (loopFree : ∀ n, Good n → n.isLoop = false)
    (small : ∀ {id params body}, Good (.stmt (.function id params body)) → sizeOf body ≤ bound)
    {programs : List Program} (good : ∀ p ∈ programs, ∀ n ∈ p.nodes, Good n)
    (stocked : m.functions.Stocked Good) : ∃ last, RunsAll limit programs m last := by
  induction programs generalizing m with
  | nil => exact ⟨m, .nil⟩
  | cons p rest ih =>
      obtain ⟨first, others⟩ := List.forall_mem_cons.mp good
      obtain ⟨o, m', runs, ends, stocked'⟩ := exists_run loopFree small first stocked
      obtain ⟨last, later⟩ := ih others stocked'
      exact ⟨last, .cons runs ends later⟩

/-- Whatever functions they declare and call, programs without loops come to an end one after the
    other, under every limit on calls and either scoping. -/
theorem loop_free_sessions_stop {programs : List Program} (free : ∀ p ∈ programs, p.LoopFree)
    (limit : Nat) (scoping : Scoping) : ∃ last, RunsAll limit programs (.start scoping) last := by
  -- Good is what stands somewhere in the session, so that one bound does for all of it.
  have good : ∀ p ∈ programs, ∀ n ∈ p.nodes, n ∈ programs.flatMap Program.nodes :=
    fun p member n inside => List.mem_flatMap.mpr ⟨p, member, inside⟩
  have loopFree : ∀ n, n ∈ programs.flatMap Program.nodes → n.isLoop = false := by
    intro n inside
    obtain ⟨p, member, inside⟩ := List.mem_flatMap.mp inside
    exact free p member n inside
  obtain ⟨bound, small⟩ := Node.exists_bound (programs.flatMap Program.nodes)
  exact exists_runsAll loopFree small good (Machine.stocked_start scoping)

/-- A function that takes its own place and then calls itself, and two functions that call each
    other in an argument. -/
def endlessCalls : List Program :=
  let named (name : String) : Ident := ⟨name, .origin⟩
  let called (name : String) (args : List Expr) : Expr := .call (.ident (named name)) args
  let shadow : Stmt := .function (named "f") [] [.result (some (called "f" []))]
  [⟨[.function (named "f") [] [shadow, .expr (called "f" [])], .expr (called "f" [])]⟩,
   ⟨[.function (named "g") [named "a"] [.result (some (called "h" [called "f" []]))],
     .function (named "h") [named "b"] [.result (some (called "g" [called "h" [.literal .null]]))],
     .expr (called "g" [.literal .null])]⟩]

theorem loop_free_sessions_stop_endless_calls :
    (∀ p ∈ endlessCalls, p.LoopFree) ∧
      ∃ last, RunsAll 1000 endlessCalls (.start .dynamic) last :=
  have free : ∀ p ∈ endlessCalls, p.LoopFree := by decide
  ⟨free, loop_free_sessions_stop free 1000 .dynamic⟩

end Eval

end MinangScript
