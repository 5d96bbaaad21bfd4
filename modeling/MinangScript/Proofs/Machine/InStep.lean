import MinangScript.Proofs.Machine.Moments

/-! # Calls and frames in step

The count of calls and the stack of frames are changed at different times: a call is counted before
its function is looked at, and its frame is opened only when the body of a function is about to run.
They agree nevertheless whenever anything is evaluated, and the count never passes the limit, so that
it can be raised and lowered without running over.
-/

namespace MinangScript

namespace Traced

variable {α : Type} {S : Stock} {limit fuel : Nat}

/-- The run with a trace is the run without one. At each of its moments calls and frames are in step
    within the limit, and a call is refused exactly if it should be; it is such a refusal, and nothing
    else, that stops the run for too many calls. -/
structure InStepThroughout (limit : Nat) (r : Outcome RuntimeError α × List Moment)
    (o : Outcome RuntimeError α) : Prop where
  same : r.1 = o
  inStep : ∀ moment ∈ r.2, moment.InStep limit
  judged : ∀ moment ∈ r.2, moment.Judged limit
  stopped : ∀ l, (∃ m, o = .failed (.callDepth l) m) ↔ l = limit ∧ Refusal r.2

theorem Shown.inStepThroughout {Ends : Machine → Prop} {r : Outcome RuntimeError α × List Moment}
    {o : Outcome RuntimeError α} (shown : Shown S limit Ends r o) : InStepThroughout limit r o where
  same := shown.same
  inStep := fun moment member => (shown.sound moment member).inStep
  judged := fun moment member => (shown.sound moment member).judged
  stopped := shown.stopped

/-- A call does nothing but fail for too many calls exactly if its function exists and the limit is
    reached. -/
theorem call_refused_iff {m : Machine} (within : m.depth ≤ limit) (name : String)
    (args : List Value) :
    call limit (fuel + 1) name args m =
        (.failed (.callDepth limit) m, [.called name .refused m]) ↔
      m.functions.has name = true ∧ m.depth = limit := by
  simp only [call, callWith, Bindings.has]
  cases m.functions.get? name with
  | none => simp
  | some f =>
      dsimp only
      split
      · rename_i full
        exact iff_of_true rfl ⟨rfl, Nat.le_antisymm within full⟩
      · rename_i free
        refine iff_of_false (fun refused => ?_) fun reached => free (Nat.le_of_eq reached.2.symm)
        have moments := congrArg (·.2) refused
        simp [counting_moments] at moments

/-- In every run that begins outside of all calls, calls and frames are in step within the limit at
    every moment, and a call is refused for the limit exactly if its function exists and as many calls
    are counted as the limit allows; then nothing of it runs and no frame is opened for it. -/
theorem calls_and_frames_in_step {m : Machine} (noCalls : m.depth = 0)
    (noFrames : m.env.frames = []) (limit fuel : Nat) :
    (∀ p, InStepThroughout limit (program limit fuel p m) (Eval.program limit fuel p m)) ∧
    (∀ name args,
      InStepThroughout limit (call limit fuel name args m) (Eval.call limit fuel name args m)) ∧
    ∀ name args m', m'.depth ≤ limit →
      (call limit (fuel + 1) name args m' =
          (.failed (.callDepth limit) m', [.called name .refused m']) ↔
        m'.functions.has name = true ∧ m'.depth = limit) := by
  have steady : m.Steady .any limit 0 0 := ⟨trivial, noCalls, by rw [noFrames]; rfl, Nat.zero_le _⟩
  refine ⟨fun p => ?_, fun name args => ?_, fun name args m' within => ?_⟩
  · exact (shows_program (fun _ _ => trivial) m steady).inStepThroughout
  · exact ((allShow .any limit fuel).call name args m steady).inStepThroughout
  · exact call_refused_iff within name args

/-- Declares a function that prints what it calls itself for, and calls it. -/
def endlessPrinting : Program :=
  let named (name : String) : Ident := ⟨name, .origin⟩
  let again : Expr := .call (.ident (named "f")) []
  ⟨[.function (named "f") [] [.expr (.call (.ident (named "tampilkan")) [again])], .expr again]⟩

/-- With a limit of two, the third call is refused. By then two calls are counted and have their frames;
    when the second is about to be taken from the count, its frame is closed already. -/
theorem calls_and_frames_in_step_endless_printing :
    let m := Machine.start .dynamic
    let r := program 2 20 endlessPrinting m
    m.depth = 0 ∧ m.env.frames = [] ∧ InStepThroughout 2 r (Eval.program 2 20 endlessPrinting m) ∧
      (∃ m', r.1 = .failed (.callDepth 2) m') ∧ Refusal r.2 ∧
      (∃ body inside, .evaluating (.stmt body) inside ∈ r.2 ∧
        inside.depth = 2 ∧ inside.env.frames.length = 2) ∧
      (∃ inside, .entered inside ∈ r.2 ∧ inside.depth = 2 ∧ inside.env.frames.length = 2) ∧
      (∃ left, .closing left ∈ r.2 ∧ left.depth = 2 ∧ left.env.frames.length = 1) ∧
      call 0 1 "cetak" [] m = (.failed (.callDepth 0) m, [.called "cetak" .refused m]) := by
  intro m r
  obtain ⟨programs, -, -⟩ := calls_and_frames_in_step (m := m) rfl rfl 2 20
  obtain ⟨-, -, refused⟩ := calls_and_frames_in_step (m := m) rfl rfl 0 0
  have throughout := programs endlessPrinting
  obtain ⟨m', failed⟩ : ∃ m', Eval.program 2 20 endlessPrinting m = .failed (.callDepth 2) m' :=
    ⟨_, rfl⟩
  refine ⟨rfl, rfl, throughout, ⟨m', throughout.same.trans failed⟩, ?_, ?_, ?_, ?_, ?_⟩
  · exact ((throughout.stopped 2).mp ⟨m', failed⟩).2
  · obtain ⟨body, inside, member, counted⟩ :
        ∃ body inside, .evaluating (.stmt body) inside ∈ r.2 ∧ inside.depth = 2 :=
      ⟨_, _, List.mem_of_getElem? (i := 12) rfl, rfl⟩
    exact ⟨body, inside, member, counted, (throughout.inStep _ member).1.trans counted⟩
  · obtain ⟨inside, member, counted⟩ : ∃ inside, .entered inside ∈ r.2 ∧ inside.depth = 2 :=
      ⟨_, List.mem_of_getElem? (i := 11) rfl, rfl⟩
    exact ⟨inside, member, counted, (throughout.inStep _ member).1.trans counted⟩
  · obtain ⟨left, member, counted⟩ : ∃ left, .closing left ∈ r.2 ∧ left.depth = 2 :=
      ⟨_, List.mem_of_getElem? (i := 16) rfl, rfl⟩
    exact ⟨left, member, counted, Nat.succ.inj ((throughout.inStep _ member).1.trans counted)⟩
  · exact (refused "cetak" [] m (Nat.le_refl 0)).mpr ⟨rfl, rfl⟩

end Traced

end MinangScript
