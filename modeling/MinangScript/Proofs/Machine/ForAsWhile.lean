import MinangScript.Proofs.Machine.CallLimit
import MinangScript.Proofs.Machine.Exits

/-! # A for loop as a while loop

A for loop does what a while loop does that has the initializer in front of it and the update at the
end of its body. Both loops go round in the same way, by a condition and what happens in one round;
what differs is that a round of the for loop comes to its update even when its body goes on to the
next round early. So the body must not do that. The two loops end with different values, since the
update is the last statement of the while loop.
-/

namespace MinangScript

/-- Whether the statement declares a variable, evaluates an expression or prints. -/
def Stmt.isSimple : Stmt → Bool
  | .declare _ _ _ | .expr _ | .print _ => true
  | _ => false

/-- The while loop that says the same as a for loop, in a block after the initializer. -/
def Stmt.asWhile (init : Option Stmt) (cond update : Option Expr) (body : List Stmt) : Stmt :=
  .block (init.toList ++
    [.whileLoop (cond.getD (.literal (.bool true))) (body ++ (update.map .expr).toList)])

theorem Stmt.exits_of_isSimple {s : Stmt} (simple : s.isSimple = true) (way : Exit) :
    s.exits way = false := by
  cases s with
  | declare | expr | print => rfl
  | function | conditional | whileLoop | forLoop | result | breakLoop | continueLoop | block =>
      cases simple

theorem Signal.eq_value_of_exit? {signal : Signal} (stays : signal.exit? = none) :
    ∃ v, signal = .value v := by
  cases signal with
  | value v => exact ⟨v, rfl⟩
  | result | breakLoop | continueLoop => cases stays

/-- The same outcome, or two that differ in the value of a statement that came to its end. -/
inductive Outcome.Alike : Outcome RuntimeError Signal → Outcome RuntimeError Signal → Prop where
  | value {v v' : Value} {m : Machine} : Alike (.done (.value v) m) (.done (.value v') m)
  | same {o : Outcome RuntimeError Signal} : Alike o o

theorem Outcome.Alike.trans {a b c : Outcome RuntimeError Signal} (first : a.Alike b)
    (second : b.Alike c) : a.Alike c := by
  cases first with
  | same => exact second
  | value =>
      cases second with
      | value | same => exact .value

namespace Eval

variable {α : Type} {limit fuel fuel' : Nat}

instance : LawfulMonad Eval :=
  .mk' Eval
    (fun x => by
      funext m
      simp only [Functor.map, Eval.bind, Function.comp]
      cases x m <;> rfl)
    (fun _ _ => rfl)
    (fun x f g => by
      funext m
      simp only [Bind.bind, Eval.bind]
      cases x m <;> rfl)

/-! ## The same end but for the value -/

/-- Where the first computation came to an end, the second one comes to the same end, apart from the
    value of a statement that came to its end. -/
def GoesAlike (x x' : Eval Signal) : Prop :=
  ∀ m, x m = .outOfFuel ∨ (x m).Alike (x' m)

theorem GoesOn.alike {x x' : Eval Signal} (goesOn : GoesOn x x') : GoesAlike x x' := by
  intro m
  obtain gaveUp | same := goesOn m
  · exact .inl gaveUp
  · exact .inr (same ▸ .same)

theorem goesAlike_stuck (x : Eval Signal) : GoesAlike stuck x :=
  fun _ => .inl rfl

theorem goesAlike_value (v v' : Value) : GoesAlike (pure (.value v)) (pure (.value v')) :=
  fun _ => .inr .value

theorem GoesAlike.trans {x y z : Eval Signal} (first : GoesAlike x y) (second : GoesAlike y z) :
    GoesAlike x z := by
  intro m
  obtain gaveUp | alike := first m
  · exact .inl gaveUp
  obtain gaveUp | alike' := second m
  · rw [gaveUp] at alike
    generalize x m = o at alike ⊢
    cases alike with
    | same => exact .inl rfl
  · exact .inr (alike.trans alike')

/-- What follows has to go alike for those values only that the first computation comes to. -/
theorem GoesOn.bindAlike {x x' : Eval α} {f f' : α → Eval Signal} (first : GoesOn x x')
    (next : ∀ value m m', x m = .done value m' → GoesAlike (f value) (f' value)) :
    GoesAlike (x >>= f) (x' >>= f') := by
  intro m
  simp only [Bind.bind, Eval.bind]
  obtain gaveUp | same := first m
  · exact .inl (by rw [gaveUp])
  rw [same]
  cases ran : x m with
  | done value mid => exact next value m mid ran mid
  | failed e mid => exact .inr .same
  | outOfFuel => exact .inl rfl

theorem GoesAlike.bind {x x' : Eval Signal} {f f' : Signal → Eval Signal} (first : GoesAlike x x')
    (values : ∀ v v', GoesAlike (f (.value v)) (f' (.value v')))
    (same : ∀ signal, GoesAlike (f signal) (f' signal)) : GoesAlike (x >>= f) (x' >>= f') := by
  intro m
  simp only [Bind.bind, Eval.bind]
  obtain gaveUp | alike := first m
  · exact .inl (by rw [gaveUp])
  generalize x m = o at alike ⊢
  generalize x' m = o' at alike ⊢
  cases alike with
  | @value v v' mid => exact values v v' mid
  | same =>
      cases o with
      | done signal mid => exact same signal mid
      | failed e mid => exact .inr .same
      | outOfFuel => exact .inl rfl

/-! ## One statement after the other -/

/-- Goes on after a statement that came to its end. -/
def andThen (next : Value → Eval Signal) : Signal → Eval Signal
  | .value v => next v
  | signal => pure signal

theorem block_cons (limit fuel : Nat) (s : Stmt) (rest : List Stmt) (last : Value) :
    block limit (fuel + 1) (s :: rest) last =
      stmt limit fuel s >>= andThen (block limit fuel rest) := by
  refine bind_congr fun signal => ?_
  cases signal <;> rfl

theorem block_single (limit fuel : Nat) (s : Stmt) (last : Value) :
    block limit (fuel + 2) [s] last = stmt limit (fuel + 1) s := by
  have ends (signal : Signal) : andThen (block limit (fuel + 1) []) signal = pure signal := by
    cases signal <;> rfl
  rw [block_cons, funext ends, bind_pure]

theorem block_single_goesOn (limit fuel : Nat) (s : Stmt) (last : Value) :
    GoesOn (block limit fuel [s] last) (stmt limit fuel s) := by
  match fuel with
  | 0 | 1 => exact fun _ => .inl rfl
  | fuel + 2 =>
      rw [block_single]
      exact stmt_goesOn (Nat.le_succ _) limit s

theorem block_goesOn (le : fuel ≤ fuel') (limit : Nat) (body : List Stmt) (last : Value) :
    GoesOn (block limit fuel body last) (block limit fuel' body last) :=
  (moreFuel_all le limit).block (i := ()) last (fun _ _ => trivial) fun _ _ => trivial

theorem GoesOn.andThen {next next' : Value → Eval Signal} (all : ∀ v, GoesOn (next v) (next' v))
    (signal : Signal) : GoesOn (andThen next signal) (andThen next' signal) := by
  cases signal with
  | value v => exact all v
  | result | breakLoop | continueLoop => exact .refl _

theorem GoesOn.trans {x y z : Eval α} (first : GoesOn x y) (second : GoesOn y z) : GoesOn x z := by
  intro m
  obtain gaveUp | same := first m
  · exact .inl gaveUp
  obtain gaveUp | same' := second m
  · exact .inl (same ▸ gaveUp)
  · exact .inr (same'.trans same)

theorem andThen_andThen (next after : Value → Eval Signal) (signal : Signal) :
    (Eval.andThen next signal >>= Eval.andThen after) =
      Eval.andThen (fun v => next v >>= Eval.andThen after) signal := by
  cases signal <;> rfl

/-- A longer body runs its first part and then the rest, -/
theorem block_append_goesOn (limit fuel : Nat) (body more : List Stmt) (last : Value) :
    GoesOn (block limit fuel (body ++ more) last)
      (block limit fuel body last >>= andThen (block limit fuel more)) := by
  induction body generalizing fuel last with
  | nil =>
      cases fuel with
      | zero => exact fun _ => .inl rfl
      | succ fuel => exact .refl _
  | cons s rest ih =>
      cases fuel with
      | zero => exact fun _ => .inl rfl
      | succ fuel =>
          rw [List.cons_append, block_cons, block_cons, bind_assoc]
          refine (GoesOn.refl _).bind fun signal => ?_
          rw [andThen_andThen]
          refine GoesOn.andThen (fun v => (ih fuel v).trans ?_) signal
          exact (GoesOn.refl _).bind (.andThen (block_goesOn (Nat.le_succ fuel) limit more))

/-- and the other way round. -/
theorem goesOn_block_append (limit fuel fuel' : Nat) (body more : List Stmt) (last : Value) :
    GoesOn (block limit fuel body last >>= andThen (block limit fuel' more))
      (block limit (fuel + fuel') (body ++ more) last) := by
  induction body generalizing fuel last with
  | nil =>
      cases fuel with
      | zero => exact fun _ => .inl rfl
      | succ fuel => exact block_goesOn (Nat.le_add_left ..) limit more last
  | cons s rest ih =>
      cases fuel with
      | zero => exact fun _ => .inl rfl
      | succ fuel =>
          rw [List.cons_append, Nat.succ_add, block_cons, block_cons, bind_assoc]
          refine (stmt_goesOn (Nat.le_add_right ..) limit s).bind fun signal => ?_
          rw [andThen_andThen]
          exact GoesOn.andThen (ih fuel) signal

/-! ## Going round -/

/-- One turn of a loop, and all later ones: as long as the guard holds, one round after another. -/
def turn (guard : Eval Bool) (round : Eval Signal) (again : Value → Eval Signal) (last : Value) :
    Eval Signal := do
  if ← guard then
    match ← round with
    | .breakLoop => pure (.value last)
    | .result v => pure (.result v)
    | .continueLoop => again last
    | .value v => again v
  else pure (.value last)

/-- One round of a for loop: its body, and then the update, unless the body leaves the loop. -/
def forRound (limit fuel : Nat) (update : Option Expr) (body : List Stmt) : Eval Signal := do
  match ← block limit fuel body .null with
  | .breakLoop => pure .breakLoop
  | .result v => pure (.result v)
  | .continueLoop => do
    let _ ← optional limit fuel update
    pure .continueLoop
  | .value v => do
    let _ ← optional limit fuel update
    pure (.value v)

theorem whileLoop_succ (limit fuel : Nat) (cond : Expr) (body : List Stmt) (last : Value) :
    whileLoop limit (fuel + 1) cond body last =
      turn (Value.truthy <$> expr limit fuel cond) (block limit fuel body .null)
        (whileLoop limit fuel cond body) last := by
  simp only [turn, map_eq_pure_bind, bind_assoc, pure_bind]
  rfl

theorem forLoop_succ (limit fuel : Nat) (cond update : Option Expr) (body : List Stmt)
    (last : Value) :
    forLoop limit (fuel + 1) cond update body last =
      turn (condition limit fuel cond) (forRound limit fuel update body)
        (forLoop limit fuel cond update body) last := by
  refine bind_congr fun holds => ?_
  cases holds with
  | false => rfl
  | true =>
      simp only [if_true, forRound, bind_assoc]
      refine bind_congr fun signal => ?_
      cases signal with
      | breakLoop | result => rfl
      | continueLoop | value => simp only [bind_assoc, pure_bind]

theorem turn_goesAlike {guard guard' : Eval Bool} {round round' : Eval Signal}
    {again again' : Value → Eval Signal} (guards : GoesOn guard guard')
    (rounds : GoesAlike round round') (later : ∀ v v', GoesAlike (again v) (again' v'))
    (last last' : Value) :
    GoesAlike (turn guard round again last) (turn guard' round' again' last') := by
  refine guards.bindAlike fun holds _ _ _ => ?_
  cases holds with
  | false => exact goesAlike_value last last'
  | true =>
      refine rounds.bind later fun signal => ?_
      cases signal with
      | breakLoop => exact goesAlike_value last last'
      | result v => exact (GoesOn.refl _).alike
      | continueLoop => exact later last last'
      | value v => exact later v v

/-! ## The parts of the two loops -/

section Loops

variable {init : Option Stmt} {cond update : Option Expr} {body : List Stmt}

theorem GoesOn.map {β : Type} {x x' : Eval α} (goesOn : GoesOn x x') (f : α → β) :
    GoesOn (f <$> x) (f <$> x') :=
  GoesOn.bind goesOn fun _ => .refl _

theorem condition_goesOn (limit fuel : Nat) (cond : Option Expr) :
    GoesOn (condition limit fuel cond)
      (Value.truthy <$> expr limit fuel (cond.getD (.literal (.bool true)))) := by
  cases fuel with
  | zero => exact fun _ => .inl rfl
  | succ fuel =>
      cases cond with
      | none => exact .refl _
      | some e => exact (expr_goesOn (Nat.le_succ fuel) limit e).map Value.truthy

theorem goesOn_condition (limit fuel : Nat) (cond : Option Expr) :
    GoesOn (Value.truthy <$> expr limit fuel (cond.getD (.literal (.bool true))))
      (condition limit (fuel + 1) cond) := by
  cases cond with
  | none =>
      cases fuel with
      | zero => exact fun _ => .inl rfl
      | succ fuel => exact .refl _
  | some e => exact .refl _

/-- Evaluates the update of a for loop, after a body with the value `v`. -/
def updated (limit fuel : Nat) (update : Option Expr) (v : Value) : Eval Signal := do
  let _ ← optional limit fuel update
  pure (.value v)

theorem updated_goesAlike (limit fuel : Nat) (update : Option Expr) (v v' : Value) :
    GoesAlike (updated limit fuel update v)
      (block limit (fuel + 2) (update.map .expr).toList v') := by
  cases fuel with
  | zero => exact goesAlike_stuck _
  | succ fuel =>
      cases update with
      | none => exact goesAlike_value v v'
      | some e =>
          rw [Option.map_some, Option.toList_some, block_single]
          refine (expr_goesOn (Nat.le_succ fuel) limit e).bindAlike fun w _ _ _ => ?_
          exact goesAlike_value v w

theorem goesAlike_updated (limit fuel : Nat) (update : Option Expr) (v v' : Value) :
    GoesAlike (block limit fuel (update.map .expr).toList v) (updated limit (fuel + 1) update v') := by
  cases update with
  | none =>
      cases fuel with
      | zero => exact goesAlike_stuck _
      | succ fuel => exact goesAlike_value v v'
  | some e =>
      refine (block_single_goesOn limit fuel (.expr e) v).alike.trans ?_
      cases fuel with
      | zero => exact goesAlike_stuck _
      | succ fuel =>
          refine (expr_goesOn (Nat.le_succ fuel) limit e).bindAlike fun w _ _ _ => ?_
          exact goesAlike_value w v'

/-- The body does not go on to the next round early. -/
theorem not_continueLoop (noContinue : Stmt.exitsEach .continueLoop body = false) {last : Value}
    {m m' : Machine} : block limit fuel body last m ≠ .done .continueLoop m' := by
  intro ended
  have written := (exitsAsWritten limit fuel).block body last m m' .continueLoop ended
  have inside : Stmt.exitsEach .continueLoop body = true := written .continueLoop rfl
  rw [noContinue] at inside
  cases inside

theorem forRound_goesAlike (noContinue : Stmt.exitsEach .continueLoop body = false)
    (limit fuel : Nat) (update : Option Expr) :
    GoesAlike (forRound limit fuel update body)
      (block limit (fuel + (fuel + 2)) (body ++ (update.map .expr).toList) .null) := by
  refine GoesAlike.trans ?_ (goesOn_block_append limit fuel (fuel + 2) body _ .null).alike
  refine (GoesOn.refl _).bindAlike fun signal m m' ended => ?_
  cases signal with
  | breakLoop | result => exact (GoesOn.refl _).alike
  | continueLoop => exact absurd ended (not_continueLoop noContinue)
  | value v => exact updated_goesAlike limit fuel update v v

theorem goesAlike_forRound (noContinue : Stmt.exitsEach .continueLoop body = false)
    (limit fuel : Nat) (update : Option Expr) :
    GoesAlike (block limit fuel (body ++ (update.map .expr).toList) .null)
      (forRound limit (fuel + 1) update body) := by
  refine (block_append_goesOn limit fuel body _ .null).alike.trans ?_
  refine (block_goesOn (Nat.le_succ fuel) limit body .null).bindAlike fun signal m m' ended => ?_
  cases signal with
  | breakLoop | result => exact (GoesOn.refl _).alike
  | continueLoop => exact absurd ended (not_continueLoop noContinue)
  | value v => exact goesAlike_updated limit fuel update v v

/-! ## The loops -/

theorem whileLoop_goesOn (le : fuel ≤ fuel') (limit : Nat) (cond : Expr) (body : List Stmt)
    (last : Value) :
    GoesOn (whileLoop limit fuel cond body last) (whileLoop limit fuel' cond body last) :=
  (moreFuel_all le limit).whileLoop (i := ()) last (fun _ _ => trivial) (fun _ _ => trivial)
    fun _ _ => trivial

/-- The while loop uses up more fuel in each round, for the update is a statement of its own. -/
theorem forLoop_goesAlike (noContinue : Stmt.exitsEach .continueLoop body = false)
    (limit fuel : Nat) (cond update : Option Expr) (last last' : Value) :
    GoesAlike (forLoop limit fuel cond update body last)
      (whileLoop limit (fuel + (fuel + 2)) (cond.getD (.literal (.bool true)))
        (body ++ (update.map .expr).toList) last') := by
  induction fuel generalizing last last' with
  | zero => exact goesAlike_stuck _
  | succ fuel ih =>
      rw [show fuel + 1 + (fuel + 1 + 2) = fuel + (fuel + 2) + 1 + 1 by omega]
      rw [forLoop_succ, whileLoop_succ]
      refine turn_goesAlike ?_ ?_ (fun v v' => ?_) last last'
      · exact (condition_goesOn limit fuel cond).trans ((expr_goesOn (by omega) limit _).map _)
      · refine (forRound_goesAlike noContinue limit fuel update).trans ?_
        exact (block_goesOn (Nat.le_succ _) limit _ .null).alike
      · exact (ih v v').trans (whileLoop_goesOn (Nat.le_succ _) limit _ _ v').alike

theorem whileLoop_goesAlike (noContinue : Stmt.exitsEach .continueLoop body = false)
    (limit fuel : Nat) (cond update : Option Expr) (last last' : Value) :
    GoesAlike
      (whileLoop limit fuel (cond.getD (.literal (.bool true)))
        (body ++ (update.map .expr).toList) last)
      (forLoop limit (fuel + 1) cond update body last') := by
  induction fuel generalizing last last' with
  | zero => exact goesAlike_stuck _
  | succ fuel ih =>
      rw [whileLoop_succ, forLoop_succ]
      exact turn_goesAlike (goesOn_condition limit fuel cond)
        (goesAlike_forRound noContinue limit fuel update) ih last last'

end Loops

/-! ## The statements -/

theorem initializer_goesOn (limit fuel : Nat) (init : Option Stmt) :
    GoesOn (initializer limit fuel init) (block limit (fuel + 1) init.toList .null) := by
  cases fuel with
  | zero => exact fun _ => .inl rfl
  | succ fuel =>
      cases init with
      | none => exact .refl _
      | some s =>
          rw [Option.toList_some, block_single]
          exact stmt_goesOn (Nat.le_succ fuel) limit s

theorem goesOn_initializer (limit fuel : Nat) (init : Option Stmt) :
    GoesOn (block limit fuel init.toList .null) (initializer limit fuel init) := by
  match fuel, init with
  | 0, _ | 1, some s => exact fun _ => .inl rfl
  | fuel + 1, none => exact .refl _
  | fuel + 2, some s =>
      rw [Option.toList_some, block_single]
      exact .refl _

/-- A simple initializer comes to its end. -/
theorem initializer_value {init : Option Stmt} (simple : ∀ s ∈ init, s.isSimple = true)
    {m m' : Machine} {signal : Signal} (ended : initializer limit fuel init m = .done signal m') :
    ∃ v, signal = .value v := by
  have written := (exitsAsWritten limit fuel).initializer init m m' signal ended
  refine Signal.eq_value_of_exit? (Option.eq_none_iff_forall_not_mem.mpr fun way taken => ?_)
  have inside : Stmt.exitsOptional way init = true := written way taken
  cases init with
  | none => cases inside
  | some s =>
      rw [Stmt.exitsOptional, Stmt.exits_of_isSimple (simple s rfl) way] at inside
      cases inside

/-- Some fuel is enough for the while loop to do what the for loop did, -/
theorem forLoop_asWhile {init : Option Stmt} {cond update : Option Expr} {body : List Stmt}
    (simple : ∀ s ∈ init, s.isSimple = true)
    (noContinue : Stmt.exitsEach .continueLoop body = false) (limit fuel : Nat) :
    ∃ fuel', GoesAlike (stmt limit fuel (.forLoop init cond update body))
      (stmt limit fuel' (.asWhile init cond update body)) := by
  cases fuel with
  | zero => exact ⟨0, goesAlike_stuck _⟩
  | succ fuel =>
      refine ⟨(fuel + 1) + (fuel + (fuel + 2) + 2) + 1, GoesAlike.trans ?_
        (goesOn_block_append limit (fuel + 1) _ init.toList [.whileLoop _ _] .null).alike⟩
      refine (initializer_goesOn limit fuel init).bindAlike fun signal m m' ended => ?_
      obtain ⟨v, rfl⟩ := initializer_value simple ended
      rw [funext (block_single limit _ _)]
      exact forLoop_goesAlike noContinue limit fuel cond update .null .null

/-- and no more than it took the while loop is enough for the for loop. -/
theorem asWhile_forLoop {init : Option Stmt} {cond update : Option Expr} {body : List Stmt}
    (simple : ∀ s ∈ init, s.isSimple = true)
    (noContinue : Stmt.exitsEach .continueLoop body = false) (limit fuel : Nat) :
    GoesAlike (stmt limit fuel (.asWhile init cond update body))
      (stmt limit fuel (.forLoop init cond update body)) := by
  cases fuel with
  | zero => exact goesAlike_stuck _
  | succ fuel =>
      refine (block_append_goesOn limit fuel init.toList _ .null).alike.trans ?_
      have opens := goesOn_initializer limit fuel init
      refine opens.bindAlike fun signal m m' ended => ?_
      obtain ⟨v, rfl⟩ : ∃ v, signal = .value v := by
        obtain gaveUp | same := opens m
        · rw [gaveUp] at ended
          cases ended
        · exact initializer_value simple (same.trans ended)
      refine (block_single_goesOn limit fuel _ v).alike.trans ?_
      cases fuel with
      | zero => exact goesAlike_stuck _
      | succ fuel => exact whileLoop_goesAlike noContinue limit fuel cond update .null .null

/-- A statement comes to an end, whatever fuel that takes. -/
def Finishes (limit : Nat) (s : Stmt) (m : Machine) (o : Outcome RuntimeError Signal) : Prop :=
  o ≠ .outOfFuel ∧ ∃ fuel, stmt limit fuel s m = o

/-- Where the one statement does with some fuel what the other did, it comes to the same ends. -/
theorem Finishes.alike {limit : Nat} {s s' : Stmt} {m : Machine} {o : Outcome RuntimeError Signal}
    (follows : ∀ fuel, ∃ fuel', GoesAlike (stmt limit fuel s) (stmt limit fuel' s'))
    (finishes : Finishes limit s m o) : ∃ o', Finishes limit s' m o' ∧ o.Alike o' := by
  obtain ⟨ended, fuel, rfl⟩ := finishes
  obtain ⟨fuel', goes⟩ := follows fuel
  obtain gaveUp | alike := goes m
  · exact absurd gaveUp ended
  · refine ⟨_, ⟨fun gaveUp => ?_, fuel', rfl⟩, alike⟩
    rw [gaveUp] at alike
    generalize stmt limit fuel s m = o at alike ended
    cases alike with
    | same => exact ended rfl

/-- A for loop with a simple initializer, and with nothing in its body that goes on to the next round
    early, comes to an end if and only if its while loop does. The machine is the same then, and so
    is the error or the result; only the value of a loop that came to its end may be another. -/
theorem for_loops_are_while_loops {init : Option Stmt} {cond update : Option Expr}
    {body : List Stmt} (simple : ∀ s ∈ init, s.isSimple = true)
    (noContinue : Stmt.exitsEach .continueLoop body = false) (limit : Nat) (m : Machine) :
    (∀ o, Finishes limit (.forLoop init cond update body) m o →
      ∃ o', Finishes limit (.asWhile init cond update body) m o' ∧ o.Alike o') ∧
    ∀ o', Finishes limit (.asWhile init cond update body) m o' →
      ∃ o, Finishes limit (.forLoop init cond update body) m o ∧ o'.Alike o := by
  constructor
  · intro o finishes
    exact finishes.alike (forLoop_asWhile simple noContinue limit)
  · intro o' finishes
    exact finishes.alike fun fuel => ⟨fuel, asWhile_forLoop simple noContinue limit fuel⟩

/-- Spells longer and longer words until one of them is long enough, with a loop inside of the loop
    that goes on to its own next round. -/
theorem for_loops_are_while_loops_spelling :
    let i : Ident := ⟨"i", .origin⟩
    let word (text : String) : Expr := .literal (.string text)
    let init : Option Stmt := some (.declare .letDecl i (some (word "")))
    let update : Option Expr := some (.assign i (.binary (.ident i) .add (word "x")))
    let body : List Stmt :=
      [.whileLoop (.binary (.ident i) .eq (word ""))
        [.expr (.assign i (word "x")), .conditional (.ident i) [.continueLoop] none],
       .print (.ident i),
       .conditional (.binary (.ident i) .eq (word "xxx")) [.breakLoop] none]
    (∀ s ∈ init, s.isSimple = true) ∧ Stmt.exitsEach .continueLoop body = false ∧
      ∃ m v, Finishes 5 (.forLoop init none update body) (.start .lexical) (.done (.value .null) m) ∧
        Finishes 5 (.asWhile init none update body) (.start .lexical) (.done (.value v) m) := by
  intro i word init update body
  have simple : ∀ s ∈ init, s.isSimple = true := by simp [init, Stmt.isSimple]
  have noContinue : Stmt.exitsEach .continueLoop body = false := rfl
  obtain ⟨m, ended⟩ : ∃ m, Finishes 5 (.forLoop init none update body) (.start .lexical)
      (.done (.value .null) m) := ⟨_, nofun, 19, rfl⟩
  obtain ⟨o, ended', alike⟩ := (for_loops_are_while_loops simple noContinue 5 _).1 _ ended
  cases alike with
  | value => exact ⟨simple, noContinue, m, _, ended, ended'⟩
  | same => exact ⟨simple, noContinue, m, _, ended, ended'⟩

end Eval

end MinangScript
