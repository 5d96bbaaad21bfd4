import MinangScript.Machine.Evaluator

/-! # Ways out of a statement

A statement that does not end with a value is on its way out of a function or of a loop. Which ways
out there are can be read off the text: somewhere in the statement the word for it has to stand, and
no loop that would answer to it may stand around that word, nor a function.
-/

namespace MinangScript

/-- A way out of a statement other than past its end. -/
inductive Exit where
  | result
  | breakLoop
  | continueLoop
  deriving Repr, DecidableEq

/-- The way out that a signal takes, if it takes one. -/
def Signal.exit? : Signal → Option Exit
  | value _ => none
  | result _ => some .result
  | breakLoop => some .breakLoop
  | continueLoop => some .continueLoop

namespace Stmt

mutual

/-- Whether the way out is written in a statement, outside of the functions it declares and, unless
it leads out of a function, outside of the loops in it. -/
def exits (way : Exit) : Stmt → Bool
  | conditional _ body other => exitsEach way body || exitsOptional way other
  | whileLoop _ body => way == .result && exitsEach way body
  | forLoop init _ _ body => way == .result && (exitsOptional way init || exitsEach way body)
  | result _ => way == .result
  | breakLoop => way == .breakLoop
  | continueLoop => way == .continueLoop
  | block body => exitsEach way body
  | declare _ _ _ | function _ _ _ | print _ | expr _ => false

def exitsEach (way : Exit) : List Stmt → Bool
  | [] => false
  | s :: rest => s.exits way || exitsEach way rest

def exitsOptional (way : Exit) : Option Stmt → Bool
  | none => false
  | some s => s.exits way

end

end Stmt

namespace Eval

variable {α : Type} {limit fuel : Nat} {ways before : Exit → Prop}

/-- Where the computation ends with a signal, that is a value or takes one of the ways out. -/
def OnlyExits (ways : Exit → Prop) (x : Eval Signal) : Prop :=
  ∀ m m' signal, x m = .done signal m' → ∀ way ∈ signal.exit?, ways way

/-- A sequence that ended went through the end of its first part. -/
theorem bind_done {β : Type} {x : Eval α} {f : α → Eval β} {value : β} {m m' : Machine}
    (ended : (x >>= f) m = .done value m') :
    ∃ first mid, x m = .done first mid ∧ f first mid = .done value m' := by
  simp only [Bind.bind, Eval.bind] at ended
  cases ran : x m with
  | done first mid =>
      rw [ran] at ended
      exact ⟨first, mid, rfl, ended⟩
  | failed e mid =>
      rw [ran] at ended
      cases ended
  | outOfFuel =>
      rw [ran] at ended
      cases ended

theorem onlyExits_pure {signal : Signal} (allowed : ∀ way ∈ signal.exit?, ways way) :
    OnlyExits ways (pure signal) := by
  intro m m' signal' ended
  cases ended
  exact allowed

theorem onlyExits_value (v : Value) : OnlyExits ways (pure (.value v)) :=
  onlyExits_pure nofun

theorem OnlyExits.after (x : Eval α) {f : α → Eval Signal} (next : ∀ a, OnlyExits ways (f a)) :
    OnlyExits ways (x >>= f) := by
  intro m m' signal ended
  obtain ⟨a, mid, -, ended⟩ := bind_done ended
  exact next a mid m' signal ended

/-- What comes after a signal has to deal with those only that the first part can end with. -/
theorem OnlyExits.bind {x : Eval Signal} {f : Signal → Eval Signal} (first : OnlyExits before x)
    (next : ∀ signal, (∀ way ∈ signal.exit?, before way) → OnlyExits ways (f signal)) :
    OnlyExits ways (x >>= f) := by
  intro m m' signal ended
  obtain ⟨signal', mid, ran, ended⟩ := bind_done ended
  exact next signal' (first m mid signal' ran) mid m' signal ended

theorem OnlyExits.mono {x : Eval Signal} (exits : OnlyExits before x)
    (weaker : ∀ way, before way → ways way) : OnlyExits ways x :=
  fun m m' signal ended way taken => weaker way (exits m m' signal ended way taken)

/-- With this much fuel, code leaves by the ways out only that are written in it. -/
structure ExitsAsWritten (limit fuel : Nat) : Prop where
  block : ∀ body last, OnlyExits (Stmt.exitsEach · body) (block limit fuel body last)
  stmt : ∀ s, OnlyExits (Stmt.exits · s) (stmt limit fuel s)
  initializer : ∀ init, OnlyExits (Stmt.exitsOptional · init) (initializer limit fuel init)
  whileLoop : ∀ cond body last,
    OnlyExits (Stmt.exits · (.whileLoop cond body)) (whileLoop limit fuel cond body last)
  forLoop : ∀ init cond update body last,
    OnlyExits (Stmt.exits · (.forLoop init cond update body))
      (forLoop limit fuel cond update body last)

namespace ExitsAsWritten

theorem block_step (ih : ExitsAsWritten limit fuel) (body : List Stmt) (last : Value) :
    OnlyExits (Stmt.exitsEach · body) (Eval.block limit (fuel + 1) body last) := by
  cases body with
  | nil => exact onlyExits_value last
  | cons s rest =>
      refine (ih.stmt s).bind fun signal written => ?_
      cases signal with
      | value v =>
          refine (ih.block rest v).mono fun way inside => ?_
          rw [Stmt.exitsEach, inside, Bool.or_true]
      | result | breakLoop | continueLoop =>
          refine onlyExits_pure fun way taken => ?_
          rw [Stmt.exitsEach, written way taken, Bool.true_or]

theorem stmt_step (ih : ExitsAsWritten limit fuel) (s : Stmt) :
    OnlyExits (Stmt.exits · s) (Eval.stmt limit (fuel + 1) s) := by
  cases s with
  | declare kind name init => exact .after _ fun v => .after _ fun _ => onlyExits_value v
  | function name params body => exact .after _ fun _ => onlyExits_value .null
  | conditional cond body other =>
      refine .after _ fun c => ?_
      split
      · refine (ih.block body .null).mono fun way inside => ?_
        rw [Stmt.exits, inside, Bool.true_or]
      · cases other with
        | none => exact onlyExits_value .null
        | some alternative =>
            refine (ih.stmt alternative).mono fun way inside => ?_
            rw [Stmt.exits, Stmt.exitsOptional, inside, Bool.or_true]
  | whileLoop cond body => exact ih.whileLoop cond body .null
  | forLoop init cond update body =>
      refine (ih.initializer init).bind fun signal written => ?_
      cases signal with
      | result v =>
          refine onlyExits_pure fun way taken => ?_
          obtain rfl := Option.some.inj taken
          rw [Stmt.exits, written .result rfl, Bool.true_or]
          rfl
      | value | breakLoop | continueLoop => exact ih.forLoop init cond update body .null
  | result value =>
      refine .after _ fun v => onlyExits_pure fun way taken => ?_
      obtain rfl := Option.some.inj taken
      rfl
  | breakLoop | continueLoop =>
      refine onlyExits_pure fun way taken => ?_
      obtain rfl := Option.some.inj taken
      rfl
  | print arg => exact .after _ fun v => .after _ fun _ => onlyExits_value v
  | block body => exact ih.block body .null
  | expr value => exact .after _ fun v => onlyExits_value v

theorem initializer_step (ih : ExitsAsWritten limit fuel) (init : Option Stmt) :
    OnlyExits (Stmt.exitsOptional · init) (Eval.initializer limit (fuel + 1) init) := by
  cases init with
  | none => exact onlyExits_value .null
  | some s => exact ih.stmt s

theorem whileLoop_step (ih : ExitsAsWritten limit fuel) (cond : Expr) (body : List Stmt)
    (last : Value) :
    OnlyExits (Stmt.exits · (.whileLoop cond body))
      (Eval.whileLoop limit (fuel + 1) cond body last) := by
  refine .after _ fun c => ?_
  split
  · refine (ih.block body .null).bind fun signal written => ?_
    cases signal with
    | breakLoop => exact onlyExits_value last
    | result v =>
        refine onlyExits_pure fun way taken => ?_
        obtain rfl := Option.some.inj taken
        rw [Stmt.exits, written .result rfl]
        rfl
    | continueLoop => exact ih.whileLoop cond body last
    | value v => exact ih.whileLoop cond body v
  · exact onlyExits_value last

theorem forLoop_step (ih : ExitsAsWritten limit fuel) (init : Option Stmt)
    (cond update : Option Expr) (body : List Stmt) (last : Value) :
    OnlyExits (Stmt.exits · (.forLoop init cond update body))
      (Eval.forLoop limit (fuel + 1) cond update body last) := by
  refine .after _ fun holds => ?_
  split
  · refine (ih.block body .null).bind fun signal written => ?_
    cases signal with
    | breakLoop => exact onlyExits_value last
    | result v =>
        refine onlyExits_pure fun way taken => ?_
        obtain rfl := Option.some.inj taken
        rw [Stmt.exits, written .result rfl, Bool.or_true]
        rfl
    | continueLoop => exact .after _ fun _ => ih.forLoop init cond update body last
    | value v => exact .after _ fun _ => ih.forLoop init cond update body v
  · exact onlyExits_value last

theorem step (ih : ExitsAsWritten limit fuel) : ExitsAsWritten limit (fuel + 1) where
  block := ih.block_step
  stmt := ih.stmt_step
  initializer := ih.initializer_step
  whileLoop := ih.whileLoop_step
  forLoop := ih.forLoop_step

end ExitsAsWritten

theorem exitsAsWritten (limit fuel : Nat) : ExitsAsWritten limit fuel := by
  induction fuel with
  | zero =>
      -- Nothing ends without fuel.
      constructor
      all_goals
        intros
        intro m m' signal ended
        cases ended
  | succ fuel ih => exact ih.step

/-- What is written in a loop leads out of a function. -/
theorem eq_result_of_loop {way : Exit} {inside : Bool} (written : (way == .result && inside) = true) :
    way = .result :=
  eq_of_beq (Bool.and_eq_true_iff.mp written).1

/-- A statement that ends leaves only by a way out that is written in it where no loop and no function
    answers to it. So a loop ends with a value or on its way out of a function, and so does a call: however
    the body of the function ended, the caller has its result or null. -/
theorem signals_stay_inside {limit fuel : Nat} {m m' : Machine} {signal : Signal} :
    (∀ s, stmt limit fuel s m = .done signal m' → ∀ way ∈ signal.exit?, s.exits way = true) ∧
    (∀ cond body, stmt limit fuel (.whileLoop cond body) m = .done signal m' →
      ∀ way ∈ signal.exit?, way = .result) ∧
    (∀ init cond update body, stmt limit fuel (.forLoop init cond update body) m = .done signal m' →
      ∀ way ∈ signal.exit?, way = .result) ∧
    ∀ name args params body, m.functions.get? name = some (.user params body) → m.depth < limit →
      args.length = params.length →
      block limit fuel body .null (m.enter name params args) = .done signal m' →
      call limit (fuel + 1) name args m =
        .done (if signal.isResult then signal.toValue else .null) m'.leave := by
  have written : ∀ s, stmt limit fuel s m = .done signal m' →
      ∀ way ∈ signal.exit?, s.exits way = true :=
    fun s => (exitsAsWritten limit fuel).stmt s m m' signal
  refine ⟨written, fun cond body ended way taken => ?_,
    fun init cond update body ended way taken => ?_,
    fun name args params body found shallow fits ended => ?_⟩
  · exact eq_result_of_loop (written _ ended way taken)
  · exact eq_result_of_loop (written _ ended way taken)
  · have called : call limit (fuel + 1) name args m = leaving (.done signal m') := by
      simp only [call, found, Nat.not_le.mpr shallow, fits, ended, if_false, ne_eq, not_true_eq_false]
    rw [called]
    cases signal <;> rfl

/-- A result leaves two loops. The function that is called there ends by a way out of a loop, which
    neither of the two takes. -/
theorem signals_stay_inside_nested_loops :
    let leave : Ident := ⟨"leave", .origin⟩
    let m := (Machine.start .dynamic).declare "leave" (.user [] [.breakLoop])
    let s : Stmt := .whileLoop (.binary (.literal .null) .eq (.literal .null))
      [.forLoop none none none
        [.expr (.call (.ident leave) []), .result (some (.literal (.string "out")))]]
    ∃ m', stmt 5 20 s m = .done (.result (.string "out")) m' ∧ s.exits .result = true ∧
      ∃ m'', call 5 10 "leave" [] m = .done .null m'' := by
  intro leave m s
  obtain ⟨m', ended⟩ : ∃ m', stmt 5 20 s m = .done (.result (.string "out")) m' := ⟨_, rfl⟩
  obtain ⟨inside, broken⟩ : ∃ inside,
      block 5 9 [.breakLoop] .null (m.enter "leave" [] []) = .done .breakLoop inside := ⟨_, rfl⟩
  obtain ⟨written, -⟩ := @signals_stay_inside 5 20 m m' (.result (.string "out"))
  refine ⟨m', ended, written s ended .result rfl, inside.leave, ?_⟩
  exact signals_stay_inside.2.2.2 "leave" [] [] [.breakLoop] rfl (by decide) rfl broken

end Eval

end MinangScript
