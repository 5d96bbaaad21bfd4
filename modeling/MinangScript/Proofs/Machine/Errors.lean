import MinangScript.Machine.Evaluator

/-! # The errors of single steps

A step of a run that evaluates nothing else can fail in few ways. Only the value of a name can be
missing as a variable, and no such step looks at how many calls are under way.
-/

namespace MinangScript

/-- The error is neither that a variable is missing nor that too many calls are under way. -/
structure RuntimeError.Plain (e : RuntimeError) : Prop where
  missing : ∀ id, e ≠ .undefinedVariable id
  refused : ∀ limit, e ≠ .callDepth limit

variable {e : RuntimeError}

theorem Machine.eq_of_lookup {m : Machine} {id : Ident} (failed : m.lookup id = .error e) :
    e = .undefinedVariable id := by
  unfold Machine.lookup at failed
  split at failed
  · cases failed
  · split at failed
    · cases failed
    · cases failed
      rfl

theorem Machine.plain_of_method {m : Machine} {object : Expr} {property : Ident}
    (failed : m.method object property = .error e) : e.Plain := by
  unfold Machine.method at failed
  split at failed
  · dsimp only at failed
    split at failed
    · cases failed
    · split at failed
      · cases failed
      · cases failed
        exact ⟨nofun, nofun⟩
  · cases failed
    exact ⟨nofun, nofun⟩

theorem Machine.plain_of_map_method {α : Type} {m : Machine} {object : Expr} {property : Ident}
    {f : String × Option (List String) → α}
    (failed : (m.method object property).map f = .error e) : e.Plain := by
  cases answer : m.method object property with
  | ok found =>
      rw [answer] at failed
      cases failed
  | error e' =>
      rw [answer] at failed
      cases failed
      exact plain_of_method answer

theorem Machine.plain_of_callee {m : Machine} {callee : Expr}
    (failed : m.callee callee = .error e) : e.Plain := by
  cases callee with
  | member object property => exact plain_of_map_method failed
  | ident id =>
      simp only [Machine.callee] at failed
      split at failed
      · cases failed
      · split at failed
        · cases failed
        · cases failed
          exact ⟨nofun, nofun⟩
  | assign | binary | unary | call | literal | array | object =>
      cases failed
      exact ⟨nofun, nofun⟩

/-- A value does not read as a number, or zero is divided by. -/
def RuntimeError.Arithmetic (e : RuntimeError) : Prop :=
  (∃ value, e = .notNumeric value) ∨ e = .divisionByZero

theorem RuntimeError.Arithmetic.plain (arithmetic : e.Arithmetic) : e.Plain := by
  obtain ⟨value, rfl⟩ | rfl := arithmetic
  · exact ⟨nofun, nofun⟩
  · exact ⟨nofun, nofun⟩

theorem Value.arithmetic_of_toNumber {v : Value} (failed : v.toNumber = .error e) :
    e.Arithmetic := by
  unfold Value.toNumber at failed
  split at failed
  · cases failed
  · cases failed
    exact .inl ⟨_, rfl⟩

theorem BinaryOp.arithmetic_of_onNumbers {f : Float → Float → Value} {left right : Value}
    (failed : onNumbers f left right = .error e) : e.Arithmetic := by
  simp only [onNumbers, Bind.bind, Except.bind] at failed
  split at failed
  · rename_i unread
    cases failed
    exact Value.arithmetic_of_toNumber unread
  · split at failed
    · rename_i unread
      cases failed
      exact Value.arithmetic_of_toNumber unread
    · cases failed

theorem BinaryOp.arithmetic_of_divide {left right : Value}
    (failed : divide left right = .error e) : e.Arithmetic := by
  simp only [divide, Bind.bind, Except.bind] at failed
  split at failed
  · rename_i unread
    cases failed
    exact Value.arithmetic_of_toNumber unread
  · split at failed
    · cases failed
      exact .inr rfl
    · split at failed
      · rename_i unread
        cases failed
        exact Value.arithmetic_of_toNumber unread
      · cases failed

theorem BinaryOp.arithmetic_of_apply {op : BinaryOp} {left right : Value}
    (failed : op.apply left right = .error e) : e.Arithmetic := by
  cases op with
  | or | and | eq | ne | add => cases failed
  | lt | le | gt | ge | sub | mul | mod => exact arithmetic_of_onNumbers failed
  | div => exact arithmetic_of_divide failed

theorem BinaryOp.plain_of_apply {op : BinaryOp} {left right : Value}
    (failed : op.apply left right = .error e) : e.Plain :=
  (arithmetic_of_apply failed).plain

theorem UnaryOp.arithmetic_of_apply {op : UnaryOp} {operand : Value}
    (failed : op.apply operand = .error e) : e.Arithmetic := by
  cases op with
  | not => cases failed
  | neg =>
      simp only [UnaryOp.apply] at failed
      cases read : operand.toNumber with
      | ok n =>
          rw [read] at failed
          cases failed
      | error e' =>
          rw [read] at failed
          cases failed
          exact Value.arithmetic_of_toNumber read

theorem UnaryOp.plain_of_apply {op : UnaryOp} {operand : Value}
    (failed : op.apply operand = .error e) : e.Plain :=
  (arithmetic_of_apply failed).plain

end MinangScript
