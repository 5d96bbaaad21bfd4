import MinangScript.Proofs.Machine.CallLimit
import MinangScript.Proofs.Parser.Templates

/-! # The value of a template literal

A template literal is read as a sum whose first summand is a text. Since a sum with a text in front is
a text, the literal is the texts of its parts, one behind the other, whatever its parts are. The parts
are evaluated from left to right; the first one that fails ends the evaluation.
-/

namespace MinangScript

/-- Changes the value of an outcome that has one. -/
def Outcome.map {ε α β : Type} (f : α → β) : Outcome ε α → Outcome ε β
  | .done value m => .done (f value) m
  | .failed e m => .failed e m
  | .outOfFuel => .outOfFuel

theorem Outcome.map_map {ε α β γ : Type} (f : α → β) (g : β → γ) (o : Outcome ε α) :
    (o.map f).map g = o.map (g ∘ f) := by
  cases o <;> rfl

namespace Eval

variable {limit : Nat} {e left right : Expr} {m m' : Machine} {o o' : Outcome RuntimeError Value}

/-- An expression comes to an end, whatever fuel that takes. -/
def Evaluates (limit : Nat) (e : Expr) (m : Machine) (o : Outcome RuntimeError Value) : Prop :=
  o ≠ .outOfFuel ∧ ∃ fuel, expr limit fuel e m = o

theorem Evaluates.of_done (fuel : Nat) {v : Value} (is : expr limit fuel e m = .done v m') :
    Evaluates limit e m (.done v m') :=
  ⟨nofun, fuel, is⟩

theorem Evaluates.of_failed (fuel : Nat) {error : RuntimeError}
    (is : expr limit fuel e m = .failed error m') : Evaluates limit e m (.failed error m') :=
  ⟨nofun, fuel, is⟩

theorem Evaluates.eventually (evaluates : Evaluates limit e m o) :
    ∃ fuel, ∀ fuel', fuel ≤ fuel' → expr limit fuel' e m = o := by
  obtain ⟨ended, fuel, rfl⟩ := evaluates
  refine ⟨fuel, fun fuel' le => ?_⟩
  obtain gaveUp | same := expr_goesOn le limit e m
  · exact absurd gaveUp ended
  · exact same

theorem Evaluates.of_eventually (fuel : Nat) (ended : o ≠ .outOfFuel)
    (all : ∀ fuel', fuel ≤ fuel' → expr limit (fuel' + 1) e m = o) : Evaluates limit e m o :=
  ⟨ended, fuel + 1, all fuel (Nat.le_refl fuel)⟩

/-! ## Sums -/

theorem evaluates_string {text : String} :
    Evaluates limit (.literal (.string text)) m o ↔ o = .done (.string text) m := by
  constructor
  · rintro ⟨ended, fuel, ran⟩
    cases fuel with
    | zero => exact absurd ran.symm ended
    | succ fuel => exact ran.symm
  · rintro rfl
    exact .of_done 1 rfl

/-- How a sum ends: its operands are evaluated in order, and the second one only if the first one has
    a value. -/
inductive Adds (limit : Nat) (left right : Expr) (m : Machine) : Outcome RuntimeError Value → Prop
    where
  | left {error : RuntimeError} {m' : Machine} (fails : Evaluates limit left m (.failed error m')) :
      Adds limit left right m (.failed error m')
  | right {v : Value} {error : RuntimeError} {m' m'' : Machine}
      (first : Evaluates limit left m (.done v m'))
      (fails : Evaluates limit right m' (.failed error m'')) :
      Adds limit left right m (.failed error m'')
  | sum {v w : Value} {m' m'' : Machine} (first : Evaluates limit left m (.done v m'))
      (second : Evaluates limit right m' (.done w m'')) :
      Adds limit left right m (.done (BinaryOp.plus v w) m'')

theorem evaluates_add : Evaluates limit (.binary left .add right) m o ↔ Adds limit left right m o := by
  constructor
  · rintro ⟨ended, fuel, rfl⟩
    cases fuel with
    | zero => exact absurd rfl ended
    | succ fuel =>
        simp only [expr, Bind.bind, Eval.bind] at ended ⊢
        cases first : expr limit fuel left m with
        | outOfFuel =>
            rw [first] at ended
            exact absurd rfl ended
        | failed error m' => exact .left (.of_failed fuel first)
        | done v m' =>
            rw [first] at ended
            dsimp only at ended ⊢
            cases second : expr limit fuel right m' with
            | outOfFuel =>
                rw [second] at ended
                exact absurd rfl ended
            | failed error m'' => exact .right (.of_done fuel first) (.of_failed fuel second)
            | done w m'' => exact .sum (.of_done fuel first) (.of_done fuel second)
  · intro adds
    cases adds with
    | left fails =>
        obtain ⟨fuel, all⟩ := fails.eventually
        refine .of_eventually fuel fails.1 fun fuel' le => ?_
        simp only [expr, Bind.bind, Eval.bind, all fuel' le]
    | right first fails =>
        obtain ⟨fuel, all⟩ := first.eventually
        obtain ⟨fuel', all'⟩ := fails.eventually
        refine .of_eventually (max fuel fuel') fails.1 fun more le => ?_
        simp only [expr, Bind.bind, Eval.bind, all more (by omega), all' more (by omega)]
    | sum first second =>
        obtain ⟨fuel, all⟩ := first.eventually
        obtain ⟨fuel', all'⟩ := second.eventually
        refine .of_eventually (max fuel fuel') (by simp) fun more le => ?_
        simp only [expr, Bind.bind, Eval.bind, all more (by omega), all' more (by omega)]
        rfl

/-- How the values of expressions are added to a value, one after the other. -/
inductive AddsEach (limit : Nat) : Value → List Expr → Machine → Outcome RuntimeError Value → Prop
    where
  | nil {v : Value} {m : Machine} : AddsEach limit v [] m (.done v m)
  | failed {v : Value} {e : Expr} {es : List Expr} {error : RuntimeError} {m m' : Machine}
      (fails : Evaluates limit e m (.failed error m')) :
      AddsEach limit v (e :: es) m (.failed error m')
  | cons {v w : Value} {e : Expr} {es : List Expr} {m m' : Machine}
      {o : Outcome RuntimeError Value} (first : Evaluates limit e m (.done w m'))
      (later : AddsEach limit (BinaryOp.plus v w) es m' o) : AddsEach limit v (e :: es) m o

/-- A sum of many, grouped to the left. -/
theorem evaluates_foldl {es : List Expr} :
    Evaluates limit (es.foldl (fun left right => .binary left .add right) left) m o ↔
      (∃ error m', o = .failed error m' ∧ Evaluates limit left m o) ∨
        ∃ v m', Evaluates limit left m (.done v m') ∧ AddsEach limit v es m' o := by
  induction es generalizing left with
  | nil =>
      constructor
      · intro evaluates
        cases o with
        | done v m' => exact .inr ⟨v, m', evaluates, .nil⟩
        | failed error m' => exact .inl ⟨error, m', rfl, evaluates⟩
        | outOfFuel => exact absurd rfl evaluates.1
      · rintro (⟨_, _, -, fails⟩ | ⟨v, m', evaluates, adds⟩)
        · exact fails
        · cases adds
          exact evaluates
  | cons e es ih =>
      rw [List.foldl_cons, ih]
      simp only [evaluates_add]
      constructor
      · rintro (⟨error, m', rfl, adds⟩ | ⟨v, m', adds, later⟩)
        · cases adds with
          | left fails => exact .inl ⟨error, m', rfl, fails⟩
          | right first fails => exact .inr ⟨_, _, first, .failed fails⟩
        · cases adds with
          | sum first second => exact .inr ⟨_, _, first, .cons second later⟩
      · rintro (⟨error, m', rfl, fails⟩ | ⟨v, m', first, adds⟩)
        · exact .inl ⟨error, m', rfl, .left fails⟩
        · cases adds with
          | failed fails => exact .inl ⟨_, _, rfl, .right first fails⟩
          | cons second later => exact .inr ⟨_, _, .sum first second, later⟩

/-- The parts of a template literal are added to the empty text. -/
theorem evaluates_joined {es : List Expr} :
    Evaluates limit (Parser.joined es) m o ↔ AddsEach limit (.string "") es m o := by
  have summed : ∀ (text : String) (rest : List Expr),
      Evaluates limit (rest.foldl (fun left right => .binary left .add right)
        (.literal (.string text))) m o ↔ AddsEach limit (.string text) rest m o := by
    intro text rest
    rw [evaluates_foldl]
    constructor
    · rintro (⟨error, m', rfl, fails⟩ | ⟨v, m', first, adds⟩)
      · cases evaluates_string.mp fails
      · cases evaluates_string.mp first
        exact adds
    · exact fun adds => .inr ⟨_, _, evaluates_string.mpr rfl, adds⟩
  unfold Parser.joined
  split
  · rename_i text rest
    -- The first text is the sum of the empty text and itself.
    have itself : BinaryOp.plus (.string "") (.string text) = .string text := by
      simp [BinaryOp.plus, Value.text]
    rw [summed]
    constructor
    · intro adds
      exact .cons (evaluates_string.mpr rfl) (itself ▸ adds)
    · intro adds
      cases adds with
      | failed fails => cases evaluates_string.mp fails
      | cons first later =>
          cases evaluates_string.mp first
          exact itself ▸ later
  · exact summed "" _

/-! ## Parts -/

/-- How the texts of the parts of a template literal are put together: in order, up to the first
    part that fails. -/
inductive Concatenates (limit : Nat) :
    List Part → Machine → Outcome RuntimeError String → Prop where
  | nil {m : Machine} : Concatenates limit [] m (.done "" m)
  | text {text : String} {parts : List Part} {m : Machine} {o : Outcome RuntimeError String}
      (later : Concatenates limit parts m o) :
      Concatenates limit (.text text :: parts) m (o.map (text ++ ·))
  | blank {parts : List Part} {m : Machine} {o : Outcome RuntimeError String}
      (later : Concatenates limit parts m o) : Concatenates limit (.blank :: parts) m o
  | failed {e : Expr} {parts : List Part} {error : RuntimeError} {m m' : Machine}
      (fails : Evaluates limit e m (.failed error m')) :
      Concatenates limit (.slot e :: parts) m (.failed error m')
  | slot {e : Expr} {v : Value} {parts : List Part} {m m' : Machine}
      {o : Outcome RuntimeError String} (value : Evaluates limit e m (.done v m'))
      (later : Concatenates limit parts m' o) :
      Concatenates limit (.slot e :: parts) m (o.map (v.text ++ ·))

theorem plus_string (text : String) (v : Value) :
    BinaryOp.plus (.string text) v = .string (text ++ v.text) := by
  simp [BinaryOp.plus, Value.text]

/-- Adding to a text gives a text. -/
theorem addsEach_iff_concatenates {parts : List Part} {before : String} :
    AddsEach limit (.string before) (parts.filterMap Part.value?) m o ↔
      ∃ o', Concatenates limit parts m o' ∧ o = o'.map fun text => .string (before ++ text) := by
  induction parts generalizing before m o with
  | nil =>
      constructor
      · intro adds
        cases adds
        exact ⟨_, .nil, by simp [Outcome.map]⟩
      · rintro ⟨o', joins, rfl⟩
        cases joins
        simpa [Outcome.map] using AddsEach.nil
  | cons part parts ih =>
      -- What follows is added to the longer text.
      have later : ∀ (text : String) (o' : Outcome RuntimeError String),
          (o'.map (text ++ ·)).map (fun tail => Value.string (before ++ tail)) =
            o'.map fun tail => .string (before ++ text ++ tail) := by
        intro text o'
        rw [Outcome.map_map]
        simp only [Function.comp_def, String.append_assoc]
      cases part with
      | text text =>
          constructor
          · intro adds
            cases adds with
            | failed fails => cases evaluates_string.mp fails
            | cons first adds =>
                cases evaluates_string.mp first
                rw [plus_string, ih] at adds
                obtain ⟨o', joins, rfl⟩ := adds
                exact ⟨_, .text joins, by rw [later, Value.text]⟩
          · rintro ⟨o', joins, rfl⟩
            cases joins with
            | text joins =>
                refine .cons (evaluates_string.mpr rfl) ?_
                rw [plus_string, ih]
                exact ⟨_, joins, by rw [later, Value.text]⟩
      | blank =>
          constructor
          · intro adds
            obtain ⟨o', joins, rfl⟩ := ih.mp adds
            exact ⟨o', .blank joins, rfl⟩
          · rintro ⟨o', joins, rfl⟩
            cases joins with
            | blank joins => exact ih.mpr ⟨_, joins, rfl⟩
      | slot e =>
          constructor
          · intro adds
            cases adds with
            | failed fails => exact ⟨_, .failed fails, rfl⟩
            | cons first adds =>
                rw [plus_string, ih] at adds
                obtain ⟨o', joins, rfl⟩ := adds
                exact ⟨_, .slot first joins, by rw [later]⟩
          · rintro ⟨o', joins, rfl⟩
            cases joins with
            | failed fails => exact .failed fails
            | slot first joins =>
                refine .cons first ?_
                rw [plus_string, ih]
                exact ⟨_, joins, by rw [later]⟩

/-- A template literal is read to its end, and its value is the texts of its parts, one behind the
    other. Its interpolations are evaluated in order, up to the first one that fails. -/
theorem templateLiteral_concatenates {rounds depth : Nat} {parts : List Part} {s rest : TokenStream}
    (template : Parser.TemplateAt (Parser.level rounds depth) parts s rest)
    (enough : s.ahead.length < rounds) (ends : rest.current.kind ≠ .interpolationStart) :
    ∃ e, Parser.templateLiteral rounds (Parser.level rounds depth) s = .ok (e, rest) ∧
      ∀ limit m o, Evaluates limit e m o ↔
        ∃ o', Concatenates limit parts m o' ∧ o = o'.map Value.string := by
  refine ⟨_, template.templateLiteral_eq enough ends, fun limit m o => ?_⟩
  rw [evaluates_joined, addsEach_iff_concatenates]
  simp only [String.empty_append]

/-- Two numbers, a blank interpolation and a digit are still a text. -/
theorem templateLiteral_concatenates_digits :
    let place : Position := .start
    let tokens : List Token := [.interpolationStart, .number 1, .interpolationEnd,
      .interpolationStart, .interpolationEnd, .interpolationStart, .number 2, .interpolationEnd,
      .templateText "3"].map (Token.mk · place)
    ∃ e, Parser.templateLiteral 10 (Parser.level 10 1) ⟨tokens, place⟩ = .ok (e, ⟨[], place⟩) ∧
      ∀ limit m, Evaluates limit e m (.done (.string "123") m) := by
  intro place tokens
  have number : ∀ limit value m,
      Evaluates limit (.literal (.number value)) m (.done (.number value) m) :=
    fun limit value m => .of_done 1 rfl
  have one : Number.text 1 = "1" := by decide +kernel
  have two : Number.text 2 = "2" := by decide +kernel
  have template : Parser.TemplateAt (Parser.level 10 1)
      [.slot (.literal (.number 1)), .blank, .slot (.literal (.number 2)), .text "3"]
      ⟨tokens, place⟩ ⟨[], place⟩ :=
    .slot rfl rfl rfl (.blank rfl rfl (.slot rfl rfl rfl (.last rfl)))
  obtain ⟨e, read, value⟩ := templateLiteral_concatenates template (by decide) nofun
  refine ⟨e, read, fun limit m => (value limit m _).mpr ?_⟩
  refine ⟨_, .slot (number limit 1 m) (.blank (.slot (number limit 2 m) (.text .nil))), ?_⟩
  simp [Outcome.map, Value.text, one, two]

end Eval

end MinangScript
