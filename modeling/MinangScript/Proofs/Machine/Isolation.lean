import MinangScript.Proofs.Machine.Likeness

/-! # Lexical scoping isolates callers

Under lexical scoping a name is looked up and written in the innermost frame or among the global
variables. So code neither learns anything about the frames below the innermost one nor changes
anything in them, however many there are.
-/

namespace MinangScript

namespace Environment

variable {below below' : List (Bindings Value)}

/-- Two environments under lexical scoping with the same global variables and the same innermost
    frame, which lies on the frames `below` in the first and on `below'` in the second. -/
structure SameAbove (below below' : List (Bindings Value)) (e e' : Environment) : Prop where
  lexical : e.scoping = .lexical ∧ e'.scoping = .lexical
  frames : ∃ frame, e.frames = frame :: below ∧ e'.frames = frame :: below'
  globals : e'.globals = e.globals

namespace SameAbove

variable {e e' : Environment}

theorem get? (same : SameAbove below below' e e') (name : String) : e'.get? name = e.get? name := by
  obtain ⟨⟨lexical, lexical'⟩, ⟨frame, all, all'⟩, globals⟩ := same
  simp only [Environment.get?, visible, lexical, lexical', all, all', globals, List.take_succ_cons,
    List.take_zero]

/-- A write goes to the innermost frame of both or to the global variables of both. -/
theorem set (same : SameAbove below below' e e') (name : String) (value : Value) :
    SameAbove below below' (e.set name value) (e'.set name value) := by
  obtain ⟨⟨lexical, lexical'⟩, ⟨frame, all, all'⟩, globals⟩ := same
  have scopings :
      (e.set name value).scoping = .lexical ∧ (e'.set name value).scoping = .lexical := by
    simp only [set_scoping, lexical, lexical', and_self]
  cases bound : frame.has name with
  | true =>
      have written : ∀ {e : Environment} {below}, e.scoping = .lexical → e.frames = frame :: below →
          e.set name value = { e with frames := frame.put name value :: below } := by
        intro e below lexical all
        simp only [Environment.set, lexical, all, update?, bound, if_true, Option.map_some,
          List.singleton_append]
      refine ⟨scopings, ⟨frame.put name value, ?_, ?_⟩, ?_⟩
      · rw [written lexical all]
      · rw [written lexical' all']
      · rw [written lexical all, written lexical' all']
        exact globals
  | false =>
      have written : ∀ {e : Environment} {below}, e.scoping = .lexical → e.frames = frame :: below →
          e.set name value = { e with globals := e.globals.put name value } := by
        intro e below lexical all
        simp only [Environment.set, lexical, all, update?, bound, Bool.false_eq_true, if_false,
          Option.map_none]
      refine ⟨scopings, ⟨frame, ?_, ?_⟩, ?_⟩
      · rw [written lexical all]
        exact all
      · rw [written lexical' all']
        exact all'
      · rw [written lexical all, written lexical' all', globals]

theorem push {inner inner' : Bindings Value} (same : SameAbove below below' e e')
    (all : e.frames = inner :: below) (all' : e'.frames = inner' :: below')
    (frame : Bindings Value) :
    SameAbove (inner :: below) (inner' :: below') (e.push frame) (e'.push frame) where
  lexical := same.lexical
  frames := ⟨frame, by rw [Environment.push, all], by rw [Environment.push, all']⟩
  globals := same.globals

theorem pop {inner : Bindings Value} (same : SameAbove (inner :: below) (inner :: below') e e') :
    SameAbove below below' e.pop e'.pop := by
  obtain ⟨lexical, ⟨frame, all, all'⟩, globals⟩ := same
  exact ⟨lexical, ⟨inner, by rw [Environment.pop, all]; rfl, by rw [Environment.pop, all']; rfl⟩,
    globals⟩

end SameAbove

/-- Inside of a call the frame of the caller is one more frame below. -/
def sameAbove : Likeness (List (Bindings Value) × List (Bindings Value)) where
  Alike := fun below => SameAbove below.1 below.2
  get? := SameAbove.get?
  set := SameAbove.set
  call := by
    intro below e e' same frame
    obtain ⟨inner, all, all'⟩ := same.frames
    exact ⟨(inner :: below.1, inner :: below.2), same.push all all' frame, SameAbove.pop⟩

end Environment

namespace Machine

/-- Two machines under lexical scoping that have everything in common but the frames below the
    innermost one, which are `below` and `below'`, and perhaps the notes in their journals. -/
structure SameAbove (below below' : List (Bindings Value)) (m m' : Machine) : Prop where
  env : m.env.SameAbove below below' m'.env
  functions : m'.functions = m.functions
  depth : m'.depth = m.depth
  nextTag : m'.nextTag = m.nextTag
  lines : m'.journal.lines = m.journal.lines

variable {below below' : List (Bindings Value)} {m m' : Machine}

theorem sameAbove_iff :
    SameAbove below below' m m' ↔ Environment.sameAbove.OnMachines (below, below') m m' :=
  ⟨fun same => { same with }, fun alike => { alike with }⟩

theorem matches_of_sameAbove {α : Type} {x : Eval α} (same : SameAbove below below' m m')
    (agree : Eval.Agree (Environment.sameAbove.OnMachines (below, below')) x x) :
    Eval.Matches (SameAbove below below') (x m) (x m') :=
  (agree (sameAbove_iff.mp same)).mono sameAbove_iff.mpr

end Machine

namespace Eval

open Machine (SameAbove)

/-- What lies below the innermost frame makes no difference under lexical scoping and stays as it is:
    with the same fuel both runs give up, or both end with the same value, signal or error, and then
    the machines have still the same in common, the same frames `below` and `below'` included. -/
theorem callers_make_no_difference {below below' : List (Bindings Value)} {m m' : Machine}
    (same : SameAbove below below' m m') (limit fuel : Nat) :
    (∀ e, Matches (SameAbove below below') (expr limit fuel e m) (expr limit fuel e m')) ∧
    (∀ s, Matches (SameAbove below below') (stmt limit fuel s m) (stmt limit fuel s m')) ∧
    (∀ body last, Matches (SameAbove below below') (block limit fuel body last m)
      (block limit fuel body last m')) := by
  refine ⟨fun e => ?_, fun s => ?_, fun body last => ?_⟩
  · exact Machine.matches_of_sameAbove same (Environment.sameAbove.agree_expr _ limit fuel e)
  · exact Machine.matches_of_sameAbove same (Environment.sameAbove.agree_stmt _ limit fuel s)
  · exact Machine.matches_of_sameAbove same
      (Environment.sameAbove.agree_block _ limit fuel body last)

/-- Inside of a call, where `f` is a function that returns the variable `b`. -/
def callingFree (below : List (Bindings Value)) : Machine :=
  { Machine.start .lexical with
    env := ⟨[], [("a", .string "x")] :: below, .lexical⟩
    functions := [("f", .user [] [.result (some (.ident ⟨"b", .origin⟩))])]
    depth := 1 }

/-- A caller that binds `b` does not help. -/
theorem callers_make_no_difference_free_name :
    let below' : List (Bindings Value) := [[("b", .string "y")]]
    let e : Expr := .assign ⟨"a", .origin⟩ (.call (.ident ⟨"f", .origin⟩) [])
    SameAbove [] below' (callingFree []) (callingFree below') ∧
      ∃ m m', expr 2 9 e (callingFree []) = .failed (.undefinedVariable ⟨"b", .origin⟩) m ∧
        expr 2 9 e (callingFree below') = .failed (.undefinedVariable ⟨"b", .origin⟩) m' ∧
        SameAbove [] below' m m' := by
  intro below' e
  have same : SameAbove [] below' (callingFree []) (callingFree below') :=
    ⟨⟨⟨rfl, rfl⟩, ⟨_, rfl, rfl⟩, rfl⟩, rfl, rfl, rfl, rfl⟩
  obtain ⟨m, first⟩ : ∃ m, expr 2 9 e (callingFree []) =
      .failed (.undefinedVariable ⟨"b", .origin⟩) m := ⟨_, rfl⟩
  have matching := (callers_make_no_difference same 2 9).1 e
  rw [first] at matching
  generalize second : expr 2 9 e (callingFree below') = o at matching
  cases matching with
  | failed related => exact ⟨same, m, _, first, rfl, related⟩

end Eval

end MinangScript
