import MinangScript.Proofs.Environment.Names

/-! # Frames as saved bindings

The older way to give a call its own variables is to keep one flat map: on the way in, what the
names of the call stood for is saved and overwritten, and on the way out it is restored. Under
dynamic scoping a stack of frames answers every question in the same way.

The relation `Mirrors` carries the proof. It says of every open frame, and not only of the
innermost, what would be seen if the frames above it were closed.
-/

namespace MinangScript

namespace Bindings

variable {α : Type}

/-- Takes a name out. -/
def remove (name : String) (b : Bindings α) : Bindings α :=
  b.filter fun entry => entry.1 ≠ name

theorem get?_remove (name other : String) (b : Bindings α) :
    (b.remove name).get? other = if name = other then none else b.get? other := by
  induction b with
  | nil => simp [remove, get?]
  | cons entry rest ih =>
      obtain ⟨key, value⟩ := entry
      simp only [remove] at ih
      by_cases taken : key = name
      · subst taken
        by_cases same : key = other
        · simpa [remove, get?, same] using ih
        · simpa [remove, get?, same] using ih
      · by_cases same : key = other
        · subst same
          simp [remove, get?, taken, Ne.symm taken]
        · simpa [remove, get?, taken, same] using ih

end Bindings

/-- One flat map of variables, which saves what a frame covers up. -/
structure FlatEnvironment where
  vars : Bindings Value
  /-- For every open frame, the innermost first, what each of its names stood for before, if
      anything. -/
  saved : List (Bindings (Option Value))
  deriving Repr, Inhabited

namespace FlatEnvironment

/-- No variables at all. -/
def empty : FlatEnvironment :=
  ⟨[], []⟩

/-- The value of a name. -/
def get? (e : FlatEnvironment) (name : String) : Option Value :=
  e.vars.get? name

/-- Writes a name. -/
def set (e : FlatEnvironment) (name : String) (value : Value) : FlatEnvironment :=
  { e with vars := e.vars.put name value }

/-- Writes all names of a frame. As in a frame, the first of two things of one name counts. -/
def overwrite (vars frame : Bindings Value) : Bindings Value :=
  frame.foldr (fun (name, value) vars => vars.put name value) vars

/-- Puts names back to what was saved for them; a name that stood for nothing is taken out. -/
def restore (vars : Bindings Value) (saved : Bindings (Option Value)) : Bindings Value :=
  saved.foldr (fun (name, old) vars =>
    match old with
    | some value => vars.put name value
    | none => vars.remove name) vars

/-- Opens a frame: saves the binding of each of its names, or that there is none, and overwrites
    it. -/
def push (e : FlatEnvironment) (frame : Bindings Value) : FlatEnvironment where
  vars := overwrite e.vars frame
  saved := (frame.map fun (name, _) => (name, e.vars.get? name)) :: e.saved

/-- Closes the innermost frame, if there is one. -/
def pop (e : FlatEnvironment) : FlatEnvironment :=
  match e.saved with
  | [] => e
  | saved :: rest => ⟨restore e.vars saved, rest⟩

theorem get?_set (e : FlatEnvironment) (name other : String) (value : Value) :
    (e.set name value).get? other = if name = other then some value else e.get? other :=
  Bindings.get?_put name other value e.vars

theorem get?_overwrite (vars frame : Bindings Value) (name : String) :
    (overwrite vars frame).get? name = (frame.get? name).or (vars.get? name) := by
  induction frame with
  | nil => rfl
  | cons entry rest ih =>
      obtain ⟨key, value⟩ := entry
      simp only [overwrite, List.foldr_cons] at ih ⊢
      rw [Bindings.get?_put, ih]
      by_cases same : key = name
      · simp [Bindings.get?, same]
      · simp [Bindings.get?, same]

theorem get?_restore (vars : Bindings Value) (saved : Bindings (Option Value)) (name : String) :
    (restore vars saved).get? name = (saved.get? name).getD (vars.get? name) := by
  induction saved with
  | nil => rfl
  | cons entry rest ih =>
      obtain ⟨key, old⟩ := entry
      simp only [restore, List.foldr_cons] at ih ⊢
      by_cases same : key = name
      · cases old <;> simp [Bindings.get?_put, Bindings.get?_remove, Bindings.get?, same]
      · cases old <;> simp [Bindings.get?_put, Bindings.get?_remove, Bindings.get?, same, ih]

theorem get?_pop {e : FlatEnvironment} {saved : Bindings (Option Value)}
    {rest : List (Bindings (Option Value))} (covered : e.saved = saved :: rest) (name : String) :
    e.pop.get? name = (saved.get? name).getD (e.get? name) := by
  simp only [pop, covered, get?]
  exact get?_restore e.vars saved name

theorem saved_pop (e : FlatEnvironment) : e.pop.saved = e.saved.tail := by
  cases h : e.saved <;> simp [pop, h]

theorem names_saved (vars frame : Bindings Value) :
    Bindings.names (frame.map fun (key, _) => (key, vars.get? key)) = frame.names := by
  simp only [Bindings.names, List.map_map]
  rfl

/-- What is saved for a name of the frame is what the name stood for. -/
theorem get?_saved (vars : Bindings Value) {frame : Bindings Value} {name : String}
    (bound : name ∈ frame.names) :
    Bindings.get? name (frame.map fun (key, _) => (key, vars.get? key)) =
      some (vars.get? name) := by
  induction frame with
  | nil => simp [Bindings.names] at bound
  | cons entry rest ih =>
      obtain ⟨key, value⟩ := entry
      by_cases same : key = name
      · simp [Bindings.get?, same]
      · have inRest : name ∈ Bindings.names rest := by
          simpa [Bindings.names, Ne.symm same] using bound
        simpa [Bindings.get?, same] using ih inRest

theorem get?_pop_push (e : FlatEnvironment) (frame : Bindings Value) (name : String) :
    (e.push frame).pop.get? name = e.get? name := by
  rw [get?_pop rfl]
  by_cases bound : name ∈ frame.names
  · rw [get?_saved e.vars bound]
    rfl
  · have unsaved := bound
    rw [← names_saved e.vars] at unsaved
    rw [Bindings.get?_eq_none_iff.mpr unsaved, Option.getD_none]
    simp only [push, get?, get?_overwrite, Bindings.get?_eq_none_iff.mpr bound, Option.none_or]

/-- Two flat maps that answer alike and save alike. -/
structure Alike (e e' : FlatEnvironment) : Prop where
  get? : ∀ name, e.get? name = e'.get? name
  saved : e.saved = e'.saved

theorem Alike.pop {e e' : FlatEnvironment} (alike : Alike e e') : Alike e.pop e'.pop where
  get? := by
    intro name
    cases covered : e.saved with
    | nil =>
        have covered' : e'.saved = [] := alike.saved ▸ covered
        simp only [FlatEnvironment.pop, covered, covered']
        exact alike.get? name
    | cons saved rest =>
        rw [get?_pop covered, get?_pop (alike.saved ▸ covered), alike.get? name]
  saved := by rw [saved_pop, saved_pop, alike.saved]

/-- A write to a name that the innermost frame has saved is undone when the frame closes. -/
theorem alike_pop_set {e : FlatEnvironment} {saved : Bindings (Option Value)}
    {rest : List (Bindings (Option Value))} (covered : e.saved = saved :: rest) {name : String}
    (bound : name ∈ saved.names) (value : Value) : Alike e.pop (e.set name value).pop where
  get? := by
    intro other
    have covered' : (e.set name value).saved = saved :: rest := covered
    rw [get?_pop covered, get?_pop covered', get?_set]
    split
    · rename_i same
      subst same
      obtain ⟨old, found⟩ := Option.isSome_iff_exists.mp (Bindings.has_eq_true_iff.mpr bound)
      rw [found, Option.getD_some, Option.getD_some]
    · rfl
  saved := by
    rw [saved_pop, saved_pop]
    rfl

/-- A write to any other name is as if made below the frame. -/
theorem alike_set_pop {e : FlatEnvironment} {saved : Bindings (Option Value)}
    {rest : List (Bindings (Option Value))} (covered : e.saved = saved :: rest) {name : String}
    (free : name ∉ saved.names) (value : Value) :
    Alike (e.pop.set name value) (e.set name value).pop where
  get? := by
    intro other
    have covered' : (e.set name value).saved = saved :: rest := covered
    rw [get?_set, get?_pop covered, get?_pop covered', get?_set]
    split
    · rename_i same
      rw [← same, Bindings.get?_eq_none_iff.mpr free, Option.getD_none]
    · rfl
  saved := by
    rw [saved_pop]
    exact saved_pop e

end FlatEnvironment

namespace Environment

/-- The frames with the global variables below them are seen in the flat map: so they are after
    closing any number of frames, and each frame has saved for exactly its own names. -/
def Mirrors (globals : Bindings Value) : List (Bindings Value) → FlatEnvironment → Prop
  | [], flat => flat.saved = [] ∧ ∀ name, flat.get? name = globals.get? name
  | frame :: below, flat =>
    (∃ saved rest, flat.saved = saved :: rest ∧ saved.names = frame.names) ∧
    (∀ name ∈ frame.names, flat.get? name = frame.get? name) ∧
    Mirrors globals below flat.pop

theorem Mirrors.congr {globals : Bindings Value} {frames : List (Bindings Value)}
    {flat flat' : FlatEnvironment} (alike : FlatEnvironment.Alike flat flat')
    (mirrors : Mirrors globals frames flat) : Mirrors globals frames flat' := by
  induction frames generalizing flat flat' with
  | nil =>
      obtain ⟨closed, seen⟩ := mirrors
      exact ⟨alike.saved ▸ closed, fun name => (alike.get? name).symm.trans (seen name)⟩
  | cons frame below ih =>
      obtain ⟨⟨saved, rest, covered, names⟩, seen, deeper⟩ := mirrors
      refine ⟨⟨saved, rest, alike.saved ▸ covered, names⟩, ?_, ih alike.pop deeper⟩
      intro name bound
      exact (alike.get? name).symm.trans (seen name bound)

theorem get?_cons (globals frame : Bindings Value) (below : List (Bindings Value))
    (name : String) :
    (⟨globals, frame :: below, .dynamic⟩ : Environment).get? name =
      (frame.get? name).or ((⟨globals, below, .dynamic⟩ : Environment).get? name) := by
  simp only [get?, visible, lookup?]
  cases frame.get? name <;> rfl

theorem Mirrors.get?_eq {globals : Bindings Value} {frames : List (Bindings Value)}
    {flat : FlatEnvironment} (mirrors : Mirrors globals frames flat) (name : String) :
    (⟨globals, frames, .dynamic⟩ : Environment).get? name = flat.get? name := by
  induction frames generalizing flat with
  | nil => exact (mirrors.2 name).symm
  | cons frame below ih =>
      obtain ⟨⟨saved, rest, covered, names⟩, seen, deeper⟩ := mirrors
      rw [get?_cons]
      by_cases bound : name ∈ frame.names
      · obtain ⟨value, here⟩ := Option.isSome_iff_exists.mp (Bindings.has_eq_true_iff.mpr bound)
        rw [seen name bound, here, Option.some_or]
      · have unsaved : saved.get? name = none := Bindings.get?_eq_none_iff.mpr (names ▸ bound)
        rw [Bindings.get?_eq_none_iff.mpr bound, Option.none_or, ih deeper,
          FlatEnvironment.get?_pop covered, unsaved, Option.getD_none]

theorem set_cons_of_mem (globals : Bindings Value) {frame : Bindings Value} {name : String}
    (bound : name ∈ frame.names) (below : List (Bindings Value)) (value : Value) :
    (⟨globals, frame :: below, .dynamic⟩ : Environment).set name value =
      ⟨globals, frame.put name value :: below, .dynamic⟩ := by
  simp only [set, update?, Bindings.has_eq_true_iff.mpr bound, if_true]

theorem set_cons_of_not_mem (globals : Bindings Value) {frame : Bindings Value} {name : String}
    (free : name ∉ frame.names) (below : List (Bindings Value)) (value : Value) :
    (⟨globals, frame :: below, .dynamic⟩ : Environment).set name value =
      { (⟨globals, below, .dynamic⟩ : Environment).set name value with
        frames := frame :: ((⟨globals, below, .dynamic⟩ : Environment).set name value).frames } := by
  simp only [set, update?, mt Bindings.has_eq_true_iff.mp free]
  cases update? name value below <;> rfl

/-- A write to a name that the innermost frame does not have goes through it, to where it would go
    without the frame. -/
theorem Mirrors.set {globals : Bindings Value} {frames : List (Bindings Value)}
    {flat : FlatEnvironment} (mirrors : Mirrors globals frames flat) (name : String)
    (value : Value) :
    Mirrors ((⟨globals, frames, .dynamic⟩ : Environment).set name value).globals
      ((⟨globals, frames, .dynamic⟩ : Environment).set name value).frames
      (flat.set name value) := by
  induction frames generalizing flat with
  | nil =>
      refine ⟨mirrors.1, fun other => ?_⟩
      rw [FlatEnvironment.get?_set, mirrors.2 other]
      exact (Bindings.get?_put name other value globals).symm
  | cons frame below ih =>
      obtain ⟨⟨saved, rest, covered, names⟩, seen, deeper⟩ := mirrors
      by_cases bound : name ∈ frame.names
      · rw [set_cons_of_mem globals bound]
        have alike := FlatEnvironment.alike_pop_set covered (names ▸ bound) value
        refine ⟨⟨saved, rest, covered, ?_⟩, ?_, deeper.congr alike⟩
        · rw [Bindings.names_put_of_mem bound, names]
        · intro other inFrame
          rw [Bindings.names_put_of_mem bound] at inFrame
          rw [FlatEnvironment.get?_set, Bindings.get?_put, seen other inFrame]
      · rw [set_cons_of_not_mem globals bound]
        have alike := FlatEnvironment.alike_set_pop covered (names ▸ bound) value
        refine ⟨⟨saved, rest, covered, names⟩, ?_, (ih deeper).congr alike⟩
        intro other inFrame
        have differs : name ≠ other := fun same => bound (same ▸ inFrame)
        rw [FlatEnvironment.get?_set, if_neg differs, seen other inFrame]

theorem Mirrors.push {globals : Bindings Value} {frames : List (Bindings Value)}
    {flat : FlatEnvironment} (mirrors : Mirrors globals frames flat) (frame : Bindings Value) :
    Mirrors globals (frame :: frames) (flat.push frame) := by
  refine ⟨⟨_, _, rfl, FlatEnvironment.names_saved flat.vars frame⟩, ?_, mirrors.congr ⟨?_, ?_⟩⟩
  · intro name bound
    obtain ⟨value, here⟩ := Option.isSome_iff_exists.mp (Bindings.has_eq_true_iff.mpr bound)
    rw [here]
    simp only [FlatEnvironment.push, FlatEnvironment.get?, FlatEnvironment.get?_overwrite, here,
      Option.some_or]
  · exact fun name => (flat.get?_pop_push frame name).symm
  · exact (flat.push frame).saved_pop.symm

theorem Mirrors.pop {globals : Bindings Value} {frames : List (Bindings Value)}
    {flat : FlatEnvironment} (mirrors : Mirrors globals frames flat) :
    Mirrors globals frames.tail flat.pop := by
  cases frames with
  | nil =>
      have unchanged : flat.pop = flat := by
        simp only [FlatEnvironment.pop, mirrors.1]
      rw [unchanged]
      exact mirrors
  | cons frame below => exact mirrors.2.2

end Environment

/-- An operation on the variables of a program. -/
inductive Operation where
  | get (name : String)
  | set (name : String) (value : Value)
  | push (frame : Bindings Value)
  | pop

/-- A way to keep the variables of a program in a state of type `σ`. -/
structure Keeping (σ : Type) where
  get? : σ → String → Option Value
  set : σ → String → Value → σ
  push : σ → Bindings Value → σ
  pop : σ → σ

/-- What is answered to each `get` of a sequence of operations, in order. -/
def Keeping.answers {σ : Type} (keeping : Keeping σ) (state : σ) :
    List Operation → List (Option Value)
  | [] => []
  | .get name :: rest => keeping.get? state name :: keeping.answers state rest
  | .set name value :: rest => keeping.answers (keeping.set state name value) rest
  | .push frame :: rest => keeping.answers (keeping.push state frame) rest
  | .pop :: rest => keeping.answers (keeping.pop state) rest

/-- Variables in frames. -/
def Environment.keeping : Keeping Environment where
  get? := Environment.get?
  set := Environment.set
  push := Environment.push
  pop := Environment.pop

/-- Variables in one flat map. -/
def FlatEnvironment.keeping : Keeping FlatEnvironment where
  get? := FlatEnvironment.get?
  set := FlatEnvironment.set
  push := FlatEnvironment.push
  pop := FlatEnvironment.pop

theorem Environment.Mirrors.answers_eq {e : Environment} {flat : FlatEnvironment}
    (dynamic : e.scoping = .dynamic) (mirrors : Mirrors e.globals e.frames flat)
    (operations : List Operation) :
    Environment.keeping.answers e operations =
      FlatEnvironment.keeping.answers flat operations := by
  induction operations generalizing e flat with
  | nil => rfl
  | cons operation rest ih =>
      obtain ⟨globals, frames, scoping⟩ := e
      obtain rfl : scoping = .dynamic := dynamic
      cases operation with
      | get name =>
          have same := mirrors.get?_eq name
          have others := ih rfl mirrors
          simp only [Keeping.answers, others]
          exact congrArg (· :: _) same
      | set name value => exact ih (Environment.set_scoping _ name value) (mirrors.set name value)
      | push frame => exact ih rfl (mirrors.push frame)
      | pop => exact ih rfl mirrors.pop

/-- Under dynamic scoping, every sequence of writes, lookups, opened and closed frames is answered
    by the stack of frames as by one flat map that saves and restores. -/
theorem dynamic_frames_refine_saving (operations : List Operation) :
    Environment.keeping.answers (Environment.empty .dynamic) operations =
      FlatEnvironment.keeping.answers FlatEnvironment.empty operations := by
  refine Environment.Mirrors.answers_eq rfl ?_ operations
  exact ⟨rfl, fun _ => rfl⟩

end MinangScript
