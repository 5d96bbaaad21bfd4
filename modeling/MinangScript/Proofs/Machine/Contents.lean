import MinangScript.Proofs.Machine.Errors
import MinangScript.Proofs.Machine.Traced
import MinangScript.Proofs.Value.WellFormed

/-! # The values in a machine

Variables live in the frames of the calls that are going on and among the globals. A machine is well
formed when the value of each of them is, the hidden ones included, and what a single step writes or
reads keeps to that. An error that a function is missing is honest when the table does not have it.
-/

namespace MinangScript

/-! ## Variables -/

/-- The property holds of everything that is bound. -/
def Bindings.Each {α : Type} (p : α → Prop) (b : Bindings α) : Prop :=
  ∀ entry ∈ b, p entry.2

namespace Bindings

variable {α : Type} {p : α → Prop}

theorem Each.get? {b : Bindings α} (each : b.Each p) {name : String} {value : α}
    (found : b.get? name = some value) : p value :=
  each _ (mem_of_get? found)

theorem Each.put {b : Bindings α} (each : b.Each p) (name : String) {value : α} (holds : p value) :
    (b.put name value).Each p := by
  induction b with
  | nil => exact List.forall_mem_singleton.mpr holds
  | cons entry rest ih =>
      obtain ⟨here, others⟩ := List.forall_mem_cons.mp each
      simp only [Bindings.put]
      split
      · exact List.forall_mem_cons.mpr ⟨holds, others⟩
      · exact List.forall_mem_cons.mpr ⟨here, ih others⟩

theorem each_ofPairs {pairs : List (String × α)} (each : ∀ pair ∈ pairs, p pair.2) :
    (ofPairs pairs).Each p := by
  have general : ∀ b : Bindings α, b.Each p →
      (pairs.foldl (fun b pair => b.put pair.1 pair.2) b).Each p := by
    induction pairs with
    | nil => exact fun b holds => holds
    | cons pair rest ih =>
        obtain ⟨here, others⟩ := List.forall_mem_cons.mp each
        exact fun b holds => ih others _ (holds.put pair.1 here)
  exact general [] (List.forall_mem_nil _)

theorem nodup_names_put {b : Bindings α} (distinct : b.names.Nodup) (name : String) (value : α) :
    (b.put name value).names.Nodup := by
  by_cases member : name ∈ b.names
  · rwa [names_put_of_mem member]
  · rw [names_put_of_not_mem member]
    refine List.nodup_append.mpr ⟨distinct, List.pairwise_singleton _ _, ?_⟩
    rintro other inside added isName rfl
    exact member (List.mem_singleton.mp isName ▸ inside)

end Bindings

namespace Environment

/-- The property holds of the value of every variable, those that are not visible included. -/
structure Each (p : Value → Prop) (e : Environment) : Prop where
  globals : e.globals.Each p
  frames : ∀ frame ∈ e.frames, frame.Each p

variable {p : Value → Prop} {e : Environment}

theorem each_lookup? {frames : List (Bindings Value)} (each : ∀ frame ∈ frames, frame.Each p)
    {name : String} {value : Value} (found : lookup? name frames = some value) : p value := by
  induction frames with
  | nil => cases found
  | cons frame rest ih =>
      obtain ⟨here, others⟩ := List.forall_mem_cons.mp each
      simp only [lookup?] at found
      split at found
      · rename_i inside
        cases found
        exact here.get? inside
      · exact ih others found

theorem each_update? {frames updated : List (Bindings Value)}
    (each : ∀ frame ∈ frames, frame.Each p) {name : String} {value : Value} (holds : p value)
    (written : update? name value frames = some updated) : ∀ frame ∈ updated, frame.Each p := by
  induction frames generalizing updated with
  | nil => cases written
  | cons frame rest ih =>
      obtain ⟨here, others⟩ := List.forall_mem_cons.mp each
      simp only [update?] at written
      split at written
      · cases written
        exact List.forall_mem_cons.mpr ⟨here.put name holds, others⟩
      · obtain ⟨below, inner, rfl⟩ := Option.map_eq_some_iff.mp written
        exact List.forall_mem_cons.mpr ⟨here, ih others inner⟩

theorem Each.get? (each : e.Each p) {name : String} {value : Value}
    (found : e.get? name = some value) : p value := by
  have visible : ∀ frame ∈ e.visible, frame.Each p := by
    intro frame member
    unfold Environment.visible at member
    split at member
    · exact each.frames frame member
    · exact each.frames frame (List.mem_of_mem_take member)
  unfold Environment.get? at found
  split at found
  · rename_i inside
    cases found
    exact each_lookup? visible inside
  · exact each.globals.get? found

theorem Each.set (each : e.Each p) (name : String) {value : Value} (holds : p value) :
    (e.set name value).Each p := by
  unfold Environment.set
  dsimp only
  split
  · rename_i frames written
    refine { each with frames := ?_ }
    split at written
    · exact each_update? each.frames holds written
    · split at written
      · cases written
      · rename_i frame rest all
        have before := each.frames
        rw [all] at before
        obtain ⟨here, others⟩ := List.forall_mem_cons.mp before
        obtain ⟨innermost, inner, rfl⟩ := Option.map_eq_some_iff.mp written
        have inside := each_update? (List.forall_mem_singleton.mpr here) holds inner
        exact List.forall_mem_append.mpr ⟨inside, others⟩
  · exact { each with globals := each.globals.put name holds }

theorem Each.push (each : e.Each p) {frame : Bindings Value} (holds : frame.Each p) :
    (e.push frame).Each p :=
  { each with frames := List.forall_mem_cons.mpr ⟨holds, each.frames⟩ }

theorem Each.pop (each : e.Each p) : e.pop.Each p :=
  { each with frames := fun frame member => each.frames frame (List.mem_of_mem_tail member) }

theorem Each.mono {q : Value → Prop} (each : e.Each p) (weaker : ∀ v, p v → q v) : e.Each q where
  globals := fun entry member => weaker _ (each.globals entry member)
  frames := fun frame member entry inside => weaker _ (each.frames frame member entry inside)

end Environment

namespace Machine

/-- Every variable of the machine has a value that is well formed in its table of functions. -/
def WellFormed (m : Machine) : Prop :=
  m.env.Each (·.WellFormed m.functions)

variable {m : Machine}

theorem wellFormed_start (scoping : Scoping) : (start scoping).WellFormed := by
  have empty : (Environment.empty scoping).Each (·.WellFormed (start scoping).functions) :=
    ⟨List.forall_mem_nil _, List.forall_mem_nil _⟩
  exact (empty.set "PI" (Value.wellFormed_number _)).set "EULER" (Value.wellFormed_number _)

theorem WellFormed.assign (formed : m.WellFormed) (name : String) {value : Value}
    (valueFormed : value.WellFormed m.functions) : (m.assign name value).WellFormed :=
  Environment.Each.set formed name valueFormed

theorem WellFormed.declare (formed : m.WellFormed) (name : String) (f : Function) :
    (m.declare name f).WellFormed :=
  Environment.Each.mono formed fun _ valueFormed =>
    valueFormed.mono (m.functions.names_subset_put name f)

theorem WellFormed.openFrame (formed : m.WellFormed) (name : String) (params : List String)
    {args : List Value} (argsFormed : ∀ v ∈ args, v.WellFormed m.functions) :
    (m.openFrame name params args).WellFormed := by
  refine Environment.Each.push formed (Bindings.each_ofPairs fun pair member => ?_)
  exact argsFormed _ (List.of_mem_zip member).2

theorem WellFormed.closeFrame (formed : m.WellFormed) : m.closeFrame.WellFormed :=
  Environment.Each.pop formed

theorem WellFormed.lookup (formed : m.WellFormed) {id : Ident} {v : Value}
    (found : m.lookup id = .ok v) : v.WellFormed m.functions := by
  unfold Machine.lookup at found
  split at found
  · rename_i held
    cases found
    exact Environment.Each.get? formed held
  · split at found
    · rename_i isFunction
      cases found
      obtain ⟨f, inTable, rfl⟩ := Option.map_eq_some_iff.mp isFunction
      exact Value.wellFormed_function.mpr
        (.inl (List.mem_map_of_mem (Bindings.mem_of_get? inTable)))
    · cases found

/-- A property names a function of the table, or a method of one that may not exist. -/
theorem knows_method {object : Expr} {property : Ident} {found : String × Option (List String)}
    (is : m.method object property = .ok found) : m.functions.Knows found.1 := by
  unfold Machine.method at is
  split at is
  · dsimp only at is
    split at is
    · rename_i inTable
      cases is
      exact .inl (List.mem_map_of_mem (Bindings.mem_of_get? inTable))
    · split at is
      · rename_i owned
        cases is
        exact .inr ⟨_, _, rfl, Bindings.has_eq_true_iff.mp owned⟩
      · cases is
  · cases is

end Machine

/-- The error says that a function is missing only if the table does not have it. -/
def RuntimeError.Honest (table : Bindings Function) (e : RuntimeError) : Prop :=
  ∀ name, e = .undefinedFunction name → name ∉ table.names

theorem RuntimeError.Arithmetic.honest {table : Bindings Function} {e : RuntimeError}
    (arithmetic : e.Arithmetic) : e.Honest table := by
  obtain ⟨value, rfl⟩ | rfl := arithmetic <;> exact nofun

namespace Machine

variable {m : Machine} {e : RuntimeError}

theorem honest_of_method {object : Expr} {property : Ident}
    (failed : m.method object property = .error e) : e.Honest m.functions := by
  unfold Machine.method at failed
  split at failed
  · dsimp only at failed
    split at failed
    · cases failed
    · split at failed
      · cases failed
      · cases failed
        exact nofun
  · cases failed
    exact nofun

theorem honest_of_map_method {α : Type} {object : Expr} {property : Ident}
    {f : String × Option (List String) → α} (failed : (m.method object property).map f = .error e) :
    e.Honest m.functions := by
  cases answer : m.method object property with
  | ok found =>
      rw [answer] at failed
      cases failed
  | error e' =>
      rw [answer] at failed
      cases failed
      exact honest_of_method answer

theorem honest_of_callee {callee : Expr} (failed : m.callee callee = .error e) :
    e.Honest m.functions := by
  cases callee with
  | member object property => exact honest_of_map_method failed
  | ident id =>
      simp only [Machine.callee] at failed
      split at failed
      · cases failed
      · rename_i missing
        split at failed
        · cases failed
        · cases failed
          rintro name ⟨⟩ member
          exact missing (Bindings.has_eq_true_iff.mpr member)
  | assign | binary | unary | call | literal | array | object =>
      cases failed
      rintro name ⟨⟩

end Machine

end MinangScript
