import MinangScript.Environment

/-! # Names under writing

Putting a thing under a name never loses another name, and a write to an environment goes to a
frame only if the frame has the name already. So writing changes values but not which names a
frame binds.
-/

namespace MinangScript

namespace Bindings

variable {α : Type}

theorem has_eq_true_iff {name : String} {b : Bindings α} : b.has name = true ↔ name ∈ b.names := by
  induction b with
  | nil => simp [has, get?, names]
  | cons entry rest ih =>
      obtain ⟨key, value⟩ := entry
      simp only [has, names] at ih
      by_cases same : key = name
      · simp [has, get?, names, same]
      · simpa [has, get?, names, same, Ne.symm same] using ih

theorem get?_eq_none_iff {name : String} {b : Bindings α} :
    b.get? name = none ↔ name ∉ b.names := by
  rw [← has_eq_true_iff, has, Option.not_isSome_iff_eq_none]

theorem mem_of_get? {name : String} {value : α} {b : Bindings α} (found : b.get? name = some value) :
    (name, value) ∈ b := by
  induction b with
  | nil => simp [get?] at found
  | cons entry rest ih =>
      simp only [get?] at found
      split at found
      · rename_i same
        cases found
        exact same ▸ List.mem_cons_self
      · exact List.mem_cons_of_mem entry (ih found)

theorem names_put_of_mem {name : String} {b : Bindings α} (member : name ∈ b.names) (value : α) :
    (b.put name value).names = b.names := by
  induction b with
  | nil => simp [names] at member
  | cons entry rest ih =>
      obtain ⟨key, old⟩ := entry
      by_cases same : key = name
      · simp [put, names, same]
      · have inRest : name ∈ names rest := by
          simpa [names, Ne.symm same] using member
        simpa [put, names, same] using ih inRest

theorem names_put_of_not_mem {name : String} {b : Bindings α} (absent : name ∉ b.names)
    (value : α) : (b.put name value).names = b.names ++ [name] := by
  induction b with
  | nil => rfl
  | cons entry rest ih =>
      obtain ⟨key, old⟩ := entry
      obtain ⟨differs, notInRest⟩ : name ≠ key ∧ name ∉ names rest := by
        simpa [names] using absent
      simpa [put, names, Ne.symm differs] using ih notInRest

/-- A name that is there stays there, whatever is put under whichever name. -/
theorem names_subset_put (b : Bindings α) (name : String) (value : α) :
    b.names ⊆ (b.put name value).names := by
  by_cases member : name ∈ b.names
  · rw [names_put_of_mem member]
    exact List.Subset.refl _
  · rw [names_put_of_not_mem member]
    exact List.subset_append_left _ _

theorem mem_names_put {name key : String} {value : α} {b : Bindings α} :
    name ∈ (b.put key value).names ↔ name ∈ b.names ∨ name = key := by
  by_cases member : key ∈ b.names
  · rw [names_put_of_mem member]
    exact ⟨.inl, fun either => either.elim id fun same => same ▸ member⟩
  · rw [names_put_of_not_mem member, List.mem_append, List.mem_singleton]

theorem mem_names_ofPairs {name : String} {pairs : List (String × α)} :
    name ∈ (ofPairs pairs).names ↔ name ∈ pairs.map (·.1) := by
  have general : ∀ b : Bindings α,
      name ∈ (pairs.foldl (fun b pair => b.put pair.1 pair.2) b).names ↔
        name ∈ b.names ∨ name ∈ pairs.map (·.1) := by
    induction pairs with
    | nil => simp
    | cons pair rest ih =>
        intro b
        rw [List.foldl_cons, ih, mem_names_put, List.map_cons, List.mem_cons, or_assoc]
  exact (general []).trans (by simp [names])

end Bindings

namespace Environment

theorem names_of_update? {name : String} {value : Value} {frames updated : List (Bindings Value)}
    (h : update? name value frames = some updated) :
    updated.map Bindings.names = frames.map Bindings.names := by
  induction frames generalizing updated with
  | nil => simp [update?] at h
  | cons frame rest ih =>
      simp only [update?] at h
      split at h
      · rename_i bound
        obtain rfl := Option.some.inj h
        simp [Bindings.names_put_of_mem (Bindings.has_eq_true_iff.mp bound)]
      · obtain ⟨below, inner, rfl⟩ := Option.map_eq_some_iff.mp h
        simp [ih inner]

/-- A write goes to one of the frames, without changing the names of any, or to the global
    variables. -/
theorem set_cases (e : Environment) (name : String) (value : Value) :
    (∃ frames, e.set name value = { e with frames := frames } ∧
      frames.map Bindings.names = e.frames.map Bindings.names) ∨
    e.set name value = { e with globals := e.globals.put name value } := by
  unfold set
  cases e.scoping with
  | dynamic =>
      cases updated : update? name value e.frames with
      | none => exact .inr rfl
      | some frames => exact .inl ⟨frames, rfl, names_of_update? updated⟩
  | lexical =>
      cases all : e.frames with
      | nil => exact .inr rfl
      | cons frame rest =>
          cases updated : update? name value [frame] with
          | none => exact .inr (by simp only [updated, Option.map_none])
          | some innermost =>
              refine .inl ⟨innermost ++ rest, by simp only [updated, Option.map_some], ?_⟩
              simp only [List.map_append, names_of_update? updated, List.map_cons, List.map_nil,
                List.singleton_append]

@[simp] theorem set_scoping (e : Environment) (name : String) (value : Value) :
    (e.set name value).scoping = e.scoping := by
  obtain ⟨frames, same, -⟩ | same := e.set_cases name value <;> rw [same]

theorem set_frame_names (e : Environment) (name : String) (value : Value) :
    (e.set name value).frames.map Bindings.names = e.frames.map Bindings.names := by
  obtain ⟨frames, same, names⟩ | same := e.set_cases name value
  · rw [same]
    exact names
  · rw [same]

theorem globals_subset_set (e : Environment) (name : String) (value : Value) :
    e.globals.names ⊆ (e.set name value).globals.names := by
  obtain ⟨frames, same, -⟩ | same := e.set_cases name value
  · rw [same]
    exact List.Subset.refl _
  · rw [same]
    exact e.globals.names_subset_put name value

end Environment

end MinangScript
