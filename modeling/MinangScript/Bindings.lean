/-! # Bindings

A list of named things in the order in which the names first came up. Putting a thing under a name
that is there replaces the first one of that name where it stands.
-/

namespace MinangScript

/-- Named things, in order. -/
abbrev Bindings (α : Type) := List (String × α)

namespace Bindings

variable {α : Type}

def get? (name : String) : Bindings α → Option α
  | [] => none
  | (key, value) :: rest => if key = name then some value else get? name rest

def has (name : String) (b : Bindings α) : Bool :=
  (b.get? name).isSome

/-- Puts a thing under a name, at the end if the name is new. -/
def put (name : String) (value : α) : Bindings α → Bindings α
  | [] => [(name, value)]
  | (key, old) :: rest =>
    if key = name then (key, value) :: rest else (key, old) :: put name value rest

def names (b : Bindings α) : List String :=
  b.map (·.1)

/-- The bindings of a list of pairs; of two things of one name the later one counts. -/
def ofPairs (pairs : List (String × α)) : Bindings α :=
  pairs.foldl (fun b (name, value) => b.put name value) []

/-- What was put under a name is found there, and nothing else has changed. -/
theorem get?_put (name other : String) (value : α) (b : Bindings α) :
    (b.put name value).get? other = if name = other then some value else b.get? other := by
  induction b with
  | nil => simp [put, get?]
  | cons entry rest ih =>
    obtain ⟨key, old⟩ := entry
    by_cases h : key = name
    · subst h
      simp only [put, if_true, get?]
      split <;> simp_all
    · simp only [put, h, if_false, get?, ih]
      by_cases ho : name = other
      · subst ho
        simp [h]
      · simp [ho]

end Bindings

end MinangScript
