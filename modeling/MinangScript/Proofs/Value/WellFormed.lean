import MinangScript.Machine.Evaluator
import MinangScript.Proofs.Environment.Names
import MinangScript.Proofs.Json.Order

/-! # Well-formed values

No object in a well-formed value has a key twice, and every function in it has the name of one in the
table of functions, or of a method of one. What a value is made of is all that counts, so the table may
grow: a value that was well formed stays so. Operators and built-in functions make values that are well
formed in every table.
-/

namespace MinangScript

/-- The name is in the table, or it is the name of a method of a function that is. -/
def Bindings.Knows (table : Bindings Function) (name : String) : Prop :=
  name ∈ table.names ∨ ∃ owner method, name = owner ++ "." ++ method ∧ owner ∈ table.names

theorem Bindings.Knows.mem_of_no_point {table : Bindings Function} {name : String}
    (known : table.Knows name) (plain : '.' ∉ name.toList) : name ∈ table.names := by
  obtain member | ⟨owner, method, rfl, -⟩ := known
  · exact member
  · simp at plain

namespace Value

mutual

/-- A value and all values inside of it. -/
def parts : Value → List Value
  | array tag items => array tag items :: partsEach items
  | object tag fields => object tag fields :: partsFields fields
  | null => [null]
  | bool value => [bool value]
  | number value => [number value]
  | string text => [string text]
  | regex tag pattern flags => [regex tag pattern flags]
  | function name params => [function name params]

def partsEach : List Value → List Value
  | [] => []
  | v :: rest => v.parts ++ partsEach rest

def partsFields : List (String × Value) → List Value
  | [] => []
  | (_, v) :: rest => v.parts ++ partsFields rest

end

/-- What is asked of a value itself, without the values inside of it. -/
def Formed (table : Bindings Function) : Value → Prop
  | object _ fields => (Bindings.names fields).Nodup
  | function name _ => table.Knows name
  | _ => True

/-- The value and all values inside of it are formed as they should be. -/
def WellFormed (table : Bindings Function) (v : Value) : Prop :=
  ∀ part ∈ v.parts, part.Formed table

variable {table : Bindings Function}

theorem forall_mem_partsEach {p : Value → Prop} {items : List Value} :
    (∀ part ∈ partsEach items, p part) ↔ ∀ v ∈ items, ∀ part ∈ v.parts, p part := by
  induction items with
  | nil => simp [partsEach]
  | cons v rest ih => simp only [partsEach, List.forall_mem_append, List.forall_mem_cons, ih]

theorem forall_mem_partsFields {p : Value → Prop} {fields : List (String × Value)} :
    (∀ part ∈ partsFields fields, p part) ↔ ∀ field ∈ fields, ∀ part ∈ field.2.parts, p part := by
  induction fields with
  | nil => simp [partsFields]
  | cons field rest ih => simp only [partsFields, List.forall_mem_append, List.forall_mem_cons, ih]

@[simp] theorem wellFormed_null : null.WellFormed table := by
  simp [WellFormed, parts, Formed]

@[simp] theorem wellFormed_bool (value : Bool) : (bool value).WellFormed table := by
  simp [WellFormed, parts, Formed]

@[simp] theorem wellFormed_number (value : Float) : (number value).WellFormed table := by
  simp [WellFormed, parts, Formed]

@[simp] theorem wellFormed_string (text : String) : (string text).WellFormed table := by
  simp [WellFormed, parts, Formed]

@[simp] theorem wellFormed_regex (tag : Nat) (pattern flags : String) :
    (regex tag pattern flags).WellFormed table := by
  simp [WellFormed, parts, Formed]

@[simp] theorem wellFormed_function {name : String} {params : Option (List String)} :
    (function name params).WellFormed table ↔ table.Knows name := by
  simp [WellFormed, parts, Formed]

@[simp] theorem wellFormed_array {tag : Nat} {items : List Value} :
    (array tag items).WellFormed table ↔ ∀ v ∈ items, v.WellFormed table := by
  simp only [WellFormed, parts, List.forall_mem_cons, Formed, true_and, forall_mem_partsEach]

@[simp] theorem wellFormed_object {tag : Nat} {fields : List (String × Value)} :
    (object tag fields).WellFormed table ↔
      (Bindings.names fields).Nodup ∧ ∀ field ∈ fields, field.2.WellFormed table := by
  simp only [WellFormed, parts, List.forall_mem_cons, Formed, forall_mem_partsFields]

/-- A larger table knows all that a smaller one does. -/
theorem WellFormed.mono {later : Bindings Function} {v : Value} (formed : v.WellFormed table)
    (grows : table.names ⊆ later.names) : v.WellFormed later := by
  intro part inside
  have here := formed part inside
  cases part with
  | function name params =>
      obtain member | ⟨owner, method, same, member⟩ := here
      · exact .inl (grows member)
      · exact .inr ⟨owner, method, same, grows member⟩
  | _ => exact here

/-! ## Values that are made from nothing known -/

theorem nodup_names_sorted (fields : List (String × Value)) :
    (Bindings.names (Json.sorted fields)).Nodup := by
  rw [Bindings.names, List.Nodup, List.pairwise_map]
  refine (Json.ascending_sorted fields).imp ?_
  rintro a b less same
  exact String.lt_irrefl _ (same ▸ less)

mutual

/-- A document holds no functions, and its keys are put in order, each once. -/
theorem wellFormed_ofJson (tag : Nat) (j : Json) : (ofJson tag j).1.WellFormed table := by
  cases j with
  | null | bool | integer | float | string => simp [ofJson]
  | array items =>
      simp only [ofJson, wellFormed_array]
      exact wellFormed_ofItems (tag + 1) items
  | object fields =>
      simp only [ofJson, wellFormed_object]
      refine ⟨nodup_names_sorted _, fun field member => ?_⟩
      exact wellFormed_ofFields (tag + 1) fields field (Json.mem_of_mem_sorted member)
termination_by sizeOf j

theorem wellFormed_ofItems (tag : Nat) (items : List Json) :
    ∀ v ∈ (ofItems tag items).1, v.WellFormed table := by
  cases items with
  | nil => simp [ofItems]
  | cons j rest =>
      simp only [ofItems, List.forall_mem_cons]
      exact ⟨wellFormed_ofJson tag j, wellFormed_ofItems _ rest⟩
termination_by sizeOf items

theorem wellFormed_ofFields (tag : Nat) (fields : List (String × Json)) :
    ∀ field ∈ (ofFields tag fields).1, field.2.WellFormed table := by
  match fields with
  | [] => simp [ofFields]
  | (key, j) :: rest =>
      simp only [ofFields, List.forall_mem_cons]
      exact ⟨wellFormed_ofJson tag j, wellFormed_ofFields _ rest⟩
termination_by sizeOf fields

end

end Value

section Operators

variable {table : Bindings Function} {v : Value}

theorem BinaryOp.wellFormed_of_onNumbers {f : Float → Float → Value} {left right : Value}
    (made : ∀ a b, (f a b).WellFormed table) (is : onNumbers f left right = .ok v) :
    v.WellFormed table := by
  simp only [onNumbers, Bind.bind, Except.bind] at is
  split at is
  · cases is
  split at is
  · cases is
  · cases is
    exact made _ _

theorem BinaryOp.wellFormed_of_divide {left right : Value} (is : divide left right = .ok v) :
    v.WellFormed table := by
  simp only [divide, Bind.bind, Except.bind] at is
  split at is
  · cases is
  split at is
  · cases is
  split at is
  · cases is
  · cases is
    exact Value.wellFormed_number _

theorem BinaryOp.wellFormed_plus (left right : Value) : (plus left right).WellFormed table := by
  unfold plus
  split <;> simp

theorem BinaryOp.wellFormed_of_apply {op : BinaryOp} {left right : Value}
    (is : op.apply left right = .ok v) : v.WellFormed table := by
  cases op with
  | or | and | eq | ne =>
      cases is
      exact Value.wellFormed_bool _
  | add =>
      cases is
      exact wellFormed_plus left right
  | lt | le | gt | ge => exact wellFormed_of_onNumbers (fun _ _ => Value.wellFormed_bool _) is
  | sub | mul | mod => exact wellFormed_of_onNumbers (fun _ _ => Value.wellFormed_number _) is
  | div => exact wellFormed_of_divide is

theorem UnaryOp.wellFormed_of_apply {op : UnaryOp} {operand : Value}
    (is : op.apply operand = .ok v) : v.WellFormed table := by
  cases op with
  | not =>
      cases is
      exact Value.wellFormed_bool _
  | neg =>
      simp only [UnaryOp.apply] at is
      cases read : operand.toNumber with
      | error e =>
          rw [read] at is
          cases is
      | ok n =>
          rw [read] at is
          cases is
          exact Value.wellFormed_number _

/-- What a built-in function answers with holds no function, whatever it was given. -/
theorem Builtin.wellFormed_call (b : Builtin) (args : List Value) (tag : Nat) :
    (b.call args tag).value.WellFormed table := by
  cases b with
  | readJson =>
      unfold call
      dsimp only
      split
      · exact Value.wellFormed_ofJson tag _
      · exact Value.wellFormed_null
  | writeJson | printTable =>
      unfold call
      dsimp only
      split <;> simp [say]
  | _ => simp [call, say]

end Operators

end MinangScript
