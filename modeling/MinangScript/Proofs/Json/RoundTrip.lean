import MinangScript.Builtin
import MinangScript.Proofs.Decimal.WholeNumbers
import MinangScript.Proofs.Json.Order
import MinangScript.Proofs.Json.Reading

/-! # Values through JSON and back

A value that is written as JSON and read again comes back in its normal form, in which only what a
document can hold is left.
-/

namespace MinangScript

namespace Value

/-- Whether a value is a function. -/
def isFunction : Value → Bool
  | function _ _ => true
  | _ => false

mutual

/-- The numbers in a value. -/
def numbers : Value → List Float
  | number value => [value]
  | array _ items => numbersOfItems items
  | object _ fields => numbersOfFields fields
  | _ => []

def numbersOfItems : List Value → List Float
  | [] => []
  | item :: rest => item.numbers ++ numbersOfItems rest

def numbersOfFields : List (String × Value) → List Float
  | [] => []
  | (_, value) :: rest => value.numbers ++ numbersOfFields rest

end

mutual

/-- How deep arrays, objects and regexes nest in a value. -/
def nesting : Value → Nat
  | array _ items => nestingOfItems items + 1
  | object _ fields => nestingOfFields fields + 1
  | regex _ _ _ => 1
  | _ => 0

def nestingOfItems : List Value → Nat
  | [] => 0
  | item :: rest => max item.nesting (nestingOfItems rest)

def nestingOfFields : List (String × Value) → Nat
  | [] => 0
  | (_, value) :: rest => max value.nesting (nestingOfFields rest)

end

mutual

/-- What is left of a value in a document: numbers that are not finite and functions are null, a
regex is an empty object, and an object has no properties that are functions; of those with one key
it has the last, in the order of their bytes. -/
def normal : Value → Value
  | null => null
  | bool value => bool value
  | number value => if value.isFinite then number value else null
  | string text => string text
  | array _ items => array 0 (normalItems items)
  | object _ fields => object 0 (Json.byKey (Json.lastOfEach (normalFields fields)))
  | regex _ _ _ => object 0 []
  | function _ _ => null

def normalItems : List Value → List Value
  | [] => []
  | item :: rest => item.normal :: normalItems rest

/-- The normal forms of the properties of an object, without the functions. -/
def normalFields : List (String × Value) → List (String × Value)
  | [] => []
  | (key, value) :: rest =>
    if value.isFunction then normalFields rest else (key, value.normal) :: normalFields rest

end

mutual

/-- Whether two values are built alike, whatever their tags are; numbers are compared as numbers. -/
def alike : Value → Value → Bool
  | null, null => true
  | bool a, bool b => a == b
  | number a, number b => a == b
  | string a, string b => a == b
  | array _ as, array _ bs => alikeItems as bs
  | object _ as, object _ bs => alikeFields as bs
  | regex _ pattern flags, regex _ pattern' flags' => pattern == pattern' && flags == flags'
  | function name params, function name' params' => name == name' && params == params'
  | _, _ => false

def alikeItems : List Value → List Value → Bool
  | [], [] => true
  | a :: as, b :: bs => a.alike b && alikeItems as bs
  | _, _ => false

/-- Whether properties are alike one by one, under the same keys. -/
def alikeFields : List (String × Value) → List (String × Value) → Bool
  | [], [] => true
  | (key, a) :: as, (key', b) :: bs => key == key' && a.alike b && alikeFields as bs
  | _, _ => false

end

theorem inductionOn {motive : Value → Prop} (v : Value)
    (null : motive .null)
    (bool : ∀ value, motive (.bool value))
    (number : ∀ value, motive (.number value))
    (string : ∀ text, motive (.string text))
    (array : ∀ tag items, (∀ v ∈ items, motive v) → motive (.array tag items))
    (object : ∀ tag (fields : List (String × Value)), (∀ f ∈ fields, motive f.2) →
      motive (.object tag fields))
    (regex : ∀ tag pattern flags, motive (.regex tag pattern flags))
    (function : ∀ name params, motive (.function name params)) : motive v :=
  @Value.rec motive (fun vs => ∀ v ∈ vs, motive v) (fun fs => ∀ f ∈ fs, motive f.2)
    (fun f => motive f.2) null bool number string array object regex function
    (List.forall_mem_nil _) (fun _ _ head tail => List.forall_mem_cons.mpr ⟨head, tail⟩)
    (List.forall_mem_nil _) (fun _ _ head tail => List.forall_mem_cons.mpr ⟨head, tail⟩)
    (fun _ _ value => value) v

/-- The document of a value, which is null for a function. -/
def document (v : Value) : Json :=
  v.toJson?.getD .null

theorem toJson?_eq (v : Value) : v.toJson? = if v.isFunction then none else some v.document := by
  cases v <;> rfl

/-- The properties of an object that have a document. -/
def written (fields : List (String × Value)) : List (String × Value) :=
  fields.filter fun field => !field.2.isFunction

section Lists

variable {items : List Value} {fields : List (String × Value)}

theorem itemsToJson_eq : itemsToJson items = items.map document := by
  induction items with
  | nil => rfl
  | cons item rest ih => simp [itemsToJson, ih, document]

theorem fieldsToJson_eq : fieldsToJson fields = (written fields).map (Prod.map id document) := by
  induction fields with
  | nil => rfl
  | cons field rest ih =>
    rcases field with ⟨key, value⟩
    rw [fieldsToJson, toJson?_eq, ih]
    cases function : value.isFunction <;> simp [written, function]

theorem normalItems_eq : normalItems items = items.map normal := by
  induction items with
  | nil => rfl
  | cons item rest ih => simp [normalItems, ih]

theorem normalFields_eq : normalFields fields = (written fields).map (Prod.map id normal) := by
  induction fields with
  | nil => rfl
  | cons field rest ih =>
    rcases field with ⟨key, value⟩
    rw [normalFields, ih]
    cases function : value.isFunction <;> simp [written, function]

theorem mem_numbersOfItems {n : Float} :
    n ∈ numbersOfItems items ↔ ∃ item ∈ items, n ∈ item.numbers := by
  induction items with
  | nil => simp [numbersOfItems]
  | cons item rest ih => simp [numbersOfItems, ih]

theorem mem_numbersOfFields {n : Float} :
    n ∈ numbersOfFields fields ↔ ∃ field ∈ fields, n ∈ field.2.numbers := by
  induction fields with
  | nil => simp [numbersOfFields]
  | cons field rest ih => simp [numbersOfFields, ih]

theorem nestingOfItems_le {depth : Nat} :
    nestingOfItems items ≤ depth ↔ ∀ item ∈ items, item.nesting ≤ depth := by
  induction items with
  | nil => simp [nestingOfItems]
  | cons item rest ih => simp [nestingOfItems, ih]

theorem nestingOfFields_le {depth : Nat} :
    nestingOfFields fields ≤ depth ↔ ∀ field ∈ fields, field.2.nesting ≤ depth := by
  induction fields with
  | nil => simp [nestingOfFields]
  | cons field rest ih => simp [nestingOfFields, ih]

end Lists

theorem document_number (n : Float) : (number n).document = Number.toJson n :=
  rfl

theorem document_array (tag : Nat) (items : List Value) :
    (array tag items).document = .array (items.map document) := by
  simp [document, toJson?, itemsToJson_eq]

theorem document_object (tag : Nat) (fields : List (String × Value)) :
    (object tag fields).document =
      .object ((Json.sorted (written fields)).map (Prod.map id document)) := by
  simp [document, toJson?, fieldsToJson_eq, Json.sorted_map]

theorem normal_object (tag : Nat) (fields : List (String × Value)) :
    (object tag fields).normal =
      .object 0 ((Json.sorted (written fields)).map (Prod.map id normal)) := by
  rw [normal, ← Json.sorted_eq, normalFields_eq, Json.sorted_map]

theorem ascending_document (fields : List (String × Value)) :
    Json.Ascending ((Json.sorted fields).map (Prod.map id document)) := by
  rw [← Json.sorted_map]
  exact Json.ascending_sorted _

theorem mem_of_mem_sorted_written {fields : List (String × Value)} {field : String × Value}
    (member : field ∈ Json.sorted (written fields)) : field ∈ fields :=
  (List.mem_filter.mp (Json.mem_of_mem_sorted member)).1

end Value

/-- Whether a number is an integer below `2 ^ 53`, if it is finite. -/
def Number.IsSafe (n : Float) : Prop :=
  n.isFinite = true → ∃ k : Int, Number.whole? n = some k ∧ k.natAbs < 2 ^ 53

/-- A safe number is written as an integer or, if it is not finite, as null. -/
theorem Number.IsSafe.toJson {n : Float} (safe : IsSafe n) :
    n.isFinite = false ∧ Number.toJson n = .null ∨
      ∃ k : Int, n.isFinite = true ∧ Number.whole? n = some k ∧ k.natAbs < 2 ^ 53 ∧
        Number.toJson n = .integer k := by
  cases finite : n.isFinite with
  | true =>
    rcases safe finite with ⟨k, whole, small⟩
    right
    exact ⟨k, rfl, whole, small, Binary64.toJson_of_whole? small whole⟩
  | false =>
    left
    refine ⟨rfl, ?_⟩
    rw [Number.toJson]
    split
    · rename_i bits
      rw [Binary64.isFinite_iff.mpr ⟨_, _, _, bits⟩] at finite
      cases finite
    · rfl

/-- Documents as values have them: numbers are integers below `2 ^ 53`, and keys ascend. -/
def Json.Settled : Json → Prop
  | integer n => n.natAbs < 2 ^ 53
  | float _ => False
  | object fields => Ascending fields
  | _ => True

theorem Json.Settled.fitsWord {j : Json} (settled : j.Settled) : j.FitsWord := by
  cases j with
  | integer n =>
    have small : n.natAbs < 2 ^ 53 := settled
    constructor <;> omega
  | float value => cases settled
  | _ => trivial

namespace Value

/-- Whether all finite numbers in a value are integers below `2 ^ 53`. -/
def Safe (v : Value) : Prop :=
  ∀ n ∈ v.numbers, Number.IsSafe n

theorem Safe.item {tag : Nat} {items : List Value} (safe : (array tag items).Safe) {item : Value}
    (member : item ∈ items) : item.Safe := by
  intro n occurs
  exact safe n (mem_numbersOfItems.mpr ⟨item, member, occurs⟩)

theorem Safe.field {tag : Nat} {fields : List (String × Value)} (safe : (object tag fields).Safe)
    {field : String × Value} (member : field ∈ fields) : field.2.Safe := by
  intro n occurs
  exact safe n (mem_numbersOfFields.mpr ⟨field, member, occurs⟩)

theorem settled_document {v : Value} (safe : v.Safe) {depth : Nat}
    (shallow : v.nesting ≤ depth) : v.document.Within Json.Settled depth := by
  induction v using inductionOn generalizing depth with
  | null | bool | string | function => cases depth <;> trivial
  | number n =>
    rw [document_number]
    rcases (safe n (.head _)).toJson with ⟨_, json⟩ | ⟨k, _, _, small, json⟩
    · rw [json]
      cases depth <;> trivial
    · rw [json]
      cases depth <;> exact small
  | array tag items ih =>
    rw [document_array]
    cases depth with
    | zero => cases shallow
    | succ depth =>
      have inside := nestingOfItems_le.mp (Nat.le_of_succ_le_succ shallow)
      constructor
      · trivial
      · intro j member
        rcases List.mem_map.mp member with ⟨item, present, rfl⟩
        exact ih item present (safe.item present) (inside item present)
  | object tag fields ih =>
    rw [document_object]
    cases depth with
    | zero => cases shallow
    | succ depth =>
      have inside := nestingOfFields_le.mp (Nat.le_of_succ_le_succ shallow)
      constructor
      · exact ascending_document (written fields)
      · intro j member
        rcases List.mem_map.mp member with ⟨field, present, rfl⟩
        have present := mem_of_mem_sorted_written present
        exact ih field present (safe.field present) (inside field present)
  | regex tag pattern flags =>
    cases depth with
    | zero => cases shallow
    | succ depth =>
      constructor
      · exact .nil
      · exact List.forall_mem_nil _

theorem alikeItems_ofItems {items : List Value}
    (each : ∀ item ∈ items, ∀ tag, item.normal.alike (ofJson tag item.document).1 = true)
    (tag : Nat) : alikeItems (items.map normal) (ofItems tag (items.map document)).1 = true := by
  induction items generalizing tag with
  | nil => rfl
  | cons item rest ih =>
    rw [List.forall_mem_cons] at each
    simp only [List.map_cons, ofItems, alikeItems, Bool.and_eq_true]
    exact ⟨each.1 tag, ih each.2 _⟩

theorem alikeFields_ofFields {fields : List (String × Value)}
    (each : ∀ f ∈ fields, ∀ tag, f.2.normal.alike (ofJson tag f.2.document).1 = true)
    (tag : Nat) :
    alikeFields (fields.map (Prod.map id normal))
      (ofFields tag (fields.map (Prod.map id document))).1 = true := by
  induction fields generalizing tag with
  | nil => rfl
  | cons field rest ih =>
    rw [List.forall_mem_cons] at each
    simp only [List.map_cons, Prod.map, ofFields, alikeFields, Bool.and_eq_true, beq_self_eq_true]
    exact ⟨⟨trivial, each.1 tag⟩, ih each.2 _⟩

section Read

variable {fields : List (String × Json)} {tag : Nat}

theorem keys_ofFields : (ofFields tag fields).1.map (·.1) = fields.map (·.1) := by
  induction fields generalizing tag with
  | nil => rfl
  | cons field rest ih =>
    rcases field with ⟨key, value⟩
    simp [ofFields, ih]

theorem ascending_iff_keys {α : Type} {fields : List (String × α)} :
    Json.Ascending fields ↔ (fields.map (·.1)).Pairwise (· < ·) :=
  List.pairwise_map.symm

theorem ofJson_array (tag : Nat) (items : List Json) :
    (ofJson tag (.array items)).1 = array tag (ofItems (tag + 1) items).1 :=
  rfl

/-- Ascending properties are in their places already. -/
theorem ofJson_object (ascending : Json.Ascending fields) :
    (ofJson tag (.object fields)).1 = object tag (ofFields (tag + 1) fields).1 := by
  apply congrArg (object tag)
  apply Json.sorted_of_ascending
  rw [ascending_iff_keys, keys_ofFields]
  exact ascending_iff_keys.mp ascending

end Read

/-- The document of a value is read as its normal form. -/
theorem alike_document {v : Value} (safe : v.Safe) (tag : Nat) :
    v.normal.alike (ofJson tag v.document).1 = true := by
  induction v using inductionOn generalizing tag with
  | null | function => rfl
  | bool value | string text => exact beq_self_eq_true _
  | number n =>
    -- The two zeros are read as one, so this is equality of numbers and not of floats.
    rw [document_number, normal]
    rcases (safe n (.head _)).toJson with ⟨finite, json⟩ | ⟨k, finite, whole, small, json⟩
    · rw [json, finite]
      rfl
    · rw [json, finite]
      exact Binary64.beq_floatOfInt small whole
  | array tag items ih =>
    rw [document_array, normal, normalItems_eq]
    apply alikeItems_ofItems
    intro item member
    exact ih item member (safe.item member)
  | object tag fields ih =>
    have ascending := ascending_document (written fields)
    rw [document_object, normal_object, ofJson_object ascending]
    apply alikeFields_ofFields
    intro field member
    have present := mem_of_mem_sorted_written member
    exact ih field present (safe.field present)
  | regex tag pattern flags => rfl

theorem itemsToJson_ofItems {items : List Json}
    (each : ∀ item ∈ items, ∀ tag, (ofJson tag item).1.toJson? = some item) (tag : Nat) :
    itemsToJson (ofItems tag items).1 = items := by
  induction items generalizing tag with
  | nil => rfl
  | cons item rest ih =>
    rw [List.forall_mem_cons] at each
    simp only [ofItems, itemsToJson, each.1, ih each.2, Option.getD_some]

theorem fieldsToJson_ofFields {fields : List (String × Json)}
    (each : ∀ f ∈ fields, ∀ tag, (ofJson tag f.2).1.toJson? = some f.2) (tag : Nat) :
    fieldsToJson (ofFields tag fields).1 = fields := by
  induction fields generalizing tag with
  | nil => rfl
  | cons field rest ih =>
    rw [List.forall_mem_cons] at each
    simp only [ofFields, fieldsToJson, each.1, ih each.2]

theorem toJson?_floatOfInt {n : Int} (small : n.natAbs < 2 ^ 53) :
    (number (floatOfInt n)).toJson? = some (.integer n) :=
  congrArg some (Binary64.toJson_of_whole? small (Binary64.whole?_floatOfInt small))

/-- A settled document is the document of the value it is read as. -/
theorem toJson?_ofJson {j : Json} {depth : Nat} (settled : j.Within Json.Settled depth)
    (tag : Nat) : (ofJson tag j).1.toJson? = some j := by
  -- The depth that the document keeps within carries the induction over its parts.
  induction depth generalizing j tag with
  | zero =>
    cases j with
    | integer n => exact toJson?_floatOfInt settled.holds
    | float => cases settled.holds
    | array | object => cases settled
    | _ => rfl
  | succ depth ih =>
    cases j with
    | integer n => exact toJson?_floatOfInt settled.holds
    | float => cases settled.holds
    | array items =>
      rw [ofJson_array, toJson?, itemsToJson_ofItems]
      intro item member
      exact ih (settled.2 item member)
    | object fields =>
      rw [ofJson_object settled.1, toJson?, fieldsToJson_ofFields,
        Json.sorted_of_ascending settled.1]
      intro field member
      exact ih (settled.2 field member)
    | _ => rfl

end Value

namespace Builtin

/-- A value that is no function, whose finite numbers are integers below `2 ^ 53` and which does
not nest too deep, is written as a text. That text is read without complaint as the normal form of
the value, which is written as the same text again. -/
theorem json_comes_back_in_normal_form {v : Value} (plain : v.isFunction = false) (safe : v.Safe)
    (shallow : v.nesting ≤ 127) (tag₁ tag₂ tag₃ : Nat) :
    ∃ text w next,
      writeJson.call [v] tag₁ = ⟨.string text, [], tag₁⟩ ∧
      readJson.call [.string text] tag₂ = ⟨w, [], next⟩ ∧
      v.normal.alike w = true ∧
      writeJson.call [w] tag₃ = ⟨.string text, [], tag₃⟩ := by
  have settled := Value.settled_document safe shallow
  have document : v.toJson? = some v.document := by
    rw [Value.toJson?_eq, plain]
    rfl
  have read : Json.read v.document.compact = .ok v.document :=
    Json.read_compact (settled.imp fun _ => Json.Settled.fitsWord)
  exists v.document.compact, (Value.ofJson tag₂ v.document).1, (Value.ofJson tag₂ v.document).2
  refine ⟨?_, ?_, ?_, ?_⟩
  · simp [call, document]
  · simp [call, Value.text, read]
  · exact Value.alike_document safe tag₂
  · simp [call, Value.toJson?_ofJson settled]

/-- Not a number, a regex, functions and a repeated key. -/
theorem json_comes_back_in_normal_form_members :
    let v : Value := .object 4 [("b", .number Number.nan), ("a", .regex 5 "x" "g"),
      ("f", .function "f" none),
      ("b", .array 6 [.number (Value.floatOfInt (-3)), .function "g" none, .string "\t"])]
    v.isFunction = false ∧ v.Safe ∧ v.nesting ≤ 127 ∧ ∃ text w next,
      writeJson.call [v] 7 = ⟨.string text, [], 7⟩ ∧
      readJson.call [.string text] 7 = ⟨w, [], next⟩ ∧
      v.normal.alike w = true ∧
      writeJson.call [w] 9 = ⟨.string text, [], 9⟩ := by
  intro v
  have safe : v.Safe := by
    intro n member
    simp only [v, Value.numbers, Value.numbersOfFields, Value.numbersOfItems, List.append_nil,
      List.nil_append, List.cons_append, List.mem_cons, List.not_mem_nil, or_false] at member
    rcases member with rfl | rfl
    · intro finite
      exact absurd finite (by decide)
    · intro _
      exact ⟨-3, Binary64.whole?_floatOfInt (by decide), by decide⟩
  exact ⟨rfl, safe, by decide, json_comes_back_in_normal_form rfl safe (by decide) 7 7 9⟩

end Builtin

end MinangScript
