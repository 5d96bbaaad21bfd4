import MinangScript.Json.Reader
import MinangScript.Value.Basic

/-! # Values as JSON documents

A value is written as a document and read back from one. In documents the keys of objects are in
order and each stands once; functions have no document.
-/

namespace MinangScript

/-- Puts a property in its place among properties in ascending order of keys, instead of one with
the same key. -/
def Json.insertSorted {α : Type} (key : String) (value : α) :
    List (String × α) → List (String × α)
  | [] => [(key, value)]
  | (k, v) :: rest =>
    if key = k then (key, value) :: rest
    else if key < k then (key, value) :: (k, v) :: rest
    else (k, v) :: insertSorted key value rest

/-- Properties in ascending order of keys; of those with one key the last counts. -/
def Json.sorted {α : Type} (fields : List (String × α)) : List (String × α) :=
  fields.foldl (fun done (key, value) => Json.insertSorted key value done) []

/-- A number as a document: an integer if it is one and below `2 ^ 53`. -/
def Number.toJson (n : Float) : Json :=
  match Binary64.ofFloat n with
  | .finite _ _ _ =>
    match Number.whole? n with
    | some whole => if whole.natAbs < Nat.pow 2 53 then .integer whole else .float n
    | none => .float n
  | _ => .null

namespace Value

mutual

/-- The document of a value, if it has one. -/
def toJson? : Value → Option Json
  | null => some .null
  | bool value => some (.bool value)
  | number value => some (Number.toJson value)
  | string text => some (.string text)
  | array _ items => some (.array (itemsToJson items))
  | object _ fields => some (.object (Json.sorted (fieldsToJson fields)))
  | regex _ _ _ => some (.object [])
  | function _ _ => none

/-- The documents of the items of an array; what has none is null. -/
def itemsToJson : List Value → List Json
  | [] => []
  | item :: rest => (item.toJson?.getD .null) :: itemsToJson rest

/-- The documents of the properties of an object; what has none is left out. -/
def fieldsToJson : List (String × Value) → List (String × Json)
  | [] => []
  | (key, value) :: rest =>
    match value.toJson? with
    | some j => (key, j) :: fieldsToJson rest
    | none => fieldsToJson rest

end

/-- The float nearest to an integer that fits a word. -/
def floatOfInt (n : Int) : Float :=
  let magnitude := (UInt64.ofNat n.natAbs).toFloat
  if n < 0 then -magnitude else magnitude

mutual

/-- The value of a document. Arrays and objects get the tags from `tag` on; the first one that is
still free comes back with the value. -/
def ofJson (tag : Nat) : Json → Value × Nat
  | .null => (null, tag)
  | .bool value => (bool value, tag)
  | .integer value => (number (floatOfInt value), tag)
  | .float value => (number value, tag)
  | .string text => (string text, tag)
  | .array items =>
    let (values, next) := ofItems (tag + 1) items
    (array tag values, next)
  | .object fields =>
    let (values, next) := ofFields (tag + 1) fields
    (object tag (Json.sorted values), next)

/-- The values of the items of an array. -/
def ofItems (tag : Nat) : List Json → List Value × Nat
  | [] => ([], tag)
  | item :: rest =>
    let (first, next) := ofJson tag item
    let (others, last) := ofItems next rest
    (first :: others, last)

/-- The values of the properties of an object. -/
def ofFields (tag : Nat) : List (String × Json) → List (String × Value) × Nat
  | [] => ([], tag)
  | (key, item) :: rest =>
    let (first, next) := ofJson tag item
    let (others, last) := ofFields next rest
    ((key, first) :: others, last)

end

end Value

end MinangScript
