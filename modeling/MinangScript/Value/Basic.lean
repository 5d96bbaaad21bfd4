import MinangScript.Number

/-! # Values

What expressions evaluate to. Arrays, objects and regexes carry a tag that is given out once, so
that two of them are the same only if they stem from the same evaluation. A function is known by
its name in the table of functions.
-/

namespace MinangScript

inductive Value where
  | null
  | bool (value : Bool)
  | number (value : Float)
  | string (text : String)
  | array (tag : Nat) (items : List Value)
  | object (tag : Nat) (fields : List (String × Value))
  | regex (tag : Nat) (pattern flags : String)
  /-- A function; one that is built in shows no parameters. -/
  | function (name : String) (params : Option (List String))
  deriving Repr, Inhabited

namespace Value

/-- What messages call a value. -/
def typeName : Value → String
  | null => "null"
  | bool _ => "boolean"
  | number _ => "number"
  | string _ => "string"
  | array _ _ => "array"
  | object _ _ => "object"
  | regex _ _ _ => "regex"
  | function _ _ => "function"

mutual

def text : Value → String
  | null => "null"
  | bool value => if value then "true" else "false"
  | number value => Number.text value
  | string text => text
  | array _ items => String.intercalate "," (itemTexts items)
  | object _ _ => "[object Object]"
  | regex _ pattern flags => "/" ++ pattern ++ "/" ++ flags
  | function name none => "function " ++ name ++ "() \x7b [native code] \x7d"
  | function name (some params) =>
    "function " ++ name ++ "(" ++ String.intercalate ", " params ++ ") \x7b ... \x7d"

/-- The texts of the items of an array; null leaves its place empty. -/
def itemTexts : List Value → List String
  | [] => []
  | null :: rest => "" :: itemTexts rest
  | item :: rest => item.text :: itemTexts rest

end

def truthy : Value → Bool
  | null => false
  | bool value => value
  | number value => !(value == 0 || value.isNaN)
  | string text => !text.isEmpty
  | _ => true

/-- The number that a value reads as, if any. -/
def toNumber? : Value → Option Float
  | number value => some value
  | string text => Number.leading? text
  | bool value => some (if value then 1 else 0)
  | null => some 0
  | _ => none

/-- Whether two values are the same: of one type and equal, or of one evaluation. -/
def same : Value → Value → Bool
  | null, null => true
  | bool a, bool b => a == b
  | number a, number b => a == b
  | string a, string b => a == b
  | array a _, array b _ => a == b
  | object a _, object b _ => a == b
  | regex a _ _, regex b _ _ => a == b
  | function a _, function b _ => a == b
  | _, _ => false

/-- A value as messages about it show it. -/
def describe : Value → String
  | string text => "'" ++ text ++ "'"
  | other => other.typeName

end Value

end MinangScript
