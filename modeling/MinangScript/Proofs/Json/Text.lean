import MinangScript.Json.Basic

/-! # The compact text of documents

A document is written behind whatever is there already, so its text is made of the texts of its
parts. A comma stands in front of every item and every property but the first.
-/

namespace MinangScript

namespace Json

/-- Texts one after the other, where the text of an item depends on whether it is the first. -/
def series {α : Type} (text : Bool → α → List Char) : Bool → List α → List Char
  | _, [] => []
  | first, x :: xs => text first x ++ series text false xs

section Series

variable {α : Type} {text : Bool → α → List Char}

theorem length_le_series {xs : List α} (nonempty : ∀ x ∈ xs, ∀ first, text first x ≠ [])
    (first : Bool) : xs.length ≤ (series text first xs).length := by
  induction xs generalizing first with
  | nil => simp
  | cons x xs ih =>
    have := List.length_pos_iff.mpr (nonempty x (.head _) first)
    have := ih (fun y member => nonempty y (.tail _ member)) false
    simp [series]
    omega

/-- Each item stands in the series in one of its two forms. -/
theorem text_le_series (text : Bool → α → List Char) {xs : List α} {x : α} (member : x ∈ xs)
    (first : Bool) : ∃ first', (text first' x).length ≤ (series text first xs).length := by
  induction xs generalizing first with
  | nil => cases member
  | cons y ys ih =>
    cases member with
    | head =>
      exists first
      simp [series]
    | tail _ member =>
      rcases ih member false with ⟨first', le⟩
      exists first'
      simp [series]
      omega

end Series

/-- The characters of the compact text. -/
def chars (j : Json) : List Char :=
  j.compact.toList

/-- What stands in front of an item or a property. -/
def comma (first : Bool) : List Char :=
  if first then [] else [',']

/-- An item of an array and the comma in front of it. -/
def itemChars (first : Bool) (item : Json) : List Char :=
  comma first ++ item.chars

/-- A string between quotes. -/
def quoted (text : String) : List Char :=
  '"' :: (series (fun _ => escapedChar) true text.toList ++ ['"'])

/-- A property of an object and the comma in front of it. -/
def fieldChars (first : Bool) (field : String × Json) : List Char :=
  comma first ++ quoted field.1 ++ ':' :: field.2.chars

theorem series_eq_flatMap {α : Type} (text : α → List Char) (first : Bool) (xs : List α) :
    series (fun _ => text) first xs = xs.flatMap text := by
  induction xs generalizing first with
  | nil => rfl
  | cons x xs ih => simp [series, ih]

theorem toList_stringText (text : String) : (stringText text).toList = quoted text := by
  simp [stringText, quoted, series_eq_flatMap]

theorem toList_comma (first : Bool) (out : String) :
    (if first then out else out ++ ",").toList = out.toList ++ comma first := by
  cases first <;> simp [comma]

mutual

theorem toList_writeCompact (out : String) :
    ∀ j : Json, (writeCompact out j).toList = out.toList ++ j.chars
  | null => by simp [writeCompact, chars, compact]
  | bool value => by simp [writeCompact, chars, compact]
  | integer value => by simp [writeCompact, chars, compact]
  | float value => by simp [writeCompact, chars, compact]
  | string text => by simp [writeCompact, chars, compact]
  | array items => by
    simp [writeCompact, chars, compact, toList_writeCompactItems]
  | object fields => by
    simp [writeCompact, chars, compact, toList_writeCompactFields]

theorem toList_writeCompactItems (out : String) (first : Bool) :
    ∀ items : List Json, (writeCompactItems out first items).toList =
      out.toList ++ series itemChars first items
  | [] => by simp [writeCompactItems, series]
  | item :: rest => by
    rw [writeCompactItems, toList_writeCompactItems _ _ rest, toList_writeCompact _ item,
      toList_comma]
    simp [series, itemChars]

theorem toList_writeCompactFields (out : String) (first : Bool) :
    ∀ fields : List (String × Json), (writeCompactFields out first fields).toList =
      out.toList ++ series fieldChars first fields
  | [] => by simp [writeCompactFields, series]
  | (key, value) :: rest => by
    rw [writeCompactFields, toList_writeCompactFields _ _ rest, toList_writeCompact _ value]
    simp [series, fieldChars, toList_comma, toList_stringText]

end

theorem chars_string (text : String) : (string text).chars = quoted text := by
  simp [chars, compact, writeCompact, toList_stringText]

theorem chars_array (items : List Json) :
    (array items).chars = '[' :: (series itemChars true items ++ [']']) := by
  simp [chars, compact, writeCompact, toList_writeCompactItems]

theorem chars_object (fields : List (String × Json)) :
    (object fields).chars = '\x7b' :: (series fieldChars true fields ++ ['\x7d']) := by
  simp [chars, compact, writeCompact, toList_writeCompactFields]

theorem escapedChar_ne_nil (c : Char) : escapedChar c ≠ [] := by
  fun_cases escapedChar c <;> simp

theorem length_lt_quoted (text : String) : text.length < (quoted text).length := by
  have least : text.toList.length ≤ (series (fun _ => escapedChar) true text.toList).length :=
    length_le_series (fun c _ _ => escapedChar_ne_nil c) true
  rw [String.length_toList] at least
  simp [quoted]
  omega

section Parts

variable {items : List Json} {fields : List (String × Json)}

theorem chars_le_series {item : Json} (member : item ∈ items) :
    item.chars.length ≤ (series itemChars true items).length := by
  have ⟨first, le⟩ := text_le_series itemChars member true
  simp [itemChars] at le
  omega

theorem field_le_series {field : String × Json} (member : field ∈ fields) :
    field.1.length + field.2.chars.length ≤ (series fieldChars true fields).length := by
  have := length_lt_quoted field.1
  have ⟨first, le⟩ := text_le_series fieldChars member true
  simp [fieldChars] at le
  omega

theorem fieldChars_ne_nil (first : Bool) (field : String × Json) : fieldChars first field ≠ [] := by
  simp [fieldChars]

end Parts

/-- The digits of a whole number, a minus sign in front of those of a negative one. -/
theorem chars_integer (n : Int) :
    (integer n).chars = (if n < 0 then ['-'] else []) ++ Nat.toDigits 10 n.natAbs := by
  cases n with
  | ofNat m =>
    simp [chars, compact, writeCompact, toString, Int.repr]
  | negSucc m =>
    simp [chars, compact, writeCompact, toString, Int.repr]

end Json

end MinangScript
