import Mathlib
import MinangScript.Value.Table

/-! # Tables are rectangular and complete

A table has a row for each entry of a value, and every row has a cell in every column. The columns are
wide enough for all their cells, so no cell is cut off or missing, and all lines of a table have the same
number of characters. What stands in a cell depends on its entry and its column alone.
-/

namespace MinangScript

namespace Table

/-! ## What a table shows -/

/-- Whether the row of a value has a cell for each property instead of one for the value itself. -/
def isObject : Value → Bool
  | .object _ _ => true
  | _ => false

/-- What a value has rows for: the items of an array, the properties of an object, or the value itself.
    Each comes with the index of its row. -/
def entries : Value → List (String × Value)
  | .array _ items => items.zipIdx.map fun (item, place) => (toString place, item)
  | .object _ fields => fields
  | value => [("0", value)]

/-- The names of the properties of a value, as often as they occur. -/
def propertyNames : Value → List String
  | .object _ fields => fields.map (·.1)
  | _ => []

/-- A column of a table. -/
inductive Column where
  | index
  | property (name : String)
  | values

/-- What stands at the head of the column. -/
def Column.title : Column → String
  | index => "(index)"
  | property name => name
  | values => "Values"

/-- The names are all names of the list, each of them once and in the order in which they first appear. -/
structure InOrderOfAppearance (all names : List String) : Prop where
  mem_iff : ∀ name, name ∈ names ↔ name ∈ all
  nodup : names.Nodup
  ordered : names.Pairwise fun a b => all.idxOf a < all.idxOf b

/-- The row of the entry has this text in the column. -/
inductive Holds : String × Value → Column → String → Prop where
  | index {index : String} {v : Value} : Holds (index, v) .index index
  | property {index name : String} {tag : Nat} {before after : List (String × Value)} {v : Value}
      (first : ∀ field ∈ before, field.1 ≠ name) :
      Holds (index, .object tag (before ++ (name, v) :: after)) (.property name) (cell v)
  | noProperty {index name : String} {tag : Nat} {fields : List (String × Value)}
      (absent : ∀ field ∈ fields, field.1 ≠ name) :
      Holds (index, .object tag fields) (.property name) ""
  | noObject {index name : String} {v : Value} (other : isObject v = false) :
      Holds (index, v) (.property name) ""
  | value {index : String} {v : Value} (other : isObject v = false) : Holds (index, v) .values (cell v)
  | noValue {index : String} {v : Value} (object : isObject v = true) : Holds (index, v) .values ""

/-- The text stands in the middle of the cell: the blanks on its sides differ by one at most. -/
def IsCentred (width : Nat) (text cell : String) : Prop :=
  ∃ left right, cell = fill ' ' left ++ text ++ fill ' ' right ∧
    left + text.length + right = width ∧ left ≤ right ∧ right ≤ left + 1

/-- The line has one cell for each text, in columns of the given widths, with bars around them. -/
inductive Shows : List Nat → List String → String → Prop where
  | nil : Shows [] [] "│"
  | cons {width : Nat} {widths : List Nat} {text cell line : String} {texts : List String}
      (centred : IsCentred width text cell) (rest : Shows widths texts line) :
      Shows (width :: widths) (text :: texts) ("│" ++ cell ++ line)

/-- Every column has room for its text, and there are as many columns as texts. -/
abbrev Fits : List Nat → List String → Prop :=
  List.Forall₂ fun width text => text.length ≤ width

/-- Whether some row needs the column for values. -/
def hasValues (value : Value) : Bool :=
  (entries value).any fun entry => !isObject entry.2

/-! ## Columns -/

namespace InOrderOfAppearance

variable {all names : List String}

theorem of_ordered (mem_iff : ∀ name, name ∈ names ↔ name ∈ all)
    (ordered : names.Pairwise fun a b => all.idxOf a < all.idxOf b) :
    InOrderOfAppearance all names where
  mem_iff := mem_iff
  nodup := ordered.imp fun less same => Nat.ne_of_lt less (congrArg all.idxOf same)
  ordered := ordered

/-- A name is put behind the others when it appears for the first time. -/
theorem add (inOrder : InOrderOfAppearance all names) (name : String) :
    InOrderOfAppearance (all ++ [name])
      (if names.contains name then names else names ++ [name]) := by
  have kept : names.Pairwise fun a b => (all ++ [name]).idxOf a < (all ++ [name]).idxOf b := by
    refine inOrder.ordered.imp_of_mem fun here there less => ?_
    rwa [List.idxOf_append_of_mem ((inOrder.mem_iff _).mp here),
      List.idxOf_append_of_mem ((inOrder.mem_iff _).mp there)]
  split
  · rename_i known
    have known : name ∈ all := (inOrder.mem_iff name).mp (List.contains_iff_mem.mp known)
    refine of_ordered (fun other => ?_) kept
    rw [inOrder.mem_iff, List.mem_append, List.mem_singleton, or_iff_left_of_imp]
    rintro rfl
    exact known
  · rename_i new
    have later : name ∉ all := mt (inOrder.mem_iff name).mpr (mt List.contains_iff_mem.mpr new)
    refine of_ordered (fun other => ?_) ?_
    · rw [List.mem_append, List.mem_append, inOrder.mem_iff]
    · refine List.pairwise_append.mpr ⟨kept, List.pairwise_singleton _ _, fun a member b is => ?_⟩
      obtain rfl := List.mem_singleton.mp is
      have known := (inOrder.mem_iff a).mp member
      rw [List.idxOf_append_of_mem known, List.idxOf_append_of_notMem later]
      exact Nat.lt_add_right _ (List.idxOf_lt_length_of_mem known)

theorem addNew (inOrder : InOrderOfAppearance all names) (more : List String) :
    InOrderOfAppearance (all ++ more) (Table.addNew names more) := by
  induction more generalizing all names with
  | nil => simpa [Table.addNew] using inOrder
  | cons name more ih =>
      have step := ih (inOrder.add name)
      rwa [List.append_assoc] at step

end InOrderOfAppearance

theorem rows_eq (value : Value) :
    rows value = (entries value).map fun entry => (entry.1, Row.ofValue entry.2) := by
  cases value with
  | array tag items => simp [rows, entries, List.mapIdx_eq_zipIdx_map]
  | object tag fields => rfl
  | _ => rfl

theorem columns_ofValue (v : Value) : (Row.ofValue v).columns = propertyNames v := by
  cases v <;> rfl

theorem isScalar_ofValue (v : Value) : (Row.ofValue v).isScalar = !isObject v := by
  cases v <;> rfl

theorem columns_inOrder (value : Value) :
    InOrderOfAppearance ((entries value).flatMap fun entry => propertyNames entry.2)
      (columns (rows value)) := by
  have start : InOrderOfAppearance [] [] := ⟨fun _ => Iff.rfl, List.nodup_nil, List.Pairwise.nil⟩
  have all := start.addNew ((entries value).flatMap fun entry => propertyNames entry.2)
  rw [List.nil_append, Table.addNew, List.foldl_flatMap] at all
  simpa [columns, rows_eq, List.foldl_map, columns_ofValue, Table.addNew] using all

/-! ## Cells -/

theorem holds_fieldCell (entry : String × Value) (name : String) :
    Holds entry (.property name) (fieldCell (Row.ofValue entry.2) name) := by
  obtain ⟨index, v⟩ := entry
  cases v with
  | object tag fields =>
      cases found : fields.find? fun field => field.1 == name with
      | none =>
          have absent : ∀ field ∈ fields, field.1 ≠ name := by simpa using found
          simpa [fieldCell, Row.ofValue, found] using Holds.noProperty absent
      | some field =>
          obtain ⟨named, before, after, rfl, first⟩ := List.find?_eq_some_iff_append.mp found
          obtain ⟨key, v⟩ := field
          obtain rfl : key = name := by simpa using named
          have first : ∀ field ∈ before, field.1 ≠ key := by simpa using first
          simpa [fieldCell, Row.ofValue, found] using Holds.property first
  | _ => exact .noObject rfl

theorem holds_valueCell (entry : String × Value) :
    Holds entry .values (valueCell (Row.ofValue entry.2)) := by
  obtain ⟨index, v⟩ := entry
  cases v with
  | object => exact .noValue rfl
  | _ => exact .value rfl

/-! ## Widths -/

section Widths

variable {widths : List Nat} {texts : List String}

/-- The widths with room for another row of cells. -/
def widened (widths : List Nat) (texts : List String) : List Nat :=
  List.zipWith (fun width text => max width text.length) widths texts

theorem fits_widened (same : texts.length = widths.length) : Fits (widened widths texts) texts := by
  induction widths generalizing texts with
  | nil =>
      obtain rfl := List.length_eq_zero_iff.mp same
      exact .nil
  | cons width widths ih =>
      obtain _ | ⟨text, texts⟩ := texts
      · contradiction
      · exact .cons (Nat.le_max_right _ _) (ih (Nat.succ.inj same))

theorem Fits.widened {others : List String} (fits : Fits widths others)
    (same : texts.length = widths.length) : Fits (widened widths texts) others := by
  induction fits generalizing texts with
  | nil =>
      obtain rfl := List.length_eq_zero_iff.mp same
      exact .nil
  | cons room _ ih =>
      obtain _ | ⟨text, texts⟩ := texts
      · contradiction
      · exact .cons (Nat.le_trans room (Nat.le_max_left _ _)) (ih (Nat.succ.inj same))

/-- Widths that rows of cells have widened have room for all of these rows, and still for what they
    had room for. -/
theorem fits_foldl_widened {header : List String} {body : List (List String)}
    (fits : Fits widths header) (same : ∀ row ∈ body, row.length = header.length) :
    ∀ row ∈ header :: body, Fits (body.foldl Table.widened widths) row := by
  induction body generalizing widths header with
  | nil => simpa using fits
  | cons row body ih =>
      obtain ⟨first, same⟩ := List.forall_mem_cons.mp same
      have step : row.length = widths.length := first.trans fits.length_eq.symm
      have kept := List.forall_mem_cons.mp (ih (fits.widened step) same)
      have added := List.forall_mem_cons.mp (ih (fits_widened step) fun other member =>
        (same other member).trans first.symm)
      exact List.forall_mem_cons.mpr ⟨kept.1, List.forall_mem_cons.mpr added⟩

/-- The columns of a table have room for its header and for all its rows. -/
theorem fits_widths {header : List String} {body : List (List String)}
    (same : ∀ row ∈ body, row.length = header.length) :
    ∀ row ∈ header :: body, Fits (Table.widths header body) row := by
  intro row member
  have start : Fits (header.map String.length) header :=
    List.forall₂_map_left_iff.mpr (List.forall₂_same.mpr fun _ _ => Nat.le_refl _)
  refine List.forall₂_map_left_iff.mpr ?_
  exact (fits_foldl_widened start same row member).imp fun _ _ room => Nat.le_add_right_of_le room

theorem length_fill (c : Char) (count : Nat) : (fill c count).length = count := by
  simp [fill]

theorem isCentred_centred {width : Nat} {text : String} (room : text.length ≤ width) :
    IsCentred width text (centred width text) := by
  refine ⟨(width - text.length) / 2, width - text.length - (width - text.length) / 2, rfl, ?_, ?_, ?_⟩ <;>
    omega

theorem IsCentred.length {width : Nat} {text cell : String} (centred : IsCentred width text cell) :
    cell.length = width := by
  obtain ⟨left, right, rfl, sum, -⟩ := centred
  simp only [String.length_append, length_fill]
  exact sum

theorem shows_line (fits : Fits widths texts) : Shows widths texts (line widths texts) := by
  induction fits with
  | nil => exact .nil
  | cons room _ ih =>
      have shown := Shows.cons (isCentred_centred room) ih
      simpa [line, String.append_assoc] using shown

theorem Shows.length {line : String} (shows : Shows widths texts line) :
    line.length = widths.sum + widths.length + 1 := by
  induction shows with
  | nil => rfl
  | cons centred _ ih =>
      have bar : "│".length = 1 := rfl
      simp only [String.length_append, centred.length, ih, bar, List.sum_cons, List.length_cons]
      omega

theorem length_intercalate_fill {middle : String} (joint : middle.length = 1) (nonempty : widths ≠ []) :
    (String.intercalate middle (widths.map (fill '─'))).length + 1 = widths.sum + widths.length := by
  induction widths with
  | nil => contradiction
  | cons width widths ih =>
      obtain _ | ⟨next, widths⟩ := widths
      · simp [length_fill]
      · have rest := ih (List.cons_ne_nil _ _)
        simp only [List.map_cons, String.intercalate_cons_cons, String.length_append, length_fill,
          joint, List.sum_cons, List.length_cons] at rest ⊢
        omega

theorem length_rule {left middle right : String} (corners : left.length = 1 ∧ right.length = 1)
    (joint : middle.length = 1) (nonempty : widths ≠ []) :
    (rule left middle right widths).length = widths.sum + widths.length + 1 := by
  have joined := length_intercalate_fill joint nonempty
  simp only [rule, String.length_append, corners]
  omega

end Widths

/-! ## The table -/

/-- The columns of the table of a value. -/
def columnsOf (value : Value) : List Column :=
  .index :: (columns (rows value)).map .property ++ if hasValues value then [.values] else []

theorem any_isScalar_rows (value : Value) :
    ((rows value).any fun row => row.2.isScalar) = hasValues value := by
  simp [rows_eq, hasValues, List.any_map, Function.comp_def, isScalar_ofValue]

theorem grid_header (value : Value) :
    (grid (rows value)).1 = (columnsOf value).map Column.title := by
  simp only [grid, columnsOf, any_isScalar_rows]
  cases hasValues value <;> simp [Column.title, Function.comp_def]

theorem grid_body (value : Value) :
    List.Forall₂ (fun entry texts => List.Forall₂ (Holds entry) (columnsOf value) texts)
      (entries value) (grid (rows value)).2 := by
  simp only [grid, any_isScalar_rows, columnsOf]
  rw [rows_eq, List.map_map, List.forall₂_map_right_iff, List.forall₂_same, ← rows_eq]
  intro entry _
  refine .cons .index (List.rel_append ?_ ?_)
  · rw [List.forall₂_map_left_iff, List.forall₂_map_right_iff, List.forall₂_same]
    exact fun name _ => holds_fieldCell entry name
  · split
    · exact .cons (holds_valueCell entry) .nil
    · exact .nil

theorem grid_square (value : Value) :
    ∀ row ∈ (grid (rows value)).2, row.length = (grid (rows value)).1.length := by
  intro row member
  obtain ⟨entry, -, rfl⟩ := List.mem_map.mp member
  cases values : (rows value).any fun row => row.2.isScalar <;> simp [grid, values]

/-- The table of any value. No row lacks a cell of some column and no cell is wider than its column. The
    lines, before they are joined, have the same number of characters: a rule, the titles of the columns, a
    rule, a line for each entry, and a rule. -/
theorem table_rectangular_and_complete (value : Value) :
    let (header, body) := grid (rows value)
    let widths := Table.widths header body
    (∀ row ∈ body, row.length = header.length) ∧ (∀ row ∈ header :: body, Fits widths row) ∧
    ∃ names columns head shown,
      let table := rule "┌" "┬" "┐" widths :: head :: rule "├" "┼" "┤" widths :: shown
        ++ [rule "└" "┴" "┘" widths]
      render value = String.intercalate "\n" table ∧
      (∀ line ∈ table, line.length = widths.sum + widths.length + 1) ∧
      InOrderOfAppearance ((entries value).flatMap fun entry => propertyNames entry.2) names ∧
      columns = Column.index :: names.map .property ++ (if hasValues value then [.values] else []) ∧
      Shows widths (columns.map Column.title) head ∧
      List.Forall₂ (fun entry line => ∃ texts, List.Forall₂ (Holds entry) columns texts ∧
        Shows widths texts line) (entries value) shown := by
  let header := (grid (rows value)).1
  let body := (grid (rows value)).2
  let widths := Table.widths header body
  have room : ∀ row ∈ header :: body, Fits widths row := fits_widths (grid_square value)
  have nonempty : widths ≠ [] := List.ne_nil_of_length_pos <| by
    rw [(room header List.mem_cons_self).length_eq]
    exact Nat.succ_pos _
  have shown : ∀ row ∈ header :: body, Shows widths row (line widths row) :=
    fun row member => shows_line (room row member)
  refine ⟨grid_square value, room, columns (rows value), columnsOf value, line widths header,
    body.map (line widths), rfl, ?_, columns_inOrder value, rfl, ?_, ?_⟩
  · intro text member
    simp only [List.cons_append, List.mem_cons, List.mem_append, List.mem_map, List.not_mem_nil,
      or_false] at member
    obtain rfl | rfl | rfl | ⟨row, member, rfl⟩ | rfl := member
    · exact length_rule ⟨rfl, rfl⟩ rfl nonempty
    · exact (shown header List.mem_cons_self).length
    · exact length_rule ⟨rfl, rfl⟩ rfl nonempty
    · exact (shown row (List.mem_cons_of_mem _ member)).length
    · exact length_rule ⟨rfl, rfl⟩ rfl nonempty
  · rw [← grid_header]
    exact shown header List.mem_cons_self
  · refine List.forall₂_map_right_iff.mpr ?_
    refine List.forall₂_iff_zip.mpr ⟨(grid_body value).length_eq, fun member => ?_⟩
    exact ⟨_, List.forall₂_zip (grid_body value) member,
      shown _ (List.mem_cons_of_mem _ (List.of_mem_zip member).2)⟩

/-- A row with a property and one without. -/
example : lines (.array 0 [.object 1 [("a", .string "x")], .string "y"]) =
    ["┌─────────┬─────┬────────┐",
     "│ (index) │  a  │ Values │",
     "├─────────┼─────┼────────┤",
     "│    0    │ 'x' │        │",
     "│    1    │     │  'y'   │",
     "└─────────┴─────┴────────┘"] := by cbv

end Table

end MinangScript
