import MinangScript.Text.Lines

/-! # Lines that are found again

Lines that are joined by line feeds are found again if each of them is one: there is something in it, it
has no line feed of its own, and no carriage return at its end that would be taken for a part of the line
feed behind it.
-/

namespace MinangScript

/-- A text that is a line of any text in which it stands between line feeds. -/
structure IsLine (text : String) : Prop where
  nonempty : text ≠ ""
  unbroken : '\n' ∉ text.toList
  ending : text.toList.getLast? ≠ some '\r'

theorem IsLine.append {front text : String} (unbroken : '\n' ∉ front.toList) (line : IsLine text) :
    IsLine (front ++ text) where
  nonempty empty := line.nonempty (String.append_eq_empty_iff.mp empty).2
  unbroken := by simp [unbroken, line.unbroken]
  ending := by
    have last : text.toList ≠ [] := mt String.toList_eq_nil_iff.mp line.nonempty
    obtain ⟨c, is⟩ := Option.ne_none_iff_exists'.mp (mt List.getLast?_eq_none_iff.mp last)
    have ending := line.ending
    rw [is] at ending
    rwa [String.toList_append, List.getLast?_append, is]

theorem IsLine.dropReturn {text : String} (line : IsLine text) :
    dropReturn text.toList.reverse = text.toList.reverse := by
  have ending := line.ending
  rw [← List.head?_reverse] at ending
  unfold MinangScript.dropReturn
  split
  · rename_i same
    rw [same] at ending
    exact absurd rfl ending
  · rfl

theorem linesFrom_append {front : List Char} (unbroken : '\n' ∉ front) (done : List (List Char))
    (current rest : List Char) :
    linesFrom done current (front ++ rest) = linesFrom done (front.reverse ++ current) rest := by
  induction front generalizing current with
  | nil => rfl
  | cons c front ih =>
      obtain ⟨other, later⟩ := not_or.mp (mt List.mem_cons.mpr unbroken)
      rw [List.cons_append, linesFrom, ih later, List.reverse_cons, List.append_assoc]
      · rfl
      · exact fun same => other same.symm

theorem linesFrom_intercalate {rows : List String} (each : ∀ row ∈ rows, IsLine row)
    (done : List (List Char)) :
    linesFrom done [] ("\n".intercalate rows).toList = done.reverse ++ rows.map String.toList := by
  induction rows generalizing done with
  | nil => simp [linesFrom]
  | cons row rest ih =>
      obtain ⟨line, later⟩ := List.forall_mem_cons.mp each
      have last : row.toList ≠ [] := mt String.toList_eq_nil_iff.mp line.nonempty
      cases rest with
      | nil =>
          have whole := linesFrom_append line.unbroken done [] []
          rw [List.append_nil, List.append_nil] at whole
          rw [String.intercalate_singleton, whole]
          simp [linesFrom, last]
      | cons next rest =>
          have split : ("\n".intercalate (row :: next :: rest)).toList =
              row.toList ++ '\n' :: ("\n".intercalate (next :: rest)).toList := by
            rw [String.intercalate_cons_cons, String.toList_append, String.toList_append]
            simp
          rw [split, linesFrom_append line.unbroken, List.append_nil, linesFrom, line.dropReturn,
            List.reverse_reverse, ih later]
          simp

/-- The lines of a text are those that it was joined of. -/
theorem lines_intercalate {rows : List String} (each : ∀ row ∈ rows, IsLine row) :
    lines ("\n".intercalate rows) = rows := by
  rw [lines, linesFrom_intercalate each]
  simp [Function.comp_def]

/-- Lines that are joined and then ended are ended each. -/
theorem intercalate_ended (first : String) (rows : List String) :
    "\n".intercalate (first :: rows) ++ "\n" = String.join ((first :: rows).map (· ++ "\n")) := by
  induction rows generalizing first with
  | nil => simp [String.join_cons]
  | cons row rest ih =>
      rw [String.intercalate_cons_cons, String.append_assoc, ih]
      simp [String.join_cons, String.append_assoc]

end MinangScript
