import Mathlib.Data.List.Basic

/-! # Balanced lists

A list is balanced if no beginning of it closes more than it opens and the whole closes all that it
opens. What is balanced ends where it ends: between two such lists with a closing element behind
each there is no choice.
-/

namespace MinangScript

/-- No beginning closes more than it opens, and the whole closes all that it opens. -/
structure Balanced {α : Type} (opens closes : α → Bool) (l : List α) : Prop where
  within : ∀ n, (l.take n).countP closes ≤ (l.take n).countP opens
  settled : l.countP closes = l.countP opens

namespace Balanced

variable {α : Type} {opens closes : α → Bool} {l l' : List α} {a b : α}

/-- Only the beginnings that are shorter than the whole matter. -/
theorem iff_bounded : Balanced opens closes l ↔
    (∀ n < l.length, (l.take n).countP closes ≤ (l.take n).countP opens) ∧
      l.countP closes = l.countP opens := by
  refine ⟨fun balanced => ⟨fun n _ => balanced.within n, balanced.settled⟩, ?_⟩
  rintro ⟨within, settled⟩
  refine ⟨fun n => ?_, settled⟩
  by_cases shorter : n < l.length
  · exact within n shorter
  · rw [List.take_of_length_le (Nat.le_of_not_lt shorter)]
    exact Nat.le_of_eq settled

instance : Decidable (Balanced opens closes l) :=
  decidable_of_iff _ iff_bounded.symm

theorem nil : Balanced opens closes [] :=
  ⟨by simp, rfl⟩

theorem append (first : Balanced opens closes l) (second : Balanced opens closes l') :
    Balanced opens closes (l ++ l') where
  within n := by
    rw [List.take_append, List.countP_append, List.countP_append]
    exact Nat.add_le_add (first.within n) (second.within _)
  settled := by rw [List.countP_append, List.countP_append, first.settled, second.settled]

/-- An element that neither opens nor closes. -/
theorem singleton (plain : opens a = false) (plain' : closes a = false) :
    Balanced opens closes [a] where
  within n := by cases n <;> simp [plain, plain']
  settled := by simp [plain, plain']

theorem of_plain (plain : ∀ a ∈ l, opens a = false ∧ closes a = false) :
    Balanced opens closes l := by
  induction l with
  | nil => exact .nil
  | cons a l ih =>
      obtain ⟨here, later⟩ := List.forall_mem_cons.mp plain
      exact (singleton here.1 here.2).append (ih later)

/-- A balanced list between an opening and a closing element. -/
theorem enclosed (opening : opens a = true) (closing : closes b = true)
    (opening' : closes a = false) (closing' : opens b = false) (inner : Balanced opens closes l) :
    Balanced opens closes (a :: l ++ [b]) where
  within n := by
    cases n with
    | zero => simp
    | succ n =>
        have last : ([b].take (n - l.length)).countP closes ≤ 1 := by
          cases n - l.length <;> simp [closing]
        have inside := inner.within n
        simp only [List.cons_append, List.take_succ_cons, List.take_append, List.countP_cons,
          List.countP_append, opening, opening', Bool.false_eq_true, if_false, if_true]
        omega
  settled := by simp [opening, opening', closing, closing', inner.settled]

/-- What never closes more than it opens does not reach over a closing element behind what is
    balanced. -/
theorem length_le {ys rest behind : List α} (balanced : Balanced opens closes l)
    (closing : closes b = true) (closing' : opens b = false)
    (within : ∀ n, (ys.take n).countP closes ≤ (ys.take n).countP opens)
    (same : l ++ b :: rest = ys ++ behind) : ys.length ≤ l.length := by
  by_contra longer
  have reach : l.length + 1 ≤ ys.length := by omega
  have start : ys.take (l.length + 1) = l ++ [b] := by
    have taken := congrArg (List.take (l.length + 1)) same
    rw [List.take_append_of_le_length reach, List.take_length_add_append] at taken
    exact taken.symm
  have bound := within (l.length + 1)
  simp only [start, List.countP_append, List.countP_cons, List.countP_nil, closing, closing',
    balanced.settled, Bool.false_eq_true, if_false, if_true] at bound
  omega

/-- Two balanced lists with a closing element behind each are the same if they begin alike. -/
theorem append_inj {c : α} {rest rest' : List α} (left : Balanced opens closes l)
    (right : Balanced opens closes l') (closing : closes b = true) (closing' : closes c = true)
    (plain : opens b = false) (plain' : opens c = false) (same : l ++ b :: rest = l' ++ c :: rest') :
    l = l' ∧ b :: rest = c :: rest' := by
  have shorter := left.length_le closing plain right.within same
  have longer := right.length_le closing' plain' left.within same.symm
  exact List.append_inj same (Nat.le_antisymm longer shorter)

end Balanced

end MinangScript
