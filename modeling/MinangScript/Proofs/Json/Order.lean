import MinangScript.Value.Json

/-! # The order of keys

Keys are ordered as their bytes are. `Json.sorted` keeps of the properties with one key the last
and puts the properties in that order.
-/

namespace MinangScript

namespace Utf8

/-- The bytes of a text. -/
def bytes (text : String) : List UInt8 :=
  text.toUTF8.data.toList

/-- The bytes of the character with the given number. -/
def codeUnits (n : Nat) : List Nat :=
  if n ≤ 0x7f then [n]
  else if n ≤ 0x7ff then [n / 64 % 32 + 192, n % 64 + 128]
  else if n ≤ 0xffff then [n / 4096 % 16 + 224, n / 64 % 64 + 128, n % 64 + 128]
  else [n / 262144 % 8 + 240, n / 4096 % 64 + 128, n / 64 % 64 + 128, n % 64 + 128]

/-- Whether a list is the lesser at the first place where two lists differ. -/
def Before : List Nat → List Nat → Prop
  | a :: as, b :: bs => a < b ∨ a = b ∧ Before as bs
  | _, _ => False

theorem before_codeUnits {m n : Nat} (less : m < n) (valid : n < 0x110000) :
    Before (codeUnits m) (codeUnits n) := by
  have second (k : Nat) : k / 4096 = k / 64 / 64 := by omega
  have third (k : Nat) : k / 262144 = k / 64 / 64 / 64 := by omega
  fun_cases codeUnits n <;> fun_cases codeUnits m <;> simp only [Before, second, third] <;> omega

theorem codeUnits_lt {n u : Nat} (member : u ∈ codeUnits n) : u < 256 := by
  revert member
  fun_cases codeUnits n <;> simp <;> omega

/-- A difference decides, whatever follows it. -/
theorem lt_of_before {as bs : List Nat} (before : Before as bs) (small : ∀ u ∈ bs, u < 256)
    (x y : List UInt8) : as.map UInt8.ofNat ++ x < bs.map UInt8.ofNat ++ y := by
  induction as generalizing bs with
  | nil => cases before
  | cons a as ih =>
    cases bs with
    | nil => cases before
    | cons b bs =>
      have bound := small b (.head _)
      rw [List.map_cons, List.map_cons, List.cons_append, List.cons_append, List.cons_lt_cons_iff]
      rcases before with less | ⟨rfl, before⟩
      · left
        rw [UInt8.lt_iff_toNat_lt, UInt8.toNat_ofNat', UInt8.toNat_ofNat']
        omega
      · right
        exact ⟨rfl, ih before (fun u member => small u (.tail _ member))⟩

theorem utf8EncodeChar_eq (c : Char) :
    String.utf8EncodeChar c = (codeUnits c.toNat).map UInt8.ofNat := by
  have same : c.val.toNat = c.toNat := rfl
  simp only [String.utf8EncodeChar, codeUnits, same, apply_ite (List.map UInt8.ofNat),
    List.map_cons, List.map_nil]

theorem toNat_lt (c : Char) : c.toNat < 0x110000 := by
  rcases c.valid with low | ⟨_, high⟩
  · exact Nat.lt_trans low (by decide)
  · exact high

theorem encode_lt {s t : List Char} (less : s < t) :
    s.flatMap String.utf8EncodeChar < t.flatMap String.utf8EncodeChar := by
  induction less with
  | @nil c t =>
    rw [List.flatMap_cons]
    cases encoded : String.utf8EncodeChar c with
    | nil => exact absurd encoded String.utf8EncodeChar_ne_nil
    | cons u us => exact .nil
  | cons _ ih => exact List.append_left_lt ih
  | @rel c s d t less =>
    simp only [List.flatMap_cons, utf8EncodeChar_eq]
    exact lt_of_before (before_codeUnits less (toNat_lt d)) (fun _ => codeUnits_lt) _ _

theorem bytes_eq (s : String) : bytes s = s.toList.flatMap String.utf8EncodeChar := by
  rw [bytes, String.toUTF8, ← String.utf8Encode_toList, List.utf8Encode,
    List.toList_data_toByteArray]

/-- Texts are ordered as their bytes are. -/
theorem bytes_le_iff {s t : String} : bytes s ≤ bytes t ↔ s ≤ t := by
  rw [bytes_eq, bytes_eq]
  constructor
  · intro le
    apply String.not_lt.mp
    intro less
    exact List.not_lt.mpr le (encode_lt less)
  · intro le
    rcases Std.le_iff_lt_or_eq.mp le with less | rfl
    · exact List.le_of_lt (encode_lt less)
    · exact List.le_refl _

end Utf8

namespace Json

variable {α β : Type}

/-- Of the properties with one key only the last. -/
def lastOfEach : List (String × α) → List (String × α)
  | [] => []
  | field :: rest =>
    if rest.any (·.1 == field.1) then lastOfEach rest else field :: lastOfEach rest

/-- Properties in the order of the bytes of their keys. -/
def byKey (fields : List (String × α)) : List (String × α) :=
  fields.mergeSort fun a b => decide (Utf8.bytes a.1 ≤ Utf8.bytes b.1)

/-- Whether each key comes before all that follow. -/
def Ascending (fields : List (String × α)) : Prop :=
  fields.Pairwise (·.1 < ·.1)

theorem Ascending.nodup {fields : List (String × α)} (ascending : Ascending fields) :
    fields.Nodup := by
  apply ascending.imp
  rintro a b less rfl
  exact String.lt_irrefl _ less

theorem Ascending.ext {xs ys : List (String × α)} (left : Ascending xs) (right : Ascending ys)
    (same : ∀ field, field ∈ xs ↔ field ∈ ys) : xs = ys := by
  apply List.Perm.eq_of_pairwise _ left right
  · exact (List.perm_ext_iff_of_nodup left.nodup right.nodup).mpr same
  · intro a b _ _ less greater
    exact absurd greater (String.lt_asymm less)

section Insert

variable {key : String} {value : α} {done : List (String × α)}

theorem mem_insertSorted (ascending : Ascending done) {field : String × α} :
    field ∈ insertSorted key value done ↔
      field = (key, value) ∨ field.1 ≠ key ∧ field ∈ done := by
  induction done with
  | nil => simp [insertSorted]
  | cons first rest ih =>
    rcases first with ⟨k, v⟩
    rcases List.pairwise_cons.mp ascending with ⟨before, ascending⟩
    have later (less : key ≤ k) : field ∈ rest → field.1 ≠ key := by
      rintro member rfl
      exact String.not_lt.mpr less (before field member)
    rw [insertSorted]
    by_cases equal : key = k
    · subst equal
      rw [if_pos rfl]
      grind
    · rw [if_neg equal]
      by_cases less : key < k
      · rw [if_pos less]
        grind
      · rw [if_neg less, List.mem_cons, ih ascending]
        grind

theorem ascending_insertSorted (ascending : Ascending done) :
    Ascending (insertSorted key value done) := by
  induction done with
  | nil => simp [insertSorted, Ascending]
  | cons first rest ih =>
    rcases first with ⟨k, v⟩
    rcases List.pairwise_cons.mp ascending with ⟨before, above⟩
    rw [insertSorted]
    by_cases equal : key = k
    · subst equal
      rw [if_pos rfl]
      exact List.pairwise_cons.mpr ⟨before, above⟩
    · rw [if_neg equal]
      by_cases less : key < k
      · rw [if_pos less]
        apply List.pairwise_cons.mpr
        constructor
        · intro field member
          rcases List.mem_cons.mp member with rfl | member
          · exact less
          · exact String.lt_trans less (before field member)
        · exact ascending
      · have greater : k < key := Std.lt_of_le_of_ne (String.not_lt.mp less) (Ne.symm equal)
        rw [if_neg less]
        apply List.pairwise_cons.mpr
        constructor
        · intro field member
          rcases (mem_insertSorted above).mp member with rfl | ⟨_, member⟩
          · exact greater
          · exact before field member
        · exact ih above

theorem insertSorted_map (f : α → β) :
    insertSorted key (f value) (done.map (Prod.map id f)) =
      (insertSorted key value done).map (Prod.map id f) := by
  induction done with
  | nil => rfl
  | cons first rest ih =>
    simp only [List.map_cons, Prod.map, insertSorted, id, apply_ite (List.map _)]
    rw [← ih]

end Insert

section Sorted

variable {fields done : List (String × α)} {field : String × α}

/-- Puts property after property in its place among those in `done`. -/
def insertAll (done fields : List (String × α)) : List (String × α) :=
  fields.foldl (fun done (key, value) => insertSorted key value done) done

theorem insertAll_cons (first : String × α) (rest : List (String × α)) :
    insertAll done (first :: rest) = insertAll (insertSorted first.1 first.2 done) rest :=
  rfl

theorem ascending_insertAll (ascending : Ascending done) : Ascending (insertAll done fields) := by
  induction fields generalizing done with
  | nil => exact ascending
  | cons first rest ih => exact ih (ascending_insertSorted ascending)

theorem ascending_sorted (fields : List (String × α)) : Ascending (sorted fields) :=
  ascending_insertAll .nil

theorem mem_lastOfEach_cons {first : String × α} {rest : List (String × α)} :
    field ∈ lastOfEach (first :: rest) ↔
      field ∈ lastOfEach rest ∨ field = first ∧ ∀ other ∈ rest, other.1 ≠ field.1 := by
  rw [lastOfEach]
  split <;> rename_i again
  all_goals
    simp only [List.any_eq_true, beq_iff_eq] at again
    grind

/-- Inserting property after property leaves the last of each key, and of what was there before
all that has another key. -/
theorem mem_insertAll (ascending : Ascending done) :
    field ∈ insertAll done fields ↔
      field ∈ lastOfEach fields ∨ field ∈ done ∧ ∀ other ∈ fields, other.1 ≠ field.1 := by
  induction fields generalizing done with
  | nil => simp [insertAll, lastOfEach]
  | cons first rest ih =>
    rw [insertAll_cons, ih (ascending_insertSorted ascending), mem_insertSorted ascending,
      mem_lastOfEach_cons]
    grind

theorem mem_sorted : field ∈ sorted fields ↔ field ∈ lastOfEach fields := by
  rw [show sorted fields = insertAll [] fields from rfl, mem_insertAll .nil]
  simp

theorem mem_of_mem_lastOfEach (member : field ∈ lastOfEach fields) : field ∈ fields := by
  induction fields with
  | nil => exact member
  | cons first rest ih =>
    rcases mem_lastOfEach_cons.mp member with member | ⟨rfl, _⟩
    · exact .tail _ (ih member)
    · exact .head _

theorem mem_of_mem_sorted (member : field ∈ sorted fields) : field ∈ fields :=
  mem_of_mem_lastOfEach (mem_sorted.mp member)

theorem sorted_map (f : α → β) (fields : List (String × α)) :
    sorted (fields.map (Prod.map id f)) = (sorted fields).map (Prod.map id f) := by
  have all (done : List (String × α)) :
      insertAll (done.map (Prod.map id f)) (fields.map (Prod.map id f)) =
        (insertAll done fields).map (Prod.map id f) := by
    induction fields generalizing done with
    | nil => rfl
    | cons first rest ih =>
      rw [List.map_cons, insertAll_cons, insertAll_cons, ← ih, ← insertSorted_map]
      rfl
  exact all []

theorem lastOfEach_distinct (fields : List (String × α)) :
    (lastOfEach fields).Pairwise (·.1 ≠ ·.1) := by
  induction fields with
  | nil => exact .nil
  | cons first rest ih =>
    rw [lastOfEach]
    split
    · exact ih
    · rename_i fresh
      apply List.pairwise_cons.mpr
      constructor
      · intro other member equal
        apply fresh
        simp only [List.any_eq_true, beq_iff_eq]
        exact ⟨other, mem_of_mem_lastOfEach member, equal.symm⟩
      · exact ih

theorem ascending_byKey (distinct : fields.Pairwise (·.1 ≠ ·.1)) : Ascending (byKey fields) := by
  have ordered : (byKey fields).Pairwise
      (fun a b => decide (Utf8.bytes a.1 ≤ Utf8.bytes b.1) = true) := by
    apply List.pairwise_mergeSort
    · simp only [decide_eq_true_eq]
      intro a b c
      exact List.le_trans
    · simp only [Bool.or_eq_true, decide_eq_true_eq]
      intro a b
      exact List.le_total _ _
  have apart : (byKey fields).Pairwise (·.1 ≠ ·.1) :=
    ((List.mergeSort_perm _ _).pairwise_iff fun ne => ne.symm).mpr distinct
  apply (ordered.and apart).imp
  rintro a b ⟨le, ne⟩
  simp only [decide_eq_true_eq, Utf8.bytes_le_iff] at le
  exact Std.lt_of_le_of_ne le ne

/-- Sorting properties is keeping the last of each key and ordering these by the bytes of their
keys. -/
theorem sorted_eq (fields : List (String × α)) : sorted fields = byKey (lastOfEach fields) := by
  apply (ascending_sorted fields).ext (ascending_byKey (lastOfEach_distinct fields))
  intro field
  rw [mem_sorted, byKey, List.mem_mergeSort]

theorem lastOfEach_of_ascending (ascending : Ascending fields) : lastOfEach fields = fields := by
  induction fields with
  | nil => rfl
  | cons first rest ih =>
    rcases List.pairwise_cons.mp ascending with ⟨before, above⟩
    rw [lastOfEach, if_neg, ih above]
    simp only [List.any_eq_true, beq_iff_eq]
    rintro ⟨other, member, equal⟩
    exact String.lt_irrefl _ (equal ▸ before other member)

theorem sorted_of_ascending (ascending : Ascending fields) : sorted fields = fields := by
  apply (ascending_sorted fields).ext ascending
  intro field
  rw [mem_sorted, lastOfEach_of_ascending ascending]

end Sorted

end Json

end MinangScript
