import Mathlib.Order.Basic
import MinangScript.Disk.FileTree

/-! # What is written to a tree of files

A file that was written is found again under the same path, since the place that it is put at was no
directory and the way there leads through directories only. Nothing else in the tree is changed.
-/

namespace MinangScript

namespace FileTree

variable {t t' : FileTree} {place : Location} {node : FileNode} {path : String}

/-! ## Places -/

theorem get?_put_self (nonempty : place ≠ []) : (t.put place node).get? place = some node := by
  cases place with
  | nil => exact absurd rfl nonempty
  | cons name place => simp [get?, put]

theorem lookup_filter_ne {other : Location} (ne : other ≠ place) (entries : List (Location × FileNode)) :
    (entries.filter fun entry => entry.1 != place).lookup other = entries.lookup other := by
  induction entries with
  | nil => rfl
  | cons entry rest ih =>
      obtain ⟨here, node⟩ := entry
      by_cases same : here = place
      · subst same
        have different : (other == here) = false := beq_eq_false_iff_ne.mpr ne
        simp [List.lookup_cons, ih, different]
      · simp [List.lookup_cons, ih, same]

theorem get?_put_ne {other : Location} (ne : other ≠ place) :
    (t.put place node).get? other = t.get? other := by
  cases other with
  | nil => rfl
  | cons name other =>
      have different : (name :: other == place) = false := by simpa using ne
      simp [get?, put, List.lookup_cons, different, lookup_filter_ne ne]

/-! ## Ways -/

/-- The directories of a tree are there in another one. -/
def DirectoriesIn (t t' : FileTree) : Prop :=
  ∀ place, t.get? place = some .directory → t'.get? place = some .directory

theorem directoriesIn_put (free : t.get? place ≠ some .directory) : t.DirectoriesIn (t.put place node) := by
  intro other is
  rwa [get?_put_ne]
  rintro rfl
  exact free is

theorem bind_eq_ok_iff {α β : Type} {first : Except DiskError α} {next : α → Except DiskError β} {b : β} :
    first >>= next = .ok b ↔ ∃ a, first = .ok a ∧ next a = .ok b := by
  cases first with
  | error e => exact iff_of_false nofun (by simp)
  | ok a => simp [bind, Except.bind]

theorem enter_mono (kept : t.DirectoriesIn t') {directory next : Location} {piece : String}
    (entered : t.enter directory piece = .ok next) : t'.enter directory piece = .ok next := by
  rw [enter, bind_eq_ok_iff] at entered ⊢
  obtain ⟨place, there, is⟩ := entered
  refine ⟨place, there, ?_⟩
  split at is
  · cases is
  · cases is
  · rename_i found
    rw [kept place found]
    exact is

theorem foldlM_enter_mono (kept : t.DirectoriesIn t') {directory last : Location} {pieces : List String}
    (entered : pieces.foldlM t.enter directory = .ok last) :
    pieces.foldlM t'.enter directory = .ok last := by
  induction pieces generalizing directory with
  | nil => exact entered
  | cons piece rest ih =>
      rw [List.foldlM_cons, bind_eq_ok_iff] at entered ⊢
      obtain ⟨next, first, later⟩ := entered
      exact ⟨next, enter_mono kept first, ih later⟩

/-- A path leads the same way if no directory on it is lost. -/
theorem target_mono (kept : t.DirectoriesIn t') {target : Target}
    (is : t.target path = .ok target) : t'.target path = .ok target := by
  unfold FileTree.target at is ⊢
  split_ifs at is ⊢ with empty long
  dsimp only at is ⊢
  split at is
  · exact is
  · rw [bind_eq_ok_iff] at is ⊢
    obtain ⟨directory, way, is⟩ := is
    exact ⟨directory, foldlM_enter_mono kept way, is⟩

/-! ## Files -/

/-- Writing puts the bytes where the path leads, if no directory is there or meant. -/
theorem write_cases {bytes : ByteArray} (written : t.write path bytes = .ok t') :
    ∃ target place, t.target path = .ok target ∧ ¬(target.isDots ∨ target.slash) ∧
      follow target.directory target.name = .ok place ∧ t.get? place ≠ some .directory ∧
      t' = t.put place (.file bytes) := by
  obtain ⟨target, way, is⟩ := bind_eq_ok_iff.mp written
  split_ifs at is with noFile
  obtain ⟨place, there, is⟩ := bind_eq_ok_iff.mp is
  split at is
  · cases is
  · rename_i free
    cases is
    exact ⟨target, place, way, noFile, there, free, rfl⟩

/-- What was written is read again, and there is no other difference. -/
theorem read_write {bytes : ByteArray} (written : t.write path bytes = .ok t') :
    t'.read path = .ok bytes ∧
      ∃ place, t'.get? place = some (.file bytes) ∧
        ∀ other, other ≠ place → t'.get? other = t.get? other := by
  obtain ⟨target, place, way, isFile, there, free, rfl⟩ := write_cases written
  have put : (t.put place (.file bytes)).get? place = some (.file bytes) :=
    get?_put_self fun root => free (root ▸ rfl)
  refine ⟨?_, place, put, fun other ne => get?_put_ne ne⟩
  have noSlash : target.slash = false := by simpa using fun slash => isFile (.inr slash)
  have found : (t.put place (.file bytes)).find path = .ok (.file bytes) := by
    refine bind_eq_ok_iff.mpr ⟨target, target_mono (directoriesIn_put free) way, ?_⟩
    refine bind_eq_ok_iff.mpr ⟨place, there, ?_⟩
    rw [put, noSlash]
    rfl
  exact bind_eq_ok_iff.mpr ⟨_, found, rfl⟩

theorem update_of_ok {change : FileTree → Except DiskError FileTree} (changed : change t = .ok t') :
    (update change).run t = (.ok (), t') := by
  change update change t = _
  rw [update, changed]

theorem update_of_error {change : FileTree → Except DiskError FileTree} {e : DiskError}
    (failed : change t = .error e) : (update change).run t = (.error e, t) := by
  change update change t = _
  rw [update, failed]

theorem readText_write {text : String} (written : t.write path text.toUTF8 = .ok t') :
    t'.readText path = .ok text := by
  have valid : String.fromUTF8? text.toUTF8 = some text := dif_pos text.isValidUTF8
  exact bind_eq_ok_iff.mpr ⟨_, (read_write written).1, by rw [valid]; rfl⟩

end FileTree

end MinangScript
