import MinangScript.CommandLine.Perform
import MinangScript.Disk.FileTree

/-! # Actions on a tree of files

What holds of an action holds of its result and of the tree after it, whatever has been written to the
streams before. Most actions leave the tree alone, and of these it can be said what they find.
-/

namespace MinangScript

namespace CommandLine

namespace Action

variable {α β : Type} {t : FileTree}

/-- What an action comes to on a tree of files: its result and the tree after it, whatever has been
    written before. -/
def Comes (a : Action (StateM FileTree) α) (t : FileTree) (Q : Except Stop α → FileTree → Prop) : Prop :=
  ∀ outputs, Q ((a.run.run outputs).run t).1.1 ((a.run.run outputs).run t).2

/-- The action leaves a tree as it is. -/
def Keeps (a : Action (StateM FileTree) α) (t : FileTree) : Prop :=
  Comes a t fun _ after => after = t

/-- What is asked for was found on a tree, or there is no such thing and that is a failure. -/
structure Found (asked : α → Prop) (t : FileTree) (result : Except Stop α) (after : FileTree) : Prop where
  only : ∀ x, result = .ok x ↔ asked x
  inTime : result ≠ .error .outOfFuel
  kept : after = t

/-- The action finds what is asked for, if there is such a thing, and leaves the tree as it is. -/
def Finds (a : Action (StateM FileTree) α) (t : FileTree) (asked : α → Prop) : Prop :=
  Comes a t (Found asked t)

section Rules

variable {a : Action (StateM FileTree) α} {f : α → Action (StateM FileTree) β}

theorem Comes.mono {P Q : Except Stop α → FileTree → Prop} (comes : Comes a t P)
    (implies : ∀ result after, P result after → Q result after) : Comes a t Q :=
  fun outputs => implies _ _ (comes outputs)

theorem comes_pure {x : α} {Q : Except Stop α → FileTree → Prop} (holds : Q (.ok x) t) :
    Comes (pure x) t Q :=
  fun _ => holds

theorem Comes.bind {P : Except Stop α → FileTree → Prop} {Q : Except Stop β → FileTree → Prop}
    (first : Comes a t P) (later : ∀ x after, P (.ok x) after → Comes (f x) after Q)
    (stops : ∀ stop after, P (.error stop) after → Q (.error stop) after) : Comes (a >>= f) t Q := by
  intro outputs
  have holds := first outputs
  rw [ExceptT.run_bind, StateT.run_bind, StateT.run_bind]
  cases ran : (a.run.run outputs).run t with
  | mk both after =>
    obtain ⟨result, written⟩ := both
    rw [ran] at holds
    cases result with
    | ok x => exact later x after holds written
    | error stop => exact stops stop after holds

theorem comes_write {stream : Stream} {text : String} {Q : Except Stop Unit → FileTree → Prop}
    (holds : Q (.ok ()) t) : Comes (write stream text) t Q :=
  fun _ => holds

theorem comes_lift {ε : Type} {failure : ε → Failure} {x : Except ε α}
    {Q : Except Stop α → FileTree → Prop} (holds : Q (x.mapError fun e => .failed (failure e)) t) :
    Comes (lift failure x) t Q := by
  cases x <;> exact fun _ => holds

theorem comes_liftM {operation : StateM FileTree α} {Q : Except Stop α → FileTree → Prop}
    (holds : Q (.ok (operation.run t).1) (operation.run t).2) : Comes (liftM operation) t Q :=
  fun _ => holds

theorem comes_onDisk {failure : DiskError → Failure} {operation : StateM FileTree (Except DiskError α)}
    {Q : Except Stop α → FileTree → Prop}
    (holds : Q ((operation.run t).1.mapError fun e => .failed (failure e)) (operation.run t).2) :
    Comes (onDisk failure operation) t Q := by
  have ran : Comes (liftM operation) t fun result after =>
      result = .ok (operation.run t).1 ∧ after = (operation.run t).2 := comes_liftM ⟨rfl, rfl⟩
  refine ran.bind (fun result after is => ?_) fun stop after is => nomatch is.1
  rw [Except.ok.inj is.1, is.2]
  exact comes_lift holds

theorem Keeps.bind {Q : Except Stop β → FileTree → Prop} (first : Keeps a t)
    (later : ∀ x, Comes (f x) t Q) (stops : ∀ stop, Q (.error stop) t) : Comes (a >>= f) t Q :=
  Comes.bind first (fun x _ same => same ▸ later x) fun stop _ same => same ▸ stops stop

theorem Finds.keeps {asked : α → Prop} (finds : Finds a t asked) : Keeps a t :=
  finds.mono fun _ _ found => found.kept

theorem Finds.iff {asked asked' : α → Prop} (finds : Finds a t asked) (same : ∀ x, asked x ↔ asked' x) :
    Finds a t asked' :=
  finds.mono fun _ _ found => ⟨fun x => (found.only x).trans (same x), found.inTime, found.kept⟩

theorem found_mapError {ε : Type} (failure : ε → Failure) (x : Except ε α) :
    Found (fun y => x = .ok y) t (x.mapError fun e => .failed (failure e)) t := by
  cases x with
  | error e => exact ⟨fun y => iff_of_false nofun nofun, nofun, rfl⟩
  | ok x =>
      refine ⟨fun y => ?_, nofun, rfl⟩
      constructor
      · exact fun same => congrArg Except.ok (Except.ok.inj same)
      · exact fun same => congrArg Except.ok (Except.ok.inj same)

theorem finds_lift {ε : Type} (failure : ε → Failure) (x : Except ε α) :
    Finds (lift failure x) t fun y => x = .ok y :=
  comes_lift (found_mapError failure x)

theorem finds_onDisk (failure : DiskError → Failure) {operation : StateM FileTree (Except DiskError α)}
    (kept : (operation.run t).2 = t) :
    Finds (onDisk failure operation) t fun x => (operation.run t).1 = .ok x := by
  refine comes_onDisk ?_
  rw [kept]
  exact found_mapError failure (operation.run t).1

theorem finds_pure (x : α) : Finds (pure x) t fun y => x = y :=
  comes_pure ⟨fun _ => by simp, nofun, rfl⟩

theorem finds_skip : Finds (pure ()) t fun _ => True :=
  comes_pure ⟨fun _ => iff_of_true rfl trivial, nofun, rfl⟩

theorem finds_fail (failure : Failure) : Finds (fail failure) t fun _ : α => False :=
  fun _ => ⟨fun _ => iff_of_false nofun id, nofun, rfl⟩

theorem Finds.bind {asked : α → Prop} {later : α → β → Prop} (first : Finds a t asked)
    (next : ∀ x, asked x → Finds (f x) t (later x)) :
    Finds (a >>= f) t fun y => ∃ x, asked x ∧ later x y := by
  refine Comes.bind first ?_ ?_
  · rintro x _ ⟨only, -, rfl⟩
    have is := (only x).mp rfl
    refine (next x is).mono fun result after found => ⟨fun y => ?_, found.inTime, found.kept⟩
    rw [found.only]
    constructor
    · exact fun there => ⟨x, is, there⟩
    · rintro ⟨x', is', there⟩
      cases (only x').mpr is'
      exact there
  · rintro stop _ ⟨nothing, inTime, rfl⟩
    refine ⟨fun y => iff_of_false nofun ?_, ?_, rfl⟩
    · rintro ⟨x, is, -⟩
      cases (nothing x).mpr is
    · rintro ⟨⟩
      exact inTime rfl

end Rules

/-! ## Output -/

theorem finds_write (stream : Stream) (text : String) : Finds (write stream text) t fun _ => True :=
  comes_write ⟨fun _ => iff_of_true rfl trivial, nofun, rfl⟩

theorem finds_enter (level : LogLevel) (entry : Entry) : Finds (enter level entry) t fun _ => True := by
  cases entry with
  | printed => exact finds_write _ _
  | noted note =>
      rw [enter]
      split
      · exact finds_write _ _
      · exact finds_skip

theorem finds_forM {items : List α} {f : α → Action (StateM FileTree) Unit}
    (each : ∀ x ∈ items, Finds (f x) t fun _ => True) : Finds (items.forM f) t fun _ => True := by
  induction items with
  | nil => exact finds_skip
  | cons x rest ih =>
      obtain ⟨here, later⟩ := List.forall_mem_cons.mp each
      have both := here.bind fun _ _ => ih later
      simpa using both

theorem finds_enterAll (level : LogLevel) (entries : List Entry) :
    Finds (enterAll level entries) t fun _ => True :=
  finds_forM fun _ _ => finds_enter _ _

end Action

/-! ## Failing before anything is written -/

/-- The failure comes from an attempt to write. -/
def Failure.isWriting : Failure → Bool
  | cannotWrite _ _ => true
  | cannotCreateProject _ _ => true
  | cannotWriteProject _ => true
  | cannotCreateSettings _ _ => true
  | cannotWriteSettings _ _ => true
  | _ => false

namespace Action

section Failing

variable {α β : Type} {t : FileTree} {a : Action (StateM FileTree) α}
  {f : α → Action (StateM FileTree) β}

/-- The action fails in an attempt to write if it fails. -/
def FailsInWriting (a : Action (StateM FileTree) α) : Prop :=
  ∀ t, Comes a t fun result _ => ∀ failure, result = .error (.failed failure) → failure.isWriting = true

/-- The action leaves a tree as it is if it fails otherwise than in an attempt to write. -/
def Spares (a : Action (StateM FileTree) α) (t : FileTree) : Prop :=
  Comes a t fun result after =>
    ∀ failure, result = .error (.failed failure) → failure.isWriting = false → after = t

theorem FailsInWriting.bind (first : FailsInWriting a) (later : ∀ x, FailsInWriting (f x)) :
    FailsInWriting (a >>= f) := by
  intro t
  refine Comes.bind (first t) (fun x after _ => later x after) ?_
  intro stop after all failure failed
  cases failed
  exact all failure rfl

theorem failsInWriting_write (stream : Stream) (text : String) : FailsInWriting (write stream text) :=
  fun _ => comes_write fun _ failed => nomatch failed

theorem failsInWriting_onDisk {failure : DiskError → Failure} (writing : ∀ e, (failure e).isWriting = true)
    (operation : StateM FileTree (Except DiskError α)) : FailsInWriting (onDisk failure operation) := by
  intro t
  refine comes_onDisk ?_
  intro failed is
  cases result : (operation.run t).1 with
  | ok x =>
      rw [result] at is
      exact nomatch is
  | error e =>
      rw [result] at is
      have same : failure e = failed := Stop.failed.inj (Except.error.inj is)
      rw [← same]
      exact writing e

theorem FailsInWriting.spares (fails : FailsInWriting a) (t : FileTree) : Spares a t := by
  refine (fails t).mono fun result after all failure failed other => ?_
  cases (all failure failed).symm.trans other

theorem Keeps.spares (keeps : Keeps a t) : Spares a t :=
  keeps.mono fun _ _ same _ _ _ => same

theorem Keeps.spares_bind (first : Keeps a t) (later : ∀ x, Spares (f x) t) : Spares (a >>= f) t :=
  first.bind later fun _ _ _ _ => rfl

end Failing

end Action

end CommandLine

end MinangScript
