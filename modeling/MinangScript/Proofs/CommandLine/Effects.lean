import MinangScript.Proofs.CommandLine.Actions
import MinangScript.Proofs.Disk.FileTree

/-! # What commands do to files

Every command that reads a source finishes reading it, running it or making code of it before it writes
anything, and settings are checked before they are saved. So a command that fails for its input or for
what it was asked leaves all files alone, and a build writes its output exactly if nothing before fails.
-/

namespace MinangScript

namespace CommandLine

/-! ## Reading -/

section Reading

open MinangScript.CommandLine.Action

variable {c : Circumstances (StateM FileTree)} {t : FileTree}

/-- The source in a file: a text that is not too long. -/
def IsSource (t : FileTree) (file source : String) : Prop :=
  t.readText file = .ok source ∧ source.utf8ByteSize ≤ maxSourceSize

/-- The program in a file. -/
def IsProgram (t : FileTree) (file : String) (p : Program) : Prop :=
  ∃ source, IsSource t file source ∧ (readProgram file source).outcome = .ok p

theorem finds_readSource (onTree : c.disk = FileTree.disk) (file : String) :
    Finds (readSource c file) t (IsSource t file) := by
  have reads : Finds (onDisk (.cannotRead file) (c.disk.readText file)) t
      fun source => t.readText file = .ok source := by
    rw [onTree]
    exact finds_onDisk _ rfl
  have checks : ∀ source : String, Finds (if maxSourceSize < source.utf8ByteSize then
        fail (.sourceTooLong source.utf8ByteSize) else pure source) t
      fun text => source.utf8ByteSize ≤ maxSourceSize ∧ source = text := by
    intro source
    split_ifs with long
    · exact (finds_fail _).iff fun _ => by simp [Nat.not_le.mpr long]
    · exact (finds_pure source).iff fun _ => by simp [Nat.not_lt.mp long]
  exact (reads.bind fun source _ => checks source).iff fun _ => by simp [IsSource]

theorem finds_finishReading {α : Type} (reading : Reading α) :
    Finds (finishReading c reading) t fun x => reading.outcome = .ok x := by
  have both := (finds_enterAll (t := t) c.level reading.entries).bind fun _ _ =>
    finds_lift .parse reading.outcome
  rw [finishReading]
  simpa using both

theorem finds_readFile (onTree : c.disk = FileTree.disk) (file : String) :
    Finds (readFile c file) t (IsProgram t file) :=
  (finds_readSource onTree file).bind fun _ _ => finds_finishReading _

/-! ## Commands that only read -/

theorem keeps_runFile (onTree : c.disk = FileTree.disk) (file : String) (scoping : Scoping) :
    Keeps (runFile c file scoping) t := by
  refine (finds_readFile onTree file).keeps.bind (fun program => ?_) fun _ => rfl
  refine (finds_enter _ _).keeps.bind (fun _ => ?_) fun _ => rfl
  split
  · exact (finds_enterAll _ _).keeps
  · exact (finds_enterAll _ _).keeps.bind (fun _ => (finds_fail _).keeps) fun _ => rfl
  · exact fun _ => rfl

theorem keeps_showProgram (onTree : c.disk = FileTree.disk) (file : String) (format : Format) :
    Keeps (showProgram c file format) t := by
  refine (finds_readFile onTree file).keeps.bind (fun program => ?_) fun _ => rfl
  cases format <;> exact (finds_write _ _).keeps

theorem keeps_showTokens (onTree : c.disk = FileTree.disk) (file : String) :
    Keeps (showTokens c file) t := by
  refine (finds_readSource onTree file).keeps.bind (fun source => ?_) fun _ => rfl
  refine (finds_finishReading _).keeps.bind (fun tokens => ?_) fun _ => rfl
  exact (finds_forM fun _ _ => finds_write _ _).keeps

theorem keeps_checkFile (onTree : c.disk = FileTree.disk) (file : String) :
    Keeps (checkFile c file) t :=
  (finds_readFile onTree file).keeps.bind (fun _ => (finds_write _ _).keeps) fun _ => rfl

theorem keeps_converse : Keeps (converse c) t := by
  unfold converse
  split
  · refine (finds_forM fun event _ => ?_).keeps
    cases event with
    | said => exact finds_write _ _
    | entered => exact finds_enter _ _
  · exact fun _ => rfl

end Reading

/-! ## Commands that write -/

section Writing

open MinangScript.CommandLine.Action

variable {c : Circumstances (StateM FileTree)} {t : FileTree}

theorem failsInWriting_saveSettings (settings : Settings) (path : String) :
    FailsInWriting (saveSettings c settings path) := by
  have writes : FailsInWriting (onDisk (.cannotWriteSettings path) (c.disk.writeText path settings.fileText)) :=
    failsInWriting_onDisk (fun _ => rfl) _
  unfold saveSettings
  cases Path.parent? path with
  | none => exact writes
  | some directory =>
      have creates : FailsInWriting (onDisk (.cannotCreateSettings directory) (c.disk.ensureAll directory)) :=
        failsInWriting_onDisk (fun _ => rfl) _
      exact creates.bind fun _ => writes

/-- A language is checked before any settings are written. -/
theorem spares_configure (init : Bool) (language : Option String) : Spares (configure c init language) t := by
  have saves : ∀ settings path, FailsInWriting (do
      saveSettings c settings path
      say ("Saved " ++ path)
      say settings.text) := fun settings path =>
    (failsInWriting_saveSettings settings path).bind fun _ =>
      (failsInWriting_write _ _).bind fun _ => failsInWriting_write _ _
  have shows : ∀ settings : Settings, Keeps (say settings.text) t := fun _ => (finds_write _ _).keeps
  unfold configure
  cases language
  case' none => refine (finds_pure _).keeps.spares_bind fun settings => ?_
  case' some language => refine (finds_lift _ _).keeps.spares_bind fun settings => ?_
  all_goals
    split_ifs
    · split
      · exact (finds_fail _).keeps.spares_bind fun _ => (shows settings).spares
      · exact (saves settings _).spares t
    · exact (shows settings).spares

/-- A language that cannot be set is noticed first of all. -/
theorem comes_configure (init : Bool) {language : String} (unknown : language ∉ Settings.languages) :
    Comes (configure c init (some language)) t fun result after =>
      result = .error (.failed (.unsupportedLanguage ⟨language⟩)) ∧ after = t := by
  have refused : ∀ s : Settings, s.setLanguage language = .error ⟨language⟩ := fun _ => if_neg unknown
  have lifted : ∀ s : Settings, Comes (lift .unsupportedLanguage (s.setLanguage language)) t
      fun result after => result = .error (.failed (.unsupportedLanguage ⟨language⟩)) ∧ after = t := by
    intro s
    refine comes_lift ⟨?_, rfl⟩
    rw [refused]
    rfl
  refine Comes.bind (lifted _) (fun settings after is => nomatch is.1) fun stop after is => ⟨?_, is.2⟩
  rw [Except.error.inj is.1]

/-- A project that is present is noticed before anything is created. -/
theorem spares_createProject (onTree : c.disk = FileTree.disk) (directory : String) :
    Spares (createProject c directory) t := by
  let main := Project.mainPath directory
  have looks : Keeps (liftM (c.disk.isPresent main)) t := by
    rw [onTree]
    exact comes_liftM rfl
  have directories : FailsInWriting (onDisk (.cannotCreateProject directory) (c.disk.ensureAll directory)) :=
    failsInWriting_onDisk (fun _ => rfl) _
  have sample : FailsInWriting (onDisk .cannotWriteProject
      (c.disk.writeText main (Project.sample (Project.nameOf directory)))) :=
    failsInWriting_onDisk (fun _ => rfl) _
  have creates := directories.bind fun _ => sample.bind fun _ =>
    (failsInWriting_write .results ("Created project " ++ directory ++ "\n")).bind fun _ =>
      failsInWriting_write .results ("Run it with: minang run " ++ main ++ "\n")
  refine looks.spares_bind fun present => ?_
  cases present with
  | true => exact (finds_fail _).keeps.spares_bind fun _ => creates.spares t
  | false => exact creates.spares t

/-! ## Building -/

/-- The code of the program in a file. -/
def IsCode (t : FileTree) (file : String) (wrapping : Wrapping) (code : String) : Prop :=
  ∃ p, IsProgram t file p ∧ wrapping.code p = .ok code

theorem IsCode.unique {file code code' : String} {wrapping : Wrapping} (one : IsCode t file wrapping code)
    (other : IsCode t file wrapping code') : code = code' := by
  obtain ⟨p, ⟨source, ⟨read, -⟩, parsed⟩, written⟩ := one
  obtain ⟨p', ⟨source', ⟨read', -⟩, parsed'⟩, written'⟩ := other
  obtain rfl := Except.ok.inj (read.symm.trans read')
  obtain rfl := Except.ok.inj (parsed.symm.trans parsed')
  exact Except.ok.inj (written.symm.trans written')

theorem comes_writeText (onTree : c.disk = FileTree.disk) (failure : DiskError → Failure)
    (path text : String) :
    Comes (onDisk failure (c.disk.writeText path text)) t fun result after =>
      (t.write path text.toUTF8 = .ok after ∧ result = .ok ()) ∨
      ((∀ written, t.write path text.toUTF8 ≠ .ok written) ∧
        (∃ failure, result = .error (.failed failure)) ∧ after = t) := by
  rw [onTree]
  refine comes_onDisk ?_
  cases wrote : t.write path text.toUTF8 with
  | ok written =>
      have ran : (FileTree.disk.writeText path text).run t = (.ok (), written) :=
        FileTree.update_of_ok wrote
      rw [ran]
      exact .inl ⟨rfl, rfl⟩
  | error e =>
      have ran : (FileTree.disk.writeText path text).run t = (.error e, t) :=
        FileTree.update_of_error wrote
      rw [ran]
      exact .inr ⟨nofun, ⟨_, rfl⟩, rfl⟩

/-- A build writes the code that there is to be written, or it fails and the tree is as before. -/
theorem comes_buildFile (onTree : c.disk = FileTree.disk) (input output : String) (wrapping : Wrapping) :
    Comes (buildFile c input output wrapping) t fun result after =>
      (∃ code, IsCode t input wrapping code ∧ t.write output code.toUTF8 = .ok after ∧ result = .ok ()) ∨
      ((∀ code written, IsCode t input wrapping code → t.write output code.toUTF8 ≠ .ok written) ∧
        (∃ failure, result = .error (.failed failure)) ∧ after = t) := by
  have codes := (finds_readFile (t := t) onTree input).bind fun p _ =>
    finds_lift .unsupportedNode (wrapping.code p)
  rw [buildFile, ← bind_assoc]
  refine Comes.bind codes (fun code after found => ?_) fun stop after found => ?_
  · obtain ⟨only, -, rfl⟩ := found
    have isCode := (only code).mp rfl
    refine Comes.bind (comes_writeText onTree (.cannotWrite output) output code)
      (fun _ written wrote => ?_) fun stop after wrote => ?_
    · obtain ⟨wrote, -⟩ | ⟨-, ⟨_, failed⟩, -⟩ := wrote
      · have speaks := (finds_enter (t := written) c.level (.noted (.wrote code.utf8ByteSize output))).bind
          fun _ _ => finds_write .results ("Built " ++ input ++ " -> " ++ output ++ "\n")
        refine speaks.mono fun result after said => .inl ⟨code, isCode, ?_, ?_⟩
        · rw [said.kept, wrote]
        · exact (said.only ()).mpr ⟨(), trivial, trivial⟩
      · exact nomatch failed
    · obtain ⟨-, done⟩ | ⟨unwritten, failed, same⟩ := wrote
      · exact nomatch done
      · refine .inr ⟨fun code' written isCode' => ?_, failed, same⟩
        rw [← Except.ok.inj ((only code').mpr isCode')]
        exact unwritten written
  · obtain ⟨nothing, inTime, rfl⟩ := found
    refine .inr ⟨fun code _ isCode => (nomatch (nothing code).mpr isCode), ?_, rfl⟩
    cases stop with
    | failed failure => exact ⟨failure, rfl⟩
    | outOfFuel => exact absurd rfl inTime

theorem spares_perform (onTree : c.disk = FileTree.disk) (command : Command) :
    Spares (command.perform c) t := by
  cases command with
  | run file lexical => exact (keeps_runFile onTree _ _).spares
  | build input output wrapping =>
      refine (comes_buildFile onTree input output wrapping).mono ?_
      rintro result after (⟨_, -, -, done⟩ | ⟨-, -, same⟩) failure failed -
      · exact nomatch done.symm.trans failed
      · exact same
  | parse file format => exact (keeps_showProgram onTree _ _).spares
  | tokens file => exact (keeps_showTokens onTree _).spares
  | check file => exact (keeps_checkFile onTree _).spares
  | repl => exact keeps_converse.spares
  | new directory => exact spares_createProject onTree _
  | config init language => exact spares_configure _ _

end Writing

/-! ## Uses of the command line -/

section Uses

open MinangScript.CommandLine.Action

variable {t : FileTree}

theorem prepare_run (around : Surroundings) (fuel : Nat) (i : Invocation) :
    ∃ c, (prepare FileTree.disk around fuel i).run t = (c, t) ∧ c.disk = FileTree.disk := by
  unfold prepare
  cases i.settings.or (around.home.map usualSettingsPath) with
  | none => exact ⟨_, rfl, rfl⟩
  | some path => exact ⟨_, rfl, rfl⟩

/-- How a result of an action is reported. -/
def endingOf : Except Stop Unit → Ending
  | .ok () => .done
  | .error (.failed failure) => .failed failure
  | .error .outOfFuel => .outOfFuel

theorem eq_of_endingOf {result : Except Stop Unit} {failure : Failure}
    (failed : endingOf result = .failed failure) : result = .error (.failed failure) := by
  unfold endingOf at failed
  split at failed
  · exact nomatch failed
  · rw [Ending.failed.inj failed]
  · exact nomatch failed

theorem report_of_comes {a : Action (StateM FileTree) Unit} {Q : Except Stop Unit → FileTree → Prop}
    (comes : Comes a t Q) : ∃ result, Q result ((Action.report a).run t).2 ∧
      ((Action.report a).run t).1.ending = endingOf result := by
  have holds := comes []
  have ran : (Action.report a).run t = (match ((a.run.run []).run t).1.1 with
      | .ok () => ⟨.done, ((a.run.run []).run t).1.2.reverse⟩
      | .error (.failed f) =>
        ⟨.failed f, (⟨.trouble, "error: " ++ f.message ++ "\n"⟩ :: ((a.run.run []).run t).1.2).reverse⟩
      | .error .outOfFuel => ⟨.outOfFuel, ((a.run.run []).run t).1.2.reverse⟩,
      ((a.run.run []).run t).2) := rfl
  refine ⟨_, holds, ?_⟩
  rw [ran]
  rcases ((a.run.run []).run t).1.1 with (_ | _) | _ <;> rfl

/-- A use of the command line is that of a command in some circumstances, after its settings were noted. -/
theorem use_of_comes {around : Surroundings} {fuel : Nat} {arguments : List String} {i : Invocation}
    (told : readArguments arguments = .ok i) {Q : Except Stop Unit → FileTree → Prop}
    (comes : ∀ c : Circumstances (StateM FileTree), c.disk = FileTree.disk →
      Comes (i.command.perform c) t Q) :
    ∃ result, Q result ((use FileTree.disk around fuel arguments).run t).2 ∧
      ((use FileTree.disk around fuel arguments).run t).1.ending = endingOf result := by
  obtain ⟨c, prepared, onTree⟩ := prepare_run (t := t) around fuel i
  have whole : Comes (do
      enter c.level (.noted (.settings c.settingsPath))
      i.command.perform c) t Q := by
    refine Comes.bind (finds_enter _ _) (fun _ after noted => ?_) fun stop _ noted =>
      nomatch (noted.only ()).mpr trivial
    rw [noted.kept]
    exact comes c onTree
  have performed : (use FileTree.disk around fuel arguments).run t = (Action.report do
      enter c.level (.noted (.settings c.settingsPath))
      i.command.perform c).run t := by
    rw [use, told]
    change StateT.run (prepare FileTree.disk around fuel i >>= _) t = _
    rw [StateT.run_bind, prepared]
    rfl
  rw [performed]
  exact report_of_comes whole

/-- A use of the command line that fails otherwise than in an attempt to write leaves all files and
    directories as they are. A language that cannot be set is noticed before anything is written, also if the
    settings are to be made anew. A build writes its output exactly if the source is read, has a program and
    the program has code, and if the writing succeeds; then the code is found there and nothing else has
    changed. Otherwise it fails and nothing has changed. -/
theorem failing_commands_leave_files_alone {around : Surroundings} {fuel : Nat} {arguments : List String}
    {report : Report} {after : FileTree}
    (used : (use FileTree.disk around fuel arguments).run t = (report, after)) :
    (∀ failure, report.ending = .failed failure → failure.isWriting = false →
      report.ending.code? = some 1 ∧ after = t) ∧
    (∀ i init language, readArguments arguments = .ok i → i.command = .config init (some language) →
      language ∉ Settings.languages →
      report.ending = .failed (.unsupportedLanguage ⟨language⟩) ∧ after = t) ∧
    ∀ i input output wrapping, readArguments arguments = .ok i →
      i.command = .build input output wrapping →
      (∃ code, IsCode t input wrapping code ∧ t.write output code.toUTF8 = .ok after ∧
        report.ending = .done ∧ after.readText output = .ok code ∧
        ∃ place, ∀ other, other ≠ place → after.get? other = t.get? other) ∨
      ((∀ code written, IsCode t input wrapping code → t.write output code.toUTF8 ≠ .ok written) ∧
        (∃ failure, report.ending = .failed failure) ∧ after = t) := by
  refine ⟨fun failure failed other => ?_, ?_, ?_⟩
  · cases told : readArguments arguments with
    | error e =>
        rw [use, told] at used
        obtain rfl : e.report = report := congrArg Prod.fst used
        cases e <;> exact nomatch failed
    | ok i =>
        obtain ⟨result, spared, ending⟩ := use_of_comes told fun c onTree => spares_perform onTree i.command
        rw [used] at spared ending
        rw [failed] at ending ⊢
        exact ⟨rfl, spared failure (eq_of_endingOf ending.symm) other⟩
  · rintro ⟨verbose, path, _⟩ init language told rfl unknown
    obtain ⟨result, ⟨rfl, same⟩, ending⟩ := use_of_comes told fun c _ =>
      show Comes (configure c init (some language)) t _ from comes_configure init unknown
    rw [used] at same ending
    exact ⟨ending, same⟩
  · rintro ⟨verbose, path, _⟩ input output wrapping told rfl
    obtain ⟨result, built, ending⟩ := use_of_comes told fun c onTree =>
      show Comes (buildFile c input output wrapping) t _ from comes_buildFile onTree input output wrapping
    rw [used] at built ending
    obtain ⟨code, isCode, wrote, rfl⟩ | ⟨unwritten, ⟨failure, rfl⟩, same⟩ := built
    · obtain ⟨-, place, -, others⟩ := FileTree.read_write wrote
      exact .inl ⟨code, isCode, wrote, ending, FileTree.readText_write wrote, place, others⟩
    · exact .inr ⟨unwritten, ⟨failure, ending⟩, same⟩

/-- A program of one name that is built, and settings that are not made anew in a language that there is
    not. -/
theorem failing_commands_leave_files_alone_one_name :
    let t := FileTree.empty.put ["a"] (.file "x".toUTF8)
    (∃ report after, (use FileTree.disk {} 0 ["build", "a", "b"]).run t = (report, after) ∧
      report.ending = .done ∧ after.readText "b" = .ok "x;\n") ∧
    ∃ report, (use FileTree.disk {} 0 ["config", "--init", "--language", "fr"]).run t = (report, t) ∧
      report.ending = .failed (.unsupportedLanguage ⟨"fr"⟩) := by
  intro t
  have kept : FileTree.empty.write "a" "x".toUTF8 = .ok t := by rfl
  let p : Program := ⟨[.expr (.ident ⟨"x", ⟨1, 1⟩⟩)]⟩
  have read : (readProgram "a" "x").outcome = .ok p := by rfl
  have coded : Wrapping.code p .bare = .ok "x;\n" := by
    rw [Wrapping.code, JavaScript.program, List.mapM_cons, JavaScript.stmt]
    rfl
  have isCode : IsCode t "a" .bare "x;\n" :=
    ⟨p, ⟨"x", ⟨FileTree.readText_write kept, by decide⟩, read⟩, coded⟩
  have toBuild : readArguments ["build", "a", "b"] = .ok ⟨0, none, .build "a" "b" .bare⟩ := by rfl
  have toConfigure : readArguments ["config", "--init", "--language", "fr"] =
    .ok ⟨0, none, .config true (some "fr")⟩ := by rfl
  constructor
  · cases used : (use FileTree.disk {} 0 ["build", "a", "b"]).run t with
    | mk report after =>
        obtain ⟨-, -, builds⟩ := failing_commands_leave_files_alone used
        obtain ⟨code, isCode', -, done, found, -⟩ | ⟨unwritten, -⟩ := builds _ _ _ _ toBuild rfl
        · exact ⟨report, after, rfl, done, isCode'.unique isCode ▸ found⟩
        · exact absurd rfl (unwritten _ (t.put ["b"] (.file "x;\n".toUTF8)) isCode)
  · cases used : (use FileTree.disk {} 0 ["config", "--init", "--language", "fr"]).run t with
    | mk report after =>
        obtain ⟨-, configures, -⟩ := failing_commands_leave_files_alone used
        obtain ⟨refused, rfl⟩ := configures _ _ _ toConfigure rfl (by decide)
        exact ⟨report, rfl, refused⟩

end Uses

end CommandLine

end MinangScript
