import MinangScript.Proofs.Machine.Discipline
import MinangScript.Proofs.Machine.Moments
import MinangScript.Proofs.Program.Origins

/-! # Programs cannot take the place of the functions that print

A name in a program that was read from a text is a word that is set aside for nothing. The word that
prints is set aside, and a name with a point in it is no word, so no function that a text declares is
called like one of the functions that print. However many texts are run on one machine, the table of
functions has these as it had them before, and no other name with a point.
-/

namespace MinangScript

/-- A word that is set aside for nothing. -/
structure IsName (name : String) : Prop where
  word : IsWord name.toList
  notKeyword : Keyword.ofSpelling? name = none
  notReserved : Reserved.ofSpelling? name = none

theorem IsName.no_point {name : String} (is : IsName name) : '.' ∉ name.toList := by
  obtain ⟨c, others, text, starts, parts⟩ := is.word
  rw [text]
  intro member
  obtain rfl | member := List.mem_cons.mp member
  · exact absurd starts (by decide)
  · exact absurd (parts '.' member) (by decide)

namespace Naming

/-- Whatever is declared has a name, and so has a variable unless it is the word that prints. -/
def plain : Naming where
  Declared id := IsName id.name
  Variable id := IsName id.name ∨ id.name = Keyword.printWord.spelling

theorem plain_allows {text : List Char} {t : Token} (written : t.Written text) :
    plain.Allows t := by
  have named : ∀ name, t.kind = .identifier name → IsName name := by
    intro name is
    obtain ⟨⟨_, _, -, -, word, -⟩, means⟩ := written name (by rw [is]; rfl)
    obtain ⟨notKeyword, notReserved⟩ := TokenKind.not_special_of_ofWord (means.symm.trans is)
    exact ⟨word, notKeyword, notReserved⟩
  exact
    { declared := named
      read := fun name is => .inl (named name is)
      printing := fun _ => .inr rfl }

end Naming

namespace Builtin

/-- The functions that print, the one of the word itself first. -/
def printers : List Builtin :=
  [print, printError, printReminder, printDebug, printInfo, printWarning, printTable]

theorem ofName?_name (b : Builtin) : ofName? b.name = some b := by
  cases b <;> decide

theorem name_of_ofName? {name : String} {b : Builtin} (found : ofName? name = some b) :
    b.name = name := by
  simpa using List.find?_some found

theorem not_isName_printer {b : Builtin} (printer : b ∈ printers) : ¬IsName b.name := by
  intro is
  cases b with
  | print => exact absurd is.notKeyword (by decide)
  | printError | printReminder | printDebug | printInfo | printWarning | printTable =>
      exact is.no_point (by decide)
  | _ => exact absurd printer (by decide)

theorem printer_of_point {b : Builtin} (point : '.' ∈ b.name.toList) : b ∈ printers := by
  revert point
  cases b <;> decide

end Builtin

/-- The table has the functions that print under their names, and no other name in it has a
    point. -/
structure Bindings.KeepsPrinters (table : Bindings Function) : Prop where
  printers : ∀ b ∈ Builtin.printers, table.get? b.name = some (.builtin b)
  points : ∀ name ∈ table.names, '.' ∈ name.toList → name ∈ Builtin.printers.map Builtin.name

theorem Bindings.Stocked.keepsPrinters {table : Bindings Function}
    (stocked : table.Stocked Naming.plain.Fits) : table.KeepsPrinters where
  printers := by
    intro b printer
    obtain builtin | ⟨id, params, body, same, -, fits⟩ := stocked b.name
    · rw [builtin, Builtin.ofName?_name]
      rfl
    · have named : IsName id.name := (fits _ (Stmt.mem_nodes_self _)).1
      exact absurd (same ▸ named) (Builtin.not_isName_printer printer)
  points := by
    intro name member point
    obtain builtin | ⟨id, params, body, rfl, -, fits⟩ := stocked name
    · cases found : Builtin.ofName? name with
      | none =>
          rw [found] at builtin
          exact absurd member (Bindings.get?_eq_none_iff.mp builtin)
      | some b =>
          obtain rfl := Builtin.name_of_ofName? found
          exact List.mem_map_of_mem (Builtin.printer_of_point point)
    · have named : IsName id.name := (fits _ (Stmt.mem_nodes_self _)).1
      exact absurd point named.no_point

namespace Machine

/-- Sources run on one machine one after the other, each to its end, with a value or with an error,
    and leave the machine `m`. -/
inductive RunsSources (limit : Nat) (first : Machine) : List String → Machine → Prop where
  | none : RunsSources limit first [] first
  | more {fuel : Nat} {sources : List String} {source : String} {m m' : Machine} :
      RunsSources limit first sources m → (m.run limit fuel source).EndsIn m' →
      RunsSources limit first (sources ++ [source]) m'

variable {limit : Nat} {first m : Machine} {sources : List String}

theorem RunsSources.stocked {Good : Node → Prop} (runs : RunsSources limit first sources m)
    (good : ∀ source p, parse source = .ok p → ∀ n ∈ p.nodes, Good n)
    (stocked : first.functions.Stocked Good) : m.functions.Stocked Good := by
  induction runs with
  | none => exact stocked
  | more runs ends ih => exact (run_endsWell (good _) ih).1 _ ends

theorem RunsSources.kept (runs : RunsSources limit first sources m) : Kept first m := by
  induction runs with
  | none => exact Kept.refl first
  | more runs ends ih => exact ih.trans (Kept.stable.run ends)

end Machine

/-- Parsed programs are well formed, and however many sources run on one machine, the functions that
    print stay what they are, after every run and at every moment of the next. -/
theorem parsed_programs_keep_printers :
    (∀ source p, parse source = .ok p → ∀ n ∈ p.nodes, Naming.plain.Fits n) ∧
    ∀ limit scoping sources m, Machine.RunsSources limit (.start scoping) sources m →
      m.functions.KeepsPrinters ∧
      ∀ fuel source p, parse source = .ok p →
        ∀ moment ∈ (Traced.program limit fuel p
          (m.recordAll (readProgram Machine.inputName source).entries)).2,
          moment.machine.functions.KeepsPrinters := by
  have fits : ∀ source p, parse source = .ok p → ∀ n ∈ p.nodes, Naming.plain.Fits n :=
    fun source p read => parse_allFit (fun _ => Naming.plain_allows) read
  refine ⟨fits, fun limit scoping sources m runs => ?_⟩
  have stocked := runs.stocked fits (Machine.stocked_start scoping)
  refine ⟨stocked.keepsPrinters, fun fuel source p read moment member => ?_⟩
  obtain ⟨noFrames, noCalls⟩ := runs.kept.outside (by cases scoping <;> rfl) rfl
  have steady : (m.recordAll (readProgram Machine.inputName source).entries).Steady
      (.ofGood Naming.plain.Fits) limit 0 0 :=
    ⟨stocked, noCalls, congrArg List.length noFrames, Nat.zero_le _⟩
  have shows : Traced.Shows (.ofGood Naming.plain.Fits) limit 0 (Traced.program limit fuel p)
    (Eval.program limit fuel p) := Traced.shows_program (fits source p read)
  exact ((shows _ steady).sound moment member).stocked.keepsPrinters

/-- A function takes the place of one that shows, declares another inside of its call and is called
    with the function that prints; and then a text that would declare the word that prints. -/
theorem parsed_programs_keep_printers_nested_declaration :
    let nested := "karojo tampilkan(a) \x7b karojo tabel(b) \x7b jadi b \x7d \x7d\ntampilkan(cetak)"
    let taking := "karojo cetak(a) \x7b jadi a \x7d"
    ∃ p m, parse nested = .ok p ∧ (∀ n ∈ p.nodes, Naming.plain.Fits n) ∧
      Machine.RunsSources 5 (.start .dynamic) [nested, taking] m ∧
      m.functions.has "tabel" = true ∧ m.functions.KeepsPrinters ∧
      ∀ moment ∈ (Traced.program 5 30 p
        (m.recordAll (readProgram Machine.inputName nested).entries)).2,
        moment.machine.functions.KeepsPrinters := by
  intro nested taking
  obtain ⟨fits, sessions⟩ := parsed_programs_keep_printers
  have reads : (parse nested).toOption.isSome = true := by decide +kernel
  have ends : ((Machine.run 5 30 nested (.start .dynamic)).machine?.bind fun m =>
      (m.run 5 30 taking).machine?).map (·.functions.has "tabel") = some true := by decide +kernel
  obtain ⟨m, both, declared⟩ := Option.map_eq_some_iff.mp ends
  obtain ⟨mid, first, second⟩ := Option.bind_eq_some_iff.mp both
  have runs : Machine.RunsSources 5 (.start .dynamic) [nested, taking] m :=
    .more (.more .none (Outcome.machine?_eq_some_iff.mp first))
      (Outcome.machine?_eq_some_iff.mp second)
  obtain ⟨keeps, moments⟩ := sessions 5 .dynamic _ m runs
  cases read : parse nested with
  | error e =>
      rw [read] at reads
      cases reads
  | ok p => exact ⟨p, m, rfl, fits nested p read, runs, declared, keeps, moments 30 nested p read⟩

end MinangScript
