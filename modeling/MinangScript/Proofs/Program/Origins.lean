import MinangScript.Proofs.Lexer.Words
import MinangScript.Proofs.Machine.Outlook
import MinangScript.Proofs.Parser.Naming

/-! # Names point at their source

Every name in a program that was read from a text has a position at which the text spells it. A word
of the text becomes a token there, a parser copies the position of the token wherever it uses the
name, even where it uses it twice, and the evaluator keeps the program it was given, in the bodies of
functions too. So when a variable is missing, the error points at an occurrence of it in the text.
-/

namespace MinangScript

/-- The names that a node itself has, without those of the nodes inside of it. -/
def Node.idents : Node → List Ident
  | .expr (.assign target _) => [target]
  | .expr (.member _ property) => [property]
  | .expr (.ident id) => [id]
  | .stmt (.declare _ name _) => [name]
  | .stmt (.function name params _) => name :: params
  | _ => []

/-- All names in a program, as often as they occur. -/
def Program.idents (p : Program) : List Ident :=
  p.nodes.flatMap Node.idents

namespace Naming

/-- The names that a text spells at their positions. -/
def spelledIn (text : List Char) : Naming where
  Declared id := SpelledAt text id.name id.position
  Variable id := SpelledAt text id.name id.position

variable {text : List Char}

theorem spelledIn_allows {t : Token} (written : t.Written text) : (spelledIn text).Allows t where
  declared name is := (written name (by rw [is]; rfl)).1
  read name is := (written name (by rw [is]; rfl)).1
  printing is := (written Keyword.printWord.spelling (by rw [is]; rfl)).1

theorem spelled_of_fits {n : Node} (fits : (spelledIn text).Fits n) :
    ∀ id ∈ n.idents, SpelledAt text id.name id.position := by
  cases n with
  | expr e =>
      cases e with
      | assign | member | ident => exact List.forall_mem_singleton.mpr fits
      | _ => exact List.forall_mem_nil _
  | stmt s =>
      cases s with
      | declare => exact List.forall_mem_singleton.mpr fits.1
      | function => exact List.forall_mem_cons.mpr fits
      | _ => exact List.forall_mem_nil _

end Naming

/-- Whatever holds of the words of a source holds of the names in its program. -/
theorem parse_allFit {N : Naming} {source : String} {p : Program}
    (allows : ∀ t : Token, t.Written source.toList → N.Allows t) (read : parse source = .ok p) :
    N.AllFit p.nodes := by
  obtain ⟨tokens, lexed, parsed⟩ := Parser.parse_eq_ok_iff.mp read
  exact parseTokens_allFit (fun t member => allows t (tokens_written lexed t member)) parsed

/-- Every name in a program that was read from a text stands there where it says, and so does the
    variable that a run of the text on a new machine stops for. -/
theorem names_point_at_their_source (source : String) :
    (∀ p, parse source = .ok p →
      ∀ id ∈ p.idents, SpelledAt source.toList id.name id.position) ∧
    ∀ limit fuel scoping id m,
      Machine.run limit fuel source (.start scoping) =
        .failed (.runtime (.undefinedVariable id)) m →
      SpelledAt source.toList id.name id.position := by
  have fits : ∀ p, parse source = .ok p → (Naming.spelledIn source.toList).AllFit p.nodes :=
    fun p read => parse_allFit (fun _ => Naming.spelledIn_allows) read
  refine ⟨fun p read id member => ?_, fun limit fuel scoping id m failed => ?_⟩
  · obtain ⟨n, inside, named⟩ := List.mem_flatMap.mp member
    exact Naming.spelled_of_fits (fits p read n inside) id named
  · obtain ⟨-, fair⟩ := Machine.run_endsWell fits (Machine.stocked_start scoping)
    exact fair _ m failed id rfl

/-- A step of a missing variable, in an interpolation inside of an interpolation that a method of
    printing prints. The step names the variable twice. -/
theorem names_point_at_their_source_nested_step :
    let source := "karojo f() \x7b\n  cetak.pesan `$\x7b`a$\x7b g++\x7d`\x7d`\n\x7d\nf()"
    let g : Ident := ⟨"g", ⟨2, 23⟩⟩
    ∃ p m, parse source = .ok p ∧ p.idents.count g = 2 ∧
      (∀ id ∈ p.idents, SpelledAt source.toList id.name id.position) ∧
      Machine.run 5 30 source (.start .dynamic) = .failed (.runtime (.undefinedVariable g)) m ∧
      SpelledAt source.toList "g" ⟨2, 23⟩ := by
  intro source g
  obtain ⟨spelled, missing⟩ := names_point_at_their_source source
  have counted : (parse source).toOption.map (·.idents.count g) = some 2 := by decide +kernel
  have stops : (match Machine.run 5 30 source (.start .dynamic) with
      | .failed (.runtime e) _ => some e
      | _ => none) = some (.undefinedVariable g) := by decide +kernel
  split at stops
  · rename_i e m ran
    cases stops
    cases read : parse source with
    | error e =>
        rw [read] at counted
        cases counted
    | ok p =>
        rw [read] at counted
        exact ⟨p, m, rfl, Option.some.inj counted, spelled p read, ran, missing 5 30 .dynamic g m ran⟩
  · cases stops

end MinangScript
