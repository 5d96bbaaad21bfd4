import MinangScript.Proofs.Lexer.Balance
import MinangScript.Proofs.Lexer.Chunks
import MinangScript.Proofs.Lexer.MainLoop

/-! # Template literals

A template literal is written as texts with interpolations between them. A text is written character
by character, some of them behind a backslash, and ends at the first mark that is not; an
interpolation ends at the brace that closes it, so what stands in it closes all the braces that it
opens, whatever else it is. The tokens are those of the parts, one after the other: the interpolations
are read as sources of their own, and only blank ones are not read at all.
-/

namespace MinangScript

namespace Lexeme

/-- Whether a character opens a brace. -/
def opensBrace (c : Char) : Bool :=
  c == '\x7b'

/-- Whether a character closes a brace. -/
def closesBrace (c : Char) : Bool :=
  c == '\x7d'

theorem interpolation_of_balanced {inner : List Char}
    (balanced : Balanced opensBrace closesBrace inner) (rest : List Char) :
    interpolation 0 [] (inner ++ '\x7d' :: rest) = (inner, '\x7d' :: rest) := by
  obtain ⟨found, after, same, split, within, closed⟩ :=
    interpolation_split 0 [] (inner ++ '\x7d' :: rest)
  have shorter : found.length ≤ inner.length := balanced.length_le rfl rfl within split
  obtain rfl | ⟨settled, brace⟩ := closed
  · have lengths := congrArg List.length split
    simp only [List.length_append, List.length_cons, List.length_nil] at lengths
    omega
  · obtain ⟨later, rfl⟩ := brace
    have foundBalanced : Balanced opensBrace closesBrace found := ⟨within, settled⟩
    obtain ⟨rfl, behind⟩ := balanced.append_inj foundBalanced rfl rfl rfl rfl split
    rw [same, behind]
    rfl

/-! ## Texts -/

/-- A text of a template literal as it is written: a backslash goes with the character behind it, and
    neither a backtick nor the beginning of an interpolation stands without one. -/
inductive IsFragment : List Char → Prop where
  | nil : IsFragment []
  | plain {c : Char} {text : List Char} : c ≠ '\\' → endsTemplateText (c :: text) = false →
      IsFragment text → IsFragment (c :: text)
  | escaped {c : Char} {text : List Char} : IsFragment text → IsFragment ('\\' :: c :: text)

/-- What a text of a template literal reads as. -/
def reading (text : List Char) : String :=
  String.ofList (unescape [] text)

theorem endsTemplateText_cons (c : Char) (text : List Char) :
    endsTemplateText (c :: text) = (c == backtick || c == '$' && startsWith '\x7b' text) := by
  cases text with
  | nil => simp [endsTemplateText, startsWith]
  | cons d text =>
      by_cases opens : c = '$' ∧ d = '\x7b'
      · obtain ⟨rfl, rfl⟩ := opens
        rfl
      · unfold endsTemplateText
        split
        · rename_i same
          cases same
          exact absurd ⟨rfl, rfl⟩ opens
        · rename_i same
          cases same
          have other : (c == '$' && startsWith '\x7b' (d :: text)) = false := by
            simpa [startsWith] using opens
          rw [other, Bool.or_false]
        · rename_i same
          cases same

/-- What ends a text does not begin with the brace that a dollar sign would need. -/
theorem endsTemplateText_append {c : Char} {text after : List Char}
    (inside : endsTemplateText (c :: text) = false) (ends : endsTemplateText after = true) :
    endsTemplateText (c :: (text ++ after)) = false := by
  have brace : startsWith '\x7b' (text ++ after) = startsWith '\x7b' text := by
    cases text with
    | cons d text => rfl
    | nil =>
        cases after with
        | nil => cases ends
        | cons d after =>
            have other : d ≠ '\x7b' := by
              rintro rfl
              cases ends
            simpa [startsWith] using other
  rw [endsTemplateText_cons] at inside ⊢
  rw [brace, inside]

theorem IsFragment.goes_on {text after : List Char} (fragment : IsFragment text)
    (nonempty : text ≠ []) (ends : endsTemplateText after = true) :
    endsTemplateText (text ++ after) = false := by
  cases fragment with
  | nil => exact absurd rfl nonempty
  | plain _ inside => exact endsTemplateText_append inside ends
  | escaped => rfl

theorem IsFragment.escapedUntil {text : List Char} (fragment : IsFragment text)
    (seen : List Char) {after : List Char} (ends : endsTemplateText after = true) :
    escapedUntil endsTemplateText seen (text ++ after) = (seen.reverse ++ text, after) := by
  induction fragment generalizing seen with
  | nil =>
      cases after with
      | nil => cases ends
      | cons c after =>
          rw [List.nil_append, Lexeme.escapedUntil.eq_def]
          simp [ends]
  | @plain c text other inside _ ih =>
      have goesOn := endsTemplateText_append inside ends
      rw [List.cons_append, Lexeme.escapedUntil.eq_def]
      simp [goesOn, other, ih]
  | @escaped c text _ ih =>
      have goesOn : endsTemplateText ('\\' :: c :: (text ++ after)) = false := rfl
      rw [List.cons_append, List.cons_append, Lexeme.escapedUntil.eq_def]
      simp [goesOn, ih]

theorem length_le_unescape (seen text : List Char) :
    seen.length ≤ (unescape seen text).length := by
  fun_induction unescape seen text <;> simp_all <;> omega

/-- A text reads as nothing only if nothing is written. -/
theorem IsFragment.reading_isEmpty {text : List Char} (fragment : IsFragment text) :
    (reading text).isEmpty = true ↔ text = [] := by
  have longer : ∀ (c : Char) (rest : List Char), unescape [c] rest ≠ [] := by
    intro c rest empty
    have length := length_le_unescape [c] rest
    rw [empty] at length
    exact absurd length (by simp)
  rw [reading, String.isEmpty_iff, String.ofList_eq_empty_iff]
  cases fragment with
  | nil => exact iff_of_true rfl rfl
  | @plain c text other _ _ =>
      refine iff_of_false ?_ (List.cons_ne_nil _ _)
      rw [unescape.eq_def]
      simpa [other] using longer c text
  | @escaped c text _ => exact iff_of_false (longer _ text) (List.cons_ne_nil _ _)

/-- How a character of a text is written. -/
def encodedChar (c : Char) : List Char :=
  if c = backtick ∨ c = '\\' ∨ c = '$' then ['\\', c] else [c]

/-- How a text is written. -/
def encoded (text : String) : List Char :=
  text.toList.flatMap encodedChar

theorem isFragment_flatMap (text : List Char) : IsFragment (text.flatMap encodedChar) := by
  induction text with
  | nil => exact .nil
  | cons c text ih =>
      rw [List.flatMap_cons, encodedChar]
      split
      · exact .escaped ih
      · rename_i other
        simp only [not_or] at other
        refine .plain other.2.1 ?_ ih
        rw [endsTemplateText_cons]
        simp [other.1, other.2.2]

theorem isFragment_encoded (text : String) : IsFragment (encoded text) :=
  isFragment_flatMap text.toList

theorem unescape_flatMap (text seen : List Char) :
    unescape seen (text.flatMap encodedChar) = seen.reverse ++ text := by
  induction text generalizing seen with
  | nil => simp [unescape]
  | cons c text ih =>
      rw [List.flatMap_cons, encodedChar]
      split
      · rename_i marked
        have itself : unescapedChar c = c := by
          rcases marked with rfl | rfl | rfl <;> decide
        rw [List.cons_append, List.singleton_append, unescape.eq_def]
        simp [itself, ih]
      · rename_i other
        simp only [not_or] at other
        rw [List.singleton_append, unescape.eq_def]
        simp [other.2.1, ih]

theorem reading_encoded (text : String) : reading (encoded text) = text := by
  rw [reading, encoded, unescape_flatMap]
  simp

end Lexeme

open Lexeme (IsFragment reading encoded opensBrace closesBrace)

/-! ## Literals -/

namespace Template

/-- A template literal as it is written behind its opening backtick: a text, and each interpolation
    with the text behind it. -/
def body (text : List Char) : List (List Char × List Char) → List Char
  | [] => text ++ [Lexeme.backtick]
  | (inner, next) :: slots => text ++ '$' :: '\x7b' :: inner ++ '\x7d' :: body next slots

/-- The kinds of the tokens of an interpolation. -/
def slotKinds (source : String) : List TokenKind :=
  if source.toList.all isBlank then []
  else
    match tokenize source with
    | .ok tokens => (tokens.map Token.kind).dropLast
    | .error _ => []

/-- The kinds of the tokens of a template literal, given what its texts read as and the sources in its
    interpolations. -/
def kinds (text : String) : List (String × String) → List TokenKind
  | [] => [.templateText text]
  | (source, next) :: slots =>
    (if text.isEmpty then [] else [.templateText text]) ++
      .interpolationStart :: slotKinds source ++ .interpolationEnd :: kinds next slots

/-- The texts are written as texts, and the interpolations close the braces that they open. -/
structure Fits (text : List Char) (slots : List (List Char × List Char)) : Prop where
  text : IsFragment text
  inside : ∀ slot ∈ slots, Balanced opensBrace closesBrace slot.1
  behind : ∀ slot ∈ slots, IsFragment slot.2

theorem Fits.later {text inner next : List Char} {slots : List (List Char × List Char)}
    (fits : Fits text ((inner, next) :: slots)) : Fits next slots where
  text := fits.behind (inner, next) List.mem_cons_self
  inside := fun slot member => fits.inside slot (List.mem_cons_of_mem _ member)
  behind := fun slot member => fits.behind slot (List.mem_cons_of_mem _ member)

/-- What the parts of a literal read as. -/
def readings (slots : List (List Char × List Char)) : List (String × String) :=
  slots.map fun slot => (String.ofList slot.1, reading slot.2)

/-- An interpolation has tokens, or is blank. -/
def Readable (inner : List Char) : Prop :=
  inner.all isBlank = true ∨ ∃ tokens, tokenize (String.ofList inner) = .ok tokens

end Template

open Template (Fits Readable readings slotKinds)

namespace Lexer.Pass

variable {p q : Pass} {o : Except LexError Pass} {textStart : Position} {text after : List Char}

theorem Comes.ends_after (comes : Comes p q) (ends : Ends p o) : Ends q o := by
  obtain ⟨o', ends'⟩ := exists_ends q
  obtain rfl := ends.unique (comes.ends ends')
  exact ends'

theorem templateText_of_fragment (fragment : IsFragment text) (rest : p.rest = text ++ after)
    (ends : Lexeme.endsTemplateText after = true) :
    p.templateText = (text, reading text, after) := by
  rw [templateText, rest, fragment.escapedUntil [] ends]
  rfl

/-- The kinds of the tokens so far, the latest first. -/
def kindsSoFar (p : Pass) : List TokenKind :=
  p.tokens.map Token.kind

/-- The beginning of a template literal. -/
theorem next_backtick (mode : p.mode = .code) (rest : p.rest = Lexeme.backtick :: text) :
    ∃ q, Next p q ∧ q.mode = .template p.position ∧ q.rest = text ∧ q.kindsSoFar = p.kindsSoFar := by
  have step : p.codeStep Lexeme.backtick text =
      .ok { p.skip [Lexeme.backtick] text with mode := .template p.position } := by
    simp [codeStep, Lexeme.backtick]
  exact ⟨_, .code mode rest step, rfl, rfl, rfl⟩

/-- The end of a template literal. -/
theorem next_close (fragment : IsFragment text) (mode : p.mode = .template textStart)
    (rest : p.rest = text ++ Lexeme.backtick :: after) :
    ∃ q, Next p q ∧ q.mode = .code ∧ q.rest = after ∧
      q.kindsSoFar = .templateText (reading text) :: p.kindsSoFar :=
  ⟨_, .close mode (templateText_of_fragment fragment rest rfl) (by simp [Lexeme.backtick]), rfl, rfl,
    rfl⟩

theorem openInterpolation_kinds (p : Pass) (textStart : Position) (body : List Char) (text : String)
    (after : List Char) : (p.openInterpolation textStart body text after).kindsSoFar =
      .interpolationStart :: ((if text.isEmpty then [] else [.templateText text]) ++ p.kindsSoFar) := by
  simp only [openInterpolation, kindsSoFar, take, skip, push, List.map_cons]
  split <;> rfl

/-- An interpolation behind its opening marker. -/
theorem interpolates_of_balanced {inner : List Char} (fragment : IsFragment text)
    (balanced : Balanced opensBrace closesBrace inner) (mode : p.mode = .template textStart)
    (rest : p.rest = text ++ '$' :: '\x7b' :: (inner ++ '\x7d' :: after)) :
    ∃ opened, p.Interpolates opened inner ('\x7d' :: after) ∧
      opened.kindsSoFar = .interpolationStart ::
        ((if (reading text).isEmpty then [] else [.templateText (reading text)]) ++ p.kindsSoFar) := by
  have split := templateText_of_fragment fragment rest rfl
  exact ⟨_, ⟨⟨textStart, _, _, _, mode, split, rfl⟩, Lexeme.interpolation_of_balanced balanced after⟩,
    openInterpolation_kinds p textStart text (reading text) _⟩

theorem closeInterpolation_kinds (opened : Pass) (inner : List Char) (tokens : List Token)
    (after : List Char) : (opened.closeInterpolation inner tokens after).kindsSoFar =
      .interpolationEnd :: (tokens.map Token.kind ++ opened.kindsSoFar) := by
  simp [closeInterpolation, kindsSoFar, take, skip, push]

theorem map_kind_shift (tokens : List Token) (base : Position) :
    (tokens.map (·.shift base)).map Token.kind = tokens.map Token.kind := by
  simp [Function.comp_def, Token.shift]

/-- The pass over a source that is read as a whole. -/
theorem ends_of_tokenize {source : List Char} {tokens : List Token}
    (read : tokenize (String.ofList source) = .ok tokens) :
    ∃ done, Ends (start source .start) (.ok done) ∧
      (tokens.map Token.kind).dropLast = done.kindsSoFar.reverse := by
  obtain ⟨o, ends, same⟩ := tokenize_ends (String.ofList source)
  rw [String.toList_ofList] at ends
  cases o with
  | error e => cases read.symm.trans same
  | ok done =>
      obtain rfl := Except.ok.inj (read.symm.trans same)
      exact ⟨done, ends, by simp [push, kindsSoFar]⟩

/-- An interpolation is one move, with the text before it. -/
theorem next_slot {inner : List Char} (fragment : IsFragment text)
    (balanced : Balanced opensBrace closesBrace inner) (readable : Readable inner)
    (mode : p.mode = .template textStart)
    (rest : p.rest = text ++ '$' :: '\x7b' :: (inner ++ '\x7d' :: after)) :
    ∃ q textStart', Next p q ∧ q.mode = .template textStart' ∧ q.rest = after ∧
      q.kindsSoFar.reverse = p.kindsSoFar.reverse ++
        ((if (reading text).isEmpty then [] else [.templateText (reading text)]) ++
          .interpolationStart :: slotKinds (String.ofList inner) ++ [.interpolationEnd]) := by
  obtain ⟨opened, opens, before⟩ := interpolates_of_balanced fragment balanced mode rest
  cases blank : inner.all isBlank with
  | true =>
      refine ⟨_, _, .blank opens blank, rfl, rfl, ?_⟩
      rw [closeInterpolation_kinds, before, slotKinds, String.toList_ofList, blank]
      split <;> simp
  | false =>
      obtain allBlank | ⟨tokens, read⟩ := readable
      · cases allBlank.symm.trans blank
      obtain ⟨done, inside, kinds⟩ := ends_of_tokenize read
      refine ⟨_, _, .nested opens blank inside, rfl, rfl, ?_⟩
      rw [closeInterpolation_kinds, map_kind_shift, before, slotKinds, String.toList_ofList, blank,
        read]
      simp only [Bool.false_eq_true, if_false, kinds]
      split <;> simp [kindsSoFar]

/-- A pass that ends well has read all interpolations on its way. -/
theorem readable_of_ends {inner : List Char} {done : Pass} (fragment : IsFragment text)
    (balanced : Balanced opensBrace closesBrace inner) (mode : p.mode = .template textStart)
    (rest : p.rest = text ++ '$' :: '\x7b' :: (inner ++ '\x7d' :: after))
    (ends : Ends p (.ok done)) : Readable inner := by
  obtain ⟨opened, opens, -⟩ := interpolates_of_balanced fragment balanced mode rest
  cases blank : inner.all isBlank with
  | true => exact .inl blank
  | false =>
      obtain ⟨o, inside, same⟩ := tokenize_ends (String.ofList inner)
      rw [String.toList_ofList] at inside
      cases o with
      | error e => cases ends.unique (.nestedRefused opens blank inside)
      | ok innerDone => exact .inr ⟨_, same⟩

/-- A pass comes behind a template literal, and takes the tokens of its parts on its way. -/
theorem comes_behind {slots : List (List Char × List Char)} (fits : Fits text slots)
    (readable : ∀ slot ∈ slots, Readable slot.1) (mode : p.mode = .template textStart)
    (rest : p.rest = Template.body text slots ++ after) :
    ∃ q, Comes p q ∧ q.mode = .code ∧ q.rest = after ∧
      q.kindsSoFar.reverse =
        p.kindsSoFar.reverse ++ Template.kinds (reading text) (readings slots) := by
  induction slots generalizing p text textStart with
  | nil =>
      rw [Template.body, List.append_assoc, List.singleton_append] at rest
      obtain ⟨q, moves, closed, behind, kinds⟩ := next_close fits.text mode rest
      refine ⟨q, .single moves, closed, behind, ?_⟩
      rw [kinds, List.reverse_cons]
      rfl
  | cons slot slots ih =>
      obtain ⟨inner, next⟩ := slot
      obtain ⟨here, later⟩ := List.forall_mem_cons.mp readable
      have balanced := fits.inside _ List.mem_cons_self
      simp only [Template.body, List.append_assoc, List.cons_append] at rest
      obtain ⟨q, textStart', moves, inside, behind, kinds⟩ :=
        next_slot fits.text balanced here mode rest
      obtain ⟨r, comes, closed, behind', kinds'⟩ := ih fits.later later inside behind
      refine ⟨r, .head moves comes, closed, behind', ?_⟩
      rw [kinds', kinds]
      simp [readings, Template.kinds]

theorem readable_of_ends_body {slots : List (List Char × List Char)} {done : Pass}
    (fits : Fits text slots) (mode : p.mode = .template textStart)
    (rest : p.rest = Template.body text slots ++ after) (ends : Ends p (.ok done)) :
    ∀ slot ∈ slots, Readable slot.1 := by
  induction slots generalizing p text textStart with
  | nil => simp
  | cons slot slots ih =>
      obtain ⟨inner, next⟩ := slot
      have balanced := fits.inside _ List.mem_cons_self
      simp only [Template.body, List.append_assoc, List.cons_append] at rest
      have readable := readable_of_ends fits.text balanced mode rest ends
      obtain ⟨q, textStart', moves, inside, behind, -⟩ :=
        next_slot fits.text balanced readable mode rest
      have endsLater := Comes.ends_after (.single moves) ends
      exact List.forall_mem_cons.mpr ⟨readable, ih fits.later inside behind endsLater⟩

end Lexer.Pass

open Lexer (Pass)

namespace Template

/-- A template literal whose interpolations can be read is read as its parts, whatever comes after
    it. -/
theorem lexes {text : List Char} {slots : List (List Char × List Char)} {fit : List Char → Prop}
    (fits : Fits text slots) (readable : ∀ slot ∈ slots, Readable slot.1) :
    Lexes (Lexeme.backtick :: body text slots) (kinds (reading text) (readings slots)) fit := by
  intro p after mode rest _
  obtain ⟨opened, opens, inside, ahead, same⟩ := Lexer.Pass.next_backtick mode rest
  obtain ⟨q, comes, closed, behind, found⟩ := Lexer.Pass.comes_behind fits readable inside ahead
  have whole : Lexer.Pass.Comes p q := .head opens comes
  refine ⟨q, ⟨whole.ends_after, closed, ?_⟩, behind⟩
  rw [same] at found
  rw [← List.reverse_inj]
  simpa [Lexer.Pass.kindsSoFar] using found

/-- The interpolations of a template literal that is read can be read. -/
theorem readable {text : List Char} {slots : List (List Char × List Char)} {source : String}
    {tokens : List Token} (fits : Fits text slots)
    (is : source.toList = Lexeme.backtick :: body text slots)
    (read : tokenize source = .ok tokens) : ∀ slot ∈ slots, Readable slot.1 := by
  obtain ⟨o, ends, same⟩ := Lexer.Pass.tokenize_ends source
  cases o with
  | error e => cases read.symm.trans same
  | ok done =>
      have begins : (Pass.start source.toList .start).rest = Lexeme.backtick :: body text slots := is
      obtain ⟨opened, opens, inside, ahead, -⟩ := Lexer.Pass.next_backtick rfl begins
      have later := Lexer.Pass.Comes.ends_after (.single opens) ends
      rw [← List.append_nil (body text slots)] at ahead
      exact Lexer.Pass.readable_of_ends_body fits inside ahead later

theorem exists_body_eq (text : List Char) (slots : List (List Char × List Char)) :
    ∃ after, body text slots = text ++ after ∧ Lexeme.endsTemplateText after = true := by
  cases slots with
  | nil => exact ⟨_, rfl, rfl⟩
  | cons slot slots => exact ⟨_, List.append_assoc _ _ _, rfl⟩

/-- The first token opens an interpolation if and only if one is written first. -/
theorem opens_iff {text : List Char} {slots : List (List Char × List Char)}
    (fits : Fits text slots) :
    (∃ later, kinds (reading text) (readings slots) = .interpolationStart :: later) ↔
      ['$', '\x7b'] <+: body text slots := by
  by_cases noText : text = []
  · subst noText
    cases slots with
    | nil => exact iff_of_false (by simp [readings, kinds]) (by simp [body, Lexeme.backtick])
    | cons slot slots =>
        have empty : (reading []).isEmpty = true := fits.text.reading_isEmpty.mpr rfl
        simp [readings, kinds, body, empty]
  · have words : (reading text).isEmpty = false :=
      Bool.eq_false_iff.mpr (mt fits.text.reading_isEmpty.mp noText)
    refine iff_of_false ?_ ?_
    · cases slots <;> simp [readings, kinds, words]
    · obtain ⟨after, whole, ends⟩ := exists_body_eq text slots
      rintro ⟨later, opens⟩
      have stopped : Lexeme.endsTemplateText (body text slots) = true := by
        rw [← opens]
        rfl
      rw [whole, fits.text.goes_on noText ends] at stopped
      cases stopped

/-- The source of a template literal with the given texts and interpolations. -/
def source (text : String) (slots : List (String × String)) : String :=
  String.ofList (Lexeme.backtick ::
    body (encoded text) (slots.map fun slot => (slot.1.toList, encoded slot.2)))

/-- A template literal is read as its texts and what its interpolations are read as, of which each may
    be any source that has tokens and closes the braces that it opens. -/
theorem tokenize_source (text : String) (slots : List (String × String))
    (read : ∀ slot ∈ slots, ∃ tokens, tokenize slot.1 = .ok tokens)
    (balanced : ∀ slot ∈ slots, Balanced opensBrace closesBrace slot.1.toList) :
    ∃ tokens, tokenize (source text slots) = .ok tokens ∧
      tokens.map Token.kind = kinds text slots ++ [.endOfText] := by
  have fits : Fits (encoded text) (slots.map fun slot => (slot.1.toList, encoded slot.2)) :=
    { text := Lexeme.isFragment_encoded text
      inside := List.forall_mem_map.mpr balanced
      behind := List.forall_mem_map.mpr fun slot _ => Lexeme.isFragment_encoded slot.2 }
  have readable : ∀ slot ∈ slots.map fun slot => (slot.1.toList, encoded slot.2),
      Readable slot.1 := by
    refine List.forall_mem_map.mpr fun slot member => .inr ?_
    simpa using read slot member
  have same : kinds (reading (encoded text))
      (readings (slots.map fun slot => (slot.1.toList, encoded slot.2))) = kinds text slots := by
    simp [readings, Lexeme.reading_encoded, Function.comp_def]
  have all : Lexes (source text slots).toList (kinds text slots) fun _ => True := by
    rw [source, String.toList_ofList, ← same]
    exact lexes fits readable
  exact all.tokenize trivial

/-- An object with a literal in it, and an interpolation that has a line feed only. -/
theorem tokenize_source_nested :
    ∃ tokens, tokenize (source "a`$" [("\x7bk: `b`\x7d.k", ""), (" \n", "\\\x7b")]) = .ok tokens ∧
      tokens.map (·.kind.describe) =
        ["TEMPLATE_STRING \"a`$\"", "TEMPLATE_EXPR_START", "LBRACE", "IDENTIFIER k", "COLON",
          "TEMPLATE_STRING \"b\"", "RBRACE", "DOT", "IDENTIFIER k", "TEMPLATE_EXPR_END",
          "TEMPLATE_EXPR_START", "TEMPLATE_EXPR_END", "TEMPLATE_STRING \"\\\\\x7b\"", "EOF"] := by
  let slots : List (String × String) := [("\x7bk: `b`\x7d.k", ""), (" \n", "\\\x7b")]
  have accepted : ∀ slot ∈ slots, (tokenize slot.1).toOption.isSome = true := by decide +kernel
  have read : ∀ slot ∈ slots, ∃ tokens, tokenize slot.1 = .ok tokens := by
    intro slot member
    have here := accepted slot member
    cases outcome : tokenize slot.1 with
    | error e => simp [outcome, Except.toOption] at here
    | ok tokens => exact ⟨tokens, rfl⟩
  obtain ⟨tokens, outcome, found⟩ := tokenize_source "a`$" slots read (by decide)
  refine ⟨tokens, outcome, ?_⟩
  have described := congrArg (List.map TokenKind.describe) found
  rw [List.map_map] at described
  refine described.trans ?_
  decide +kernel

end Template

end MinangScript
