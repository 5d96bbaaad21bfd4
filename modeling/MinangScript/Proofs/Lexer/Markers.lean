import MinangScript.Proofs.Lexer.Templates

/-! # The markers of interpolations

The tokens of a source are ordinary ones and template literals, one after the other, and so are the
tokens of an interpolation, which a pass of its own has read. A literal goes on behind each of its
interpolations and ends with a text, wherever the source ends. So the markers close what they open, in
this order, and the end of an interpolation never comes last.
-/

namespace MinangScript

namespace TokenKind

/-- Whether a token opens an interpolation. -/
def opensSlot : TokenKind → Bool
  | interpolationStart => true
  | _ => false

/-- Whether a token closes an interpolation. -/
def closesSlot : TokenKind → Bool
  | interpolationEnd => true
  | _ => false

/-- Whether a token belongs to no template literal itself and is not the end of the text. -/
def isOrdinary : TokenKind → Bool
  | templateText _ | interpolationStart | interpolationEnd | endOfText => false
  | _ => true

/-- Whether a template literal can go on with this token behind an interpolation. -/
def goesOn : TokenKind → Bool
  | templateText _ | interpolationStart => true
  | _ => false

/-- The tokens of template literals and the end of the text have no lexemes. -/
theorem SpelledBy.isOrdinary {kind : TokenKind} {lexeme : List Char}
    (spelled : kind.SpelledBy lexeme) : kind.isOrdinary = true := by
  cases kind with
  | templateText | interpolationStart | interpolationEnd | endOfText => exact spelled.elim
  | _ => rfl

end TokenKind

/-- Tokens that close the interpolations that they open. -/
abbrev Closed (kinds : List TokenKind) : Prop :=
  Balanced TokenKind.opensSlot TokenKind.closesSlot kinds

/-- Ordinary tokens and template literals. Within a literal its rest comes first: interpolations, each
    with a text before it or none, and a last text. -/
inductive Bracketed : (withinLiteral : Bool) → List TokenKind → Prop where
  | nil : Bracketed false []
  | ordinary {kind : TokenKind} {kinds : List TokenKind} : kind.isOrdinary = true →
      Bracketed false kinds → Bracketed false (kind :: kinds)
  | literal {kinds : List TokenKind} : Bracketed true kinds → Bracketed false kinds
  | lastText {text : String} {kinds : List TokenKind} : Bracketed false kinds →
      Bracketed true (.templateText text :: kinds)
  | slot {before : Option String} {inner kinds : List TokenKind} : Bracketed false inner →
      Bracketed true kinds →
      Bracketed true (before.toList.map .templateText ++
        (.interpolationStart :: inner ++ .interpolationEnd :: kinds))

/-- Behind every end of an interpolation its literal goes on. -/
def Followed : List TokenKind → Prop
  | [] => True
  | kind :: rest => (kind.closesSlot = true → ∃ next ∈ rest.head?, next.goesOn = true) ∧ Followed rest

namespace Followed

theorem append {kinds later : List TokenKind} (first : Followed kinds) (second : Followed later) :
    Followed (kinds ++ later) := by
  induction kinds with
  | nil => exact second
  | cons kind rest ih =>
      refine ⟨fun closes => ?_, ih first.2⟩
      obtain ⟨next, head, goesOn⟩ := first.1 closes
      exact ⟨next, List.mem_head?_append_of_mem_head? head, goesOn⟩

theorem getElem? {kinds : List TokenKind} (followed : Followed kinds) {i : Nat} {kind : TokenKind}
    (at_i : kinds[i]? = some kind) (closes : kind.closesSlot = true) :
    ∃ next, kinds[i + 1]? = some next ∧ next.goesOn = true := by
  induction kinds generalizing i with
  | nil => cases at_i
  | cons first rest ih =>
      cases i with
      | zero =>
          cases at_i
          obtain ⟨next, head, goesOn⟩ := followed.1 closes
          exact ⟨next, by simpa [List.head?_eq_getElem?] using head, goesOn⟩
      | succ i => exact ih followed.2 at_i

end Followed

namespace Bracketed

variable {withinLiteral : Bool} {kinds : List TokenKind}

theorem closed (bracketed : Bracketed withinLiteral kinds) : Closed kinds := by
  induction bracketed with
  | nil => exact .nil
  | @ordinary kind _ isOrdinary _ ih =>
      have here : Closed [kind] := by
        cases kind with
        | templateText | interpolationStart | interpolationEnd | endOfText => cases isOrdinary
        | _ => exact .singleton rfl rfl
      exact here.append ih
  | literal _ ih => exact ih
  | lastText _ ih => exact .append (.singleton rfl rfl) ih
  | @slot before inner kinds _ _ ihInner ih =>
      have texts : Closed (before.toList.map .templateText) :=
        .of_plain (List.forall_mem_map.mpr fun _ _ => ⟨rfl, rfl⟩)
      have marked : Closed (.interpolationStart :: inner ++ [.interpolationEnd]) :=
        .enclosed rfl rfl rfl rfl ihInner
      simpa using texts.append (marked.append ih)

theorem head_goesOn (bracketed : Bracketed true kinds) : ∃ next ∈ kinds.head?, next.goesOn = true := by
  cases bracketed with
  | lastText => exact ⟨_, rfl, rfl⟩
  | @slot before => cases before <;> exact ⟨_, rfl, rfl⟩

theorem followed (bracketed : Bracketed withinLiteral kinds) : Followed kinds := by
  induction bracketed with
  | nil => trivial
  | @ordinary kind _ isOrdinary _ ih =>
      refine ⟨fun closes => ?_, ih⟩
      cases kind <;> cases closes
      cases isOrdinary
  | literal _ ih => exact ih
  | lastText _ ih => exact ⟨nofun, ih⟩
  | @slot before inner kinds _ later ihInner ih =>
      have behind : Followed (inner ++ .interpolationEnd :: kinds) :=
        ihInner.append ⟨fun _ => later.head_goesOn, ih⟩
      cases before with
      | none => exact ⟨nofun, behind⟩
      | some text => exact ⟨nofun, nofun, behind⟩

theorem not_endOfText (bracketed : Bracketed withinLiteral kinds) : ∀ kind ∈ kinds, kind ≠ .endOfText := by
  induction bracketed with
  | nil => exact List.forall_mem_nil _
  | ordinary isOrdinary _ ih =>
      refine List.forall_mem_cons.mpr ⟨?_, ih⟩
      rintro rfl
      cases isOrdinary
  | literal _ ih => exact ih
  | lastText _ ih => exact List.forall_mem_cons.mpr ⟨nofun, ih⟩
  | @slot before inner kinds _ _ ihInner ih =>
      simp only [List.cons_append, List.mem_append, List.mem_cons, List.mem_map]
      rintro kind (⟨text, -, rfl⟩ | rfl | inside | rfl | later)
      · nofun
      · nofun
      · exact ihInner kind inside
      · nofun
      · exact ih kind later

end Bracketed

namespace Lexer.Pass

variable {p next opened done : Pass}

/-- Whether the pass is in a template literal. -/
def withinLiteral (p : Pass) : Bool :=
  p.mode != .code

/-- A pass took further tokens, and they are bracketed. -/
def TakesBracketed (p done : Pass) : Prop :=
  ∃ kinds, done.kindsSoFar.reverse = p.kindsSoFar.reverse ++ kinds ∧ Bracketed p.withinLiteral kinds

theorem CodeStep.takesBracketed {text : List Char} (step : CodeStep p text (.ok next))
    (mode : p.mode = .code) (later : TakesBracketed next done) : TakesBracketed p done := by
  obtain ⟨kinds, same, bracketed⟩ := later
  have outside : p.withinLiteral = false := by simp [withinLiteral, mode]
  rw [TakesBracketed, outside]
  cases step with
  | trivia =>
      refine ⟨kinds, same, ?_⟩
      rwa [← outside]
  | @token kind _ _ _ _ spelled =>
      refine ⟨kind :: kinds, by rw [same]; simp [kindsSoFar, take, push, skip], ?_⟩
      have onward : Bracketed false kinds := by rwa [← outside]
      exact .ordinary spelled.isOrdinary onward
  | template => exact ⟨kinds, same, .literal bracketed⟩

/-- What a pass takes behind an interpolation, with the interpolation and the text before it. -/
theorem Interpolates.takesBracketed {inner after : List Char}
    (opens : p.Interpolates opened inner after) (tokens : List Token)
    (inside : Bracketed false (tokens.map Token.kind).reverse)
    (later : TakesBracketed (opened.closeInterpolation inner tokens after) done) :
    TakesBracketed p done := by
  obtain ⟨⟨textStart, body, text, more, mode, -, rfl⟩, -⟩ := opens
  obtain ⟨kinds, same, bracketed⟩ := later
  have within : p.withinLiteral = true := by simp [withinLiteral, mode]
  rw [TakesBracketed, within]
  refine ⟨_, ?_, @Bracketed.slot (if text.isEmpty then none else some text) _ _ inside bracketed⟩
  rw [same, closeInterpolation_kinds, openInterpolation_kinds]
  split <;> simp

theorem Ends.takesBracketed {o : Except LexError Pass} (ends : Ends p o) :
    ∀ done, o = .ok done → TakesBracketed p done := by
  induction ends with
  | @finished p mode _ =>
      rintro _ ⟨⟩
      refine ⟨[], (List.append_nil _).symm, ?_⟩
      rw [show p.withinLiteral = false by simp [withinLiteral, mode]]
      exact .nil
  | refused =>
      intro done is
      cases is
  | @code p next c rest o mode _ step _ ih =>
      intro done is
      exact (step ▸ codeStep_spec p c rest).takesBracketed mode (ih done is)
  | @close p textStart body after text o mode _ _ _ ih =>
      intro done is
      obtain ⟨kinds, same, bracketed⟩ := ih done is
      refine ⟨.templateText text :: kinds, ?_, ?_⟩
      · rw [same]
        simp [kindsSoFar, closeTemplate, push, skip]
      · rw [show p.withinLiteral = true by simp [withinLiteral, mode]]
        exact .lastText bracketed
  | blank opens _ _ ih =>
      intro done is
      exact opens.takesBracketed [] .nil (ih done is)
  | nested opens _ _ _ ihInside ih =>
      intro done is
      obtain ⟨kinds, same, bracketed⟩ := ihInside _ rfl
      refine opens.takesBracketed _ ?_ (ih done is)
      rw [map_kind_shift]
      exact same ▸ bracketed
  | nestedRefused =>
      intro done is
      cases is

end Lexer.Pass

/-- In front of the end of the text stand bracketed tokens. -/
theorem bracketed_of_tokenize {source : String} {tokens : List Token}
    (read : tokenize source = .ok tokens) :
    ∃ written position, tokens = written ++ [⟨.endOfText, position⟩] ∧
      Bracketed false (written.map Token.kind) := by
  obtain ⟨o, ends, same⟩ := Lexer.Pass.tokenize_ends source
  cases o with
  | error e => cases read.symm.trans same
  | ok done =>
      obtain ⟨kinds, all, bracketed⟩ := ends.takesBracketed done rfl
      refine ⟨done.tokens.reverse, done.position, ?_, ?_⟩
      · rw [Except.ok.inj (read.symm.trans same)]
        exact List.reverse_cons
      · rw [List.map_reverse, show (done.tokens.map Token.kind).reverse = kinds from all]
        exact bracketed

/-- The tokens of an interpolation close all interpolations inside of it. -/
theorem Template.closed_slotKinds (source : String) : Closed (Template.slotKinds source) := by
  unfold Template.slotKinds
  split
  · exact .nil
  · split
    · rename_i read
      obtain ⟨written, position, rfl, bracketed⟩ := bracketed_of_tokenize read
      rw [List.map_append, List.map_singleton, List.dropLast_concat]
      exact bracketed.closed
    · exact .nil

/-- The tokens of a source end with the end of the text, which is there once only. In front of it stand
    ordinary tokens and template literals, each of which ends with a text. The markers close the
    interpolations that they open, and behind the end of an interpolation there is a text of its literal or
    the beginning of the next interpolation. -/
theorem token_streams_are_bracketed {source : String} {tokens : List Token}
    (read : tokenize source = .ok tokens) :
    (∃ written last, tokens = written ++ [last] ∧ last.kind = .endOfText ∧
      (∀ t ∈ written, t.kind ≠ .endOfText) ∧ Bracketed false (written.map Token.kind)) ∧
    Closed (tokens.map Token.kind) ∧
    ∀ i t, tokens[i]? = some t → t.kind = .interpolationEnd → ∃ next, tokens[i + 1]? = some next ∧
      (next.kind = .interpolationStart ∨ ∃ text, next.kind = .templateText text) := by
  obtain ⟨written, position, rfl, bracketed⟩ := bracketed_of_tokenize read
  refine ⟨⟨written, _, rfl, rfl, fun t member => ?_, bracketed⟩, ?_, fun i t at_i closes => ?_⟩
  · exact bracketed.not_endOfText _ (List.mem_map_of_mem member)
  · rw [List.map_append]
    exact bracketed.closed.append (.singleton rfl rfl)
  · have last : Followed [.endOfText] := ⟨nofun, trivial⟩
    have followed : Followed ((written ++ [(⟨.endOfText, position⟩ : Token)]).map Token.kind) := by
      rw [List.map_append]
      exact bracketed.followed.append last
    have kind_i := congrArg (Option.map Token.kind) at_i
    rw [← List.getElem?_map, Option.map_some, closes] at kind_i
    obtain ⟨kind, behind, goesOn⟩ := followed.getElem? kind_i rfl
    rw [List.getElem?_map, Option.map_eq_some_iff] at behind
    obtain ⟨next, is, rfl⟩ := behind
    refine ⟨next, is, ?_⟩
    cases kind : next.kind with
    | interpolationStart => exact .inl rfl
    | templateText text => exact .inr ⟨text, rfl⟩
    | _ => simp [kind, TokenKind.goesOn] at goesOn

/-- Two literals and two interpolations, none of which the source closes. -/
theorem token_streams_are_bracketed_unclosed :
    ∃ tokens, tokenize "`a$\x7b`b$\x7bc" = .ok tokens ∧
      tokens.map (·.kind.describe) =
        ["TEMPLATE_STRING \"a\"", "TEMPLATE_EXPR_START", "TEMPLATE_STRING \"b\"",
          "TEMPLATE_EXPR_START", "IDENTIFIER c", "TEMPLATE_EXPR_END", "TEMPLATE_STRING \"\"",
          "TEMPLATE_EXPR_END", "TEMPLATE_STRING \"\"", "EOF"] ∧
      Closed (tokens.map Token.kind) := by
  have described : (tokenize "`a$\x7b`b$\x7bc").toOption.map (·.map (·.kind.describe)) = some
      ["TEMPLATE_STRING \"a\"", "TEMPLATE_EXPR_START", "TEMPLATE_STRING \"b\"",
        "TEMPLATE_EXPR_START", "IDENTIFIER c", "TEMPLATE_EXPR_END", "TEMPLATE_STRING \"\"",
        "TEMPLATE_EXPR_END", "TEMPLATE_STRING \"\"", "EOF"] := by decide +kernel
  cases read : tokenize "`a$\x7b`b$\x7bc" with
  | error e => simp [read, Except.toOption] at described
  | ok tokens =>
      rw [read] at described
      exact ⟨tokens, rfl, Option.some.inj described, (token_streams_are_bracketed read).2.1⟩

end MinangScript
