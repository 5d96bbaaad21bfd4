import MinangScript.Proofs.Parser.Locality
import MinangScript.Proofs.Parser.Pieces

/-! # Two template literals next to each other

Statements need nothing between them, so two template literals with a space in between are two
statements, if the second one begins with a text. If it begins with an interpolation, then nothing
tells the parser that the first one has ended: it takes both for one literal.
-/

namespace MinangScript

/-- The part, wherever its names stand. -/
def Part.forgetPositions : Part → Part
  | .slot value => .slot value.forgetPositions
  | part => part

/-- The expression that a template literal is read as. -/
def Part.joined (parts : List Part) : Expr :=
  Parser.joined (parts.filterMap Part.value?)

theorem Part.forgetPositions_joined (parts : List Part) :
    (Part.joined parts).forgetPositions = Part.joined (parts.map Part.forgetPositions) := by
  have values : (parts.filterMap Part.value?).map Expr.forgetPositions =
      (parts.map Part.forgetPositions).filterMap Part.value? := by
    rw [List.map_filterMap, List.filterMap_map]
    congr 1
    funext part
    cases part <;> rfl
  rw [Part.joined, Parser.Extension.Levels.forgetPositions_joined]
  exact congrArg Parser.joined values

namespace Parser

open Reader (iterate)

variable {inner : Level} {rounds depth : Nat} {s mid rest : TokenStream} {parts : List Part}

/-- A literal goes on with an interpolation behind it. -/
theorem TemplateAt.append {more : List Part} (first : TemplateAt inner parts s mid)
    (opens : mid.current.kind = .interpolationStart) (second : TemplateAt inner more mid rest) :
    TemplateAt inner (parts ++ more) s rest := by
  induction first with
  | last here => exact .text here opens second
  | text here goesOn _ ih => exact .text here goesOn (ih opens second)
  | blank here closes _ ih => exact .blank here closes (ih opens second)
  | slot here read closes _ ih => exact .slot here read closes (ih opens second)

/-- With more tokens behind it, or elsewhere in a text, a literal is still one. -/
theorem TemplateAt.extend {X : Extension} {s' : TokenStream}
    (template : TemplateAt (level X.rounds depth) parts s rest) (beside : X.Extends s s') :
    ∃ parts' rest', TemplateAt (level X.rounds' depth) parts' s' rest' ∧
      parts'.map Part.forgetPositions = parts.map Part.forgetPositions ∧ X.Extends rest rest' := by
  have levels := X.levels_level depth
  have visible : ∀ {u : TokenStream} {k}, u.current.kind = k → k ≠ .endOfText → X.Sees u :=
    fun here other => .inr (TokenStream.ahead_ne_nil (here ▸ other))
  induction template generalizing s' with
  | last here =>
      have sees := visible here TokenKind.noConfusion
      exact ⟨_, _, .last ((beside.current sees).trans here), rfl, beside.advance sees⟩
  | text here opens _ ih =>
      have sees := visible here TokenKind.noConfusion
      have after := beside.advance sees
      obtain ⟨parts', rest', later, same, behind⟩ := ih after
      have opens' := (after.current (visible opens TokenKind.noConfusion)).trans opens
      exact ⟨_, rest', .text ((beside.current sees).trans here) opens' later,
        congrArg (_ :: ·) same, behind⟩
  | blank here closes _ ih =>
      have sees := visible here TokenKind.noConfusion
      have after := beside.advance sees
      have sees' := visible closes TokenKind.noConfusion
      obtain ⟨parts', rest', later, same, behind⟩ := ih (after.advance sees')
      exact ⟨_, rest', .blank ((beside.current sees).trans here) ((after.current sees').trans closes)
        later, congrArg (_ :: ·) same, behind⟩
  | slot here read closes _ ih =>
      have sees := visible here TokenKind.noConfusion
      have after := beside.advance sees
      have sees' := visible closes TokenKind.noConfusion
      obtain ⟨value', mid', read', sameValue, between⟩ :=
        (levels.expression _ after.enough _ _ read).2 _ after sees'
      obtain ⟨parts', rest', later, same, behind⟩ := ih (between.advance sees')
      refine ⟨_, rest', .slot ((beside.current sees).trans here) read'
        ((between.current sees').trans closes) later, ?_, behind⟩
      exact congrArg₂ List.cons (congrArg Part.slot sameValue) same

/-! ## From kinds to literals -/

theorem kinds_begins (text : String) (slots : List (String × String)) :
    ∃ k later, Template.kinds text slots = k :: later ∧
      ((∃ words, k = .templateText words) ∨ k = .interpolationStart) := by
  cases slots with
  | nil => exact ⟨_, _, rfl, .inl ⟨text, rfl⟩⟩
  | cons slot slots =>
      rw [Template.kinds]
      split
      · exact ⟨_, _, rfl, .inr rfl⟩
      · exact ⟨_, _, rfl, .inl ⟨text, rfl⟩⟩

theorem begins_of_kinds {text : String} {slots : List (String × String)} {after : List TokenKind}
    (kinds : s.kinds = Template.kinds text slots ++ after) : BeginsTemplate s := by
  obtain ⟨k, later, same, begins⟩ := kinds_begins text slots
  rw [same] at kinds
  rwa [BeginsTemplate, TokenStream.current_of_kinds kinds]

/-- What a parse takes up to the end of an interpolation is what stands in it. -/
theorem interpolation_reaches {slot later : List TokenKind} {value : Option Expr}
    (closed : Closed slot) (kinds : s.advance.kinds = slot ++ .interpolationEnd :: later)
    (opens : s.current.kind = .interpolationStart) (enough : s.ahead.length < rounds)
    (read : interpolation (level rounds depth) s.advance = .ok (value, mid)) :
    mid.kinds = later ∧ ∃ part, ∀ {parts rest}, TemplateAt (level rounds depth) parts mid rest →
      TemplateAt (level rounds depth) (part :: parts) s rest := by
  have behind : ∀ {u : TokenStream}, u.current.kind = .interpolationEnd →
      u.kinds = .interpolationEnd :: u.advance.kinds := by
    intro u closes
    have more : u.ahead ≠ [] := TokenStream.ahead_ne_nil (closes ▸ TokenKind.noConfusion)
    rw [TokenStream.kinds_eq_cons more, closes]
  obtain ⟨closes, rfl, rfl⟩ | ⟨e, u, inside, closes, rfl, rfl⟩ := interpolation_cases read
  · have same := (behind closes).symm.trans kinds
    obtain ⟨-, same⟩ := Balanced.append_inj .nil closed rfl rfl rfl rfl same
    exact ⟨(List.cons.inj same).2, .blank, fun later => .blank opens closes later⟩
  · have positive : 0 < rounds := by omega
    let X : Extension := ⟨rounds, rounds, [], positive, positive⟩
    have shorter : s.advance.ahead.length < X.rounds :=
      Nat.lt_of_le_of_lt s.leads_advance.length_le enough
    obtain ⟨⟨taken, split, closed'⟩, -⟩ := (X.levels_level depth).expression _ shorter e u inside
    rw [kinds, behind closes] at split
    obtain ⟨-, same⟩ := closed.append_inj closed' rfl rfl rfl rfl split
    exact ⟨(List.cons.inj same).2.symm, .slot e, fun later => .slot opens inside closes later⟩

/-- A round over an interpolation takes its tokens and goes on, since more of the literal follows. -/
theorem iterate_slot {slot later : List TokenKind} {before all : List Expr} (closed : Closed slot)
    (kinds : s.kinds = .interpolationStart :: (slot ++ .interpolationEnd :: later))
    (begins : ∀ {u : TokenStream}, u.kinds = later → BeginsTemplate u)
    (enough : s.ahead.length < rounds)
    (read : iterate (nextPart (level rounds depth)) rounds before s = .ok (all, rest)) :
    ∃ part before' mid, mid.kinds = later ∧ mid.ahead.length < rounds ∧
      iterate (nextPart (level rounds depth)) rounds before' mid = .ok (all, rest) ∧
      ∀ {parts rest}, TemplateAt (level rounds depth) parts mid rest →
        TemplateAt (level rounds depth) (part :: parts) s rest := by
  have consuming : (level rounds depth).Consuming := level_consuming (by omega) depth
  have opens : s.current.kind = .interpolationStart := TokenStream.current_of_kinds kinds
  have inside : s.advance.kinds = slot ++ .interpolationEnd :: later := by
    rw [TokenStream.kinds_advance, kinds, List.tail_cons]
  rw [iterate_unfold (Comparison.Levels.asksAt_nextPart consuming) enough] at read
  obtain ⟨⟨next, again⟩, mid, round, rest⟩ := bind_ok read
  have taken := round
  rw [nextPart, kind_bind, opens] at taken
  dsimp only at taken
  rw [advance_bind] at taken
  obtain ⟨value, mid', filled, -⟩ := bind_ok taken
  obtain ⟨behind, part, extended⟩ := interpolation_reaches closed inside opens enough filled
  cases (nextPart_slot opens filled (begins behind)).symm.trans round
  have shorter := (forward_interpolation consuming _ _ _ filled).length_le
  have shorter' := s.leads_advance.length_le
  exact ⟨part, _, mid, behind, by omega, rest, extended⟩

/-- Tokens of the kinds of a template literal are one, if they can be read at all. -/
theorem templateAt_of_kinds {text : String} {slots : List (String × String)} {before all : List Expr}
    {after : List TokenKind} (kinds : s.kinds = Template.kinds text slots ++ after)
    (enough : s.ahead.length < rounds)
    (read : iterate (nextPart (level rounds depth)) rounds before s = .ok (all, mid)) :
    ∃ parts rest, TemplateAt (level rounds depth) parts s rest ∧ rest.kinds = after := by
  have consuming : (level rounds depth).Consuming := level_consuming (by omega) depth
  induction slots generalizing text s before with
  | nil =>
      have here : s.current.kind = .templateText text := TokenStream.current_of_kinds kinds
      refine ⟨_, _, .last here, ?_⟩
      rw [TokenStream.kinds_advance, kinds]
      rfl
  | cons slot slots ih =>
      obtain ⟨source, next⟩ := slot
      have closed := Template.closed_slotKinds source
      -- From the marker of the interpolation on.
      have slotFrom : ∀ {u : TokenStream} {before : List Expr},
          u.kinds = .interpolationStart :: (Template.slotKinds source ++
            .interpolationEnd :: (Template.kinds next slots ++ after)) →
          u.ahead.length < rounds →
          iterate (nextPart (level rounds depth)) rounds before u = .ok (all, mid) →
          ∃ parts rest, TemplateAt (level rounds depth) parts u rest ∧ rest.kinds = after := by
        intro u before kinds enough read
        obtain ⟨part, before', v, behind, enough', read', extended⟩ :=
          iterate_slot closed kinds begins_of_kinds enough read
        obtain ⟨parts, rest, later, same⟩ := ih behind enough' read'
        exact ⟨part :: parts, rest, extended later, same⟩
      rw [Template.kinds] at kinds
      split at kinds
      · exact slotFrom (by simpa using kinds) enough read
      · have here : s.current.kind = .templateText text := TokenStream.current_of_kinds kinds
        have kinds' : s.advance.kinds = .interpolationStart :: (Template.slotKinds source ++
            .interpolationEnd :: (Template.kinds next slots ++ after)) := by
          rw [TokenStream.kinds_advance, kinds]
          simp
        have opens : s.advance.current.kind = .interpolationStart :=
          TokenStream.current_of_kinds kinds'
        have shorter := s.leads_advance.length_le
        rw [iterate_unfold (Comparison.Levels.asksAt_nextPart consuming) enough, bind_apply,
          nextPart_text here, beq_interpolationStart_iff.mpr opens] at read
        obtain ⟨parts, rest, later, same⟩ := slotFrom kinds' (by omega) read
        exact ⟨.text text :: parts, rest, .text here opens later, same⟩

/-! ## Statements -/

section Begins

variable (begins : BeginsTemplate s)

include begins

theorem primary_of_begins : primary rounds inner s = templateLiteral rounds inner s := by
  obtain ⟨words, here⟩ | here := begins <;>
  · rw [primary, current_bind, here]

theorem prefixed_of_begins : prefixed rounds inner s = postfixed rounds inner s := by
  obtain ⟨words, here⟩ | here := begins <;>
  · rw [prefixed, kind_bind, here]
    rfl

theorem statement_of_begins : (level rounds (depth + 2)).statement s =
    ((level rounds (depth + 1)).expression s).map fun (value, t) => (.expr value, t) := by
  change statementBody rounds (level rounds (depth + 1)) s = _
  obtain ⟨words, here⟩ | here := begins <;>
  · rw [statementBody, kind_bind, here]
    dsimp only
    rw [bind_apply]
    cases (level rounds (depth + 1)).expression s <;> rfl

theorem dropWhile_of_begins : s.dropWhile isSeparator = s := by
  obtain ⟨ahead, stop⟩ := s
  cases ahead with
  | nil => obtain ⟨words, here⟩ | here := begins <;> cases here
  | cons t later =>
      obtain ⟨words, here⟩ | here := begins <;>
      · have here : t.kind = _ := here
        simp [TokenStream.dropWhile, here, isSeparator]

theorem ne_endOfText_of_begins : s.current.kind ≠ .endOfText := by
  obtain ⟨words, here⟩ | here := begins <;>
  · rw [here]
    exact TokenKind.noConfusion

/-- A statement that begins like a template literal begins with one. -/
theorem iterate_of_statement {stmt : Stmt}
    (read : (level rounds (depth + 2)).statement s = .ok (stmt, rest)) :
    ∃ all mid, iterate (nextPart (level rounds depth)) rounds [] s = .ok (all, mid) := by
  rw [statement_of_begins begins] at read
  cases expression : (level rounds (depth + 1)).expression s with
  | error e =>
      rw [expression] at read
      cases read
  | ok result =>
      have expression : expressionBody rounds (level rounds depth) s = .ok result := expression
      obtain ⟨left, mid, operands, -⟩ := bind_ok expression
      rw [powerSteps, binary] at operands
      obtain ⟨first, mid, operand, -⟩ := bind_ok operands
      rw [prefixed_of_begins begins] at operand
      obtain ⟨first, mid, literal, -⟩ := bind_ok operand
      rw [primary_of_begins begins] at literal
      obtain ⟨all, mid, parts, -⟩ := bind_ok literal
      exact ⟨all, mid, parts⟩

end Begins

/-- A template literal in front of something that does not continue it. -/
theorem TemplateAt.statement (template : TemplateAt (level rounds depth) parts s rest)
    (enough : s.ahead.length < rounds) (ends : endsExpression rest.current.kind = true)
    (stops : rest.current.kind ≠ .interpolationStart) :
    (level rounds (depth + 2)).statement s = .ok (.expr (Part.joined parts), rest) ∧
      rest.ahead.length < s.ahead.length := by
  have positive : 0 < rounds := by omega
  have consuming := level_consuming positive depth
  have begins := template.begins
  have literal : templateLiteral rounds (level rounds depth) s = .ok (Part.joined parts, rest) :=
    template.templateLiteral_eq enough stops
  have shorter := (consumesAt_templateLiteral consuming positive begins _ _ literal).shorter
  have operand : Gives True (· = Part.joined parts) rest (prefixed rounds (level rounds depth) s) := by
    rw [prefixed_of_begins begins, postfixed, bind_apply, primary_of_begins begins, literal]
    dsimp only
    rw [iterate_nextSuffix_of_ends positive (endsOperand_of_endsExpression ends) (by omega)]
    exact .ok rfl
  have whole := expressionBody_of_settled ends
    (binary_of_prefixed (settled_of_endsExpression ends 0) (by omega) operand)
  obtain ⟨_, rfl, read⟩ := whole.fitting trivial
  refine ⟨?_, shorter⟩
  rw [statement_of_begins begins]
  change (expressionBody rounds (level rounds depth) s).map _ = _
  rw [read]
  rfl

/-! ## Programs -/

/-- A literal that is a statement of its own is one more statement of a program. -/
theorem TemplateAt.iterate_program (template : TemplateAt (level rounds depth) parts s rest)
    (enough : s.ahead.length < rounds) (ends : endsExpression rest.current.kind = true)
    (stops : rest.current.kind ≠ .interpolationStart) (before : List Stmt) :
    iterate (nextInProgram (level rounds (depth + 2))) rounds before s =
      iterate (nextInProgram (level rounds (depth + 2))) rounds
        (.expr (Part.joined parts) :: before) rest := by
  have consuming : (level rounds (depth + 2)).Consuming := level_consuming (by omega) _
  have stays := dropWhile_of_begins template.begins
  have more : (s.dropWhile isSeparator).current.kind ≠ .endOfText := by
    rw [stays]
    exact ne_endOfText_of_begins template.begins
  rw [iterate_unfold (asksAt_nextInProgram consuming) enough, bind_apply,
    nextInProgram_of_more before s more, stays, (template.statement enough ends stops).1]
  rfl

theorem current_of_spent (spent : s.kinds = []) : s.current.kind = .endOfText := by
  rw [TokenStream.current, List.map_eq_nil_iff.mp spent]

theorem iterate_program_of_spent (positive : 0 < rounds) (spent : s.kinds = [])
    (before : List Stmt) : ∃ t, iterate (nextInProgram inner) rounds before s = .ok (before, t) := by
  obtain ⟨fuel, rfl⟩ : ∃ fuel, rounds = fuel + 1 := ⟨rounds - 1, by omega⟩
  have ended : (s.dropWhile isSeparator).current.kind = .endOfText := by
    apply current_of_spent
    rw [TokenStream.kinds_dropWhile, spent]
    rfl
  refine ⟨s.dropWhile isSeparator, ?_⟩
  rw [iterate, bind_apply, nextInProgram_of_end before s ended]
  rfl

/-- How much may be nested in a template literal that is a statement of a program. -/
def literalNesting : Nat := 126

theorem level_maxNesting (rounds : Nat) :
    level rounds maxNesting = level rounds (literalNesting + 2) :=
  rfl

theorem kinds_ofTokens {tokens : List Token} {kinds : List TokenKind}
    (same : tokens.map Token.kind = kinds ++ [.endOfText]) :
    (TokenStream.ofTokens tokens).kinds = kinds ∧
      (TokenStream.ofTokens tokens).ahead.length < tokens.length + 1 := by
  obtain ⟨front, back, rfl, sameFront, sameBack⟩ := List.map_eq_append_iff.mp same
  obtain ⟨last, rfl, isEnd⟩ := List.map_eq_singleton_iff.mp sameBack
  have stream : TokenStream.ofTokens (front ++ [last]) = ⟨front, last.position⟩ := by
    simp [TokenStream.ofTokens, isEnd]
  have length : front.length < (front ++ [last]).length + 1 := by
    rw [List.length_append]
    omega
  rw [stream]
  exact ⟨sameFront, length⟩

/-- A text that is read as one statement and has the tokens of a template literal is this literal and
    nothing else. -/
theorem templateAt_of_parseTokens {tokens : List Token} {text : String}
    {slots : List (String × String)} {stmt : Stmt}
    (kinds : tokens.map Token.kind = Template.kinds text slots ++ [.endOfText])
    (read : parseTokens tokens = .ok ⟨[stmt]⟩) :
    ∃ parts rest, TemplateAt (level (tokens.length + 1) literalNesting) parts (.ofTokens tokens) rest ∧
      rest.kinds = [] ∧ stmt = .expr (Part.joined parts) := by
  obtain ⟨kinds, enough⟩ := kinds_ofTokens kinds
  rw [← List.append_nil (Template.kinds text slots)] at kinds
  have begins := begins_of_kinds kinds
  have stays := dropWhile_of_begins begins
  obtain ⟨t, loop⟩ := parseTokens_eq_ok_iff.mp read
  rw [level_maxNesting] at loop
  have consuming : (level (tokens.length + 1) (literalNesting + 2)).Consuming :=
    level_consuming (Nat.succ_pos _) _
  have first := loop
  rw [iterate_unfold (asksAt_nextInProgram consuming) enough] at first
  obtain ⟨_, _, first, -⟩ := bind_ok first
  rw [nextInProgram_of_more _ _ (stays.symm ▸ ne_endOfText_of_begins begins), stays] at first
  cases statement : (level (tokens.length + 1) (literalNesting + 2)).statement (.ofTokens tokens) with
  | error e =>
      rw [statement] at first
      cases first
  | ok result =>
      obtain ⟨all, mid, read⟩ := iterate_of_statement begins statement
      obtain ⟨parts, rest, template, spent⟩ := templateAt_of_kinds kinds enough read
      have ended := current_of_spent spent
      have ends : endsExpression rest.current.kind = true := by
        rw [ended]
        rfl
      have stops : rest.current.kind ≠ .interpolationStart := by
        rw [ended]
        exact TokenKind.noConfusion
      rw [template.iterate_program enough ends stops] at loop
      obtain ⟨t', whole⟩ := iterate_program_of_spent (Nat.succ_pos _) spent
        [.expr (Part.joined parts)]
      cases loop.symm.trans whole
      exact ⟨parts, rest, template, spent, rfl⟩

/-- The tokens of two literals, one behind the other, are two literals: those of which they are the
    tokens. -/
theorem templateAt_neighbours {first second whole : List Token} {text text' : String}
    {slots slots' : List (String × String)} {stmt stmt' : Stmt}
    (kinds : first.map Token.kind = Template.kinds text slots ++ [.endOfText])
    (kinds' : second.map Token.kind = Template.kinds text' slots' ++ [.endOfText])
    (all : whole.map Token.kind =
      Template.kinds text slots ++ Template.kinds text' slots' ++ [.endOfText])
    (read : parseTokens first = .ok ⟨[stmt]⟩) (read' : parseTokens second = .ok ⟨[stmt']⟩) :
    ∃ parts mid parts' rest,
      TemplateAt (level (whole.length + 1) literalNesting) parts (.ofTokens whole) mid ∧
      TemplateAt (level (whole.length + 1) literalNesting) parts' mid rest ∧
      mid.kinds = Template.kinds text' slots' ∧ rest.kinds = [] ∧
      [Stmt.expr (Part.joined parts), .expr (Part.joined parts')].map Stmt.forgetPositions =
        [stmt, stmt'].map Stmt.forgetPositions := by
  obtain ⟨parts, spot, template, spent, rfl⟩ := templateAt_of_parseTokens kinds read
  obtain ⟨parts', spot', template', spent', rfl⟩ := templateAt_of_parseTokens kinds' read'
  obtain ⟨kinds, enough⟩ := kinds_ofTokens kinds
  obtain ⟨kinds', enough'⟩ := kinds_ofTokens kinds'
  obtain ⟨all, room⟩ := kinds_ofTokens all
  let X : Extension :=
    ⟨first.length + 1, whole.length + 1, Template.kinds text' slots', Nat.succ_pos _, Nat.succ_pos _⟩
  let X' : Extension := ⟨second.length + 1, whole.length + 1, [], Nat.succ_pos _, Nat.succ_pos _⟩
  have beside : X.Extends (.ofTokens first) (.ofTokens whole) :=
    ⟨by rw [all, kinds], enough, room⟩
  obtain ⟨here, mid, literal, same, between⟩ := template.extend beside
  have midKinds : mid.kinds = Template.kinds text' slots' := by
    rw [between.kinds, spent, List.nil_append]
  have beside' : X'.Extends (.ofTokens second) mid :=
    ⟨by rw [midKinds, kinds', List.append_nil], enough', between.enough'⟩
  obtain ⟨there, rest, literal', same', behind⟩ := template'.extend beside'
  refine ⟨here, mid, there, rest, literal, literal', midKinds, ?_, ?_⟩
  · rw [behind.kinds, spent', List.nil_append]
  · simp only [List.map_cons, List.map_nil, Stmt.forgetPositions, Part.forgetPositions_joined, same,
      same']

/-- Nothing of an expression comes at the end or in front of a text. -/
theorem endsExpression_of_spent (spent : s.kinds = []) :
    endsExpression s.current.kind = true ∧ s.current.kind ≠ .interpolationStart := by
  rw [current_of_spent spent]
  exact ⟨rfl, TokenKind.noConfusion⟩

/-- A template literal and nothing else. -/
theorem parseTokens_of_template {tokens : List Token}
    (template : TemplateAt (level (tokens.length + 1) literalNesting) parts (.ofTokens tokens) rest)
    (enough : (TokenStream.ofTokens tokens).ahead.length < tokens.length + 1)
    (spent : rest.kinds = []) : parseTokens tokens = .ok ⟨[.expr (Part.joined parts)]⟩ := by
  obtain ⟨ends, stops⟩ := endsExpression_of_spent spent
  obtain ⟨t, whole⟩ := iterate_program_of_spent (Nat.succ_pos tokens.length) spent
    [.expr (Part.joined parts)]
  refine parseTokens_eq_ok_iff.mpr ⟨t, ?_⟩
  rw [level_maxNesting, template.iterate_program enough ends stops]
  exact whole

/-- Two template literals, of which the second one begins with a text. -/
theorem parseTokens_of_templates {tokens : List Token} {parts' : List Part} {words : String}
    (template : TemplateAt (level (tokens.length + 1) literalNesting) parts (.ofTokens tokens) mid)
    (template' : TemplateAt (level (tokens.length + 1) literalNesting) parts' mid rest)
    (enough : (TokenStream.ofTokens tokens).ahead.length < tokens.length + 1)
    (begins : mid.current.kind = .templateText words) (spent : rest.kinds = []) :
    parseTokens tokens = .ok ⟨[.expr (Part.joined parts), .expr (Part.joined parts')]⟩ := by
  have ends : endsExpression mid.current.kind = true := by
    rw [begins]
    rfl
  have stops : mid.current.kind ≠ .interpolationStart := by
    rw [begins]
    exact TokenKind.noConfusion
  have shorter := (template.statement enough ends stops).2
  obtain ⟨ends', stops'⟩ := endsExpression_of_spent spent
  obtain ⟨t, whole⟩ := iterate_program_of_spent (Nat.succ_pos tokens.length) spent
    [.expr (Part.joined parts'), .expr (Part.joined parts)]
  refine parseTokens_eq_ok_iff.mpr ⟨t, ?_⟩
  rw [level_maxNesting, template.iterate_program enough ends stops,
    template'.iterate_program (by omega) ends' stops']
  exact whole

end Parser

/-! ## Sources -/

/-- The source is a template literal from its first character to its last one. -/
def IsTemplate (source : String) : Prop :=
  ∃ text slots, Template.Fits text slots ∧
    source.toList = Lexeme.backtick :: Template.body text slots

/-- The tokens of a template literal that is read are those of its parts. -/
theorem Template.kinds_of_tokenize {text : List Char} {slots : List (List Char × List Char)}
    {source : String} {tokens : List Token} (fits : Fits text slots)
    (is : source.toList = Lexeme.backtick :: body text slots)
    (lexed : tokenize source = .ok tokens) :
    Lexes source.toList (kinds (Lexeme.reading text) (readings slots)) (fun _ => True) ∧
      tokens.map Token.kind = kinds (Lexeme.reading text) (readings slots) ++ [.endOfText] := by
  have lexes : Lexes source.toList (kinds (Lexeme.reading text) (readings slots)) fun _ => True := by
    rw [is]
    exact Template.lexes fits (Template.readable fits is lexed)
  obtain ⟨tokens', lexed', same⟩ := lexes.tokenize trivial
  cases lexed.symm.trans lexed'
  exact ⟨lexes, same⟩

theorem Lexes.spaced {first second : String} {kinds kinds' : List TokenKind}
    (lexes : Lexes first.toList kinds fun _ => True)
    (lexes' : Lexes second.toList kinds' fun _ => True) :
    Lexes (first ++ " " ++ second).toList (kinds ++ kinds') fun _ => True := by
  have space : Lexes [' '] [] fun _ => True := .space
  have both := (lexes.append space fun _ _ => trivial).append lexes' fun _ _ => trivial
  rwa [List.append_nil, ← show " ".toList = [' '] from rfl, ← String.toList_append,
    ← String.toList_append] at both

/-- Two template literals with a space between them are the two statements that they are on their own,
    unless the second one begins with an interpolation. -/
theorem parse_neighbours {first second : String} {e e' : Expr} (template : IsTemplate first)
    (template' : IsTemplate second) (read : parse first = .ok ⟨[.expr e]⟩)
    (read' : parse second = .ok ⟨[.expr e']⟩) :
    (∃ p, parse (first ++ " " ++ second) = .ok p ∧
      p.forgetPositions = (Program.mk [.expr e, .expr e']).forgetPositions) ↔
        ¬[Lexeme.backtick, '$', '\x7b'] <+: second.toList := by
  obtain ⟨text, slots, fits, is⟩ := template
  obtain ⟨text', slots', fits', is'⟩ := template'
  obtain ⟨tokens, lexed, parsed⟩ := Parser.parse_eq_ok_iff.mp read
  obtain ⟨tokens', lexed', parsed'⟩ := Parser.parse_eq_ok_iff.mp read'
  obtain ⟨lexes, kinds⟩ := Template.kinds_of_tokenize fits is lexed
  obtain ⟨lexes', kinds'⟩ := Template.kinds_of_tokenize fits' is' lexed'
  obtain ⟨whole, lexedBoth, all⟩ := (lexes.spaced lexes').tokenize trivial
  obtain ⟨parts, mid, parts', rest, literal, literal', midKinds, spent, same⟩ :=
    Parser.templateAt_neighbours kinds kinds' all parsed parsed'
  have room := (Parser.kinds_ofTokens all).2
  have opens := Template.opens_iff fits'
  rw [is', List.cons_prefix_cons, ← opens]
  simp only [true_and]
  constructor
  · rintro ⟨p, parsedBoth, two⟩ ⟨later, start⟩
    -- Both are one literal, so there is one statement.
    have here : mid.current.kind = .interpolationStart :=
      TokenStream.current_of_kinds (midKinds.trans start)
    have one := Parser.parseTokens_of_template (literal.append here literal') room spent
    have single := Parser.parse_eq_ok_iff.mpr ⟨whole, lexedBoth, one⟩
    cases parsedBoth.symm.trans single
    simp [Program.forgetPositions, Stmt.forgetEach] at two
  · intro noStart
    obtain ⟨k, later, starts, begins⟩ := Parser.kinds_begins (Lexeme.reading text')
      (Template.readings slots')
    obtain ⟨words, rfl⟩ | rfl := begins
    · have here : mid.current.kind = .templateText words :=
        TokenStream.current_of_kinds (midKinds.trans starts)
      have two := Parser.parseTokens_of_templates literal literal' room here spent
      refine ⟨_, Parser.parse_eq_ok_iff.mpr ⟨whole, lexedBoth, two⟩, ?_⟩
      simpa only [Program.forgetPositions, Stmt.forgetEach_eq_map, Program.mk.injEq] using same
    · exact absurd ⟨later, starts⟩ noStart

theorem exists_parse_of_typeName {source : String}
    (is : (parse source).toOption.map (·.body.map Stmt.typeName) = some ["ExpressionStatement"]) :
    ∃ e, parse source = .ok ⟨[.expr e]⟩ := by
  cases read : parse source with
  | error e => simp [read, Except.toOption] at is
  | ok p =>
      obtain ⟨body⟩ := p
      simp only [read, Except.toOption, Option.map_some, Option.some.injEq,
        List.map_eq_singleton_iff] at is
      obtain ⟨stmt, rfl, name⟩ := is
      cases stmt with
      | expr e => exact ⟨e, rfl⟩
      | _ => exact absurd name (by simp [Stmt.typeName])

/-- The second literal has an interpolation, but not in front. -/
theorem parse_neighbours_text_in_front :
    ∃ e e' p, parse "`$\x7ba\x7d`" = .ok ⟨[.expr e]⟩ ∧ parse "`b$\x7bc\x7d`" = .ok ⟨[.expr e']⟩ ∧
      parse ("`$\x7ba\x7d`" ++ " " ++ "`b$\x7bc\x7d`") = .ok p ∧
        p.forgetPositions = (Program.mk [.expr e, .expr e']).forgetPositions := by
  have template : IsTemplate "`$\x7ba\x7d`" :=
    ⟨[], [(['a'], [])], ⟨.nil, by decide, by simpa using .nil⟩, by decide⟩
  have template' : IsTemplate "`b$\x7bc\x7d`" :=
    ⟨['b'], [(['c'], [])], ⟨.plain (by decide) (by decide) .nil, by decide, by simpa using .nil⟩,
      by decide⟩
  have named : (parse "`$\x7ba\x7d`").toOption.map (·.body.map Stmt.typeName) =
      some ["ExpressionStatement"] := by decide +kernel
  have named' : (parse "`b$\x7bc\x7d`").toOption.map (·.body.map Stmt.typeName) =
      some ["ExpressionStatement"] := by decide +kernel
  obtain ⟨e, read⟩ := exists_parse_of_typeName named
  obtain ⟨e', read'⟩ := exists_parse_of_typeName named'
  obtain ⟨p, both, same⟩ := (parse_neighbours template template' read read').mpr (by decide)
  exact ⟨e, e', p, read, read', both, same⟩

/-- A literal that begins with an interpolation is taken for the rest of the literal before it. -/
theorem neighbours_run_together :
    ∃ e e', IsTemplate "`a`" ∧ IsTemplate "`$\x7bb\x7d`" ∧ parse "`a`" = .ok ⟨[.expr e]⟩ ∧
      parse "`$\x7bb\x7d`" = .ok ⟨[.expr e']⟩ ∧
        ¬∃ p, parse ("`a`" ++ " " ++ "`$\x7bb\x7d`") = .ok p ∧
          p.forgetPositions = (Program.mk [.expr e, .expr e']).forgetPositions := by
  have template : IsTemplate "`a`" :=
    ⟨['a'], [], ⟨.plain (by decide) (by decide) .nil, by simp, by simp⟩, by decide⟩
  have template' : IsTemplate "`$\x7bb\x7d`" :=
    ⟨[], [(['b'], [])], ⟨.nil, by decide, by simpa using .nil⟩, by decide⟩
  have named : (parse "`a`").toOption.map (·.body.map Stmt.typeName) =
      some ["ExpressionStatement"] := by decide +kernel
  have named' : (parse "`$\x7bb\x7d`").toOption.map (·.body.map Stmt.typeName) =
      some ["ExpressionStatement"] := by decide +kernel
  have together : (parse ("`a`" ++ " " ++ "`$\x7bb\x7d`")).toOption.map (·.body.map Stmt.typeName) =
      some ["ExpressionStatement"] := by decide +kernel
  obtain ⟨e, read⟩ := exists_parse_of_typeName named
  obtain ⟨e', read'⟩ := exists_parse_of_typeName named'
  obtain ⟨single, one⟩ := exists_parse_of_typeName together
  refine ⟨e, e', template, template', read, read', ?_⟩
  rintro ⟨p, both, same⟩
  cases both.symm.trans one
  simp [Program.forgetPositions, Stmt.forgetEach] at same

end MinangScript
