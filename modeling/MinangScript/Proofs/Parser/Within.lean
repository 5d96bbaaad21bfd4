import MinangScript.Proofs.Parser.Layers
import MinangScript.Proofs.Parser.SideBySide

/-! # Parsing stays within the tokens

A stream stands at an index of the list of all tokens, the end of the text included. However the
list looks, parsing begins at the first index, moving on never leaves the list, and every parser of
statements and expressions ends at a greater index of it or fails at one of its tokens. The bounds
that the parser sets to its loops are never reached, so it would come to an end without them.
-/

namespace MinangScript

namespace TokenStream

/-- The tokens with the end of the text behind them. If the list does not close with it, it is added
    where the last token stands. -/
def closed (tokens : List Token) : List Token :=
  match tokens.getLast? with
  | none => [⟨.endOfText, .origin⟩]
  | some t =>
    match t.kind with
    | .endOfText => tokens
    | _ => tokens ++ [⟨.endOfText, t.position⟩]

/-- The stream stands at an index of a list of tokens, of which the last one is its stop. -/
def At (tokens : List Token) (index : Nat) (s : TokenStream) : Prop :=
  tokens.drop index = s.ahead ++ [⟨.endOfText, s.stop⟩]

theorem closed_eq (tokens : List Token) :
    closed tokens = (ofTokens tokens).ahead ++ [⟨.endOfText, (ofTokens tokens).stop⟩] := by
  unfold closed ofTokens
  cases last : tokens.getLast? with
  | none => rfl
  | some t =>
      obtain ⟨before, rfl⟩ := List.getLast?_eq_some_iff.mp last
      obtain ⟨k, position⟩ := t
      cases k with
      | endOfText => simp only [List.dropLast_concat]
      | _ => rfl

theorem at_ofTokens (tokens : List Token) : At (closed tokens) 0 (ofTokens tokens) := by
  rw [At, List.drop_zero, closed_eq]

theorem length_closed_le (tokens : List Token) : (closed tokens).length ≤ tokens.length + 1 := by
  unfold closed
  split
  · simp
  · split <;> simp

variable {tokens : List Token} {index : Nat} {s s' : TokenStream}

namespace At

theorem length (here : At tokens index s) : index + s.ahead.length + 1 = tokens.length := by
  have lengths := congrArg List.length here
  simp only [List.length_drop, List.length_append, List.length_singleton] at lengths
  omega

theorem current (here : At tokens index s) : tokens[index]? = some s.current := by
  have head : (tokens.drop index)[0]? = some s.current := by
    rw [here, TokenStream.current]
    cases s.ahead <;> rfl
  rwa [List.getElem?_drop] at head

/-- What is left of the stream stands further on by the tokens that were read. -/
theorem later (here : At tokens index s) (leads : Leads s s') :
    At tokens (index + (s.ahead.length - s'.ahead.length)) s' := by
  obtain ⟨taken, all⟩ := leads.ahead
  have count : s.ahead.length - s'.ahead.length = taken.length := by
    rw [← all, List.length_append, Nat.add_sub_cancel]
  rw [At, count, ← List.drop_drop, here, ← all, leads.stop, List.append_assoc, List.drop_left]

/-- Moving on goes to the next token, but stays at the last one. -/
theorem advance (here : At tokens index s) :
    At tokens (if index + 1 < tokens.length then index + 1 else index) s.advance := by
  have later := here.later s.leads_advance
  have length := here.length
  cases all : s.ahead with
  | nil =>
      rw [all, List.length_nil] at length
      rw [TokenStream.advance, all, List.tail_nil] at later
      rw [if_neg (by omega), TokenStream.advance, all, List.tail_nil]
      exact later
  | cons t rest =>
      rw [all, List.length_cons] at length
      rw [if_pos (by omega)]
      simpa [TokenStream.advance, all] using later

end At

end TokenStream

namespace Parser

open Reader (iterate)
open TokenStream (Leads Passes At closed)

variable {α : Type}

/-- A parser that bounds the rounds of its loops, at an index of the tokens. -/
structure AdvancesAt (tokens : List Token) (index : Nat) (s : TokenStream) (p : Nat → Parser α) :
    Prop where
  /-- More rounds change nothing. -/
  bound : ∀ rounds, tokens.length < rounds → p rounds s = p (tokens.length + 1) s
  /-- After a success the stream stands further on. -/
  ok : ∀ a s', p (tokens.length + 1) s = .ok (a, s') →
    ∃ later, index < later ∧ At (closed tokens) later s'
  /-- It is one of the tokens from here on that an error is about. -/
  error : ∀ e, p (tokens.length + 1) s = .error e →
    ∃ later, index ≤ later ∧ (closed tokens)[later]? = some e.token

/-- The same tokens, read with two bounds on the rounds that are both great enough. -/
def twoBounds (tokens : List Token) (rounds : Nat) (enough : tokens.length < rounds) :
    Comparison where
  rounds := tokens.length + 1
  rounds' := rounds
  more := []
  positive := by omega
  positive' := by omega
  separates := by simp
  noBranch := by simp

theorem beside_twoBounds {tokens : List Token} {index rounds : Nat} {s : TokenStream}
    (here : At (closed tokens) index s) (enough : tokens.length < rounds) :
    (twoBounds tokens rounds enough).Beside s s := by
  have length := here.length
  have most := TokenStream.length_closed_le tokens
  have short : s.ahead.length < tokens.length + 1 := by omega
  exact
    { ahead := (List.append_nil _).symm
      stop := fun _ => rfl
      noEnd := fun goesOn => absurd rfl goesOn
      enough := short
      enough' := Nat.lt_of_lt_of_le short enough }

theorem advancesAt_of_sim {tokens : List Token} {index : Nat} {s : TokenStream}
    {p : Nat → Parser α} (here : At (closed tokens) index s)
    (sim : ∀ rounds enough,
      (twoBounds tokens rounds enough).Sim False (p (tokens.length + 1)) (p rounds))
    (consumes : ConsumesAt s (p (tokens.length + 1))) : AdvancesAt tokens index s p where
  bound := by
    intro rounds enough
    exact ((sim rounds enough s s (beside_twoBounds here enough)).same rfl).1
  ok := by
    intro a s' ran
    have passes := consumes a s' ran
    have shorter := passes.shorter
    exact ⟨_, by omega, here.later passes.toLeads⟩
  error := by
    intro e ran
    have enough := Nat.lt_succ_self tokens.length
    obtain ⟨t, leads, is⟩ := ((sim _ enough s s (beside_twoBounds here enough)).same rfl).2 e ran
    exact ⟨_, Nat.le_add_right _ _, by rw [is]; exact (here.later leads).current⟩

/-! ## Binding powers -/

/-- How many powers of operators there are from the given one on. -/
def rank (power : Nat) : Nat :=
  ([1, 3, 5, 7, 10, 20].filter (power ≤ ·)).length

theorem rank_le_powerSteps (power : Nat) : rank power ≤ powerSteps :=
  Nat.le_trans (List.length_filter_le _ _) (by decide)

theorem rank_anti {power power' : Nat} (le : power ≤ power') : rank power' ≤ rank power := by
  simp only [rank, ← List.countP_eq_length_filter]
  apply List.countP_mono_left
  intro left _ above
  simp only [decide_eq_true_eq] at above ⊢
  omega

/-- The right operand of an operator is left with fewer powers. -/
theorem rank_lt {k : TokenKind} {op : BinaryOp} {power l r : Nat}
    (is : binaryOp? k = some (op, l, r)) (enough : power ≤ l) : rank r < rank power := by
  have fewer : rank r < rank l := by
    obtain ⟨symbol, rfl⟩ := eq_symbol_of_binaryOp? is
    cases symbol <;> cases is <;> decide
  exact Nat.lt_of_lt_of_le fewer (rank_anti enough)

theorem joinRight_congr {right right' : Nat → Parser Expr} {power : Nat}
    (same : ∀ r, rank r < rank power → right r = right' r) :
    joinRight right power = joinRight right' power := by
  funext left s
  simp only [joinRight, kind_bind]
  cases is : binaryOp? s.current.kind with
  | none => rfl
  | some found =>
      obtain ⟨op, l, r⟩ := found
      by_cases low : l < power
      · simp only [low, if_true]
      · simp only [low, if_false, same r (rank_lt is (Nat.not_lt.mp low))]

theorem joinRight_of_rank_zero {right : Nat → Parser Expr} {power : Nat} (lowest : rank power = 0)
    (left : Expr) : joinRight right power left = pure (left, false) := by
  funext s
  apply joinRight_of_settled
  intro op l r is
  apply Nat.lt_of_not_le
  intro enough
  have fewer := rank_lt is enough
  omega

/-- One step more changes nothing once the steps are as many as the powers that are left. -/
theorem binary_succ {rounds : Nat} {inner : Level} (positive : 0 < rounds) {steps power : Nat}
    (enough : rank power ≤ steps) :
    binary rounds inner (steps + 1) power = binary rounds inner steps power := by
  induction steps generalizing power with
  | zero =>
      obtain ⟨rounds, rfl⟩ : ∃ n, rounds = n + 1 := ⟨rounds - 1, by omega⟩
      have lowest := Nat.le_zero.mp enough
      simp only [binary, iterate, joinRight_of_rank_zero lowest, pure_bind, Bool.false_eq_true,
        if_false, bind_pure]
  | succ steps ih =>
      rw [binary, binary, joinRight_congr]
      intro r fewer
      exact ih (by omega)

theorem binary_of_powerSteps_le {rounds : Nat} {inner : Level} (positive : 0 < rounds)
    {steps : Nat} (power : Nat) (enough : powerSteps ≤ steps) :
    binary rounds inner steps power = binary rounds inner powerSteps power := by
  induction enough with
  | refl => rfl
  | step more ih => rw [binary_succ positive (Nat.le_trans (rank_le_powerSteps power) more), ih]

/-! ## The parsers of a level -/

/-- The parsers of a level, and those that its expressions are made of, advance from an index. -/
structure Advancing (tokens : List Token) (index : Nat) (s : TokenStream) (depth : Nat) : Prop where
  statement : AdvancesAt tokens index s fun rounds => (level rounds depth).statement
  expression : AdvancesAt tokens index s fun rounds => (level rounds depth).expression
  binary (steps power : Nat) :
    AdvancesAt tokens index s fun rounds => binary rounds (level rounds depth) steps power
  primary : AdvancesAt tokens index s fun rounds => primary rounds (level rounds depth)
  template : (∃ text, s.current.kind = .templateText text) ∨ s.current.kind = .interpolationStart →
    AdvancesAt tokens index s fun rounds => templateLiteral rounds (level rounds depth)

theorem advancing {tokens : List Token} {index : Nat} {s : TokenStream}
    (here : At (closed tokens) index s) (depth : Nat) : Advancing tokens index s depth := by
  have positive := Nat.succ_pos tokens.length
  have consuming := level_consuming positive depth
  have levels := fun rounds enough => (twoBounds tokens rounds enough).levels_level depth
  constructor
  · apply advancesAt_of_sim here
    · exact fun rounds enough => (levels rounds enough).statement
    · exact consuming.statement s
  · apply advancesAt_of_sim here
    · exact fun rounds enough => (levels rounds enough).expression
    · exact consuming.expression s
  · intro steps power
    apply advancesAt_of_sim here
    · exact fun rounds enough => (levels rounds enough).sim_binary steps power
    · exact consumes_binary consuming positive steps power s
  · apply advancesAt_of_sim here
    · exact fun rounds enough => (levels rounds enough).sim_primary
    · exact consumes_primary consuming positive s
  · intro begins
    apply advancesAt_of_sim here
    · exact fun rounds enough => (levels rounds enough).sim_templateLiteral
    · exact consumesAt_templateLiteral consuming positive begins

/-! ## Whole programs -/

/-- The statements of a program are read up to an end of the text. -/
theorem ended_of_iterate {rounds : Nat} {inner : Level} (consuming : inner.Consuming)
    {before body : List Stmt} {s s' : TokenStream} (enough : s.ahead.length < rounds)
    (ran : iterate (nextInProgram inner) rounds before s = .ok (body, s')) :
    s'.current.kind = .endOfText := by
  induction n : s.ahead.length using Nat.strongRecOn generalizing before s with
  | ind n ih =>
      subst n
      rw [iterate_unfold (asksAt_nextInProgram consuming) enough] at ran
      obtain ⟨⟨next, again⟩, mid, round, rest⟩ := bind_ok ran
      cases again with
      | true =>
          have shorter := (asksAt_nextInProgram consuming before s next mid round).shorter
          exact ih _ shorter (by omega) rest rfl
      | false =>
          cases rest
          by_cases ended : (s.dropWhile isSeparator).current.kind = .endOfText
          · rw [nextInProgram_of_end _ _ ended] at round
            cases round
            exact ended
          · rw [nextInProgram_of_more _ _ ended] at round
            cases read : inner.statement (s.dropWhile isSeparator) <;>
            · rw [read] at round
              cases round

/-- The whole program, with a bound on the rounds of every loop. -/
def wholeProgram (tokens : List Token) (rounds : Nat) :
    Except SyntaxError (Program × TokenStream) :=
  program rounds (level rounds maxNesting) (.ofTokens tokens)

theorem parseTokens_eq (tokens : List Token) :
    parseTokens tokens = (wholeProgram tokens (tokens.length + 1)).map Prod.fst := by
  rw [parseTokens, StateT.run, wholeProgram]
  cases program (tokens.length + 1) (level (tokens.length + 1) maxNesting) (.ofTokens tokens) <;> rfl

/-- How the parse of all tokens ends: at an end of the text, or with an error at one of them. -/
structure EndsWithin (tokens : List Token) : Prop where
  bound : ∀ rounds, tokens.length < rounds →
    (wholeProgram tokens rounds).map Prod.fst = parseTokens tokens
  ok : ∀ program, parseTokens tokens = .ok program →
    ∃ index s, wholeProgram tokens (tokens.length + 1) = .ok (program, s) ∧
      At (closed tokens) index s ∧ s.current.kind = .endOfText
  error : ∀ e, parseTokens tokens = .error e → e.token ∈ closed tokens

theorem endsWithin (tokens : List Token) : EndsWithin tokens := by
  have start := TokenStream.at_ofTokens tokens
  have length := start.length
  have most := TokenStream.length_closed_le tokens
  have consuming := level_consuming (Nat.succ_pos tokens.length) maxNesting
  have same := fun rounds enough =>
    ((twoBounds tokens rounds enough).levels_level maxNesting).sim_program _ _
      (beside_twoBounds start enough) |>.same rfl
  constructor
  · intro rounds enough
    rw [parseTokens_eq]
    exact congrArg _ (same rounds enough).1
  · intro program parsed
    rw [parseTokens_eq] at parsed
    cases ran : wholeProgram tokens (tokens.length + 1) with
    | ok result =>
        rw [ran] at parsed
        obtain ⟨program', s⟩ := result
        cases parsed
        obtain ⟨body, mid, loop, rest⟩ := bind_ok ran
        cases rest
        have leads := forward_iterate (forward_nextInProgram consuming) _ _ _ _ _ loop
        exact ⟨_, _, rfl, start.later leads, ended_of_iterate consuming (by omega) loop⟩
    | error e =>
        rw [ran] at parsed
        cases parsed
  · intro e failed
    rw [parseTokens_eq] at failed
    cases ran : wholeProgram tokens (tokens.length + 1) with
    | ok result =>
        rw [ran] at failed
        cases failed
    | error e' =>
        rw [ran] at failed
        cases failed
        obtain ⟨t, leads, is⟩ := (same _ (Nat.lt_succ_self _)).2 e ran
        rw [is]
        exact List.mem_of_getElem? (start.later leads).current

/-! ## The result -/

/-- For every list of tokens. The stream begins at the first of them, and the last one is an end of
    the text. Wherever it stands, it is at a token, moves on to the next one but not beyond the last
    one, and advances with every statement, expression and template literal that is read. No bound on
    the rounds of a loop or on the growth of binding powers has an effect on the result. -/
theorem parsing_stays_within (tokens : List Token) :
    At (closed tokens) 0 (.ofTokens tokens) ∧
    (∃ t, (closed tokens).getLast? = some t ∧ t.kind = .endOfText) ∧
    (∀ index s, At (closed tokens) index s →
      (closed tokens)[index]? = some s.current ∧
      At (closed tokens) (if index + 1 < (closed tokens).length then index + 1 else index)
        s.advance ∧
      (∀ skip, ∃ later, index ≤ later ∧ At (closed tokens) later (s.dropWhile skip)) ∧
      ∀ depth, Advancing tokens index s depth) ∧
    (∀ rounds inner steps power, 0 < rounds → powerSteps ≤ steps →
      binary rounds inner steps power = binary rounds inner powerSteps power) ∧
    EndsWithin tokens := by
  refine ⟨TokenStream.at_ofTokens tokens, ?_, ?_, ?_, endsWithin tokens⟩
  · rw [TokenStream.closed_eq, List.getLast?_append]
    exact ⟨_, rfl, rfl⟩
  · intro index s here
    refine ⟨here.current, here.advance, fun skip => ?_, advancing here⟩
    exact ⟨_, Nat.le_add_right _ _, here.later (s.leads_dropWhile skip)⟩
  · intro rounds inner steps power positive enough
    exact binary_of_powerSteps_le positive power enough

/-- Behind an end of the text in the middle, a template literal is read up to the last one. -/
theorem parsing_stays_within_template :
    let text : Token := ⟨.templateText "halo", .origin⟩
    let tokens := [⟨.endOfText, .origin⟩, text]
    let s : TokenStream := ⟨[text], .origin⟩
    At (closed tokens) 1 s ∧ s.current.kind = .templateText "halo" ∧ 0 < 9 ∧ powerSteps ≤ 8 ∧
    AdvancesAt tokens 1 s (fun rounds => templateLiteral rounds (level rounds 5)) ∧
    (∃ parsed later, templateLiteral 3 (level 3 5) s = .ok (parsed, later) ∧
      ∃ index, 1 < index ∧ At (closed tokens) index later) ∧
    binary 9 (level 9 5) 8 0 = binary 9 (level 9 5) powerSteps 0 := by
  intro text tokens s
  have here : At (closed tokens) 1 s := rfl
  obtain ⟨-, -, anywhere, steps, -⟩ := parsing_stays_within tokens
  have advances := ((anywhere 1 s here).2.2.2 5).template (.inl ⟨"halo", rfl⟩)
  refine ⟨here, rfl, by decide, by decide, advances, ⟨_, ⟨[], .origin⟩, rfl, ?_⟩, ?_⟩
  · exact advances.ok _ _ rfl
  · exact steps 9 (level 9 5) 8 0 (by decide) (by decide)

end Parser

end MinangScript
